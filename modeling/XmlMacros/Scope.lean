import XmlMacros.Dict
import XmlMacros.Markup.Node
import XmlMacros.Text.Quoted

/-!
# Properties and scopes

A property is a text, which is evaluated where it is used, or a block of nodes. The scopes that
are alive form a stack: the scope of the innermost macro call is on top and the global scope at
the bottom. A new scope starts as a copy of the one it is made from. Looking up a name only
consults the current and the global scope (`Scopes.lookup?`); writing changes one scope of the
stack and no other, so the depth stays (`Scopes.depth_define`).
-/

namespace XmlMacros

open XmlMacros.Markup

/-- The value of a property. -/
inductive Property
  | text (s : String)
  | block (nodes : List Node)
deriving Repr

instance : Inhabited Property := ⟨.text ""⟩

/-- The bindings of one scope. -/
abbrev Table := Dict Property

/-- Where a property is written. -/
inductive Placement
  | current
  | parent
  | global
deriving DecidableEq, Repr

/-- The placement that a word stands for. -/
def Placement.ofWord? : String → Option Placement
  | "local" => some .current
  | "parent" => some .parent
  | "global" => some .global
  | _ => none

/-- There is only one word for the scope of the caller. -/
theorem Placement.eq_of_ofWord?_eq_parent {word : String}
    (h : Placement.ofWord? word = some .parent) : word = "parent" := by
  unfold Placement.ofWord? at h
  split at h
  · cases h
  · rfl
  · cases h
  · cases h

/-- The scopes that are alive: the current one, and those it is nested in, the global one last. -/
structure Scopes where
  current : Table
  enclosing : List Table
deriving Inhabited

namespace Scopes

/-- The bindings every run starts with. -/
def initialTable : Table :=
  Dict.ofList [("True", .text "1"), ("False", .text "0")]

/-- The scopes at the start of a run: the global one alone. -/
def initial : Scopes := ⟨initialTable, []⟩

/-- All scopes, the current one first. -/
def tables (s : Scopes) : List Table :=
  s.current :: s.enclosing

/-- The number of scopes around the current one. -/
def depth (s : Scopes) : Nat :=
  s.enclosing.length

/-- The global scope. -/
def global (s : Scopes) : Table :=
  s.enclosing.getLastD s.current

/-- The scope that the current one was made from. The global scope is its own. -/
def parent (s : Scopes) : Table :=
  s.enclosing.headD s.current

/-- The value of a name: that of the current scope or else that of the global one. -/
def lookup? (s : Scopes) (name : String) : Option Property :=
  match s.current.get? name with
  | some value => some value
  | none => s.global.get? name

/-- Whether a name has a value. -/
def contains (s : Scopes) (name : String) : Bool :=
  (s.lookup? name).isSome

/-- Opens a new scope, which starts as a copy of the current one. -/
def push (s : Scopes) : Scopes :=
  ⟨s.current, s.current :: s.enclosing⟩

/-- Leaves the current scope. The global one stays. -/
def pop (s : Scopes) : Scopes :=
  match s.enclosing with
  | [] => s
  | t :: rest => ⟨t, rest⟩

/-- Applies a function to the last element of a list. -/
def modifyLast (f : α → α) : List α → List α
  | [] => []
  | [a] => [f a]
  | a :: b :: rest => a :: modifyLast f (b :: rest)

/-- The scopes with the one at a placement changed. -/
def modifyAt (s : Scopes) (placement : Placement) (f : Table → Table) : Scopes :=
  match placement, s.enclosing with
  | .current, _ => { s with current := f s.current }
  | _, [] => { s with current := f s.current }
  | .parent, t :: rest => { s with enclosing := f t :: rest }
  | .global, t :: rest => { s with enclosing := modifyLast f (t :: rest) }

/-- Writes a property at a placement. -/
def define (s : Scopes) (name : String) (value : Property) (placement : Placement) : Scopes :=
  s.modifyAt placement (·.insert name value)

/-- The number of scopes around the one at a placement. -/
def depthAt (s : Scopes) : Placement → Nat
  | .current => s.depth
  | .parent => s.depth - 1
  | .global => 0

/-- The last element is replaced by one. -/
theorem length_modifyLast (f : α → α) (l : List α) : (modifyLast f l).length = l.length := by
  fun_induction modifyLast f l <;> simp_all

/-- A definition changes the entries of scopes and not their number. -/
@[simp] theorem depth_define (s : Scopes) (name : String) (value : Property)
    (placement : Placement) : (s.define name value placement).depth = s.depth := by
  unfold define modifyAt depth
  split <;> simp_all [length_modifyLast]

/-- Writing to the current scope changes what one name is looked up as. -/
theorem lookup?_define_current (s : Scopes) (name other : String) (value : Property) :
    (s.define name value .current).lookup? other =
      if other = name then some value else s.lookup? other := by
  obtain ⟨current, enclosing⟩ := s
  have hinsert : (current.insert name value).get? other =
      if other = name then some value else current.get? other := Dict.get?_insert ..
  show Scopes.lookup? ⟨current.insert name value, enclosing⟩ other = _
  unfold Scopes.lookup?
  rw [hinsert]
  by_cases hname : other = name
  · rw [if_pos hname, if_pos hname]
  · rw [if_neg hname, if_neg hname]
    cases enclosing with
    | nil =>
      have hglobal : Scopes.global ⟨current.insert name value, []⟩ = current.insert name value := rfl
      rw [hglobal, hinsert, if_neg hname]
      rfl
    | cons => rfl

end Scopes

/-! ## How properties are shown -/

/-- The start of a text in quotes, with a mark if there is more of it. -/
def excerpt (data : String) : String :=
  let cs := data.toList
  Text.quoted (String.ofList (cs.take 10)) ++ (if 10 < cs.length then "..." else "")

/-- A node as it is shown in the log. -/
def Markup.Node.describe : Node → String
  | .element tag _ _ => "<DOM Element: " ++ tag ++ " at 0x0>"
  | .text data => "<DOM Text node \"" ++ excerpt data ++ "\">"
  | .cdata data => "<DOM CDATASection node \"" ++ excerpt data ++ "\">"
  | .comment data => "<DOM Comment node \"" ++ excerpt data ++ "\">"
  | .instruction _ _ => "<xml.dom.minidom.ProcessingInstruction object at 0x0>"

/-- A block as it is shown in the log. -/
def describeNodes (nodes : List Node) : String :=
  "[" ++ ", ".intercalate (nodes.map Node.describe) ++ "]"

/-- A property as it is shown in the log. -/
def Property.describe : Property → String
  | .text s => s
  | .block nodes => describeNodes nodes

/-- A scope with its bindings in order, texts in quotes. -/
def describeTable (t : Table) : String :=
  let entry : String × Property → String
    | (name, .text s) => Text.quoted name ++ ": " ++ Text.quoted s
    | (name, .block nodes) => Text.quoted name ++ ": " ++ describeNodes nodes
  "\x7b" ++ ", ".intercalate (t.entries.map entry) ++ "\x7d"

/-- All scopes, the current one first, each followed by the one it was made from. -/
def Scopes.describe (s : Scopes) : String :=
  "\n  parent: ".intercalate (s.tables.map describeTable)

end XmlMacros
