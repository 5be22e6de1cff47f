import XmlMacros.Dict
import XmlMacros.Text.Blank

/-!
# Macro parameters

The parameters of a macro are written as one text: names with white space between them, each
perhaps with stars that say its kind, a mark for forwarding and a default. `Spec.read?` takes the
first parameter off such a text, `readParams` reads all of them.
-/

namespace XmlMacros

open XmlMacros.Text

/-- What a parameter is bound to: a text, one element, or the content of a named element. -/
inductive ParamKind
  | scalar
  | block
  | multiBlock
deriving DecidableEq, Repr

/-- A parameter of a macro. -/
structure Param where
  kind : ParamKind
  /-- The text it is bound to if a call does not give it. -/
  fallback : Option String
  /-- Whether the caller's property of the same name comes before the default. -/
  forward : Bool
deriving DecidableEq, Repr

/-- The first parameter of a list as it is written: its name with the stars, whether it forwards
and its default if it has such an assignment, and the rest of the list. -/
structure Param.Spec where
  name : List Char
  source : Option (Bool × Option (List Char))
  rest : List Char
deriving DecidableEq, Repr

namespace Param

/-- Whether a name goes on with the character. -/
def isSpecName (c : Char) : Bool :=
  !(isBlank c || c == ':' || c == '=')

/-- Reads a default: characters other than white space and quotes, and texts in single quotes. It
ends before white space or with the text; a double quote outside of single quotes, and a single
quote that is not closed, are refused. The first argument says whether a quote is open. -/
def scanDefault? : Bool → List Char → Option (List Char × List Char)
  | false, [] => some ([], [])
  | true, [] => none
  | true, c :: cs => (scanDefault? (c != '\'') cs).map fun (d, rest) => (c :: d, rest)
  | false, c :: cs =>
    if isBlank c then some ([], c :: cs)
    else if c == '"' then none
    else (scanDefault? (c == '\'') cs).map fun (d, rest) => (c :: d, rest)

/-- Takes the mark for forwarding off a text. -/
def scanForward : List Char → Bool × List Char
  | '^' :: '|' :: cs => (true, cs)
  | '^' :: cs => (true, cs)
  | cs => (false, cs)

/-- Takes the sign of an assignment off a text. -/
def scanAssign? : List Char → Option (List Char)
  | ':' :: '=' :: cs => some cs
  | '=' :: cs => some cs
  | _ => none

/-- Reads a parameter with an assignment at the start of a list. -/
def Spec.readAssigned? (cs : List Char) : Option Spec :=
  let cs := dropBlanks cs
  let name := cs.takeWhile isSpecName
  if name.isEmpty then none
  else do
    let cs ← scanAssign? (cs.dropWhile isSpecName)
    let (forward, cs) := scanForward cs
    let (fallback, cs) ← scanDefault? false cs
    return ⟨name, some (forward, if fallback.isEmpty then none else some fallback), dropBlanks cs⟩

/-- Reads the first parameter of a list: one with an assignment, or else the first word. A blank
list has none. -/
def Spec.read? (cs : List Char) : Option Spec :=
  match Spec.readAssigned? cs with
  | some spec => some spec
  | none => (firstWord? cs).map fun (word, rest) => ⟨word, none, rest⟩

/-- The default without the single quotes around it. -/
def unquote (cs : List Char) : List Char :=
  if 1 < cs.length && cs.head? == some '\'' && cs.getLast? == some '\'' then cs.tail.dropLast
  else cs

/-- The name of a parameter and what it says. -/
def ofSpec (spec : Spec) : String × Param :=
  let (kind, name) : ParamKind × List Char := match spec.name with
    | '*' :: '*' :: name => (.multiBlock, name)
    | '*' :: name => (.block, name)
    | name => (.scalar, name)
  let (forward, fallback) := spec.source.getD (false, none)
  (String.ofList name,
    { kind := kind
      fallback := fallback.map fun d => String.ofList (unquote d)
      forward := forward })

/-- A default may be empty, so scanning it need not take anything. -/
theorem scanDefault?_length_le {inside : Bool} {cs d rest : List Char}
    (h : scanDefault? inside cs = some (d, rest)) : rest.length ≤ cs.length := by
  induction cs generalizing inside d rest with
  | nil => cases inside <;> simp_all [scanDefault?]
  | cons c cs ih =>
    have step {open' : Bool} {d rest : List Char}
        (h : (scanDefault? open' cs).map (fun (d, rest) => (c :: d, rest)) = some (d, rest)) :
        rest.length ≤ (c :: cs).length := by
      obtain ⟨⟨d', rest'⟩, hd, heq⟩ := Option.map_eq_some_iff.1 h
      simp only [Prod.mk.injEq] at heq
      rw [← heq.2]
      exact Nat.le_succ_of_le (ih hd)
    cases inside with
    | true => rw [scanDefault?] at h; exact step h
    | false =>
      rw [scanDefault?] at h
      split at h
      · simp only [Option.some.injEq, Prod.mk.injEq] at h
        exact h.2 ▸ Nat.le_refl _
      · split at h
        · simp at h
        · exact step h

/-- Nor need the mark of a forwarded parameter be there. -/
theorem scanForward_length_le (cs : List Char) : (scanForward cs).2.length ≤ cs.length := by
  fun_cases scanForward cs <;> simp only [List.length_cons] <;> omega

/-- The sign before a default takes at least one character, which is why scanning
parameters ends. -/
theorem scanAssign?_length_lt {cs rest : List Char} (h : scanAssign? cs = some rest) :
    rest.length < cs.length := by
  revert h
  fun_cases scanAssign? cs <;> intro h <;> cases h <;> simp only [List.length_cons] <;> omega

/-- Reading a parameter leaves a shorter list. -/
theorem Spec.length_rest_lt {cs : List Char} {spec : Spec} (h : Spec.read? cs = some spec) :
    spec.rest.length < cs.length := by
  unfold Spec.read? at h
  split at h
  · rename_i spec' hs
    simp only [Option.some.injEq] at h
    subst h
    unfold Spec.readAssigned? at hs
    dsimp only at hs
    split at hs
    · cases hs
    simp only [Option.bind_eq_bind, Option.bind_eq_some_iff, Option.pure_def,
      Option.some.injEq] at hs
    obtain ⟨afterSign, hsign, ⟨fallback, left⟩, hdef, rfl⟩ := hs
    have h₁ := scanDefault?_length_le hdef
    have h₂ := scanForward_length_le afterSign
    have h₃ := scanAssign?_length_lt hsign
    have h₄ := ((dropBlanks cs).dropWhile_sublist isSpecName).length_le
    have h₅ := (cs.dropWhile_sublist isBlank).length_le
    have h₆ := (left.dropWhile_sublist isBlank).length_le
    simp only [dropBlanks] at *
    omega
  · obtain ⟨⟨word, rest⟩, hw, rfl⟩ := Option.map_eq_some_iff.1 h
    exact length_lt_of_firstWord? hw

/-- The parameters of a list as they are written. -/
def specs (cs : List Char) : List Spec :=
  match _h : Spec.read? cs with
  | none => []
  | some spec => spec :: specs spec.rest
termination_by cs.length
decreasing_by exact Spec.length_rest_lt _h

end Param

/-- The parameters of a macro. A name that is written twice keeps its first place and its last
meaning. -/
def readParams (text : String) : Dict Param :=
  Dict.ofList ((Param.specs text.toList).map Param.ofSpec)

end XmlMacros
