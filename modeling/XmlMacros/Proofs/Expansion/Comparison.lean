import XmlMacros.Proofs.Expansion.Parallel
import XmlMacros.Proofs.Expansion.Visit
import Mathlib.Data.List.Forall2

/-!
# How two expansions compare

Two expansions may differ in the nodes they expand, in what properties hold, and in what they know
of files, and still do the same step by step. A `Comparison` says how these things are related; the
relation between the states follows (`Comparison.States`): corresponding scopes, macros that are
alike, the same substitution arguments, and reports that cannot fail. What was reported, asked for
and recorded so far may differ.
-/

namespace XmlMacros

open XmlMacros.Markup

/-! ## Related nodes -/

/-- The nodes correspond to each other in order: elements that make a pair, with corresponding
children, and equal nodes otherwise. An element may also stand for the nodes of which it is the
splice. -/
inductive Corresponding (pair : Element → Element → Prop) (splice : Element → List Node → Prop) :
    List Node → List Node → Prop
  | nil : Corresponding pair splice [] []
  | leaf {n : Node} {rest rest' : List Node} (hleaf : n.element? = none)
    (hrest : Corresponding pair splice rest rest') :
    Corresponding pair splice (n :: rest) (n :: rest')
  | element {tag tag' : String} {attrs attrs' : List Attr} {children children' : List Node}
    {rest rest' : List Node} (hpair : pair ⟨tag, attrs, children⟩ ⟨tag', attrs', children'⟩)
    (hchildren : Corresponding pair splice children children')
    (hrest : Corresponding pair splice rest rest') :
    Corresponding pair splice (.element tag attrs children :: rest)
      (.element tag' attrs' children' :: rest')
  | splice {tag : String} {attrs : List Attr} {children content rest rest' : List Node}
    (hsplice : splice ⟨tag, attrs, children⟩ content)
    (hrest : Corresponding pair splice rest rest') :
    Corresponding pair splice (.element tag attrs children :: rest) (content ++ rest')

namespace Corresponding

variable {pair : Element → Element → Prop} {splice : Element → List Node → Prop}
  {ns ns' ms ms' : List Node}

/-- Nodes that correspond in a narrower sense correspond in a wider one. -/
theorem mono {pair' : Element → Element → Prop} {splice' : Element → List Node → Prop}
    (h : Corresponding pair splice ns ns') (hpair : ∀ {e e'}, pair e e' → pair' e e')
    (hsplice : ∀ {e content}, splice e content → splice' e content) :
    Corresponding pair' splice' ns ns' := by
  induction h with
  | nil => exact .nil
  | leaf hleaf _ ih => exact .leaf hleaf ih
  | element h _ _ ihchildren ih => exact .element (hpair h) ihchildren ih
  | splice h _ ih => exact .splice (hsplice h) ih

/-- Nodes correspond to themselves if every element makes a pair with itself. -/
theorem refl (h : ∀ e, pair e e) : ∀ ns, Corresponding pair splice ns ns
  | [] => .nil
  | .element _ _ children :: rest => .element (h _) (refl h children) (refl h rest)
  | .text _ :: rest | .cdata _ :: rest | .comment _ :: rest | .instruction _ _ :: rest =>
    .leaf rfl (refl h rest)

/-- Nodes that correspond, and others behind them, correspond together. -/
theorem append (h : Corresponding pair splice ns ns') (h' : Corresponding pair splice ms ms') :
    Corresponding pair splice (ns ++ ms) (ns' ++ ms') := by
  induction h with
  | nil => exact h'
  | leaf hleaf _ ih => exact .leaf hleaf ih
  | element hpair hchildren _ _ ih => exact .element hpair hchildren ih
  | splice hsplice _ ih =>
    rw [List.append_assoc]
    exact .splice hsplice ih

end Corresponding

/-- Properties of the same sort: texts that are related, or blocks that are. -/
inductive Property.Alike (texts : String → String → Prop)
    (blocks : List Node → List Node → Prop) : Property → Property → Prop
  | text {x y : String} (h : texts x y) : Property.Alike texts blocks (.text x) (.text y)
  | block {ns ns' : List Node} (h : blocks ns ns') :
    Property.Alike texts blocks (.block ns) (.block ns')

section
variable {texts : String → String → Prop} {blocks : List Node → List Node → Prop}
  {v v' : Option Property}

/-- Properties are alike in any weaker way. -/
theorem Property.Alike.mono {texts' : String → String → Prop}
    {blocks' : List Node → List Node → Prop} (h : Option.Rel (Property.Alike texts blocks) v v')
    (htexts : ∀ x y, texts x y → texts' x y)
    (hblocks : ∀ ns ns', blocks ns ns' → blocks' ns ns') :
    Option.Rel (Property.Alike texts' blocks') v v' := by
  cases h with
  | none => exact .none
  | some h =>
    cases h with
    | text h => exact .some (.text (htexts _ _ h))
    | block h => exact .some (.block (hblocks _ _ h))

/-- Properties of the same sort are so whatever their texts are. -/
theorem Property.Alike.weaken (h : Option.Rel (Property.Alike texts blocks) v v') :
    Option.Rel (Property.Alike (fun _ _ => True) blocks) v v' :=
  mono h (fun _ _ _ => trivial) fun _ _ => id

/-- What a text is like is a text. -/
theorem Property.Alike.exists_right (h : Option.Rel (Property.Alike texts blocks) v v') {x : String}
    (hv : v = some (.text x)) : ∃ y, v' = some (.text y) ∧ texts x y := by
  cases h with
  | none => cases hv
  | some h =>
    cases h with
    | text h =>
      cases hv
      exact ⟨_, rfl, h⟩
    | block => cases hv

/-- What is like a text is a text. -/
theorem Property.Alike.exists_left (h : Option.Rel (Property.Alike texts blocks) v v') {y : String}
    (hv' : v' = some (.text y)) : ∃ x, v = some (.text x) ∧ texts x y := by
  cases h with
  | none => cases hv'
  | some h =>
    cases h with
    | text h =>
      cases hv'
      exact ⟨_, rfl, h⟩
    | block => cases hv'

end

/-- Where nodes correspond to themselves properties do. -/
theorem Property.Alike.refl {blocks : List Node → List Node → Prop} (h : ∀ ns, blocks ns ns) :
    ∀ v : Option Property, Option.Rel (Property.Alike Eq blocks) v v
  | none => .none
  | some (.text _) => .some (.text rfl)
  | some (.block ns) => .some (.block (h ns))

/-- Properties with equal texts are the same text or none. -/
theorem Property.Alike.text_iff {blocks : List Node → List Node → Prop} {v v' : Option Property}
    (h : Option.Rel (Property.Alike Eq blocks) v v') {x : String} :
    v = some (.text x) ↔ v' = some (.text x) := by
  cases h with
  | none => exact Iff.rfl
  | some h =>
    cases h with
    | text h => rw [h]
    | block => exact ⟨nofun, nofun⟩

namespace Expansion

/-! ## What an expansion stands on -/

/-- What an expansion knows beside its scopes and macros: of files and substitution arguments,
whether properties are local, and the global scope. -/
structure Footing where
  files : FileStack
  filename : Option String
  workingPath : Except Mismatch String
  localProperties : Bool
  args : Dict String
  preloaded : Dict Preloaded
  failed : Dict FetchFailure
  global : Table

def State.footing (s : State) : Footing :=
  ⟨s.files, s.filename, s.workingPath, s.localProperties, s.args, s.preloaded, s.failed,
    s.scopes.global⟩

/-- A call is entered on the footing of its caller. -/
theorem enterCall_footing (m : Macro) (table : Table) (s : State) :
    (enterCall m table s).footing = s.footing := by
  unfold State.footing enterCall Scopes.global Scopes.push
  rw [List.getLastD_cons]

/-- The footing within a file. -/
def Footing.enterFile (path : String) (a : Footing) : Footing :=
  { a with
    files := some path :: a.files
    filename := some path
    workingPath := .ok (IncludePath.base path) }

/-- The footing after a file, given those before it and within it. -/
def Footing.leaveFile (before within : Footing) : Footing :=
  { within with
    files := before.files
    filename := before.files.head?.join
    workingPath := before.workingPath }

/-- The footing with a substitution argument that has a value. -/
def Footing.insertArg (name value : String) (a : Footing) : Footing :=
  { a with args := a.args.insert name value }

/-- The footing with a property that is global. -/
def Footing.define (name : String) (value : Property) (a : Footing) : Footing :=
  { a with global := a.global.insert name value }

/-! ## Comparisons -/

/-- How two expansions compare. -/
structure Comparison where
  /-- Which of them may overflow where the other one does not. -/
  overflows₁ : Prop
  overflows₂ : Prop
  /-- How deeply directives may be nested in both, where the second one may have nodes in the place
  of a splice -/
  deep : Nat → Nat → Prop
  /-- and where it has none. -/
  flat : Nat → Nat → Prop
  pair : Element → Element → Prop
  splice : Element → List Node → Prop
  tables : Table → Table → Prop
  footing : Footing → Footing → Prop
  /-- The names that the parameters of macros may have. -/
  param : String → Prop
  /-- The texts that may be evaluated, with what their evaluation can see in the first one. -/
  text : Substitution.Context → String → Prop
  /-- The names of files that may be included. -/
  file : String → Prop

namespace Comparison

variable (c : Comparison)

/-- Corresponding nodes of both expansions. -/
def Nodes : List Node → List Node → Prop :=
  Corresponding c.pair c.splice

/-- The nodes correspond to themselves, and nothing in them is a splice. -/
def Plain (ns : List Node) : Prop :=
  Corresponding c.pair (fun _ _ => False) ns ns

/-- Both expansions give the same nodes. -/
def Output (out out' : List Node) : Prop :=
  out' = out ∧ c.Plain out

/-- Macros that do the same. -/
structure Macros (m m' : Macro) : Prop where
  name : m'.name = m.name
  params : m'.params = m.params
  body : c.Nodes m.body m'.body
  allowed : ∀ name ∈ m.params.keys, c.param name

/-- Corresponding states of both expansions. -/
structure States (s t : State) : Prop where
  scopes : List.Forall₂ c.tables s.scopes.tables t.scopes.tables
  macros : ∀ name, Option.Rel c.Macros (s.macros.get? name) (t.macros.get? name)
  args : t.args = s.args
  reportable₁ : Reportable s
  reportable₂ : Reportable t
  footing : c.footing s.footing t.footing

/-- Both expansions do the same. -/
def pairing : Pairing :=
  ⟨c.States, c.overflows₁, c.overflows₂⟩

variable {c} {s t : State}

/-- Plain nodes correspond to themselves. -/
theorem Plain.nodes {ns : List Node} (h : c.Plain ns) : c.Nodes ns ns :=
  h.mono id nofun

/-- The first of plain nodes is a node other than an element, or an element that makes a pair with
itself and has plain children; the others are plain. -/
theorem Plain.uncons {n : Node} {rest : List Node} (h : c.Plain (n :: rest)) :
    (∀ tag attrs children, n = .element tag attrs children →
      c.pair ⟨tag, attrs, children⟩ ⟨tag, attrs, children⟩ ∧ c.Plain children) ∧
      c.Plain rest := by
  have hcons : ∀ {ns ns'}, Corresponding c.pair (fun _ _ => False) ns ns' → ns = n :: rest →
      ns' = n :: rest → (∀ tag attrs children, n = .element tag attrs children →
        c.pair ⟨tag, attrs, children⟩ ⟨tag, attrs, children⟩ ∧ c.Plain children) ∧
        c.Plain rest := by
    intro ns ns' h hns hns'
    cases h with
    | nil => cases hns
    | leaf hleaf hrest =>
      cases hns
      cases hns'
      refine ⟨?_, hrest⟩
      rintro tag attrs children rfl
      cases hleaf
    | element hpair hchildren hrest =>
      cases hns
      cases hns'
      refine ⟨?_, hrest⟩
      rintro tag attrs children ⟨⟩
      exact ⟨hpair, hchildren⟩
    | splice hsplice _ => exact hsplice.elim
  exact hcons h rfl rfl

/-- The first of plain nodes is plain. -/
theorem Plain.head {n : Node} {rest : List Node} (h : c.Plain (n :: rest)) : c.Plain [n] := by
  cases n with
  | element tag attrs children =>
    obtain ⟨hpair, hchildren⟩ := h.uncons.1 tag attrs children rfl
    exact .element hpair hchildren .nil
  | text | cdata | comment | instruction => exact .leaf rfl .nil

/-- The children of a plain element are plain. -/
theorem Plain.children {e : Element} (h : c.Plain [e.node]) : c.Plain e.children :=
  (h.uncons.1 e.tag e.attrs e.children rfl).2

/-- And so is each element among plain nodes. -/
theorem Plain.of_mem {ns : List Node} (h : c.Plain ns) {e : Element}
    (he : e ∈ ns.filterMap Node.element?) : c.Plain [e.node] := by
  induction ns with
  | nil => cases he
  | cons n rest ih =>
    rw [List.filterMap_cons] at he
    cases n with
    | element tag attrs children =>
      rcases List.mem_cons.1 he with rfl | he
      · exact h.head
      · exact ih h.uncons.2 he
    | text | cdata | comment | instruction => exact ih h.uncons.2 he

/-- Outputs that correspond do so one behind the other. -/
theorem Output.append {out out' more more' : List Node} (h : c.Output out out')
    (hmore : c.Output more more') : c.Output (out ++ more) (out' ++ more') := by
  obtain ⟨rfl, hplain⟩ := h
  obtain ⟨rfl, hplain'⟩ := hmore
  exact ⟨rfl, Corresponding.append hplain hplain'⟩

/-- The same macros are registered in both states. -/
theorem States.contains (h : c.States s t) (name : String) :
    t.macros.contains name = s.macros.contains name := by
  have hmacros := h.macros name
  unfold Dict.contains
  generalize s.macros.get? name = m at hmacros ⊢
  generalize t.macros.get? name = m' at hmacros ⊢
  cases hmacros <;> rfl

/-- Their current scopes correspond. -/
theorem States.current (h : c.States s t) : c.tables s.scopes.current t.scopes.current := by
  cases h.scopes with
  | cons h _ => exact h

/-- And so many scopes are there in one as in the other. -/
theorem States.depth (h : c.States s t) : t.scopes.depth = s.scopes.depth := by
  cases h.scopes with
  | cons _ h => exact h.length_eq.symm

/-- Lists that are related element by element end in elements that are. -/
theorem forall₂_getLastD {α : Type} {R : α → α → Prop} {l l' : List α} {a a' : α}
    (h : List.Forall₂ R l l') (ha : R a a') : R (l.getLastD a) (l'.getLastD a') := by
  induction h generalizing a a' with
  | nil => exact ha
  | cons hx _ ih =>
    rw [List.getLastD_cons, List.getLastD_cons]
    exact ih hx

/-- And they stay related where their last elements are changed alike. -/
theorem forall₂_modifyLast {α : Type} {R : α → α → Prop} {f g : α → α} {l l' : List α}
    (h : List.Forall₂ R l l') (hfg : ∀ {a a'}, R a a' → R (f a) (g a')) :
    List.Forall₂ R (Scopes.modifyLast f l) (Scopes.modifyLast g l') := by
  induction h with
  | nil => exact .nil
  | cons hx hrest ih =>
    cases hrest with
    | nil => exact .cons (hfg hx) .nil
    | cons => exact .cons hx ih

/-- What is written in corresponding scopes to the same place keeps them corresponding. -/
theorem forall₂_define {R : Table → Table → Prop} {a b : Scopes} {name : String}
    {value value' : Property} (h : List.Forall₂ R a.tables b.tables)
    (hinsert : ∀ {table table'}, R table table' →
      R (table.insert name value) (table'.insert name value')) (placement : Placement) :
    List.Forall₂ R (a.define name value placement).tables
      (b.define name value' placement).tables := by
  obtain ⟨current, enclosing⟩ := a
  obtain ⟨current', enclosing'⟩ := b
  cases h with
  | cons hcurrent henclosing =>
    cases henclosing with
    | nil => cases placement <;> exact .cons (hinsert hcurrent) .nil
    | cons hnext hrest =>
      cases placement with
      | current => exact .cons (hinsert hcurrent) (.cons hnext hrest)
      | parent => exact .cons hcurrent (.cons (hinsert hnext) hrest)
      | global => exact .cons hcurrent (forall₂_modifyLast (.cons hnext hrest) hinsert)

/-- Scopes stay related where the innermost ones are left. -/
theorem forall₂_pop {R : Table → Table → Prop} {a b : Scopes}
    (h : List.Forall₂ R a.tables b.tables) : List.Forall₂ R a.pop.tables b.pop.tables := by
  obtain ⟨current, enclosing⟩ := a
  obtain ⟨current', enclosing'⟩ := b
  cases h with
  | cons hcurrent henclosing =>
    cases henclosing with
    | nil => exact .cons hcurrent .nil
    | cons hnext hrest => exact .cons hnext hrest

/-- The global scopes correspond. -/
theorem States.global (h : c.States s t) : c.tables s.scopes.global t.scopes.global := by
  cases h.scopes with
  | cons h hrest => exact forall₂_getLastD hrest h

/-- What a name stands for in corresponding scopes. -/
theorem States.lookup? (h : c.States s t) {R : Property → Property → Prop} {name : String}
    (hR : ∀ {table table'}, c.tables table table' →
      Option.Rel R (table.get? name) (table'.get? name)) :
    Option.Rel R (s.scopes.lookup? name) (t.scopes.lookup? name) := by
  have hcurrent := hR h.current
  have hglobal := hR h.global
  unfold Scopes.lookup?
  generalize s.scopes.current.get? name = v at hcurrent ⊢
  generalize t.scopes.current.get? name = v' at hcurrent ⊢
  cases hcurrent with
  | some hv => exact .some hv
  | none => exact hglobal

/-- Reports change nothing that is compared. -/
theorem States.reported {s' t' : State} (h : c.States s t) (hs : Reported s s')
    (ht : Reported t t') : c.States s' t' := by
  have hreportable₁ := hs.reportable h.reportable₁
  have hreportable₂ := ht.reportable h.reportable₂
  obtain ⟨_, rfl⟩ := hs
  obtain ⟨_, rfl⟩ := ht
  exact ⟨h.scopes, h.macros, h.args, hreportable₁, hreportable₂, h.footing⟩

/-- Calls that are entered with tables that correspond lead to states that do. -/
theorem States.enterCall (h : c.States s t) {m m' : Macro} {table table' : Table}
    (htables : c.tables table table') :
    c.States (enterCall m table s) (Expansion.enterCall m' table' t) where
  scopes := .cons htables h.scopes
  macros := h.macros
  args := h.args
  reportable₁ := h.reportable₁
  reportable₂ := h.reportable₂
  footing := by
    rw [enterCall_footing, enterCall_footing]
    exact h.footing

/-- An argument is written in both, on footings that allow for it. -/
theorem States.insertArg (h : c.States s t) {name value : String}
    (hfooting : c.footing (s.footing.insertArg name value) (t.footing.insertArg name value)) :
    c.States { s with args := s.args.insert name value }
      { t with args := t.args.insert name value } where
  scopes := h.scopes
  macros := h.macros
  args := congrArg (·.insert name value) h.args
  reportable₁ := h.reportable₁
  reportable₂ := h.reportable₂
  footing := hfooting

/-! ## Steps -/

section
variable {α β γ δ : Type} {V : α → β → Prop} {W : γ → δ → Prop} {x : M α} {y : M β} {a : α} {b : β}

/-- Steps that only report correspond if what they give does. -/
theorem States.reports (h : c.States s t) (hx : ReportsAt s x a) (hy : ReportsAt t y b)
    (hvalue : V a b) : Parallel c.pairing V s t x y := by
  obtain ⟨s', hrun, hs⟩ := hx
  obtain ⟨t', hrun', ht⟩ := hy
  exact .of_ok hrun hrun' hvalue (h.reported hs ht)

/-- Steps that report may come first. -/
theorem States.bind_reports {f : α → M γ} {g : β → M δ} (h : c.States s t)
    (hx : ReportsAt s x a) (hy : ReportsAt t y b)
    (hfg : ∀ s' t', x s = (.ok a, s') → Reported s s' → c.States s' t' →
      Parallel c.pairing W s' t' (f a) (g b)) : Parallel c.pairing W s t (x >>= f) (y >>= g) := by
  obtain ⟨s', hrun, hs⟩ := hx
  obtain ⟨t', hrun', ht⟩ := hy
  unfold Parallel
  rw [bind_of_ok hrun, bind_of_ok hrun']
  exact hfg s' t' hrun hs (h.reported hs ht)

/-- Texts with the same value are evaluated, and both go on with it. -/
theorem States.bind_value {env₁ env₂ : Environment} {text text' : String} {f : String → M γ}
    {g : String → M δ} (h : c.States s t)
    (hvalue : valueIn (t.context env₂) text' = valueIn (s.context env₁) text)
    (hfg : ∀ s' t', evalText env₁ text s = (.ok (valueIn (s.context env₁) text), s') →
      Reported s s' → c.States s' t' →
      Parallel c.pairing W s' t' (f (valueIn (s.context env₁) text))
        (g (valueIn (s.context env₁) text))) :
    Parallel c.pairing W s t (evalText env₁ text >>= f) (evalText env₂ text' >>= g) := by
  refine h.bind_reports (evalText_reportsAt h.reportable₁ env₁ text)
    (evalText_reportsAt h.reportable₂ env₂ text') fun s' t' hrun hs hst' => ?_
  rw [hvalue]
  exact hfg s' t' hrun hs hst'

/-- The last thing is to evaluate a text. -/
theorem States.map_value {env₁ env₂ : Environment} {text text' : String} {f : String → γ}
    {g : String → δ} (h : c.States s t)
    (hvalue : valueIn (t.context env₂) text' = valueIn (s.context env₁) text)
    (hfg : ∀ value, W (f value) (g value)) :
    Parallel c.pairing W s t (f <$> evalText env₁ text) (g <$> evalText env₂ text') := by
  rw [← bind_pure_comp, ← bind_pure_comp]
  exact h.bind_value hvalue fun s' t' _ _ hst' => .pure (hfg _) hst'

/-- Warnings may differ in their words. -/
theorem States.warn (h : c.States s t) (m m' : String) :
    Parallel c.pairing Eq s t (warn m) (Expansion.warn m') :=
  h.reports (warn_reporting m s h.reportable₁) (warn_reporting m' t h.reportable₂) rfl

/-- Faults are reported in both. -/
theorem States.reportFault {x y : M (List Node)} (h : Parallel c.pairing c.Output s t x y) :
    Parallel c.pairing c.Output s t (reportFault x) (Expansion.reportFault y) :=
  h.reportFault ⟨rfl, .nil⟩ fun _ _ m m' hstates => States.warn hstates m m'

/-- An attribute that must be there is there in both or in none. -/
theorem States.requireAttr {e e' : Element} (h : c.States s t) (hattrs : e'.attrs = e.attrs)
    (name : String) {f : String → M γ} {g : String → M δ}
    (hfg : ∀ value, e.attr? name = some value → Parallel c.pairing W s t (f value) (g value)) :
    Parallel c.pairing W s t (requireAttr e name >>= f) (requireAttr e' name >>= g) := by
  have hattr : e'.attr? name = e.attr? name := by
    unfold Element.attr?
    rw [hattrs]
  unfold Expansion.requireAttr Element.requireAttr
  rw [hattr]
  cases hvalue : e.attr? name with
  | none => exact Parallel.fault (p := c.pairing) h
  | some value => exact hfg value hvalue

end

end Comparison

end Expansion

end XmlMacros
