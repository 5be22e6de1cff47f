import XmlMacros.Expansion.Document
import XmlMacros.Proofs.Run

/-!
# Steps of an expansion

What is needed of the single steps wherever expansions are reasoned about: what `bracket` and
`reportFault` do to a run, that definitions leave nothing behind (`defineProperty_nil`,
`defineMacro_nil`), and which meanings of an element do not depend on the macros that are registered
(`classify_eq_iff`).
-/

namespace XmlMacros

open XmlMacros.Markup Expansion

/-! ## Brackets and reports -/

/-- A bracketed computation runs in the state that is entered, and its state is left however
it ends. -/
theorem bracket_apply {α : Type} (enter : State → State) (leave : State → State → State) (x : M α)
    (s : State) : bracket enter leave x s = ((x (enter s)).1, leave s (x (enter s)).2) := rfl

/-- A bracketed computation has a result exactly if the computation inside has, and ends in the
state that is left. -/
theorem bracket_ok_iff {α : Type} {enter : State → State} {leave : State → State → State} {x : M α}
    {s s' : State} {a : α} : bracket enter leave x s = (.ok a, s') ↔
      ∃ t, x (enter s) = (.ok a, t) ∧ leave s t = s' := by
  rw [bracket_apply]
  constructor
  · intro h
    exact ⟨_, Prod.ext (Prod.mk.inj h).1 rfl, (Prod.mk.inj h).2⟩
  · rintro ⟨t, h, rfl⟩
    rw [h]

/-- What holds of every result of a computation holds of the results of the computation
in brackets. -/
theorem Returns.bracket {α : Type} {P : α → Prop} {enter : State → State}
    {leave : State → State → State} {x : M α} (h : Returns P x) :
    Returns P (bracket enter leave x) := by
  intro s a s' hr
  obtain ⟨t, hx, -⟩ := bracket_ok_iff.1 hr
  exact h (enter s) a t hx

/-- A directive whose fault is reported leaves nothing behind. -/
theorem Returns.reportFault {P : List Node → Prop} {x : M (List Node)} (hnil : P [])
    (hx : Returns P x) : Returns P (reportFault x) := by
  refine hx.tryCatch fun abort => ?_
  cases abort with
  | fault f => exact .bind fun _ => .pure hnil
  | unreadable | overflow | mismatch => exact .throw _

namespace Expansion

/-- Where there is no fault there is nothing to report. -/
theorem reportFault_of_ok {x : M (List Node)} {out : List Node} {s s' : State}
    (h : x s = (.ok out, s')) : reportFault x s = (.ok out, s') := by
  unfold reportFault
  rw [tryCatch_apply, h]

/-! ## Texts -/

/-- A text with nothing to evaluate is its own value. -/
theorem evalText_of_not_mem {env : Environment} {text : String} (h : '$' ∉ text.toList) :
    evalText env text = pure text := by
  unfold evalText
  rw [if_pos (by simpa using h)]

/-! ## Definitions -/

/-- A directive that defines a property leaves no nodes. -/
theorem defineProperty_nil (env : Environment) (depth : Nat) (e : Element) :
    Returns (· = []) (defineProperty env depth e) := by
  unfold defineProperty
  refine .bind fun name => .bind fun _ => .bind fun _ => .bind fun given => ?_
  exact .bind fun placement => .bind fun value => .bind fun _ => .pure rfl

/-- A directive that defines a macro leaves no nodes. -/
theorem defineMacro_nil (depth : Nat) (e : Element) : Returns (· = []) (defineMacro depth e) := by
  unfold defineMacro
  exact .bind fun name => .bind fun _ => .bind fun _ => .bind fun body => .bind fun _ => .pure rfl

/-- A directive that defines an argument leaves no nodes. -/
theorem defineArg_nil (env : Environment) (e : Element) : Returns (· = []) (defineArg env e) := by
  unfold defineArg
  exact .bind fun name => .bind fun fallback => .bind fun _ => .bind fun _ => .pure rfl

/-! ## The meaning of an element -/

/-- What an element means while no macros are registered. -/
def meaning (env : Environment) (e : Element) : Directive :=
  Directive.classify env.requirePrefix (fun _ => false) e

/-- Macros that are registered make elements calls that would be ordinary otherwise, and change the
meaning of no others. -/
theorem classify_eq_iff {env : Environment} {s : State} {e : Element} {d : Directive}
    (hinvoke : d ≠ .invoke) (hordinary : d ≠ .ordinary) :
    classify env s e = d ↔ meaning env e = d := by
  unfold classify meaning Directive.classify
  cases stripTag? e.tag with
  | some word => rfl
  | none =>
    cases env.requirePrefix with
    | true => rfl
    | false =>
      cases Directive.ofBareTag? e.tag with
      | some directive => cases directive <;> rfl
      | none =>
        cases s.macros.contains e.tag with
        | true => simp [hinvoke.symm, hordinary.symm]
        | false => rfl

/-- Elements with the start of directives' tags mean what the word behind it says. -/
theorem classify_of_stripTag? {env : Environment} {e : Element} {word : String}
    (h : stripTag? e.tag = some word) (s : State) :
    classify env s e = (Directive.ofWord? word).getD .invoke := by
  unfold classify Directive.classify
  rw [h]

/-- A tag with the prefix is never an ordinary element: a word that names no directive calls
a macro. -/
theorem getD_ofWord?_ne_ordinary (word : String) :
    (Directive.ofWord? word).getD .invoke ≠ .ordinary := by
  unfold Directive.ofWord?
  split <;> nofun

/-- The tag of an ordinary element does not start like those of directives. -/
theorem stripTag?_of_ordinary {env : Environment} {s : State} {e : Element}
    (h : classify env s e = .ordinary) : stripTag? e.tag = none := by
  cases hword : stripTag? e.tag with
  | none => rfl
  | some word =>
    rw [classify_of_stripTag? hword] at h
    exact absurd h (getD_ofWord?_ne_ordinary word)

/-- Where the prefix is required, all other elements are ordinary. -/
theorem classify_of_requirePrefix {env : Environment} {e : Element}
    (hrequired : env.requirePrefix = true) (h : stripTag? e.tag = none) (s : State) :
    classify env s e = .ordinary := by
  unfold classify Directive.classify
  rw [h, hrequired]
  rfl

/-- Which elements define something depends on their tags alone, whatever the state. -/
theorem isDefinition_eq (env : Environment) (s : State) :
    isDefinition env s = fun e => (meaning env e).isDefinition := by
  funext e
  have hproperty : classify env s e = .property ↔ meaning env e = .property :=
    classify_eq_iff nofun nofun
  have hmacro : classify env s e = .defineMacro ↔ meaning env e = .defineMacro :=
    classify_eq_iff nofun nofun
  unfold isDefinition Directive.isDefinition
  split <;> simp_all

/-! ## Documents -/

/-- The state in which a document is expanded: with scopes and a registry of its own. -/
def opened (s : State) : State :=
  { s with scopes := Scopes.initial, macros := Dict.empty }

/-- The result of an expansion is that of its parts after the root has been prepared; what is
restored afterwards is seen in the state only. -/
theorem expandDocument_fst (env : Environment) (depth : Nat) (inOrder : Bool) (d : Document)
    (s : State) :
    (expandDocument env depth inOrder d s).1 = ((do
      let root ← preparedRoot env depth inOrder d.root
      expandParts env depth { d with root := root }) (opened s)).1 := rfl

theorem expandDocument_inOrder_fst (env : Environment) (depth : Nat) (d : Document) (s : State) :
    (expandDocument env depth true d s).1 = (expandParts env depth d (opened s)).1 := rfl

/-! ## Small runs -/

/-- An environment with files, and with nothing else to read. -/
def Environment.ofFiles (requirePrefix : Bool) (files : List (String × String)) : Environment where
  requirePrefix := requirePrefix
  commands := standardCommands
  surroundings := ⟨∅, ∅, "/"⟩
  fetch path := match files.lookup path with
    | some text => .ok text
    | none => .error ⟨"no such file"⟩
  limits := .usual

/-- Only the files that an environment has are fetched. -/
theorem mem_keys_of_fetch_ofFiles {requirePrefix : Bool} {files : List (String × String)}
    {path text : String} (h : (Environment.ofFiles requirePrefix files).fetch path = .ok text) :
    path ∈ files.map Prod.fst := by
  refine (Dict.lookup_isSome_iff path files).1 ?_
  unfold Environment.ofFiles at h
  dsimp only at h
  cases hlookup : files.lookup path with
  | none => rw [hlookup] at h; cases h
  | some _ => rfl

/-- The state of a run that has not begun. -/
def State.fresh (localProperties : Bool) : State where
  scopes := Scopes.initial
  macros := Dict.empty
  files := [none]
  filename := none
  calls := []
  workingPath := .ok ""
  localProperties := localProperties
  args := Dict.empty
  includes := []
  preloaded := Dict.empty
  failed := Dict.empty
  requested := []
  console := Console.fresh

/-- The values of the attributes of the elements directly below the root. -/
def childValues (d : Document) : List String :=
  (d.root.children.filterMap Node.element?).flatMap fun e => e.attrs.map Attr.value

end Expansion

end XmlMacros
