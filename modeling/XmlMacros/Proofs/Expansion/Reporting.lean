import XmlMacros.Proofs.Expansion.Quiet
import XmlMacros.Proofs.Substitution.Outcome

/-!
# Steps that succeed and report

Where the verbosity is a number, reports cannot fail. Steps that do nothing but report then succeed
and change nothing but the text on the console (`Reporting`). The evaluation of a text is one of
them: what it gives is told by what it can see of the state (`valueIn`), since a text that cannot be
evaluated is reported and stays as it is.
-/

namespace XmlMacros.Expansion

open XmlMacros.Markup

/-- The verbosity is a number. -/
def Reportable (s : State) : Prop :=
  ∃ x, s.console.verbosity = .level x

/-- Nothing but the text on the console changes. -/
def Reported (s s' : State) : Prop :=
  ∃ text, s' = { s with console := ⟨s.console.verbosity, text⟩ }

instance : Std.Refl Reported := ⟨fun s => ⟨s.console.text, rfl⟩⟩

instance : IsTrans State Reported where
  trans := by
    rintro s _ _ ⟨text, rfl⟩ ⟨text', rfl⟩
    exact ⟨text', rfl⟩

/-- Reports leave the verbosity as it is, so after them there can be more of them. -/
theorem Reported.reportable {s s' : State} (h : Reported s s') (hs : Reportable s) :
    Reportable s' := by
  obtain ⟨_, rfl⟩ := h
  exact hs

/-- What only reports writes nothing that the expansion goes on with. -/
theorem Reported.quiet {s s' : State} (h : Reported s s') : Quiet s s' := by
  obtain ⟨text, rfl⟩ := h
  exact ⟨_, rfl⟩

/-- In this state the computation gives the value, and does nothing but report. -/
def ReportsAt {α : Type} (s : State) (x : M α) (a : α) : Prop :=
  ∃ s', x s = (.ok a, s') ∧ Reported s s'

/-- Wherever the verbosity is a number, the computation gives the value and does nothing but
report. -/
def Reporting {α : Type} (x : M α) (a : α) : Prop :=
  ∀ s, Reportable s → ReportsAt s x a

section
variable {α β : Type} {s : State} {x : M α} {a : α} {b : β}

/-- What does nothing gives its value, with an empty report. -/
theorem ReportsAt.pure (s : State) (a : α) : ReportsAt s (Pure.pure a) a :=
  ⟨s, rfl, Std.Refl.refl s⟩

/-- Two steps in a row only report if the second one does so wherever the first may have
left off. -/
theorem ReportsAt.bind {f : α → M β} (hx : ReportsAt s x a)
    (hf : ∀ s', Reported s s' → ReportsAt s' (f a) b) : ReportsAt s (x >>= f) b := by
  obtain ⟨s₁, hrun, hs₁⟩ := hx
  obtain ⟨s₂, hrun', hs₂⟩ := hf s₁ hs₁
  exact ⟨s₂, (bind_of_ok hrun).trans hrun', IsTrans.trans _ _ _ hs₁ hs₂⟩

/-- A step that begins with a look at the state only reports if it does for the state as it is. -/
theorem ReportsAt.get_bind {f : State → M α} (h : ReportsAt s (f s) a) :
    ReportsAt s (get >>= f) a :=
  h

namespace Reporting

theorem pure (a : α) : Reporting (Pure.pure a) a :=
  fun s _ => .pure s a

/-- The second step may count on the verbosity still being a number, as the first one
only reports. -/
theorem bind {f : α → M β} (hx : Reporting x a) (hf : Reporting (f a) b) :
    Reporting (x >>= f) b :=
  fun s hs => (hx s hs).bind fun s' hs' => hf s' (hs'.reportable hs)

end Reporting

end

/-! ## Diagnostics -/

/-- A message is the one thing that can fail here, and it does so only where the verbosity cannot be
compared. -/
theorem say_reporting (channel : Channel) (message : String) :
    Reporting (say channel message) () := by
  rintro s ⟨x, hx⟩
  obtain ⟨text, hrun⟩ := say_of_level hx channel message
  exact ⟨_, hrun, text, by rw [hx]⟩

theorem warn_reporting (message : String) : Reporting (warn message) () := by
  refine (say_reporting .warning message).bind fun s ⟨x, hx⟩ => ?_
  obtain ⟨above, habove⟩ : ∃ above, s.console.verbosity.isAbove 1 = .ok above := by
    rw [hx]
    cases x <;> exact ⟨_, rfl⟩
  unfold ReportsAt
  rw [get_bind_apply, habove]
  cases above with
  | true => exact ⟨_, rfl, _, rfl⟩
  | false => exact ⟨_, rfl, Std.Refl.refl s⟩

/-- Properties are logged where they are defined, whatever they are and however deep in
the document. -/
theorem logProperty_reporting (action : String) (depth : Nat) (name : String) (value : Property) :
    Reporting (logProperty action depth name value) () :=
  say_reporting _ _

/-- So are the uses of properties, one after the other. -/
theorem logUses_reporting (depth : Nat) (uses : List (String × Property)) :
    Reporting (logUses depth uses) () := by
  induction uses with
  | nil => exact .pure ()
  | cons use rest ih => exact (logProperty_reporting _ _ _ _).bind ih

/-- Attributes that a directive does not have are reported, and ignored otherwise. -/
theorem warnExtraAttrs_reporting (e : Element) (allowed : List String) :
    Reporting (warnExtraAttrs e allowed) () := by
  unfold warnExtraAttrs
  split
  · exact say_reporting _ _
  · exact .pure ()

/-- A name that no expression can refer to is reported, and may be defined all the same. -/
theorem warnUnreferable_reporting (name : String) : Reporting (warnUnreferable name) () := by
  unfold warnUnreferable
  split
  · exact .pure ()
  · exact warn_reporting _

theorem warnKeyword_reporting (name : String) : Reporting (warnKeyword name) () := by
  unfold warnKeyword
  split
  · exact warn_reporting _
  · exact .pure ()

theorem warnNameSpace_reporting (name : Option String) : Reporting (warnNameSpace name) () := by
  cases name with
  | none => exact .pure ()
  | some name => exact warn_reporting _

/-- Arguments for parameters that a macro does not have are reported, and the call goes on. -/
theorem warnUnknownParams_reporting (m : Macro) (names : List String) :
    Reporting (warnUnknownParams m names) () := by
  induction names with
  | nil => exact .pure ()
  | cons name rest ih => exact (warn_reporting _).bind ih

/-- Where a word says that a property is written. Words that say nothing count as none. -/
def writtenPlacement (word : Option String) : Placement :=
  (word.bind Placement.ofWord?).getD .current

/-- A scope that there is none of is reported, and taken for the one that properties have if nothing
is said. -/
theorem placementOf_reporting (name : String) (word : Option String) :
    Reporting (placementOf name word) (writtenPlacement word) := by
  unfold writtenPlacement
  cases word with
  | none => exact .pure _
  | some word =>
    rw [placementOf, Option.bind_some]
    cases Placement.ofWord? word with
    | some placement => exact .pure _
    | none => exact (warn_reporting _).bind (.pure _)

/-- Where a property is written in a state. -/
def placementIn (s : State) (word : Option String) : Placement :=
  if s.localProperties then writtenPlacement word else .global

/-- The scope of a property is told by the word for it and by whether properties are local in the
state. -/
theorem placementFor_reportsAt {s : State} (hs : Reportable s) (name : String)
    (word : Option String) : ReportsAt s (placementFor name word) (placementIn s word) := by
  refine (placementOf_reporting name word s hs).bind ?_
  rintro _ ⟨text, rfl⟩
  exact .pure _ _

/-- A parameter is bound and its value logged, and nothing else. -/
theorem bindParam_reporting (name : String) (value : Property) (table : Table) :
    Reporting (bindParam name value table) (table.insert name value) := by
  intro s hs
  refine .get_bind ?_
  exact (logProperty_reporting _ _ _ _ s hs).bind fun s' _ => .pure s' _

/-! ## Texts -/

/-- What a text evaluates to. One that cannot be evaluated stays as it is. -/
def valueIn (ctx : Substitution.Context) (text : String) : String :=
  if !text.toList.contains '$' then text
  else
    match ((Substitution.evalText ctx text).run Substitution.Evaluation.fresh).1 with
    | .ok value => value
    | .error _ => text

/-- A text evaluates to what can be told from its context, where the verbosity is a number: a
failure is reported, and the text kept. -/
theorem evalText_reportsAt {s : State} (hs : Reportable s) (env : Environment) (text : String) :
    ReportsAt s (evalText env text) (valueIn (s.context env) text) := by
  unfold evalText valueIn
  by_cases h : !text.toList.contains '$'
  · rw [if_pos h, if_pos h]
    exact .pure s text
  · rw [if_neg h, if_neg h]
    refine .get_bind ?_
    generalize (Substitution.evalText (s.context env) text).run Substitution.Evaluation.fresh = p
    obtain ⟨result, evaluation⟩ := p
    refine (logUses_reporting _ _ s hs).bind fun s' hs' => ?_
    cases result with
    | ok value => exact .pure s' value
    | error fault =>
      exact (warn_reporting _ s' (hs'.reportable hs)).bind fun s'' _ => .pure s'' text

section
variable {ctx ctx' : Substitution.Context} {text : String}

/-- Where nothing is to be evaluated the text stays as it is. -/
theorem valueIn_of_not_mem (h : '$' ∉ text.toList) : valueIn ctx text = text := by
  unfold valueIn
  rw [if_pos (by simpa using h)]

/-- What evaluates to a value is replaced by it. -/
theorem valueIn_of_gives {value : String} (h : Substitution.Gives ctx text value) :
    valueIn ctx text = value := by
  by_cases hmem : '$' ∈ text.toList
  · unfold valueIn
    rw [if_neg (by simpa using hmem)]
    have hrun : ((Substitution.evalText ctx text).run Substitution.Evaluation.fresh).1 = .ok value :=
      (Substitution.evalText_ok_iff ctx).2 h
    rw [hrun]
  · rw [valueIn_of_not_mem hmem, (Substitution.GivesWithin.of_not_mem (n := 0) hmem).unique h]

/-- What cannot be evaluated stays as it is. -/
theorem valueIn_of_not_gives (h : ∀ value, ¬ Substitution.Gives ctx text value) :
    valueIn ctx text = text := by
  unfold valueIn
  split
  · rfl
  · split
    · rename_i hrun
      exact absurd ((Substitution.evalText_ok_iff ctx).1 hrun) (h _)
    · rfl

/-- A text has the same value in two contexts if it evaluates to the same in them. -/
theorem valueIn_congr (h : ∀ value, Substitution.Gives ctx text value ↔
    Substitution.Gives ctx' text value) : valueIn ctx' text = valueIn ctx text := by
  by_cases hgives : ∃ value, Substitution.Gives ctx text value
  · obtain ⟨value, hvalue⟩ := hgives
    rw [valueIn_of_gives hvalue, valueIn_of_gives ((h value).1 hvalue)]
  · rw [valueIn_of_not_gives fun value hvalue => hgives ⟨value, hvalue⟩,
      valueIn_of_not_gives fun value hvalue => hgives ⟨value, (h value).2 hvalue⟩]

end

/-- What a text evaluates to does not depend on what was reported. -/
theorem Quiet.context {s s' : State} (h : Quiet s s') (env : Environment) :
    s'.context env = s.context env := by
  obtain ⟨_, rfl⟩ := h
  rfl

end XmlMacros.Expansion
