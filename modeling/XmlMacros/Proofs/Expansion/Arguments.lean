import XmlMacros.Proofs.Expansion.Completion
import XmlMacros.Proofs.Expansion.Output
import XmlMacros.Proofs.Substitution.Outcome

/-!
# Substitution arguments are written once

The directive of a substitution argument gives a value to an argument that has none, and leaves
every other one as it is (`defineArg_writes`). Nothing else writes to the arguments, and no file and
no call that is left takes a value back. So an argument that has a value, from the configuration or
from a directive, keeps it for the rest of the run (`args_written_once`), in whatever order the
document is processed and however its parts end.
-/

namespace XmlMacros

open XmlMacros.Markup

namespace Expansion

/-- Arguments that have a value keep it. -/
def ArgsKept (s s' : State) : Prop :=
  ∀ name value, s.args.get? name = some value → s'.args.get? name = some value

instance : Std.Refl ArgsKept := ⟨fun _ _ _ => id⟩

instance : IsTrans State ArgsKept := ⟨fun _ _ _ h h' name value hs => h' name value
    (h name value hs)⟩

/-- The same arguments are kept arguments. -/
theorem ArgsKept.of_eq {s s' : State} (h : s'.args = s.args) : ArgsKept s s' := by
  intro name value hs
  rwa [h]

/-- A value is only written where there is none. -/
theorem ArgsKept.insert {s : State} {name value : String} (h : s.args.get? name = none) :
    ArgsKept s { s with args := s.args.insert name value } := by
  intro other value' hs
  have hne : other ≠ name := by
    rintro rfl
    cases h.symm.trans hs
  show (s.args.insert name value).get? other = some value'
  rwa [Dict.get?_insert, if_neg hne]

theorem ArgsKept.accruing (env : Environment) : Accruing env ArgsKept where
  sameBooks h := .of_eq h.args
  booked h := .of_eq h.args
  arg e s := by
    rcases defineArg_writes env e s with hquiet | ⟨name, value, hname, hquiet⟩
    · exact .of_eq hquiet.sameBooks.args
    · exact IsTrans.trans _ _ _ (.insert hname) (.of_eq hquiet.sameBooks.args)

/-- The command of every run that gives the value of an argument. -/
theorem answers_arg_iff {env : Environment} (h : env.commands.get? "arg" = some .arg) (t : State)
    (name value : String) :
    (t.context env).Answers "arg" [name] value ↔ t.args.get? name = some value := by
  have hcall {answer : Option String} (hget : (t.context env).view.args.get? name = answer) :
      Command.arg.call (t.context env).view [name] =
        answer.elim (.error (.other ("Undefined substitution argument " ++ name))) .ok := by
    simp only [Command.call, hget]
    cases answer <;> rfl
  constructor
  · rintro ⟨command, hcommand, hanswer⟩
    cases h.symm.trans hcommand
    cases hget : t.args.get? name with
    | none => rw [hcall hget] at hanswer; cases hanswer
    | some found => rw [hcall hget] at hanswer; cases hanswer; rfl
  · intro hget
    exact ⟨.arg, h, hcall hget⟩

end Expansion

open Expansion

/-- Substitution arguments are written once. In a run with any configuration, commands and files,
the arguments of the configuration have its values at every moment and at the end, and every
argument that has a value at a moment has it at the end; so at all moments at which the command for
an argument of every run answers, it gives the same text. Between the two, values are kept within
every part of a run: from its start to each of its moments, and from each of these to its end, in
whatever way it ends. -/
theorem args_written_once [Limits] (c : Config) (custom : Commands) (surroundings : Surroundings)
    (fetch : String → Except FetchFailure String) (filename : Option String) (console : Console)
    (depth : Nat) (inOrder : Bool) (d : Document) :
    let env := c.environment custom surroundings fetch
    let s := c.start filename console
    let done := (expandDocument env depth inOrder d s).2
    (∀ name value, c.mappings.get? name = some value → done.args.get? name = some value) ∧
    (∀ t, Moment env (.document depth inOrder d) s t →
      (∀ name value, c.mappings.get? name = some value → t.args.get? name = some value) ∧
        ArgsKept t done) ∧
    (∀ t t' name value value', Moment env (.document depth inOrder d) s t →
      Moment env (.document depth inOrder d) s t' → env.commands.get? "arg" = some .arg →
      (t.context env).Answers "arg" [name] value → (t'.context env).Answers "arg" [name] value' →
        value' = value) ∧
    ∀ task u, ArgsKept u (task.after env u) ∧
      ∀ t, Moment env task u t → ArgsKept u t ∧ ArgsKept t (task.after env u) := by
  intro env s done
  have hkept := ArgsKept.accruing env
  refine ⟨hkept.start_end (.document depth inOrder d) s,
    fun t ht => ⟨hkept.start_moment ht, hkept.moment_end ht⟩, ?_,
    fun task u => ⟨hkept.start_end task u, fun t ht => ⟨hkept.start_moment ht, hkept.moment_end ht⟩⟩⟩
  intro t t' name value value' ht ht' hdefault hanswer hanswer'
  rw [answers_arg_iff hdefault] at hanswer hanswer'
  have hvalue := hkept.moment_end ht name value hanswer
  have hvalue' := hkept.moment_end ht' name value' hanswer'
  exact Option.some.inj (hvalue'.symm.trans hvalue)

/-! ### An argument with two directives -/

/-- The directive of an argument. -/
def argument (name fallback : String) : Element :=
  ⟨"xacro:arg", [⟨"name", name⟩, ⟨"default", fallback⟩], []⟩

/-- A document with two directives for one argument, and one for an argument of
the configuration. -/
def argumentsDocument : Document where
  before := []
  root := ⟨"r", [], [(argument "a" "2").node, (argument "b" "3").node, .text "$(arg b)",
    (argument "b" "4").node, .text "$(arg b)"]⟩
  after := []

/-- A configuration with one substitution argument. -/
def argumentsConfig : Config :=
  { Config.standard with mappings := Dict.ofList [("a", "1")] }

/-- Two directives for one argument: the value of the first stays, and so does that of the
configuration for another. -/
theorem args_written_once_twice :
    letI := Limits.usual
    let env := argumentsConfig.environment ∅ ⟨∅, ∅, "/"⟩ (fun _ => .error ⟨"no such file"⟩)
    let s := argumentsConfig.start none .fresh
    let done := (expandDocument env 9 true argumentsDocument s).2
    env.commands.get? "arg" = some .arg ∧ done.args.get? "a" = some "1" ∧
      ∃ t t', Moment env (.document 9 true argumentsDocument) s t ∧
        Moment env (.document 9 true argumentsDocument) s t' ∧
        (t.context env).Answers "arg" ["b"] "3" ∧ done.args.get? "b" = some "3" ∧
        ∀ value, (t'.context env).Answers "arg" ["b"] value → value = "3" := by
  let _ := Limits.usual
  intro env s done
  let next (n : Node) (u : State) : State := (expandNode env 9 n u).2
  have hrun (n : Node) (u : State) (h : (expandNode env 9 n u).1.toOption.isSome) :
      ∃ out, expandNode env 9 n u = (.ok out, next n u) := exists_ok h
  let first := next (argument "a" "2").node (opened s)
  let t := next (argument "b" "3").node first
  let later := next (.text "$(arg b)") t
  let t' := next (argument "b" "4").node later
  obtain ⟨_, h₁⟩ := hrun (argument "a" "2").node (opened s) (by decide)
  obtain ⟨_, h₂⟩ := hrun (argument "b" "3").node first (by decide)
  obtain ⟨_, h₃⟩ := hrun (.text "$(arg b)") t (by decide +kernel)
  obtain ⟨_, h₄⟩ := hrun (argument "b" "4").node later (by decide +kernel)
  have ht : Moment env (.document 9 true argumentsDocument) s t :=
    .inRoot rfl rfl rfl (.later h₁ (.later h₂ (.own (Std.Refl.refl t))))
  have ht' : Moment env (.document 9 true argumentsDocument) s t' :=
    .inRoot rfl rfl rfl (.later h₁ (.later h₂ (.later h₃ (.later h₄ (.own (Std.Refl.refl t'))))))
  have hdefault : env.commands.get? "arg" = some .arg := by rfl
  have hgiven : t.args.get? "b" = some "3" := by decide
  have hanswer := (answers_arg_iff hdefault t "b" "3").2 hgiven
  obtain ⟨hmappings, hmoments, hagree, -⟩ := args_written_once argumentsConfig ∅ ⟨∅, ∅, "/"⟩
    (fun _ => .error ⟨"no such file"⟩) none .fresh 9 true argumentsDocument
  exact ⟨hdefault, hmappings "a" "1" rfl, t, t', ht, ht', hanswer, (hmoments t ht).2 "b" "3" hgiven,
    fun value hvalue => hagree t t' "b" "3" value ht ht' hdefault hanswer hvalue⟩

end XmlMacros
