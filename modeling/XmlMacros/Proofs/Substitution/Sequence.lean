import XmlMacros.Proofs.Substitution.Composition

/-!
# Evaluating texts one after the other

An evaluation starts with a record of what is under way and of what was used. Nothing that an
evaluation leaves in the record reaches the next one: whatever it ends with, it takes back every
expression that it put under way, and the uses that it adds are not looked at (`evalText_appends`).
So texts evaluated one after the other with one record give what each gives with a fresh one
(`evalEach_forgets`), also if evaluations before failed, at whatever depth, and if properties and
commands are others each time.
-/

namespace XmlMacros.Substitution

/-- Evaluates texts one after the other, each in its own context and with the record that the one
before leaves. -/
def evalEach : List (Context × String) → Evaluation → List (Except Fault String × Evaluation)
  | [], _ => []
  | (ctx, text) :: rest, e => evalText ctx text e :: evalEach rest (evalText ctx text e).2

/-- With no expression under way, an evaluation ends with none under way, and with the same result
and the same uses whatever was used before. -/
theorem evalText_appends (ctx : Context) (text : String) :
    ∃ r used, ∀ before, evalText ctx text ⟨[], before⟩ = (r, ⟨[], before ++ used⟩) := by
  obtain ⟨r, used, hends⟩ := evalTextWithin_steadyFrom ctx ctx.limits.evaluation [] text
  exact ⟨r.mapError Stop.toFault, used, fun before => by rw [evalText_apply, hends before]⟩

/-- Evaluation keeps no memory. Of texts evaluated one after the other, each in a context of its
own, with any mix of successes and failures, every one leaves no expression under way, and its
result is the one with a fresh record. -/
theorem evalEach_forgets (steps : List (Context × String)) (before : Array (String × Property)) :
    (evalEach steps ⟨[], before⟩).map (fun run => (run.1, run.2.active)) =
      steps.map fun step => ((evalText step.1 step.2 .fresh).1, []) := by
  induction steps generalizing before with
  | nil => rfl
  | cons step rest ih =>
    obtain ⟨ctx, text⟩ := step
    obtain ⟨r, used, hruns⟩ := evalText_appends ctx text
    rw [evalEach, List.map_cons, List.map_cons, hruns before, ih, Evaluation.fresh, hruns #[]]

/-- A cycle is told of, and the same text afterwards is not one if the property is another. -/
example :
    (evalEach
      [(mutualContext, "${a}"), (mutualContext, "${b / 0}"),
        ({ mutualContext with scopes := ⟨Dict.ofList [("a", .text "${b}"), ("b", .text "1")], []⟩ },
          "${a}")]
      .fresh).map (fun run => run.1.toOption) = [none, none, some "1"] := by
  decide +kernel

end XmlMacros.Substitution
