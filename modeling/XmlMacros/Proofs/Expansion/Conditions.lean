import XmlMacros.Proofs.Condition
import XmlMacros.Proofs.Expansion.Passing
import XmlMacros.Proofs.Substitution.Interruption

/-!
# Conditions agree with the values of expressions

A condition that is one expression is evaluated to a text, and the text is taken for true or not.
This is what the value of the expression counts as, be it a truth value or an integer of any size
(`holds_valueIn_braced`): the text of a value counts as the value does, and a value without a text
leaves the condition as it is written, which counts as true. Only an expression with a closing brace
counts as true whatever its value is, since the condition ends at the brace and stays as it is
written.

The children of a directive are kept or dropped accordingly, whatever else is reported
(`expandNode_condition`).
-/

namespace XmlMacros.Expansion

open XmlMacros.Expr XmlMacros.Markup XmlMacros.Substitution

/-! ## Conditions that are one expression -/

/-- A text that is one expression counts as true as it is written. -/
theorem holds_braced (expr : String) : holds (braced expr) = true := by
  have hchars : (braced expr).toList = '$' :: '{' :: (expr.toList ++ ['}']) := by
    simp [braced]
  have hnumber : leadingNumber? (braced expr) = none := by
    rw [leadingNumber?, hchars]
    rfl
  have hfalse : braced expr ≠ "false" := by
    intro h
    rw [h] at hchars
    exact absurd hchars (by simp)
  have hempty : braced expr ≠ "" := by
    intro h
    rw [h] at hchars
    cases hchars
  rw [holds, hnumber]
  simp [hfalse, hempty]

section
variable {ctx : Context} {expr : String} {v : Value} {b : Bool}

/-- A condition that is one expression counts as what the value of the expression does, or as true
if there is a closing brace in the expression. -/
theorem holds_valueIn_braced (hvalue : valueAlone ctx expr = .ok v) (htruth : v.truth? = some b) :
    holds (valueIn ctx (braced expr)) = (b || expr.toList.contains '}') := by
  obtain ⟨room, tokens, hroom, htokens, hvalue⟩ := exists_tokens_of_valueAlone hvalue
  have hne : tokens ≠ [] := by
    rintro rfl
    cases hvalue
  by_cases hbrace : '}' ∈ expr.toList
  · rw [valueIn_of_not_gives (htokens.not_gives_braced hbrace), holds_braced]
    simp [hbrace]
  · have hvisible : (b || expr.toList.contains '}') = b := by simp [hbrace]
    have hgives (text : String) :
        Gives ctx (braced expr) text ↔ evalToText (room + 1) tokens = .ok text := by
      rw [Gives, hroom]
      exact htokens.gives_braced_iff hne hbrace text
    have hshown := htokens.evalToText_cases hvalue
    rw [hvisible]
    cases htext : evalToText (room + 1) tokens with
    | ok text =>
      rw [valueIn_of_gives ((hgives text).2 htext)]
      rw [htext] at hshown
      rcases hshown with hwritten | ⟨x, _, rfl, ⟨⟩, hread⟩
      · exact Value.holds_of_write htruth hwritten.symm
      · exact Value.holds_of_read htruth hread
    | error cause =>
      -- Only an integer with too many digits has a value and no text.
      have hstays (text : String) : ¬ Gives ctx (braced expr) text := by
        rw [hgives, htext]
        rintro ⟨⟩
      rw [valueIn_of_not_gives hstays, holds_braced]
      rw [htext] at hshown
      rcases hshown with hwritten | ⟨_, _, -, ⟨⟩, -⟩
      exact (Value.truth_of_write_error htruth hwritten.symm).symm

end

/-! ## Directives -/

/-- How a directive with a condition ends that keeps the nodes: as their expansion ends, or early,
with the whole run, where nothing can be reported. -/
inductive Decides (env : Environment) (depth : Nat) (kept : List Node) (s : State) :
    Except Abort (List Node) × State → Prop
  | decided {s' : State} (hreported : Reported s s') :
    Decides env depth kept s (expandNodes (expandNode env depth) kept s')
  | unreportable {m : Mismatch} (hs : ¬ Reportable s) :
    Decides env depth kept s (.error (.mismatch m), s)

/-- Whatever can be reported, a text is evaluated to its value or not at all. -/
theorem evalText_ok {env : Environment} {s s' : State} {text value : String}
    (h : evalText env text s = (.ok value, s')) : value = valueIn (s.context env) text := by
  unfold evalText at h
  unfold valueIn
  split at h
  · rename_i hplain
    cases h
    rw [if_pos hplain]
  · rename_i hlive
    rw [if_neg hlive]
    rw [get_bind_apply] at h
    generalize (Substitution.evalText (s.context env) text).run Evaluation.fresh = p at h ⊢
    obtain ⟨result, evaluation⟩ := p
    obtain ⟨_, _, -, h⟩ := bind_ok h
    cases result with
    | ok value =>
      cases h
      rfl
    | error fault =>
      obtain ⟨_, _, -, h⟩ := bind_ok h
      cases h
      rfl

section
variable {env : Environment} {s : State} {e : Element} {wanted : Bool} {condition : String}
  (hvalue : e.attr? "value" = some condition)

include hvalue

/-- What a conditional does once its condition is there: it warns of other attributes, and keeps its
children if the condition is as wanted. -/
theorem keptChildren_eq : keptChildren env wanted e = do
    warnExtraAttrs e ["value"]
    return if holds (← evalText env condition) == wanted then e.children else [] := by
  rw [keptChildren, requireAttr_of_attr? hvalue, pure_bind]

/-- Where the verbosity is a number, a conditional keeps its children or drops them, and at most
reports. -/
theorem keptChildren_reportsAt (hs : Reportable s) : ReportsAt s (keptChildren env wanted e)
    (if holds (valueIn (s.context env) condition) == wanted then e.children else []) := by
  rw [keptChildren_eq hvalue]
  refine (warnExtraAttrs_reporting e ["value"] s hs).bind fun s' hs' => ?_
  have htext := evalText_reportsAt (hs'.reportable hs) env condition
  rw [hs'.quiet.context env] at htext
  exact htext.bind fun s'' _ => .pure s'' _

/-- Where the verbosity is no number, it does the same without a report, or ends because it cannot
report. -/
theorem keptChildren_of_not_reportable (hs : ¬ Reportable s) :
    keptChildren env wanted e s = (.ok
      (if holds (valueIn (s.context env) condition) == wanted then e.children else []), s) ∨
    ∃ m, keptChildren env wanted e s = (.error (.mismatch m), s) := by
  rw [keptChildren_eq hvalue]
  obtain ⟨_, hextra⟩ | ⟨m, hextra⟩ := warnExtraAttrs_muteAt hs e ["value"]
  · rw [bind_of_ok hextra]
    obtain ⟨text, htext⟩ | ⟨m, htext⟩ := evalText_muteAt hs env condition
    · rw [← evalText_ok htext, bind_of_ok htext]
      exact .inl rfl
    · exact .inr ⟨m, bind_of_error htext⟩
  · exact .inr ⟨m, bind_of_error hextra⟩

/-- A condition that has no truth value is no fault, for it counts as false. -/
theorem keptChildren_faultless : Faultless (keptChildren env wanted e) := by
  rw [keptChildren_eq hvalue]
  refine ((warnExtraAttrs_endsIn ne_fault_of_mismatch _ _).bind fun _ => ?_).faultless
  exact (evalText_endsIn ne_fault_of_mismatch env _).bind fun _ => .pure _

/-- A directive with a condition goes on with the children that are kept. -/
theorem expandNode_conditional (hmeans : classify env s e = if wanted then .whenTrue else .whenFalse)
    (depth : Nat) : expandNode env (depth + 1) e.node s =
      (keptChildren env wanted e >>= expandNodes (expandNode env depth)) s := by
  have hfaultless : Faultless (keptChildren env wanted e >>= expandNodes (expandNode env depth)) :=
    (keptChildren_faultless hvalue).bind fun _ => expandNodes_faultless env depth _
  show reportFault (perform env depth _ e (classify env s e)) s = _
  rw [hmeans, ← hfaultless.reportFault_eq]
  cases wanted <;> rfl

end

/-- A condition agrees with the value of its expression. Where the value is a truth value or an
integer, whatever its size and sign, the children of a directive are kept just if the value counts
as what is wanted, although the condition sees no more than the text: a truth value counts as what
it is and an integer as true unless it is zero. If there is a closing brace in the expression, the
condition stays as it is written, and counts as true. -/
theorem expandNode_condition (env : Environment) (depth : Nat) (s : State) (e : Element)
    (wanted : Bool) (expr : String) (v : Value) (b : Bool)
    (hmeans : classify env s e = if wanted then .whenTrue else .whenFalse)
    (hcondition : e.attr? "value" = some (braced expr))
    (hvalue : valueAlone (s.context env) expr = .ok v) (htruth : v.truth? = some b) :
    Decides env depth (if (b || expr.toList.contains '}') == wanted then e.children else []) s
      (expandNode env (depth + 1) e.node s) := by
  rw [expandNode_conditional hcondition hmeans, ← holds_valueIn_braced hvalue htruth]
  by_cases hs : Reportable s
  · have hkept : ReportsAt s (keptChildren env wanted e) _ := keptChildren_reportsAt hcondition hs
    obtain ⟨s', hrun, hreported⟩ := hkept
    rw [bind_of_ok hrun]
    exact .decided hreported
  · obtain hrun | ⟨m, hrun⟩ : keptChildren env wanted e s = _ ∨ _ :=
      keptChildren_of_not_reportable hcondition hs
    · rw [bind_of_ok hrun]
      exact .decided (Std.Refl.refl s)
    · rw [bind_of_error hrun]
      exact .unreportable hs

/-- An element with a condition that is one expression, and an empty element inside. -/
def conditional (word expr : String) : Element :=
  ⟨"xacro:" ++ word, [⟨"value", braced expr⟩], [(⟨"a", [], []⟩ : Element).node]⟩

theorem classify_conditional {env : Environment} {s : State} {word expr : String} {d : Directive}
    (hword : stripTag? ("xacro:" ++ word) = some word) (hd : Directive.ofWord? word = some d) :
    classify env s (conditional word expr) = d := by
  have htag : stripTag? (conditional word expr).tag = some word := hword
  rw [classify_of_stripTag? htag, hd]
  rfl

/-- A state in which a name is bound to a zero with a sign. -/
def signedZero : State :=
  { State.fresh true with scopes := Scopes.initial.define "n" (.text "-00") .current }

/-- What comes of a result in the end comes of a result that is there. -/
theorem exists_of_toOption_bind {ε α β : Type} {x : Except ε α} {f : α → Option β} {b : β}
    (h : x.toOption.bind f = some b) : ∃ a, x = .ok a ∧ f a = some b := by
  cases x with
  | error => cases h
  | ok a => exact ⟨a, rfl, h⟩

/-- What is wanted where an integer is zero is kept, also if the zero is written with a sign. -/
theorem expandNode_condition_signedZero :
    (∃ v, valueAlone (signedZero.context (.ofFiles true [])) "n" = .ok v ∧ v.truth? = some false) ∧
      Decides (.ofFiles true []) 7 (conditional "unless" "n").children signedZero
        (expandNode (.ofFiles true []) 8 (conditional "unless" "n").node signedZero) := by
  obtain ⟨v, hvalue, htruth⟩ : ∃ v, valueAlone (signedZero.context (.ofFiles true [])) "n" = .ok v ∧
      v.truth? = some false := exists_of_toOption_bind (by decide +kernel)
  have hmeans : classify (.ofFiles true []) signedZero (conditional "unless" "n") = .whenFalse :=
    classify_conditional (by decide) (by decide)
  exact ⟨⟨v, hvalue, htruth⟩, expandNode_condition (.ofFiles true []) 7 signedZero
    (conditional "unless" "n") false "n" v false hmeans rfl hvalue htruth⟩

/-- Closing braces cannot be left out: two quoted texts are not equal, and what is inside is kept
nevertheless, as the condition ends at the brace in the first one. -/
theorem not_expandNode_condition :
    classify (.ofFiles true []) (.fresh true) (conditional "if" "'\x7d' == 'a'") = .whenTrue ∧
      (∃ v, valueAlone ((State.fresh true).context (.ofFiles true [])) "'\x7d' == 'a'" = .ok v ∧
        v.truth? = some false) ∧
      ¬ Decides (.ofFiles true []) 7 [] (.fresh true)
        (expandNode (.ofFiles true []) 8 (conditional "if" "'\x7d' == 'a'").node
          (.fresh true)) := by
  refine ⟨classify_conditional (by decide) (by decide),
    exists_of_toOption_bind (by decide +kernel), fun h => ?_⟩
  have hkept : (expandNode (.ofFiles true []) 8 (conditional "if" "'\x7d' == 'a'").node
      (.fresh true)).1.toOption.map List.length = some 1 := by decide +kernel
  generalize expandNode (.ofFiles true []) 8 (conditional "if" "'\x7d' == 'a'").node (.fresh true) = run
    at h hkept
  cases h <;> cases hkept

end XmlMacros.Expansion
