import XmlMacros.Proofs.Substitution.Relation

/-!
# Evaluation without the guard

`evalExpr` remembers the expressions under way and fails when it meets one of them again. This
module defines the same evaluation without that guard (`evalExprFreely`): it need not end, and that
the room for it is limited is all that stops it (`Exhausted`). More room changes nothing for an
evaluation that has enough (`evalExprFreely_refines`), what it does is the same whatever was
recorded before (`evalExprFreely_steady`), and it never fails with a cycle
(`evalTextFreely_neverCyclic`).
-/

namespace XmlMacros.Substitution

open XmlMacros.Expr

/-- Evaluates an expression without looking for cycles, in so much room. -/
def evalExprFreely (ctx : Context) : Nat → String → EvalM String
  | 0, _ => throw (.exhausted none)
  | room + 1, expr =>
    located expr (computeExpr ctx (room + 1) (evalTextWith ctx (evalExprFreely ctx room)) expr)

/-- Evaluates a text without looking for cycles, in so much room. -/
def evalTextFreely (ctx : Context) (room : Nat) (text : String) : EvalM String :=
  evalTextWith ctx (evalExprFreely ctx room) text

/-- Whether an evaluation ended because there was no room left. -/
inductive Exhausted {α : Type} : Except Stop α → Prop
  | intro (place : Option String) : Exhausted (.error (.exhausted place))

/-- Without the guard the evaluation of the text ends with the result and the record. -/
def FreelyEnds (ctx : Context) (text : String) (r : Except Fault String) (e : Evaluation) : Prop :=
  ∃ n, evalTextFreely ctx n text .fresh = (r.mapError .fault, e)

/-- Without the guard no room is enough to evaluate the text: without limits, it would go on
forever. -/
def FreelyDiverges (ctx : Context) (text : String) : Prop :=
  ∀ n, Exhausted (evalTextFreely ctx n text .fresh).1

/-! ## Results -/

/-- A fault is no lack of room. -/
theorem not_exhausted_mapError_fault {α : Type} (r : Except Fault α) :
    ¬ Exhausted (r.mapError Stop.fault) := by
  cases r <;> nofun

/-- Faults are told apart as stops. -/
theorem mapError_fault_injective {α : Type} {r r' : Except Fault α}
    (h : r.mapError Stop.fault = r'.mapError Stop.fault) : r = r' := by
  cases r <;> cases r' <;> cases h <;> rfl

/-- What has enough room has a result or a fault. -/
theorem exists_mapError_fault {α : Type} {r : Except Stop α} (h : ¬ Exhausted r) :
    ∃ r' : Except Fault α, r = r'.mapError .fault := by
  rcases r with (f | place) | a
  · exact ⟨.error f, rfl⟩
  · exact absurd (.intro place) h
  · exact ⟨.ok a, rfl⟩

/-- A sequence has no room if its first part has none. -/
theorem Exhausted.bind {α β : Type} {x : EvalM α} {f : α → EvalM β} {e : Evaluation}
    (h : Exhausted (x e).1) : Exhausted ((x >>= f) e).1 := by
  generalize hr : (x e).1 = r at h
  cases h with
  | intro place =>
    rw [bind_fst_of_error hr]
    exact .intro place

/-! ## Naming the place of a fault -/

/-- Where a failure is located, its fault says which expression it is in. -/
theorem located_apply {α : Type} (expr : String) (x : EvalM α) (e : Evaluation) :
    located expr x e =
      ((x e).1.mapError (·.orSuffix ("when evaluating expression '" ++ expr ++ "'")),
        (x e).2) := by
  unfold located
  rw [tryCatch_apply]
  rcases x e with ⟨_ | _, _⟩ <;> rfl

/-- Naming the place gives an evaluation no room. -/
theorem located_exhausted_iff {α : Type} {expr : String} {x : EvalM α} {e : Evaluation} :
    Exhausted (located expr x e).1 ↔ Exhausted (x e).1 := by
  rw [located_apply]
  rcases x e with ⟨(_ | place) | _, _⟩
  · exact iff_of_false nofun nofun
  · exact iff_of_true (.intro _) (.intro _)
  · exact iff_of_false nofun nofun

/-! ## More room -/

/-- The second evaluation does what the first one does, unless that one has too little room. -/
def Refines {α : Type} (x y : EvalM α) : Prop :=
  ∀ e, ¬ Exhausted (x e).1 → y e = x e

/-- Refining goes through all steps of an evaluation, so that it is enough to look at the texts of
names. -/
theorem Refines.compatible : Compatible Refines where
  pure _ _ _ := rfl
  bind {_ _ x y f g} hxy hfg e he := by
    have hx : ¬ Exhausted (x e).1 := mt .bind he
    rw [bind_apply] at he ⊢
    rw [bind_apply, hxy e hx]
    rcases hr : x e with ⟨_ | a, e'⟩
    · rfl
    · rw [hr] at he
      exact hfg a e' he
  fault _ _ _ _ := rfl
  use _ _ _ _ := rfl
  located expr x y hxy e he := by
    rw [located_apply, located_apply, hxy e (mt located_exhausted_iff.2 he)]

variable {ctx : Context}

/-- Where room was not lacking, nothing was nested too deeply. -/
theorem ne_nestingTooDeep_of_not_exhausted {room : Nat} {tokens : List Token} {e : Evaluation}
    (h : ¬ Exhausted (valueWithin room tokens e).1) :
    evalToText room tokens ≠ .error (.arithmetic .nestingTooDeep) := by
  intro hdeep
  rw [valueWithin_of_nestingTooDeep hdeep] at h
  exact h (.intro none)

/-- Tokens that are not nested too deeply for some room are not for more of it. -/
theorem valueWithin_refines {n m : Nat} (h : n ≤ m) (tokens : List Token) :
    Refines (valueWithin n tokens) (valueWithin m tokens) := by
  intro e he
  have hn := ne_nestingTooDeep_of_not_exhausted he
  have hm := evalToText_agrees h tokens hn
  rw [valueWithin_of_ne hn, valueWithin_of_ne (hm ▸ hn), hm]

/-- More room changes nothing for an evaluation that has enough. -/
theorem evalExprFreely_refines (hctx : ctx.CommandsAcyclic) {n m : Nat} (h : n ≤ m)
    (expr : String) : Refines (evalExprFreely ctx n expr) (evalExprFreely ctx m expr) := by
  induction n generalizing m expr with
  | zero => intro e he; exact absurd (.intro none) he
  | succ n ih =>
    obtain ⟨m, rfl⟩ : ∃ k, m = k + 1 := ⟨m - 1, by omega⟩
    exact Refines.compatible.locatedExpr hctx (valueWithin_refines h)
      (fun _ _ _ expr _ => ih (Nat.le_of_succ_le_succ h) expr) expr

/-! ## What was recorded before -/

/-- The evaluation ends with `r` and uses the properties `w`, whatever was recorded before. -/
def EndsWith {α : Type} (x : EvalM α) (r : Except Stop α) (w : Array (String × Property)) : Prop :=
  ∀ e, x e = (r, { e with uses := e.uses ++ w })

/-- What the evaluation does does not depend on what was recorded before. -/
def Steady {α : Type} (x : EvalM α) : Prop :=
  ∃ r w, EndsWith x r w

/-- What is steady gives the same result wherever it starts. -/
theorem Steady.fst_eq {α : Type} {x : EvalM α} (h : Steady x) (e e' : Evaluation) :
    (x e).1 = (x e').1 := by
  obtain ⟨r, w, h⟩ := h
  rw [h e, h e']

/-- Steadiness goes through all steps as well. -/
theorem Steady.compatible : Compatible fun {α} (x _ : EvalM α) => Steady x where
  pure a := ⟨.ok a, #[], fun e => by rw [Array.append_empty]; rfl⟩
  bind {_ _ x _ f _} := by
    rintro ⟨r, w, hx⟩ hf
    cases r with
    | error stop => exact ⟨.error stop, w, fun e => bind_of_error (hx e)⟩
    | ok a =>
      obtain ⟨r, w', hfa⟩ := hf a
      refine ⟨r, w ++ w', fun e => ?_⟩
      rw [bind_of_ok (hx e), hfa, Array.append_assoc]
  fault f _ := ⟨.error (.fault f), #[], fun e => by rw [Array.append_empty]; rfl⟩
  use name value := ⟨.ok (), #[(name, value)], fun e => by
    show _ = (_, { e with uses := e.uses.append #[(name, value)] })
    rfl⟩
  located expr x _ := by
    rintro ⟨r, w, hx⟩
    have h (e : Evaluation) := located_apply expr x e
    unfold EndsWith at hx
    simp only [hx] at h
    exact ⟨_, w, h⟩

/-- To lack room does not depend on what was recorded before. -/
theorem Steady.exhausted {α : Type} (place : Option String) :
    Steady (throw (.exhausted place) : EvalM α) :=
  ⟨.error (.exhausted place), #[], fun e => by rw [Array.append_empty]; rfl⟩

/-- Without the guard an expression has the same result wherever its evaluation starts, by induction
on the room. -/
theorem evalExprFreely_steady (hctx : ctx.CommandsAcyclic) (n : Nat) (expr : String) :
    Steady (evalExprFreely ctx n expr) := by
  induction n generalizing expr with
  | zero => exact .exhausted none
  | succ n ih =>
    exact Steady.compatible.locatedExpr (g := pure) (m := n + 1) hctx
      (Steady.compatible.valueWithin (.exhausted none) (n + 1)) (fun _ _ _ expr _ => ih expr) expr

/-! ## No cycles are found -/

/-- The evaluation never fails with a cycle. -/
def NeverCyclic {α : Type} (x : EvalM α) : Prop :=
  ∀ e f, (x e).1 = .error (.fault f) → f.kind ≠ .cyclicReference

/-- If no text of a name is reported as cyclic, nothing is. -/
theorem NeverCyclic.compatible : Compatible fun {α} (x _ : EvalM α) => NeverCyclic x where
  pure _ _ _ := nofun
  bind {_ _ x _ f _} hx hf e fault h := by
    rw [bind_apply] at h
    rcases hr : x e with ⟨stop | a, e'⟩
    · rw [hr] at h
      cases h
      exact hx e fault (by rw [hr])
    · rw [hr] at h
      exact hf a e' fault h
  fault f hf e fault h := by cases h; exact hf
  use _ _ _ _ := nofun
  located expr x _ hx e fault h := by
    rw [located_apply] at h
    rcases hr : x e with ⟨(f | _) | a, e'⟩
    · rw [hr] at h
      cases h
      rw [Fault.kind_orSuffix]
      exact hx e f (by rw [hr])
    · rw [hr] at h
      cases h
    · rw [hr] at h
      cases h

/-- Without the guard no cycle is reported, if no command reports one. -/
theorem evalExprFreely_neverCyclic (hctx : ctx.CommandsAcyclic) (n : Nat) (expr : String) :
    NeverCyclic (evalExprFreely ctx n expr) := by
  induction n generalizing expr with
  | zero => intro e f h; cases h
  | succ n ih =>
    exact NeverCyclic.compatible.locatedExpr (g := pure) (m := n + 1) hctx
      (NeverCyclic.compatible.valueWithin nofun (n + 1)) (fun _ _ _ expr _ => ih expr) expr

/-- Without the guard no cycle is reported. -/
theorem evalTextFreely_neverCyclic (hctx : ctx.CommandsAcyclic) (n : Nat) (text : String) :
    NeverCyclic (evalTextFreely ctx n text) :=
  NeverCyclic.compatible.evalTextWith (g := pure) hctx
    fun expr _ => evalExprFreely_neverCyclic hctx n expr

end XmlMacros.Substitution
