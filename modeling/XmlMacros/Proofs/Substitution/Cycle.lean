import XmlMacros.Proofs.Substitution.Free
import Mathlib.Data.List.Nodup
import Mathlib.Order.Nat

/-!
# Cycles are found exactly

An expression that is met again while its evaluation is under way would be evaluated forever. This
module proves that evaluations always end (`evalTextWithin_ends`), that it fails with a cycle if and
only if the evaluation without the guard does not end, and that both do the same whenever that one
ends (`evalText_decides_termination`).

An evaluation ends because the expressions under way are different and all stand in the text or in a
property that can be looked up: more room than these have characters is enough (`ampleRoom`). The
guard strikes no evaluation that would end: the room an expression needs without the guard is larger
than that of every expression met on the way, so none is met again (`evalExpr_follows`).
-/

namespace XmlMacros.Substitution

open XmlMacros.Expr

variable {ctx : Context}

/-! ## Runs of the guard -/

/-- An expression that is under way is a cycle. -/
theorem evalExpr_of_mem {room : Nat} {expr : String} {e : Evaluation} (h : expr ∈ e.active) :
    evalExpr ctx (room + 1) expr e =
      (.error (.fault { cause := .cyclicReference (e.active ++ [expr]) }), e) := by
  rw [evalExpr, get_bind_apply, if_pos h]
  rfl

/-- An expression that is not under way is computed with it under way. -/
theorem evalExpr_of_not_mem {room : Nat} {expr : String} {e : Evaluation} (h : expr ∉ e.active) :
    evalExpr ctx (room + 1) expr e =
      whileActive expr
        (located expr (computeExpr ctx (room + 1) (evalTextWith ctx (evalExpr ctx room)) expr)) e := by
  rw [evalExpr, get_bind_apply, if_neg h]

theorem whileActive_active {α : Type} (expr : String) (x : EvalM α) (e : Evaluation) :
    (whileActive expr x e).2.active
      = (x { e with active := e.active ++ [expr] }).2.active.dropLast := rfl

/-- More room changes nothing for a guarded evaluation that has enough. -/
theorem evalExpr_refines (hctx : ctx.CommandsAcyclic) {n m : Nat} (h : n ≤ m) (expr : String) :
    Refines (evalExpr ctx n expr) (evalExpr ctx m expr) := by
  induction n generalizing m expr with
  | zero => intro e he; exact absurd (.intro none) he
  | succ n ih =>
    obtain ⟨m, rfl⟩ : ∃ k, m = k + 1 := ⟨m - 1, by omega⟩
    intro e he
    by_cases hmem : expr ∈ e.active
    · rw [evalExpr_of_mem hmem, evalExpr_of_mem hmem]
    · rw [evalExpr_of_not_mem hmem] at he ⊢
      rw [evalExpr_of_not_mem hmem]
      have hinner := Refines.compatible.locatedExpr hctx (valueWithin_refines h)
        (fun _ _ _ expr _ => ih (Nat.le_of_succ_le_succ h) expr) expr
      unfold whileActive
      rw [hinner _ he]

theorem evalTextWithin_refines (hctx : ctx.CommandsAcyclic) {n m : Nat} (h : n ≤ m)
    (text : String) : Refines (evalTextWithin ctx n text) (evalTextWithin ctx m text) :=
  Refines.compatible.evalTextWith hctx fun expr _ => evalExpr_refines hctx h expr

/-! ## Guarded evaluations end -/

/-- The expressions in the texts of a scope. -/
def expressionsOfTable (t : Table) : List String :=
  t.entries.flatMap fun
    | (_, .text s) => expressionsOf s
    | (_, .block _) => []

/-- The expressions that can be met when a text is evaluated. -/
def expressionsMet (scopes : Scopes) (text : String) : List String :=
  expressionsOf text ++ expressionsOfTable scopes.current ++ expressionsOfTable scopes.global

/-- The number of characters in the texts of a scope. -/
def charactersOfTable (t : Table) : Nat :=
  (t.entries.map fun
    | (_, .text s) => s.toList.length
    | (_, .block _) => 0).sum

/-- The number of characters in a text and in the properties that can be looked up. There is ample
room for the evaluation of the text where there is more of it. -/
def ampleRoom (scopes : Scopes) (text : String) : Nat :=
  text.toList.length + charactersOfTable scopes.current + charactersOfTable scopes.global

/-- The expressions in a table, with a character more for each, fit into its texts. -/
theorem charactersOf_expressionsOfTable_le (t : Table) :
    charactersOf (expressionsOfTable t) ≤ charactersOfTable t := by
  unfold expressionsOfTable charactersOfTable
  induction t.entries with
  | nil => exact Nat.zero_le _
  | cons entry rest ih =>
    rw [List.flatMap_cons, charactersOf_append, List.map_cons, List.sum_cons]
    refine Nat.add_le_add ?_ ih
    rcases entry with ⟨name, s | nodes⟩
    · exact charactersOf_expressionsOf_le s
    · exact Nat.zero_le _

/-- The expressions that an evaluation can meet, with a character more for each, fit into the ample
room. -/
theorem charactersOf_expressionsMet_le (scopes : Scopes) (text : String) :
    charactersOf (expressionsMet scopes text) ≤ ampleRoom scopes text := by
  unfold expressionsMet ampleRoom
  rw [charactersOf_append, charactersOf_append]
  have htext := charactersOf_expressionsOf_le text
  have hcurrent := charactersOf_expressionsOfTable_le scopes.current
  have hglobal := charactersOf_expressionsOfTable_le scopes.global
  omega

/-- The expressions of a text that a name stands for in a table are among those of the table. -/
theorem mem_expressionsOfTable {t : Table} {name s expr : String}
    (h : t.get? name = some (.text s)) (he : expr ∈ expressionsOf s) :
    expr ∈ expressionsOfTable t :=
  List.mem_flatMap.2 ⟨_, Dict.mem_of_get? h, he⟩

/-- What stands in a property that can be looked up can be met. -/
theorem mem_expressionsMet {scopes : Scopes} {text name s expr : String}
    (h : scopes.lookup? name = some (.text s)) (he : expr ∈ expressionsOf s) :
    expr ∈ expressionsMet scopes text := by
  unfold Scopes.lookup? at h
  split at h
  · rename_i value hvalue
    cases h
    exact List.mem_append_left _ (List.mem_append_right _ (mem_expressionsOfTable hvalue he))
  · exact List.mem_append_right _ (mem_expressionsOfTable h he)

/-- An expression has no more tokens than characters. -/
theorem tokenize_length_le (f : String → EvalM String) (expr : String) :
    Returns (fun tokens => tokens.length ≤ expr.toList.length) (tokenize ctx f expr) := by
  have htokens (ls : List Lexeme) :
      Returns (fun tokens => tokens.length ≤ ls.length) (tokensOf ctx f ls) := by
    induction ls with
    | nil => exact .pure (Nat.le_refl _)
    | cons l rest ih =>
      refine .bind fun head => ih.bind_of fun tail htail => .pure ?_
      have hhead : head.toList.length ≤ 1 := by cases head <;> simp
      rw [List.length_append, List.length_cons]
      omega
  refine (htokens _).bind_of fun tokens hlength => ?_
  split
  · exact .pure (hlength.trans (length_lexemes_le _))
  · exact .throw _

/-- From the expressions under way the evaluation has enough room, and leaves the same under way. -/
def EndsFrom (active : List String) {α : Type} (x : EvalM α) : Prop :=
  ∀ uses, ¬ Exhausted (x ⟨active, uses⟩).1 ∧ (x ⟨active, uses⟩).2.active = active

/-- A sequence has enough room if its steps have, where the second one need only be asked about what
the first one returns. -/
theorem EndsFrom.bind_of {active : List String} {α β : Type} {x : EvalM α} {f : α → EvalM β}
    {P : α → Prop} (hx : EndsFrom active x) (hP : Returns P x)
    (hf : ∀ a, P a → EndsFrom active (f a)) : EndsFrom active (x >>= f) := by
  intro uses
  have hx := hx uses
  rw [bind_apply]
  rcases hr : x ⟨active, uses⟩ with ⟨stop | a, e⟩
  · rw [hr] at hx
    exact ⟨fun h => hx.1 (by cases h; exact .intro _), hx.2⟩
  · rw [hr] at hx
    have ha := hP _ _ _ hr
    obtain ⟨_, uses'⟩ := e
    cases hx.2
    exact hf a ha uses'

/-- Having enough room goes through all steps of an evaluation. -/
theorem EndsFrom.compatible (active : List String) :
    Compatible fun {α} (x _ : EvalM α) => EndsFrom active x where
  pure _ _ := ⟨nofun, rfl⟩
  bind hx hf := hx.bind_of (P := fun _ => True) (fun _ _ _ _ => trivial) fun a _ => hf a
  fault _ _ _ := ⟨nofun, rfl⟩
  use _ _ _ := ⟨nofun, rfl⟩
  located expr x _ hx uses := by
    refine ⟨mt located_exhausted_iff.1 (hx uses).1, ?_⟩
    rw [located_apply]
    exact (hx uses).2

/-- Distinct expressions under way, all of a finite list, leave room for fewer and fewer more: where
there is more room than the expressions have characters the evaluation ends. -/
theorem evalExpr_endsFrom (hctx : ctx.CommandsAcyclic) {met : List String}
    (hmet : ∀ name s, ctx.scopes.lookup? name = some (.text s) → expressionsOf s ⊆ met)
    (room : Nat) {active : List String} {expr : String} (hnodup : active.Nodup)
    (hsub : active ⊆ met) (hexpr : expr ∈ met) (hroom : charactersOf met < room + active.length) :
    EndsFrom active (evalExpr ctx room expr) := by
  induction room generalizing active expr with
  | zero =>
    have := hnodup.length_le_of_subset hsub
    have := length_le_charactersOf met
    omega
  | succ room ih =>
    intro uses
    by_cases hmem : expr ∈ active
    · rw [evalExpr_of_mem (e := ⟨active, uses⟩) hmem]
      exact ⟨nofun, rfl⟩
    · rw [evalExpr_of_not_mem (e := ⟨active, uses⟩) hmem]
      have hnodup' : (active ++ [expr]).Nodup := by
        rw [List.nodup_append_comm]
        exact List.nodup_cons.2 ⟨hmem, hnodup⟩
      have hsub' : active ++ [expr] ⊆ met :=
        List.append_subset.2 ⟨hsub, List.cons_subset.2 ⟨hexpr, List.nil_subset _⟩⟩
      have hlength : (active ++ [expr]).length = active.length + 1 := List.length_append
      have hR := EndsFrom.compatible (active ++ [expr])
      -- The names in the expression have enough room, and so have its parentheses and signs: the
      -- characters that are left are at least as many as its own.
      have htokens : EndsFrom (active ++ [expr])
          (tokenize ctx (evalTextWith ctx (evalExpr ctx room)) expr) :=
        hR.tokenize (g := pure) (fun name s hs => hR.evalTextWith (g := pure) hctx fun expr' hexpr' =>
          ih hnodup' hsub' (hmet name s hs hexpr') (by omega)) expr
      have hshort : expr.toList.length < room + 1 := by
        have := hnodup'.length_le_of_subset hsub'
        have := length_add_length_le hexpr
        omega
      have hcompute : EndsFrom (active ++ [expr])
          (computeExpr ctx (room + 1) (evalTextWith ctx (evalExpr ctx room)) expr) := by
        refine htokens.bind_of (tokenize_length_le _ expr) fun tokens hle => ?_
        rw [valueWithin_of_ne (evalToText_ne_nestingTooDeep (hle.trans_lt hshort))]
        exact hR.liftCause (evalToText_evaluationOnly _ _)
      have hinner := hR.located expr (y := pure "") hcompute uses
      refine ⟨hinner.1, ?_⟩
      rw [whileActive_active, hinner.2, List.dropLast_concat]

/-- With more room than there are characters, a text is evaluated to the end. -/
theorem evalTextWithin_ends (hctx : ctx.CommandsAcyclic) {text : String} {room : Nat}
    (h : ampleRoom ctx.scopes text < room) :
    ¬ Exhausted (evalTextWithin ctx room text .fresh).1 := by
  have hR := EndsFrom.compatible []
  have hcharacters := charactersOf_expressionsMet_le ctx.scopes text
  have hmet : ∀ name s, ctx.scopes.lookup? name = some (.text s) →
      expressionsOf s ⊆ expressionsMet ctx.scopes text :=
    fun name s hs expr he => mem_expressionsMet hs he
  refine (hR.evalTextWith (g := pure) hctx (fun expr he => ?_) #[]).1
  have hexpr : expr ∈ expressionsMet ctx.scopes text :=
    List.mem_append_left _ (List.mem_append_left _ he)
  exact evalExpr_endsFrom hctx hmet room List.nodup_nil (List.nil_subset _) hexpr
    (by simpa using hcharacters.trans_lt h)

/-! ## What ends without the guard -/

/-- Whenever the first evaluation ends from the expressions under way, it leaves the same under way
and the second does the same. -/
def FollowsFrom (active : List String) {α : Type} (x y : EvalM α) : Prop :=
  ∀ uses, ¬ Exhausted (x ⟨active, uses⟩).1 →
    (x ⟨active, uses⟩).2.active = active ∧ y ⟨active, uses⟩ = x ⟨active, uses⟩

/-- Ending without the guard, and alike with it, goes through all steps of an evaluation. -/
theorem FollowsFrom.compatible (active : List String) :
    Compatible (FollowsFrom active) where
  pure _ _ _ := ⟨rfl, rfl⟩
  bind {_ _ x y f g} hxy hfg uses h := by
    obtain ⟨hactive, hy⟩ := hxy uses (mt .bind h)
    rw [bind_apply] at h ⊢
    rw [bind_apply, hy]
    rcases hr : x ⟨active, uses⟩ with ⟨stop | a, e⟩
    · rw [hr] at hactive
      exact ⟨hactive, rfl⟩
    · rw [hr] at hactive h
      obtain ⟨_, uses'⟩ := e
      cases hactive
      exact hfg a uses' h
  fault _ _ _ _ := ⟨rfl, rfl⟩
  use _ _ _ _ := ⟨rfl, rfl⟩
  located expr x y hxy uses h := by
    obtain ⟨hactive, hy⟩ := hxy uses (mt located_exhausted_iff.2 h)
    rw [located_apply, located_apply, hy]
    exact ⟨hactive, rfl⟩

/-- Tokens that are not nested too deeply for some room have the same value with the guard and more
room. -/
theorem valueWithin_follows {n m : Nat} (h : n ≤ m) (active : List String) (tokens : List Token) :
    FollowsFrom active (valueWithin n tokens) (valueWithin m tokens) := by
  intro uses hends
  refine ⟨?_, valueWithin_refines h tokens _ hends⟩
  rw [valueWithin_of_ne (ne_nestingTooDeep_of_not_exhausted hends)]
  cases evalToText n tokens <;> rfl

/-- An expression that ends without the guard has a largest room with which it does not end, and
ends with the next one. -/
theorem exists_least_room (hctx : ctx.CommandsAcyclic) {n : Nat} {expr : String} {e : Evaluation}
    (h : ¬ Exhausted (evalExprFreely ctx n expr e).1) :
    ∃ k < n, (∀ e', Exhausted (evalExprFreely ctx k expr e').1) ∧
      evalExprFreely ctx n expr e = evalExprFreely ctx (k + 1) expr e := by
  classical
  have hends : ∃ k, ¬ Exhausted (evalExprFreely ctx k expr e).1 := ⟨n, h⟩
  have hfind := Nat.find_spec hends
  obtain ⟨k, hk⟩ : ∃ k, Nat.find hends = k + 1 := by
    refine Nat.exists_eq_succ_of_ne_zero fun hzero => ?_
    rw [hzero] at hfind
    exact hfind (.intro none)
  have hkn : k + 1 ≤ n := hk ▸ Nat.find_min' hends h
  have hleast : Exhausted (evalExprFreely ctx k expr e).1 :=
    not_not.1 (Nat.find_min hends (by omega))
  rw [hk] at hfind
  refine ⟨k, hkn, fun e' => ?_, evalExprFreely_refines hctx hkn expr e hfind⟩
  rw [(evalExprFreely_steady hctx k expr).fst_eq e' e]
  exact hleast

/-- With less room less ends. -/
theorem evalExprFreely_exhausted (hctx : ctx.CommandsAcyclic) {n k : Nat} (hk : k ≤ n)
    {expr : String} {e : Evaluation} (h : Exhausted (evalExprFreely ctx n expr e).1) :
    Exhausted (evalExprFreely ctx k expr e).1 := by
  by_contra hne
  rw [← evalExprFreely_refines hctx hk expr e hne] at hne
  exact hne h

/-- An expression that ends without the guard ends the same way with it, as long as none of those
under way ends in the same room. -/
theorem evalExpr_follows (hctx : ctx.CommandsAcyclic) (n : Nat) {m : Nat} (hm : n ≤ m)
    {active : List String} {expr : String}
    (hactive : ∀ a ∈ active, ∀ e, Exhausted (evalExprFreely ctx n a e).1) :
    FollowsFrom active (evalExprFreely ctx n expr) (evalExpr ctx m expr) := by
  induction n using Nat.strong_induction_on generalizing m active expr with
  | _ n ih =>
    intro uses hends
    -- What is met in the expression is evaluated in the room `k`, for which neither the
    -- expression itself nor any of those around it ends.
    obtain ⟨k, hkn, hleast, hrun⟩ := exists_least_room hctx hends
    have hnot : expr ∉ active := fun hmem => hends (hactive expr hmem _)
    have hactive' : ∀ a ∈ active ++ [expr], ∀ e, Exhausted (evalExprFreely ctx k a e).1 := by
      intro a ha e
      rcases List.mem_append.1 ha with ha | ha
      · exact evalExprFreely_exhausted hctx hkn.le (hactive a ha e)
      · cases List.mem_singleton.1 ha
        exact hleast e
    obtain ⟨m, rfl⟩ : ∃ i, m = i + 1 := ⟨m - 1, by omega⟩
    have hkm : k ≤ m := by omega
    have hmet (expr' : String) : FollowsFrom (active ++ [expr]) (evalExprFreely ctx k expr')
        (evalExpr ctx m expr') :=
      ih k hkn hkm hactive'
    have hinner := (FollowsFrom.compatible (active ++ [expr])).locatedExpr hctx
      (valueWithin_follows (Nat.succ_le_succ hkm) _) (fun _ _ _ expr' _ => hmet expr') expr uses
    obtain ⟨r, w, hsteady⟩ := evalExprFreely_steady hctx (k + 1) expr
    rw [hrun, hsteady] at hends
    rw [← evalExprFreely, hsteady] at hinner
    rw [hrun, hsteady, evalExpr_of_not_mem (e := ⟨active, uses⟩) hnot]
    refine ⟨rfl, ?_⟩
    unfold whileActive
    simp only [(hinner hends).2, List.dropLast_concat]

/-- A text that ends without the guard ends the same way with it. -/
theorem evalTextWithin_follows (hctx : ctx.CommandsAcyclic) {n m : Nat} (h : n ≤ m) {text : String}
    (hends : ¬ Exhausted (evalTextFreely ctx n text .fresh).1) :
    evalTextWithin ctx m text .fresh = evalTextFreely ctx n text .fresh :=
  ((FollowsFrom.compatible []).evalTextWith hctx
    (fun _ _ => evalExpr_follows hctx n h nofun) #[] hends).2

/-! ## What ends with the guard -/

/-- The result is no cycle, and there was room for it. -/
def Settled {α : Type} (r : Except Stop α) : Prop :=
  ¬ Exhausted r ∧ ∀ f, r = .error (.fault f) → f.kind ≠ .cyclicReference

/-- What the first evaluation settles the second settles alike, whatever was under way. -/
def SettledBy {α : Type} (x y : EvalM α) : Prop :=
  ∀ e active, Settled (x e).1 → y ⟨active, e.uses⟩ = ((x e).1, ⟨active, (x e).2.uses⟩)

/-- What is settled with the guard is so without it, in all steps of an evaluation. -/
theorem SettledBy.compatible : Compatible SettledBy where
  pure _ _ _ _ := rfl
  bind {_ _ x y f g} hxy hfg e active h := by
    rw [bind_apply] at h ⊢
    rw [bind_apply]
    have hy := hxy e active
    rcases hr : x e with ⟨stop | a, e'⟩
    · rw [hr] at hy h
      rw [hy ⟨fun hs => h.1 (by cases hs; exact .intro _), fun f hf => h.2 f (by cases hf; rfl)⟩]
    · rw [hr] at hy h
      rw [hy ⟨nofun, nofun⟩]
      exact hfg a e' active h
  fault _ _ _ _ _ := rfl
  use _ _ _ _ _ := rfl
  located expr x y hxy e active h := by
    rw [located_apply, located_apply, hxy e active ?_]
    refine ⟨fun hs => h.1 (located_exhausted_iff.2 hs), fun f hf => ?_⟩
    have := h.2 (f.orSuffix _) (by rw [located_apply, hf]; rfl)
    rwa [Fault.kind_orSuffix] at this

theorem evalExpr_settledBy (hctx : ctx.CommandsAcyclic) (n : Nat) (expr : String) :
    SettledBy (evalExpr ctx n expr) (evalExprFreely ctx n expr) := by
  induction n generalizing expr with
  | zero => intro e active h; exact absurd (.intro none) h.1
  | succ n ih =>
    intro e active h
    by_cases hmem : expr ∈ e.active
    · rw [evalExpr_of_mem hmem] at h
      exact absurd rfl (h.2 _ rfl)
    · rw [evalExpr_of_not_mem hmem] at h ⊢
      have hexhausted : SettledBy (throw (.exhausted none) : EvalM String)
        (throw (.exhausted none)) :=
        fun e active h => absurd (.intro none) h.1
      exact SettledBy.compatible.locatedExpr hctx
        (SettledBy.compatible.valueWithin hexhausted (n + 1)) (fun _ _ _ expr' _ => ih expr') expr
        { e with active := e.active ++ [expr] } active h

/-- A text that ends with the guard, and not with a cycle, ends without it. -/
theorem evalTextWithin_settledBy (hctx : ctx.CommandsAcyclic) (n : Nat) (text : String) :
    SettledBy (evalTextWithin ctx n text) (evalTextFreely ctx n text) :=
  SettledBy.compatible.evalTextWith hctx fun expr _ => evalExpr_settledBy hctx n expr

/-! ## Termination -/

theorem evalText_apply (text : String) (e : Evaluation) :
    evalText ctx text e =
      ((evalTextWithin ctx ctx.limits.evaluation text e).1.mapError Stop.toFault,
        (evalTextWithin ctx ctx.limits.evaluation text e).2) := rfl

/-- The evaluation of a text always ends, and does the same wherever there is ample room for it. It
ends with a cycle exactly if it would go on forever without the guard, and otherwise it ends just as
it does without the guard. -/
theorem evalText_decides_termination (hctx : ctx.CommandsAcyclic) (text : String) :
    ∃ r e, (∀ n, ampleRoom ctx.scopes text < n →
        evalTextWithin ctx n text .fresh = (r.mapError .fault, e)) ∧
      (ampleRoom ctx.scopes text < ctx.limits.evaluation → evalText ctx text .fresh = (r, e)) ∧
      ((∃ f, r = .error f ∧ f.kind = .cyclicReference) ↔ FreelyDiverges ctx text) ∧
      ∀ r' e', FreelyEnds ctx text r' e' → r' = r ∧ e' = e := by
  let room := ampleRoom ctx.scopes text + 1
  have hends : ¬ Exhausted (evalTextWithin ctx room text .fresh).1 :=
    evalTextWithin_ends hctx (Nat.lt_succ_self _)
  obtain ⟨r, hr⟩ := exists_mapError_fault hends
  rcases hrun : evalTextWithin ctx room text .fresh with ⟨r₀, e⟩
  rw [hrun] at hends hr
  obtain rfl : r₀ = r.mapError .fault := hr
  have hstable : ∀ n, room ≤ n → evalTextWithin ctx n text .fresh = (r.mapError .fault, e) := by
    intro n hn
    rw [evalTextWithin_refines hctx hn text .fresh (by rw [hrun]; exact hends), hrun]
  have hfree : ∀ n, ¬ Exhausted (evalTextFreely ctx n text .fresh).1 →
      evalTextFreely ctx n text .fresh = (r.mapError .fault, e) := by
    intro n hn
    rw [← evalTextWithin_follows hctx (Nat.le_max_left n room) hn]
    exact hstable _ (Nat.le_max_right n room)
  refine ⟨r, e, hstable, fun hlimit => ?_, ⟨?_, ?_⟩, ?_⟩
  · rw [evalText_apply, hstable _ hlimit]
    rcases r with f | a <;> rfl
  · rintro ⟨f, rfl, hf⟩ n
    by_contra hn
    exact evalTextFreely_neverCyclic hctx n text .fresh f (by rw [hfree n hn]; rfl) hf
  · intro hdiverges
    by_contra hcyclic
    have hsettled : Settled (r.mapError Stop.fault) := by
      refine ⟨hends, fun f hf hkind => hcyclic ⟨f, ?_, hkind⟩⟩
      exact mapError_fault_injective hf
    have hsame := evalTextWithin_settledBy hctx room text .fresh []
    rw [hrun] at hsame
    have hdiverges := hdiverges room
    rw [show Evaluation.fresh = ⟨[], Evaluation.fresh.uses⟩ from rfl, hsame hsettled] at hdiverges
    exact hends hdiverges
  · rintro r' e' ⟨n, hn⟩
    have hsame := hfree n (by rw [hn]; exact not_exhausted_mapError_fault r')
    rw [hn] at hsame
    obtain ⟨hr, he⟩ := Prod.mk.inj hsame
    exact ⟨mapError_fault_injective hr, he⟩

/-- The commands that every run has report no faults of their own. -/
theorem Command.call_ne_fault {view : CommandView} {command : Command} {arguments : List String}
    {f : Fault} (h : ∀ call, command ≠ .custom call) :
    command.call view arguments ≠ .error (.fault f) := by
  intro hcall
  cases command with
  | custom call => exact h call rfl
  | env | optenv | dirname | arg | find | cwd =>
    unfold Command.call at hcall
    repeat' split at hcall
    all_goals simp_all

theorem Context.CommandsAcyclic.standard (h : ctx.commands = standardCommands) :
    ctx.CommandsAcyclic := by
  intro name command arguments f hc hcall
  rw [h] at hc
  have hmem := Dict.mem_of_get? hc
  rw [show standardCommands.entries = [("env", .env), ("optenv", .optenv), ("dirname", .dirname),
    ("arg", .arg), ("find", .find), ("cwd", .cwd)] from rfl] at hmem
  refine absurd hcall (Command.call_ne_fault fun call hcustom => ?_)
  subst hcustom
  simp at hmem

/-- Two properties that name each other. -/
def mutualContext : Context where
  scopes := ⟨Dict.ofList [("a", .text "${b}"), ("b", .text "${a}")], []⟩
  commands := standardCommands
  view := ⟨⟨∅, ∅, "/"⟩, ∅, none⟩
  limits := .usual

/-- Of two properties that refer to each other, neither is ever evaluated to its end without the
guard. -/
theorem evalText_decides_termination_mutual :
    mutualContext.CommandsAcyclic ∧ FreelyDiverges mutualContext "${a}" := by
  have hctx : mutualContext.CommandsAcyclic := .standard rfl
  obtain ⟨r, e, -, hlimit, hcyclic, -⟩ := evalText_decides_termination hctx "${a}"
  have hrun := hlimit (by decide)
  have hfault : (evalText mutualContext "${a}" .fresh).1 = .error
      { cause := .cyclicReference ["a", "b", "a"]
        suffix := some "when evaluating expression 'b'" } := by
    decide +kernel
  rw [hrun] at hfault
  exact ⟨hctx, hcyclic.1 ⟨_, hfault, rfl⟩⟩

end XmlMacros.Substitution
