import XmlMacros.Expr.Reader

/-!
# The token reader and the trees of the grammar

The reader computes while it reads and builds no tree. It is right about the trees all the same:

* what it reads is the tokens of a tree that fits, and what it gives is the tree's value
  (`reader_sound`);
* it reads the tokens of every tree that fits, up to its end and no further, and gives the tree's
  value or its failure (`reader_complete`).

Both go through the levels of `levels` from the tightest to the loosest. Inside one level the reader
is a loop over a chain of operators, while trees nest to the left: `chainRest` is compared with the
tree that was read so far (`chainRest_sound`), and with the point where the chain goes on behind a
tree (`Starts`).
-/

namespace XmlMacros.Expr

/-- The value of a tree whose operands carry their values. -/
def Tree.value (t : Tree (Value × String)) : Except Cause Value :=
  t.eval fun a => .ok a.1

/-- A sequence has a result only if its first step has one and the second has it from there. -/
theorem bind_eq_ok {α β : Type} {x : Except Cause α} {f : α → Except Cause β} {b : β}
    (h : x >>= f = .ok b) : ∃ a, x = .ok a ∧ f a = .ok b := by
  cases x with
  | ok a => exact ⟨a, rfl, h⟩
  | error => cases h

theorem ok_bind {α β : Type} (a : α) (f : α → Except Cause β) : Except.ok a >>= f = f a := rfl

theorem error_bind {α β : Type} (c : Cause) (f : α → Except Cause β) :
    Except.error c >>= f = .error c := rfl

/-! ## Levels -/

/-- Reads an operand of level `k`: a chain of the operators of that level, or an operand of the
tightest ones. -/
def reader (depth k : Nat) : Reader :=
  (levels.drop k).foldr chain (factor depth)

/-- Below the levels of the operators a reader reads chains of its level, from what the next level
reads. -/
theorem reader_of_lt (depth : Nat) {k : Nat} (h : k < levels.length) :
    reader depth k = chain levels[k] (reader depth (k + 1)) := by
  rw [reader, List.drop_eq_getElem_cons h]
  rfl

/-- After the last level come the factors. -/
theorem reader_length (depth : Nat) : reader depth levels.length = factor depth := by
  rw [reader, List.drop_length]
  rfl

/-- Every operator is at one of the levels. -/
theorem Operator.level_lt (op : Operator) : op.level < levels.length := by
  cases op <;> decide

/-- What fits a level fits the looser ones. -/
theorem Tree.Fits.mono {α : Type} {t : Tree α} {j k : Nat} (h : t.Fits k) (hjk : j ≤ k) :
    t.Fits j := by
  cases t with
  | operand => trivial
  | paren => exact h
  | signed => exact h
  | binary op left right => exact ⟨Nat.le_trans hjk h.1, h.2⟩

@[simp] theorem Tree.tokens_operand (a : Value × String) :
    (Tree.operand a).tokens = [.operand a.1 a.2] := rfl

@[simp] theorem Tree.tokens_paren (t : Tree (Value × String)) :
    (Tree.paren t).tokens = .leftParen :: t.tokens ++ [.rightParen] := rfl

@[simp] theorem Tree.tokens_signed (sign : Sign) (t : Tree (Value × String)) :
    (Tree.signed sign t).tokens = .operator sign.operator :: t.tokens := rfl

@[simp] theorem Tree.tokens_binary (op : Operator) (left right : Tree (Value × String)) :
    (Tree.binary op left right).tokens = left.tokens ++ .operator op :: right.tokens := rfl

/-- The sign is applied to the value of the tree behind it. -/
theorem Tree.value_signed (sign : Sign) (t : Tree (Value × String)) :
    (Tree.signed sign t).value = t.value >>= sign.apply := rfl

/-- The left operand is made ready before the right one is evaluated, so its fault comes first. -/
theorem Tree.value_binary (op : Operator) (left right : Tree (Value × String)) :
    (Tree.binary op left right).value
      = left.value >>= fun a => op.leftOperand a >>= fun a => right.value >>= op.apply a := rfl

/-! ## What is read is a tree -/

/-- Whether a reader reads the tokens of trees only, which fit level `k` and are nested less than so
deeply, and gives their values. -/
def Sound (next : Reader) (depth k : Nat) : Prop :=
  ∀ tokens v rest, next tokens = .ok (v, rest) →
    ∃ t : Tree (Value × String), t.Fits k ∧ t.nesting < depth ∧ tokens = t.tokens ++ rest ∧
      t.value = .ok v

section
variable {depth k : Nat} {tokens rest : List Token} {a v : Value}

/-- The loop of a level puts one operator after the other on top of the tree that was read so
far. -/
theorem chainRest_sound {ops : List Operator} {next : Reader} (hops : ∀ op ∈ ops, op.level = k)
    (hnext : Sound next depth (k + 1)) (fuel : Nat)
    (h : chainRest ops next fuel a tokens = .ok (v, rest)) (left : Tree (Value × String))
    (hfits : left.Fits k) (hnesting : left.nesting < depth) (hleft : left.value = .ok a) :
    ∃ t : Tree (Value × String), t.Fits k ∧ t.nesting < depth ∧
      left.tokens ++ tokens = t.tokens ++ rest ∧ t.value = .ok v := by
  induction fuel generalizing a tokens left with
  | zero =>
    cases h
    exact ⟨left, hfits, hnesting, rfl, hleft⟩
  | succ fuel ih =>
    unfold chainRest at h
    split at h
    · rename_i op more
      split at h
      · rename_i hop
        obtain rfl := hops op hop
        obtain ⟨a', ha', h₁⟩ := bind_eq_ok h
        obtain ⟨⟨b, tail⟩, hb, h₂⟩ := bind_eq_ok h₁
        obtain ⟨c, hc, hmore⟩ := bind_eq_ok h₂
        obtain ⟨right, hright, hnesting', rfl, hvalue⟩ := hnext _ _ _ hb
        have hvalue' : (Tree.binary op left right).value = .ok c := by
          simp only [Tree.value_binary, hleft, ha', hvalue, ok_bind, hc]
        obtain ⟨t, ht, hdepth, htokens, hv⟩ := ih hmore (.binary op left right)
          ⟨Nat.le_refl _, hfits, hright⟩ (Nat.max_lt.2 ⟨hnesting, hnesting'⟩) hvalue'
        refine ⟨t, ht, hdepth, ?_, hv⟩
        rw [← htokens]
        simp
      · cases h
        exact ⟨left, hfits, hnesting, rfl, hleft⟩
    · cases h
      exact ⟨left, hfits, hnesting, rfl, hleft⟩

/-- Every level reads trees if the operands of the tightest operators are trees. -/
theorem reader_sound_of_factor (hfactor : Sound (factor depth) depth levels.length) (n : Nat)
    (hk : k + n = levels.length) : Sound (reader depth k) depth k := by
  induction n generalizing k with
  | zero =>
    obtain rfl : k = levels.length := hk
    rw [reader_length]
    exact hfactor
  | succ n ih =>
    have hlt : k < levels.length := by omega
    have hnext : Sound (reader depth (k + 1)) depth (k + 1) := ih (by omega)
    have hops : ∀ op ∈ levels[k], op.level = k := fun op hop => (mem_levels_iff op k hlt).1 hop
    intro tokens v rest h
    rw [reader_of_lt depth hlt] at h
    obtain ⟨⟨a, more⟩, ha, hmore⟩ := bind_eq_ok h
    obtain ⟨left, hfits, hnesting, rfl, hleft⟩ := hnext _ _ _ ha
    exact chainRest_sound hops hnext _ hmore left (hfits.mono (Nat.le_succ k)) hnesting hleft

/-- What is read as a factor is a tree without chains, in which parentheses and signs go less deep
than the bound. -/
theorem factor_sound (depth : Nat) : Sound (factor depth) depth levels.length := by
  induction depth with
  | zero =>
    intro tokens v rest h
    cases h
  | succ depth ih =>
    have signed : ∀ (sign : Sign) {more rest : List Token} {v : Value},
        (do let p ← factor depth more; return (← sign.apply p.1, p.2)) = .ok (v, rest) →
        ∃ t : Tree (Value × String), t.Fits levels.length ∧ t.nesting < depth + 1 ∧
          .operator sign.operator :: more = t.tokens ++ rest ∧ t.value = .ok v := by
      intro sign more rest v h
      obtain ⟨⟨a, tail⟩, ha, h⟩ := bind_eq_ok h
      obtain ⟨b, hb, h⟩ := bind_eq_ok h
      cases h
      obtain ⟨t, hfits, hnesting, rfl, ht⟩ := ih _ _ _ ha
      refine ⟨.signed sign t, hfits, Nat.succ_lt_succ hnesting, rfl, ?_⟩
      rw [Tree.value_signed, ht, ok_bind, hb]
    intro tokens v rest h
    unfold factor at h
    split at h
    · cases h
    · cases h
      exact ⟨.operand (_, _), trivial, Nat.succ_pos _, rfl, rfl⟩
    · exact signed .minus h
    · exact signed .plus h
    · obtain ⟨⟨a, tail⟩, ha, hclose⟩ := bind_eq_ok h
      obtain ⟨t, hfits, hnesting, rfl, ht⟩ :=
        reader_sound_of_factor ih levels.length (Nat.zero_add _) _ _ _ ha
      dsimp only at hclose
      split at hclose
      · cases hclose
      · cases hclose
        exact ⟨.paren t, hfits, Nat.succ_lt_succ hnesting, by simp, ht⟩
      · cases hclose
    · cases h

/-- What is read as an expression is the tokens of a tree, and the value is the tree's. -/
theorem reader_sound (hk : k ≤ levels.length) : Sound (reader depth k) depth k :=
  reader_sound_of_factor (factor_sound depth) (levels.length - k) (by omega)

end

/-! ## Every tree is read -/

/-- Whether no chain of level `k` or a tighter one goes on with the tokens. -/
def LevelEnds (k : Nat) (rest : List Token) : Prop :=
  ∀ op tail, rest = .operator op :: tail → op.level < k

/-- Whether a tree is read at level `k` up to its end, wherever no chain goes on behind it. -/
def Reads (depth k : Nat) (t : Tree (Value × String)) : Prop :=
  ∀ rest, LevelEnds k rest → reader depth k (t.tokens ++ rest) = t.value.map (·, rest)

/-- Whether a tree is read at level `k` as the start of a chain, wherever no tighter chain goes on
behind it. -/
def Starts (depth k : Nat) (t : Tree (Value × String)) : Prop :=
  ∀ (hk : k < levels.length) (rest : List Token), LevelEnds (k + 1) rest →
    ∃ fuel, rest.length ≤ fuel ∧ reader depth k (t.tokens ++ rest)
      = t.value >>= fun a => chainRest levels[k] (reader depth (k + 1)) fuel a rest

section
variable {depth k : Nat} {t left right : Tree (Value × String)}

/-- Where a chain ends, the looser chains that are counted in may be fewer. -/
theorem LevelEnds.mono {j k : Nat} {rest : List Token} (h : LevelEnds j rest) (hjk : j ≤ k) :
    LevelEnds k rest :=
  fun op tail hrest => Nat.lt_of_lt_of_le (h op tail hrest) hjk

/-- A chain does not go on with what ends its level. -/
theorem chainRest_of_levelEnds {rest : List Token} (hk : k < levels.length) (next : Reader)
    (fuel : Nat) (a : Value) (h : LevelEnds k rest) :
    chainRest levels[k] next fuel a rest = .ok (a, rest) := by
  cases fuel with
  | zero => rfl
  | succ fuel =>
    unfold chainRest
    split
    · rename_i op tail
      have hop : op ∉ levels[k] := fun hop =>
        absurd (h op tail rfl) ((mem_levels_iff op k hk).1 hop ▸ Nat.lt_irrefl _)
      rw [if_neg hop]
    · rfl

/-- A tree that is read at a tighter level starts a chain, in which no operator has been
read yet. -/
theorem Reads.starts (h : Reads depth (k + 1) t) : Starts depth k t := by
  intro hk rest hrest
  refine ⟨rest.length, Nat.le_refl _, ?_⟩
  rw [reader_of_lt depth hk, chain, h rest hrest]
  cases t.value <;> rfl

/-- A chain that starts with a tree is the tree where no operator of its level follows. -/
theorem Starts.reads (hk : k < levels.length) (h : Starts depth k t) : Reads depth k t := by
  intro rest hrest
  obtain ⟨fuel, -, hread⟩ := h hk rest (hrest.mono (Nat.le_succ k))
  rw [hread]
  cases t.value with
  | error => rfl
  | ok a => exact chainRest_of_levelEnds hk _ fuel a hrest

/-- A tree that is read at some level is read at the looser ones. -/
theorem Reads.mono {j k : Nat} (h : Reads depth k t) (hjk : j ≤ k) (hk : k ≤ levels.length) :
    Reads depth j t := by
  induction hjk with
  | refl => exact h
  | step _ ih => exact ih (h.starts.reads hk) (Nat.le_of_succ_le hk)

/-- A binary operator on top of a tree goes on with the chain that the tree starts. -/
theorem Starts.binary {op : Operator} (hleft : Starts depth op.level left)
    (hright : Reads depth (op.level + 1) right) :
    Starts depth op.level (.binary op left right) := by
  intro hk rest hrest
  have hop : op ∈ levels[op.level] := (mem_levels_iff op op.level hk).2 rfl
  have hends : LevelEnds (op.level + 1) (.operator op :: (right.tokens ++ rest)) := by
    rintro _ _ ⟨⟩
    exact Nat.lt_succ_self _
  obtain ⟨fuel, hfuel, hread⟩ := hleft hk _ hends
  obtain ⟨fuel, rfl⟩ : ∃ n, fuel = n + 1 :=
    Nat.exists_eq_add_of_lt (Nat.lt_of_lt_of_le (Nat.succ_pos _) hfuel) |>.imp fun n h => by omega
  refine ⟨fuel, ?_, ?_⟩
  · simp only [List.length_cons, List.length_append] at hfuel
    omega
  · have htokens : (Tree.binary op left right).tokens ++ rest
        = left.tokens ++ .operator op :: (right.tokens ++ rest) := by simp
    rw [htokens, hread]
    cases hl : left.value with
    | error c => simp only [Tree.value_binary, hl, error_bind]
    | ok a =>
      rw [ok_bind, chainRest]
      simp only [hop, if_true, hright rest hrest, Tree.value_binary, hl, ok_bind]
      cases op.leftOperand a with
      | error c => rfl
      | ok a' => cases right.value <;> rfl

/-- Read at the tightest level, a tree is read at every level and starts a chain at it. -/
theorem Reads.at_every_level (h : Reads depth levels.length t) (hk : k ≤ levels.length) :
    Reads depth k t ∧ Starts depth k t :=
  ⟨h.mono hk (Nat.le_refl _), fun hlt => (h.mono hlt (Nat.le_refl _)).starts hlt⟩

/-- Every tree that fits is read, and starts a chain. The induction is on the tree: the left operand
of a binary operator starts the chain that the operator goes on with, and the right operand is read
at the next level. -/
theorem reads_and_starts (t : Tree (Value × String)) {depth k : Nat} (hfits : t.Fits k)
    (hnesting : t.nesting < depth) (hk : k ≤ levels.length) :
    Reads depth k t ∧ Starts depth k t := by
  induction t generalizing depth k with
  | operand a =>
    obtain ⟨depth, rfl⟩ := Nat.exists_eq_succ_of_ne_zero (Nat.ne_zero_of_lt hnesting)
    refine Reads.at_every_level (fun rest _ => ?_) hk
    rw [reader_length]
    rfl
  | paren inner ih =>
    obtain ⟨depth, rfl⟩ := Nat.exists_eq_succ_of_ne_zero (Nat.ne_zero_of_lt hnesting)
    have hinner : Reads depth 0 inner :=
      (ih hfits (Nat.lt_of_succ_lt_succ hnesting) (Nat.zero_le _)).1
    refine Reads.at_every_level (fun rest _ => ?_) hk
    have hread : expression (factor depth) (inner.tokens ++ .rightParen :: rest)
        = inner.value.map (·, .rightParen :: rest) := hinner _ nofun
    have htokens : (Tree.paren inner).tokens ++ rest
        = .leftParen :: (inner.tokens ++ .rightParen :: rest) := by simp
    rw [reader_length, htokens, factor, hread]
    show _ = inner.value.map (·, rest)
    cases inner.value <;> rfl
  | signed sign inner ih =>
    obtain ⟨depth, rfl⟩ := Nat.exists_eq_succ_of_ne_zero (Nat.ne_zero_of_lt hnesting)
    have hinner : Reads depth levels.length inner :=
      (ih hfits (Nat.lt_of_succ_lt_succ hnesting) (Nat.le_refl _)).1
    refine Reads.at_every_level (fun rest _ => ?_) hk
    have hread : factor depth (inner.tokens ++ rest) = inner.value.map (·, rest) := by
      rw [← reader_length]
      exact hinner rest fun op _ _ => op.level_lt
    rw [reader_length, Tree.tokens_signed, List.cons_append, Tree.value_signed]
    cases sign <;>
    · rw [Sign.operator, factor, hread]
      cases inner.value with
      | error c => rfl
      | ok a => rw [ok_bind]; rfl
  | binary op left right ihl ihr =>
    obtain ⟨hlevel, hleft, hright⟩ := hfits
    have hnestings := Nat.max_lt.1 hnesting
    have hstarts : Starts depth op.level (.binary op left right) :=
      (ihl hleft hnestings.1 (Nat.le_of_lt op.level_lt)).2.binary
        (ihr hright hnestings.2 op.level_lt).1
    have hreads : Reads depth op.level (.binary op left right) := hstarts.reads op.level_lt
    refine ⟨hreads.mono hlevel (Nat.le_of_lt op.level_lt), ?_⟩
    rcases Nat.eq_or_lt_of_le hlevel with rfl | hlt
    · exact hstarts
    · exact (hreads.mono hlt (Nat.le_of_lt op.level_lt)).starts

/-- The tokens of a tree that fits are read up to their end, and give the value of the tree or its
failure. -/
theorem reader_complete {t : Tree (Value × String)} {depth k : Nat} (hfits : t.Fits k)
    (hnesting : t.nesting < depth) (hk : k ≤ levels.length) (rest : List Token)
    (hrest : LevelEnds k rest) : reader depth k (t.tokens ++ rest) = t.value.map (·, rest) :=
  (reads_and_starts t hfits hnesting hk).1 rest hrest

end

/-! ## Whole token lists -/

/-- A list of tokens has a value only if it is the tokens of a tree that fits. -/
theorem exists_tree_of_evalTokens {depth : Nat} {tokens : List Token} {v : Value}
    (h : evalTokens depth tokens = .ok v) :
    ∃ t : Tree (Value × String), t.Fits 0 ∧ t.nesting < depth ∧ tokens = t.tokens := by
  obtain ⟨⟨a, rest⟩, ha, hend⟩ := bind_eq_ok h
  obtain ⟨t, hfits, hnesting, rfl, -⟩ := reader_sound (Nat.zero_le _) _ _ _ ha
  cases rest with
  | nil => exact ⟨t, hfits, hnesting, by simp⟩
  | cons => cases hend

/-- A list of tokens evaluates to a text only if it is the tokens of a tree that fits. A lone
number, which is not read at all, is such a tree too. -/
theorem exists_tree_of_evalToText {depth : Nat} {tokens : List Token} {text : String}
    (h : evalToText (depth + 1) tokens = .ok text) :
    ∃ t : Tree (Value × String), t.Fits 0 ∧ t.nesting < depth + 1 ∧ tokens = t.tokens := by
  unfold evalToText at h
  split at h
  · exact ⟨.operand (_, _), trivial, Nat.succ_pos _, rfl⟩
  · obtain ⟨v, hv, -⟩ := bind_eq_ok h
    exact exists_tree_of_evalTokens hv

/-- The tokens of a tree that fits have the value of the tree. -/
theorem evalTokens_tokens {depth : Nat} {t : Tree (Value × String)} (hfits : t.Fits 0)
    (hnesting : t.nesting < depth) : evalTokens depth t.tokens = t.value := by
  have hread := reader_complete hfits hnesting (Nat.zero_le _) [] nofun
  rw [List.append_nil] at hread
  show (reader depth 0 t.tokens >>= _) = _
  rw [hread]
  cases t.value <;> rfl

/-- The text that a tree stands for: a lone number keeps the text it is shown with. -/
def Tree.shown (t : Tree (Value × String)) : Except Cause String :=
  match t with
  | .operand (.number _, text) => .ok text
  | t => do (← t.value).write

/-- The tokens of a tree that fits evaluate to the text that the tree stands for. -/
theorem evalToText_tokens {depth : Nat} {t : Tree (Value × String)} (hfits : t.Fits 0)
    (hnesting : t.nesting < depth) : evalToText depth t.tokens = t.shown := by
  have hvalue := evalTokens_tokens hfits hnesting
  have several : (∀ x text, t.tokens ≠ [.operand (.number x) text]) →
      evalToText depth t.tokens = t.value >>= Value.write := by
    intro hne
    unfold evalToText
    split
    · rename_i x text htokens
      exact absurd htokens (hne x text)
    · rw [hvalue]
  cases t with
  | operand a =>
    obtain ⟨v, text⟩ := a
    cases v with
    | number x => rfl
    | bool b => exact several nofun
    | text s => exact several nofun
  | paren inner => exact several nofun
  | signed sign inner => exact several nofun
  | binary op left right =>
    refine several fun x text htokens => ?_
    cases hl : left.tokens <;> simp [hl] at htokens

end XmlMacros.Expr
