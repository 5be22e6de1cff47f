import XmlMacros.Proofs.Expr.Replacement

/-!
# Operands and what stands in parentheses for them

An operand and an expression of the same value in parentheses are read alike: tokens in which some
places of an operand are unfolded into such an expression (`Unfolding`) evaluate to the same text,
as long as they are several and not nested too deeply once unfolded (`evalToText_of_unfolding` and
`evalToText_unfolding`).

Both ways go over trees. The tree of the folded tokens is grafted (`Tree.exists_unfolds`). For the
other way the tree of the unfolded tokens is taken apart (`Tree.exists_folds`), and it has to be
shown that no part of it begins or ends inside of an unfolded place (`Unfolding.split`): parts leave
no parenthesis open (`Balanced`).
-/

namespace XmlMacros.Expr

/-! ## Balance -/

/-- How many parentheses a token opens. -/
def Token.opens : Token → Int
  | .leftParen => 1
  | .rightParen => -1
  | .operand _ _ | .operator _ => 0

/-- How many parentheses tokens leave open. -/
def openings : List Token → Int
  | [] => 0
  | token :: tokens => token.opens + openings tokens

@[simp] theorem openings_nil : openings [] = 0 := rfl

@[simp] theorem openings_cons (token : Token) (tokens : List Token) :
    openings (token :: tokens) = token.opens + openings tokens := rfl

@[simp] theorem openings_append (s t : List Token) :
    openings (s ++ t) = openings s + openings t := by
  induction s with
  | nil => exact (Int.zero_add _).symm
  | cons token s ih => rw [List.cons_append, openings_cons, openings_cons, ih, Int.add_assoc]

/-- Whether all parentheses are closed, and none before it was opened. -/
structure Balanced (tokens : List Token) : Prop where
  closed : openings tokens = 0
  nonneg : ∀ front tail, tokens = front ++ tail → 0 ≤ openings front

/-- A token that is no parenthesis is balanced. -/
theorem Balanced.singleton {token : Token} (h : token.opens = 0) : Balanced [token] := by
  refine ⟨by simp [h], fun front tail hcut => ?_⟩
  rcases List.append_eq_singleton_iff.1 hcut.symm with ⟨rfl, -⟩ | ⟨rfl, -⟩ <;> simp [h]

/-- Balanced tokens are balanced one after the other. -/
theorem Balanced.append {s t : List Token} (hs : Balanced s) (ht : Balanced t) :
    Balanced (s ++ t) := by
  refine ⟨by rw [openings_append, hs.closed, ht.closed, Int.add_zero], fun front tail hcut => ?_⟩
  rcases List.append_eq_append_iff.1 hcut with ⟨more, rfl, rfl⟩ | ⟨more, rfl, -⟩
  · rw [openings_append, hs.closed, Int.zero_add]
    exact ht.nonneg _ _ rfl
  · exact hs.nonneg _ _ rfl

/-- Balanced tokens stay so in parentheses. -/
theorem Balanced.paren {s : List Token} (h : Balanced s) :
    Balanced (.leftParen :: (s ++ [.rightParen])) := by
  refine ⟨by simp [Token.opens, h.closed], fun front tail hcut => ?_⟩
  cases front with
  | nil => simp
  | cons token front =>
    obtain ⟨rfl, hrest⟩ := List.cons.inj hcut
    have hfront : -1 ≤ openings front := by
      rcases List.append_eq_append_iff.1 hrest with ⟨more, rfl, hmore⟩ | ⟨more, rfl, -⟩
      · rcases List.append_eq_singleton_iff.1 hmore.symm with ⟨rfl, -⟩ | ⟨rfl, -⟩ <;>
          simp [h.closed, Token.opens]
      · have := h.nonneg _ _ rfl
        omega
    simp only [openings_cons, Token.opens]
    omega

/-- The tokens of a tree are balanced. -/
theorem Tree.balanced_tokens (t : Tree (Value × String)) : Balanced t.tokens := by
  induction t with
  | operand a => exact .singleton rfl
  | paren inner ih => exact ih.paren
  | signed sign inner ih => exact .append (.singleton rfl) ih
  | binary op left right ihl ihr => exact ihl.append (.append (.singleton rfl) ihr)

section
variable {s t more more' : List Token}

/-- What a balanced list ends in leaves nothing open. -/
theorem Balanced.nonpos (h : Balanced s) (hcut : s = t ++ more) : openings more ≤ 0 := by
  have hfront := h.nonneg _ _ hcut
  have hclosed := h.closed
  rw [hcut, openings_append] at hclosed
  omega

/-- In front of a closing parenthesis something is open. -/
theorem Balanced.open_before (h : Balanced (s ++ .rightParen :: more)) : openings s ≠ 0 := by
  have := h.nonneg (s ++ [.rightParen]) more (by simp)
  simp only [openings_append, openings_cons, openings_nil, Token.opens] at this
  omega

/-- Balanced tokens in front of a closing parenthesis can be told from what follows. -/
theorem Balanced.eq_of_append (hs : Balanced s) (ht : Balanced t)
    (h : s ++ .rightParen :: more = t ++ .rightParen :: more') : s = t ∧ more = more' := by
  have hprefix : s = t := by
    rcases List.append_eq_append_iff.1 h with ⟨gap, rfl, hgap⟩ | ⟨gap, rfl, hgap⟩
    · cases gap with
      | nil => rw [List.append_nil]
      | cons token gap =>
        obtain ⟨rfl, -⟩ := List.cons.inj hgap
        exact absurd hs.closed ht.open_before
    · cases gap with
      | nil => rw [List.append_nil]
      | cons token gap =>
        obtain ⟨rfl, -⟩ := List.cons.inj hgap
        exact absurd ht.closed hs.open_before
  subst hprefix
  exact ⟨rfl, (List.cons.inj (List.append_cancel_left h)).2⟩

end

/-! ## Unfolding -/

/-- Whether the second tokens are the first ones with a body in parentheses in some places of an
operand. -/
inductive Unfolding (a : Value × String) (body : List Token) : List Token → List Token → Prop
  | nil : Unfolding a body [] []
  | keep (token : Token) {s t : List Token} (h : Unfolding a body s t) :
    Unfolding a body (token :: s) (token :: t)
  | unfold {s t : List Token} (h : Unfolding a body s t) :
    Unfolding a body (.operand a.1 a.2 :: s) (.leftParen :: (body ++ .rightParen :: t))

/-- Whether the second tree is the first one with a tree of the body in parentheses in some places
of an operand. -/
inductive Tree.Unfolds (a : Value × String) (body : List Token) :
    Tree (Value × String) → Tree (Value × String) → Prop
  | operand (b : Value × String) : Unfolds a body (.operand b) (.operand b)
  | unfold {inner : Tree (Value × String)} (htokens : inner.tokens = body) (hfits : inner.Fits 0) :
    Unfolds a body (.operand a) (.paren inner)
  | paren {s t : Tree (Value × String)} (h : Unfolds a body s t) :
    Unfolds a body (.paren s) (.paren t)
  | signed (sign : Sign) {s t : Tree (Value × String)} (h : Unfolds a body s t) :
    Unfolds a body (.signed sign s) (.signed sign t)
  | binary (op : Operator) {s s' t t' : Tree (Value × String)} (hleft : Unfolds a body s t)
    (hright : Unfolds a body s' t') : Unfolds a body (.binary op s s') (.binary op t t')

section
variable {a : Value × String} {body : List Token}

/-- Unfolding makes tokens no fewer. -/
theorem Unfolding.length_le {s t : List Token} (h : Unfolding a body s t) :
    s.length ≤ t.length := by
  induction h with
  | nil => exact Nat.le_refl _
  | keep token _ ih => exact Nat.succ_le_succ ih
  | unfold _ ih =>
    simp only [List.length_cons, List.length_append]
    omega

/-- What unfolds two lists, one behind the other, is made of what unfolds them. -/
theorem Unfolding.of_append {s s' t : List Token} (h : Unfolding a body (s ++ s') t) :
    ∃ t₁ t₂, t = t₁ ++ t₂ ∧ Unfolding a body s t₁ ∧ Unfolding a body s' t₂ := by
  induction s generalizing t with
  | nil => exact ⟨[], t, rfl, .nil, h⟩
  | cons token s ih =>
    cases h with
    | keep _ h =>
      obtain ⟨t₁, t₂, rfl, h₁, h₂⟩ := ih h
      exact ⟨_, t₂, rfl, .keep _ h₁, h₂⟩
    | unfold h =>
      obtain ⟨t₁, t₂, rfl, h₁, h₂⟩ := ih h
      exact ⟨.leftParen :: (body ++ .rightParen :: t₁), t₂, by simp, .unfold h₁, h₂⟩

/-- The tree of folded tokens can be unfolded. -/
theorem Tree.exists_unfolds {s inner : Tree (Value × String)} {tokens : List Token}
    (htokens : inner.tokens = body) (hfits : inner.Fits 0) (h : Unfolding a body s.tokens tokens) :
    ∃ t, tokens = t.tokens ∧ Tree.Unfolds a body s t := by
  induction s generalizing tokens with
  | operand b =>
    generalize hb : (Tree.operand b).tokens = folded at h
    rw [Tree.tokens_operand] at hb
    cases h with
    | nil => cases hb
    | keep token h =>
      obtain ⟨rfl, rfl⟩ := List.cons.inj hb
      cases h
      exact ⟨.operand b, rfl, .operand b⟩
    | unfold h =>
      obtain ⟨hoperand, rfl⟩ := List.cons.inj hb
      obtain rfl : b = a := Prod.ext (Token.operand.inj hoperand).1 (Token.operand.inj hoperand).2
      cases h
      exact ⟨.paren inner, by simp [htokens], .unfold htokens hfits⟩
  | paren s ih =>
    cases h with
    | keep _ h =>
      obtain ⟨t₁, t₂, rfl, h₁, h₂⟩ := h.of_append
      obtain ⟨t, rfl, ht⟩ := ih h₁
      cases h₂ with
      | keep _ h₂ =>
        cases h₂
        exact ⟨.paren t, rfl, .paren ht⟩
  | signed sign s ih =>
    cases h with
    | keep _ h =>
      obtain ⟨t, rfl, ht⟩ := ih h
      exact ⟨.signed sign t, rfl, .signed sign ht⟩
  | binary op left right ihl ihr =>
    obtain ⟨t₁, t₂, rfl, h₁, h₂⟩ := h.of_append
    obtain ⟨t, rfl, ht⟩ := ihl h₁
    cases h₂ with
    | keep _ h₂ =>
      obtain ⟨t', rfl, ht'⟩ := ihr h₂
      exact ⟨.binary op t t', rfl, .binary op ht ht'⟩

/-- Unfolded tokens are cut where the folded ones are, if the first part does not begin in an
unfolded place that it does not end in. -/
theorem Unfolding.split {tokens s t : List Token} (hbody : Balanced body)
    (h : Unfolding a body tokens (s ++ t)) (hs : ∀ front tail, s = front ++ tail → openings tail ≤ 0) :
    ∃ s' t', tokens = s' ++ t' ∧ Unfolding a body s' s ∧ Unfolding a body t' t := by
  generalize hcut : s ++ t = both at h
  induction h generalizing s with
  | nil =>
    obtain ⟨rfl, rfl⟩ := List.append_eq_nil_iff.1 hcut
    exact ⟨[], [], rfl, .nil, .nil⟩
  | @keep token tokens rest hrest ih =>
    cases s with
    | nil =>
      rw [List.nil_append] at hcut
      subst hcut
      exact ⟨[], _, rfl, .nil, .keep token hrest⟩
    | cons token' s =>
      obtain ⟨rfl, hrest⟩ := List.cons.inj hcut
      obtain ⟨s', t', rfl, h₁, h₂⟩ :=
        ih (fun front tail h => hs (token' :: front) tail (congrArg (token' :: ·) h)) hrest
      exact ⟨_, t', rfl, .keep _ h₁, h₂⟩
  | @unfold tokens rest hrest ih =>
    cases s with
    | nil =>
      rw [List.nil_append] at hcut
      subst hcut
      exact ⟨[], _, rfl, .nil, .unfold hrest⟩
    | cons token' s =>
      obtain ⟨rfl, hinside⟩ := List.cons.inj hcut
      have hopen : openings s ≤ -1 := by
        have := hs [] _ rfl
        simp only [openings_cons, Token.opens] at this
        omega
      rcases List.append_eq_append_iff.1 hinside with ⟨gap, hgap, -⟩ | ⟨gap, rfl, hgap⟩
      · have := hbody.nonneg _ _ hgap
        omega
      · cases gap with
        | nil =>
          rw [List.append_nil, hbody.closed] at hopen
          omega
        | cons token' gap =>
          obtain ⟨rfl, rfl⟩ := List.cons.inj hgap
          obtain ⟨s', t', rfl, h₁, h₂⟩ := ih
            (fun front tail h => hs (.leftParen :: (body ++ .rightParen :: front)) tail
              (by rw [h]; simp)) rfl
          exact ⟨_, t', rfl, .unfold h₁, h₂⟩

/-- The tree of unfolded tokens can be folded. -/
theorem Tree.exists_folds {t : Tree (Value × String)} {k : Nat} {tokens : List Token}
    (hfits : t.Fits k) (hbody : Balanced body) (h : Unfolding a body tokens t.tokens) :
    ∃ s, tokens = s.tokens ∧ Tree.Unfolds a body s t := by
  induction t generalizing k tokens with
  | operand b =>
    cases h with
    | keep _ h =>
      cases h
      exact ⟨.operand b, rfl, .operand b⟩
  | paren inner ih =>
    generalize htokens : (Tree.paren inner).tokens = unfolded at h
    rw [Tree.tokens_paren, List.cons_append] at htokens
    cases h with
    | nil => cases htokens
    | keep token h =>
      obtain ⟨rfl, rfl⟩ := List.cons.inj htokens
      obtain ⟨s', t', rfl, h₁, h₂⟩ := h.split hbody fun _ _ => inner.balanced_tokens.nonpos
      obtain ⟨s, rfl, hs⟩ := ih hfits h₁
      cases h₂ with
      | keep _ h₂ =>
        cases h₂
        exact ⟨.paren s, rfl, .paren hs⟩
    | @unfold s t h =>
      obtain ⟨hbodies, rfl⟩ := inner.balanced_tokens.eq_of_append hbody (List.cons.inj htokens).2
      cases h
      exact ⟨.operand a, rfl, .unfold hbodies hfits⟩
  | signed sign inner ih =>
    cases h with
    | keep _ h =>
      obtain ⟨s, rfl, hs⟩ := ih hfits h
      exact ⟨.signed sign s, rfl, .signed sign hs⟩
  | binary op left right ihl ihr =>
    obtain ⟨s', t', rfl, h₁, h₂⟩ := h.split hbody fun _ _ => left.balanced_tokens.nonpos
    obtain ⟨s, rfl, hs⟩ := ihl hfits.2.1 h₁
    cases h₂ with
    | keep _ h₂ =>
      obtain ⟨s', rfl, hs'⟩ := ihr hfits.2.2 h₂
      exact ⟨.binary op s s', rfl, .binary op hs hs'⟩

/-! ## Values -/

/-- Trees that are written alike have the same value. -/
theorem Tree.value_eq_of_tokens {s t : Tree (Value × String)} (hs : s.Fits 0) (ht : t.Fits 0)
    (h : s.tokens = t.tokens) : s.value = t.value := by
  have hdepth : s.nesting < max s.nesting t.nesting + 1 ∧ t.nesting < max s.nesting t.nesting + 1 := by
    omega
  rw [← evalTokens_tokens hs hdepth.1, h, evalTokens_tokens ht hdepth.2]

namespace Tree.Unfolds

variable {s t inner : Tree (Value × String)}

/-- A tree in parentheses fits wherever the operand fits that it is put for. -/
theorem fits_iff (h : Tree.Unfolds a body s t) (k : Nat) : s.Fits k ↔ t.Fits k := by
  induction h generalizing k with
  | operand => rfl
  | unfold _ hfits => exact iff_of_true trivial hfits
  | paren _ ih => exact ih 0
  | signed _ _ ih => exact ih levels.length
  | binary op _ _ ihl ihr => exact and_congr_right fun _ => and_congr (ihl _) (ihr _)

/-- Unfolding makes a tree nested no less deeply. -/
theorem nesting_le (h : Tree.Unfolds a body s t) : s.nesting ≤ t.nesting := by
  induction h with
  | operand => exact Nat.le_refl _
  | unfold => exact Nat.zero_le _
  | paren _ ih => exact Nat.succ_le_succ ih
  | signed _ _ ih => exact Nat.succ_le_succ ih
  | binary _ _ _ ihl ihr =>
    simp only [Tree.nesting]
    omega

/-- Unfolding keeps the value, if the body has that of the operand. -/
theorem value_eq (h : Tree.Unfolds a body s t) (htokens : inner.tokens = body)
    (hfits : inner.Fits 0)
    (hvalue : inner.value = .ok a.1) : s.value = t.value := by
  induction h with
  | operand => rfl
  | @unfold inner' htokens' hfits' =>
    have hsame := Tree.value_eq_of_tokens hfits hfits' (htokens.trans htokens'.symm)
    exact hvalue.symm.trans hsame
  | paren _ ih => exact ih
  | signed sign _ ih => rw [Tree.value_signed, Tree.value_signed, ih]
  | binary op _ _ ihl ihr => rw [Tree.value_binary, Tree.value_binary, ihl, ihr]

end Tree.Unfolds

/-- What unfolding does to the text of several tokens: nothing. -/
theorem Tree.Unfolds.shown_eq {s t inner : Tree (Value × String)} (h : Tree.Unfolds a body s t)
    (htokens : inner.tokens = body) (hfits : inner.Fits 0) (hvalue : inner.value = .ok a.1)
    (hs : 1 < s.tokens.length) (ht : 1 < t.tokens.length) : s.shown = t.shown := by
  rw [Tree.shown_of_several hs, Tree.shown_of_several ht, h.value_eq htokens hfits hvalue]

section
variable {depth : Nat} {tokens tokens' : List Token} {text : String}
  (h : Unfolding a body tokens tokens') (hseveral : 1 < tokens.length)
  (hvalue : evalTokens (depth + 1) body = .ok a.1)

include h hseveral hvalue

/-- Several tokens evaluate to what the same tokens unfolded do, if the body has the value of the
operand. -/
theorem evalToText_of_unfolding (htext : evalToText (depth + 1) tokens' = .ok text) :
    evalToText (depth + 1) tokens = .ok text := by
  obtain ⟨inner, hfits, hinner, rfl⟩ := exists_tree_of_evalTokens hvalue
  rw [evalTokens_tokens hfits hinner] at hvalue
  obtain ⟨t, ht, hdepth, rfl⟩ := exists_tree_of_evalToText htext
  obtain ⟨s, rfl, hunfolds⟩ := Tree.exists_folds ht inner.balanced_tokens h
  rw [evalToText_tokens ht hdepth] at htext
  rw [evalToText_tokens ((hunfolds.fits_iff 0).2 ht)
    (Nat.lt_of_le_of_lt hunfolds.nesting_le hdepth), ← htext]
  exact hunfolds.shown_eq rfl hfits hvalue hseveral (Nat.lt_of_lt_of_le hseveral h.length_le)

/-- Unfolded tokens evaluate to what the tokens do, unless they are nested too deeply. -/
theorem evalToText_unfolding
    (hnesting : ∀ t : Tree (Value × String), t.Fits 0 → t.tokens = tokens' → t.nesting < depth + 1)
    (htext : evalToText (depth + 1) tokens = .ok text) :
    evalToText (depth + 1) tokens' = .ok text := by
  obtain ⟨inner, hfits, hinner, rfl⟩ := exists_tree_of_evalTokens hvalue
  rw [evalTokens_tokens hfits hinner] at hvalue
  have hseveral' := Nat.lt_of_lt_of_le hseveral h.length_le
  obtain ⟨s, hs, hdepth, rfl⟩ := exists_tree_of_evalToText htext
  obtain ⟨t, rfl, hunfolds⟩ := Tree.exists_unfolds rfl hfits h
  have ht := (hunfolds.fits_iff 0).1 hs
  rw [evalToText_tokens hs hdepth] at htext
  rw [evalToText_tokens ht (hnesting t ht rfl), ← htext]
  exact (hunfolds.shown_eq rfl hfits hvalue hseveral hseveral').symm

end

end

/-! ## Depth -/

/-- Trees are nested less deeply than they have lexemes. -/
theorem Tree.nesting_lt_length (t : Tree Operand) : t.nesting < t.written.length := by
  unfold Tree.written
  induction t with
  | operand => exact Nat.zero_lt_one
  | paren inner ih =>
    simp only [nesting, spell, List.length_append, List.length_cons]
    omega
  | signed sign inner ih => exact Nat.succ_lt_succ ih
  | binary op left right ihl ihr =>
    simp only [nesting, spell, List.length_append, List.length_cons]
    omega

/-- Trees are nested at least as deeply as they begin with parentheses and minus signs. -/
theorem Tree.length_le_nesting {t : Tree Operand} {front rest more : List Lexeme}
    (hfront : ∀ l ∈ front, l = .leftParen ∨ l = .operator .minus)
    (h : t.written ++ more = front ++ rest) : front.length ≤ t.nesting := by
  induction t generalizing front more with
  | operand a =>
    cases front with
    | nil => exact Nat.zero_le _
    | cons l front =>
      obtain ⟨rfl, -⟩ := List.cons.inj h
      have hhead := hfront _ List.mem_cons_self
      rcases a with ⟨_ | _⟩ | _ <;> simp [operandSpelling, Operand.lexeme, Literal.lexeme] at hhead
  | paren inner ih =>
    cases front with
    | nil => exact Nat.zero_le _
    | cons l front =>
      have hinside : inner.written ++ ([.rightParen] ++ more) = front ++ rest :=
        (List.append_assoc ..).symm.trans (List.cons.inj h).2
      exact Nat.succ_le_succ (ih (fun l hl => hfront l (List.mem_cons_of_mem _ hl)) hinside)
  | signed sign inner ih =>
    cases front with
    | nil => exact Nat.zero_le _
    | cons l front =>
      exact Nat.succ_le_succ (ih (fun l hl => hfront l (List.mem_cons_of_mem _ hl))
        (List.cons.inj h).2)
  | binary op left right ihl _ =>
    have hleft : left.written ++ (.operator op :: right.written ++ more) = front ++ rest := by
      rw [← h, ← List.append_assoc]
      rfl
    exact Nat.le_trans (ihl hfront hleft) (Nat.le_max_left _ _)

end XmlMacros.Expr
