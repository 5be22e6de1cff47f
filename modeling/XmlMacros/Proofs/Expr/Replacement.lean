import XmlMacros.Proofs.Expr.Literal

/-!
# Names stand for literals

The grammar with names: an operand is a literal or a name (`Operand`). Whatever text a name is
worth, it stands for one token, a number or a text (`StandsFor`), so the tokens of an expression are
those of a tree of the shape that the expression is written in. Its value is that of the tree in
which every name is replaced by a literal in parentheses (`Tree.replaceNames`,
`evalToText_of_written`), and an expression that is not written like a tree has none
(`exists_written_of_evalToText`).
-/

namespace XmlMacros.Expr

open Decimal

/-! ## Operands with names -/

/-- An operand as it is written: a literal, or a name. -/
inductive Operand
  | literal (a : Literal)
  | name (cs : List Char)

/-- The lexeme of an operand. -/
def Operand.lexeme : Operand → Lexeme
  | .literal a => a.lexeme
  | .name cs => .name cs

/-- How trees with names are written. -/
def operandSpelling : Spelling Operand Lexeme where
  operand := Operand.lexeme
  operator := .operator
  leftParen := .leftParen
  rightParen := .rightParen

/-- The lexemes of a tree with names, in reading order. -/
def Tree.written (t : Tree Operand) : List Lexeme :=
  t.spell operandSpelling

/-! ## Replacing names -/

/-- A literal that is no matter of spelling: a number, or any text. -/
inductive Constant
  | number (n : Numeral)
  | text (s : String)

/-- The value of a constant. -/
def Constant.value : Constant → Except Cause Value
  | .number n => (numberOfNumeral false n).map .number
  | .text s => .ok (.text s)

/-- The literal of a text, in parentheses: that of a number, perhaps with a minus sign, if the text
is one, and that of a text otherwise. -/
def Constant.parenthesised (s : String) : Tree Constant :=
  .paren <| match signedNumeral? s with
    | some (true, n) => .signed .minus (.operand (.number n))
    | some (false, n) => .operand (.number n)
    | none => .operand (.text s)

/-- The tree with other trees in the place of its operands. -/
def Tree.graft {α β : Type} (f : α → Tree β) : Tree α → Tree β
  | .operand a => f a
  | .paren inner => .paren (inner.graft f)
  | .signed sign inner => .signed sign (inner.graft f)
  | .binary op left right => .binary op (left.graft f) (right.graft f)

/-- What stands in the place of an operand, where names are worth texts. -/
def Operand.replaceName (worth : String → String) : Operand → Tree Constant
  | .literal (.number n _) => .operand (.number n)
  | .literal (.quoted _ body _ _) => .operand (.text (String.ofList body))
  | .name cs => Constant.parenthesised (worth (String.ofList cs))

/-- The tree in which every name is replaced by a literal of the text that it is worth. -/
def Tree.replaceNames (worth : String → String) (t : Tree Operand) : Tree Constant :=
  t.graft (Operand.replaceName worth)

/-- The value of a tree with other trees in the place of its operands is made of their values. -/
theorem Tree.eval_graft {α β : Type} (f : α → Tree β) (value : β → Except Cause Value)
    (t : Tree α) : (t.graft f).eval value = t.eval fun a => (f a).eval value := by
  induction t with
  | operand => rfl
  | paren inner ih => exact ih
  | signed sign inner ih => simp only [graft, eval, ih]
  | binary op left right ihl ihr => simp only [graft, eval, ihl, ihr]

/-- A minus sign in a text is one in front of the numeral. -/
theorem numberOfNumeral_true (n : Numeral) :
    numberOfNumeral true n = (numberOfNumeral false n).map Number.negate := by
  unfold numberOfNumeral
  split
  · split
    · rfl
    · simp [Except.map, Number.negate]
  · simp [Except.map, Number.negate, withSign]

/-- The literal of a text that is a number has this number as its value. -/
theorem Constant.eval_parenthesised_number {s : String} {x : Number}
    (h : number? s = some (.ok x)) :
    (parenthesised s).eval Constant.value = .ok (.number x) := by
  obtain ⟨⟨negative, n⟩, hn, hx⟩ := Option.map_eq_some_iff.1 h
  have hx : numberOfNumeral negative n = .ok x := hx
  unfold parenthesised
  rw [hn]
  cases negative with
  | false =>
    show (numberOfNumeral false n).map Value.number = _
    rw [hx]
    rfl
  | true =>
    rw [numberOfNumeral_true] at hx
    show ((numberOfNumeral false n).map Value.number >>= Sign.minus.apply) = _
    cases hy : numberOfNumeral false n with
    | error => rw [hy] at hx; cases hx
    | ok y => rw [hy] at hx; cases hx; rfl

/-- The literal of a text that is no number has this text as its value. -/
theorem Constant.eval_parenthesised_text {s : String} (h : number? s = none) :
    (parenthesised s).eval Constant.value = .ok (.text s) := by
  have hs : signedNumeral? s = none := Option.map_eq_none_iff.1 h
  unfold parenthesised
  rw [hs]
  rfl

/-! ## Lexemes and tokens -/

/-- Whether a lexeme stands for a token, where names are worth texts: a literal for the one that it
denotes, and a name for one number if its text is a number, or else for one text. -/
inductive StandsFor (worth : String → String) : Lexeme → Token → Prop
  | literal {l : Lexeme} {token : Token} (h : Denotes l token) : StandsFor worth l token
  | number {name : List Char} {x : Number} (h : number? (worth (String.ofList name)) = some (.ok x)) :
    StandsFor worth (.name name) (.operand (.number x) (worth (String.ofList name)))
  | text {name : List Char} (h : number? (worth (String.ofList name)) = none) :
    StandsFor worth (.name name)
      (.operand (.text (worth (String.ofList name))) (worth (String.ofList name)))

/-- The token of a text that is a number is an operand with this number. -/
theorem Token.ofText_of_number {s : String} {x : Number} (h : number? s = some (.ok x)) :
    Token.ofText s = .ok (.operand (.number x) s) := by
  obtain ⟨⟨negative, n⟩, hn, hx⟩ := Option.map_eq_some_iff.1 h
  have hx : numberOfNumeral negative n = .ok x := hx
  simp only [Token.ofText, hn, Token.ofNumeral, hx]
  rfl

/-- The token of a text that is no number is an operand with the text itself. -/
theorem Token.ofText_of_not_number {s : String} (h : number? s = none) :
    Token.ofText s = .ok (.operand (.text s) s) := by
  simp only [Token.ofText, Option.map_eq_none_iff.1 h]

/-- The token of a text is a number or a text, and shown as it is written. -/
theorem Token.ofText_cases {s : String} {token : Token} (h : Token.ofText s = .ok token) :
    (∃ x, number? s = some (.ok x) ∧ token = .operand (.number x) s) ∨
      (number? s = none ∧ token = .operand (.text s) s) := by
  cases hs : number? s with
  | none =>
    rw [Token.ofText_of_not_number hs] at h
    cases h
    exact .inr ⟨rfl, rfl⟩
  | some result =>
    cases result with
    | ok x =>
      rw [Token.ofText_of_number hs] at h
      cases h
      exact .inl ⟨x, rfl, rfl⟩
    | error c =>
      obtain ⟨⟨negative, n⟩, hn, hx⟩ := Option.map_eq_some_iff.1 hs
      have hx : numberOfNumeral negative n = .error c := hx
      simp only [Token.ofText, hn, Token.ofNumeral, hx] at h
      cases h

/-- The text is the numeral of an integer with too many digits. -/
def OverlongInteger (s : String) : Prop :=
  ∃ negative n, signedNumeral? s = some (negative, n) ∧ n.isInteger = true ∧
    digitLimit < n.digits.length

/-- All other texts have tokens. -/
theorem exists_ofText {s : String} (h : ¬ OverlongInteger s) :
    ∃ token, Token.ofText s = .ok token := by
  unfold Token.ofText
  cases hs : signedNumeral? s with
  | none => exact ⟨_, rfl⟩
  | some p =>
    obtain ⟨negative, n⟩ := p
    cases hinteger : n.isInteger with
    | false => exact ⟨_, by simp only [Token.ofNumeral, numberOfNumeral, hinteger]; rfl⟩
    | true =>
      have hshort : ¬ digitLimit < n.digits.length := fun hlong =>
        h ⟨negative, n, hs, hinteger, hlong⟩
      exact ⟨_, by simp only [Token.ofNumeral, numberOfNumeral, hinteger, if_pos, if_neg hshort]; rfl⟩

/-- A name stands for the token of the text that it is worth. -/
theorem StandsFor.of_ofText {worth : String → String} {name : List Char} {token : Token}
    (h : Token.ofText (worth (String.ofList name)) = .ok token) :
    StandsFor worth (.name name) token := by
  rcases Token.ofText_cases h with ⟨x, hx, rfl⟩ | ⟨hnone, rfl⟩
  · exact .number hx
  · exact .text hnone

/-- What a name stands for is the token of the text that it is worth. -/
theorem StandsFor.ofText_eq {worth : String → String} {name : List Char} {token : Token}
    (h : StandsFor worth (.name name) token) :
    Token.ofText (worth (String.ofList name)) = .ok token := by
  cases h with
  | literal h => cases h
  | number hx => exact Token.ofText_of_number hx
  | text hnone => exact Token.ofText_of_not_number hnone

/-! ## Trees -/

/-- Whether an operand of tokens is the value of an operand once names are replaced. -/
def Operand.Carried (worth : String → String) (a : Operand) (b : Value × String) : Prop :=
  (a.replaceName worth).eval Constant.value = .ok b.1

section
variable {worth : String → String}

/-- A literal has its value whatever names are worth. -/
theorem Operand.carried_literal {a : Literal} {b : Value × String} (h : a.Carried b) :
    (Operand.literal a).Carried worth b := by
  cases a with
  | number n hn => exact h.1
  | quoted => exact h.1

/-- The token of an operand is an operand, with the value that the lexeme has. -/
theorem Operand.carried_of_standsFor {a : Operand} {token : Token}
    (h : StandsFor worth a.lexeme token) :
    ∃ b, a.Carried worth b ∧ token = tokenSpelling.operand b := by
  cases a with
  | literal a =>
    have hdenotes : Denotes a.lexeme token := by
      cases a <;> cases h <;> assumption
    obtain ⟨b, hb, rfl⟩ := Literal.carried_of_denotes hdenotes
    exact ⟨b, Operand.carried_literal hb, rfl⟩
  | name cs =>
    cases h with
    | literal h => cases h
    | number hx => exact ⟨(_, _), Constant.eval_parenthesised_number hx, rfl⟩
    | text hnone => exact ⟨(_, _), Constant.eval_parenthesised_text hnone, rfl⟩

/-- A lexeme that stands for an operand is that of a literal or a name with this value. -/
theorem Operand.exists_of_standsFor {l : Lexeme} {b : Value × String}
    (hl : (∃ name, l = .name name) ∨ l.Proper) (h : StandsFor worth l (.operand b.1 b.2)) :
    ∃ a : Operand, a.Carried worth b ∧ l = a.lexeme := by
  obtain ⟨v, text⟩ := b
  rcases hl with ⟨name, rfl⟩ | hproper
  · obtain ⟨⟨v', text'⟩, hb, heq⟩ := Operand.carried_of_standsFor (a := .name name) h
    cases heq
    exact ⟨.name name, hb, rfl⟩
  · have hdenotes : Denotes l (.operand v text) := by
      cases h with
      | literal h => exact h
      | number | text => exact hproper.elim
    obtain ⟨a, ha, rfl⟩ := Literal.exists_of_denotes (b := (v, text)) hproper hdenotes
    exact ⟨.literal a, Operand.carried_literal ha, rfl⟩

/-- The tokens that the lexemes of a tree stand for are those of a tree of its shape. -/
theorem exists_tree_of_written {t : Tree Operand} {tokens : List Token}
    (h : List.Forall₂ (StandsFor worth) t.written tokens) :
    ∃ t' : Tree (Value × String), Tree.Alike (Operand.Carried worth) t t' ∧ tokens = t'.tokens := by
  refine Tree.exists_alike_of_forall₂ tokenSpelling
    (fun _ _ => Operand.carried_of_standsFor) ?_ ?_ ?_ h
  · rintro op u ⟨⟨⟩⟩
    rfl
  · rintro u ⟨⟨⟩⟩
    rfl
  · rintro u ⟨⟨⟩⟩
    rfl

/-- Lexemes that stand for the tokens of a tree are those of a tree of its shape. -/
theorem exists_written_of_tokens {t' : Tree (Value × String)} {ls : List Lexeme}
    (hls : ∀ l ∈ ls, (∃ name, l = .name name) ∨ l.Proper)
    (h : List.Forall₂ (StandsFor worth) ls t'.tokens) :
    ∃ t : Tree Operand, Tree.Alike (Operand.Carried worth) t t' ∧ ls = t.written := by
  have hflip : List.Forall₂
      (fun u l => ((∃ name, l = .name name) ∨ l.Proper) ∧ StandsFor worth l u) t'.tokens ls :=
    ((List.forall₂_and_left _ _).2 ⟨hls, h⟩).flip
  obtain ⟨t, halike, rfl⟩ := Tree.exists_alike_of_forall₂ operandSpelling
    (R := fun b a => Operand.Carried worth a b)
    (fun b l hl => Operand.exists_of_standsFor hl.1 hl.2) (by rintro op l ⟨-, ⟨⟨⟩⟩⟩; rfl)
    (by rintro l ⟨-, ⟨⟨⟩⟩⟩; rfl) (by rintro l ⟨-, ⟨⟨⟩⟩⟩; rfl) hflip
  exact ⟨t, halike.flip, rfl⟩

/-- Trees of the same shape are spelled with related parts, if operands are. -/
theorem Tree.Alike.forall₂_spell {α β γ δ : Type} {R : α → β → Prop} {S : γ → δ → Prop}
    {w : Spelling α γ} {w' : Spelling β δ} {s : Tree α} {t : Tree β} (h : Tree.Alike R s t)
    (hoperand : ∀ a b, R a b → S (w.operand a) (w'.operand b))
    (hoperator : ∀ op, S (w.operator op) (w'.operator op)) (hleft : S w.leftParen w'.leftParen)
    (hright : S w.rightParen w'.rightParen) : List.Forall₂ S (s.spell w) (t.spell w') := by
  induction h with
  | operand h => exact .cons (hoperand _ _ h) .nil
  | paren _ ih => exact .cons hleft (List.rel_append ih (.cons hright .nil))
  | signed sign _ ih => exact .cons (hoperator _) ih
  | binary op _ _ ihl ihr => exact List.rel_append ihl (.cons (hoperator op) ihr)

/-- The value of the tokens is that of the tree in which names are replaced. -/
theorem Tree.Alike.value_eq_replaceNames {t : Tree Operand} {t' : Tree (Value × String)}
    (h : Tree.Alike (Operand.Carried worth) t t') :
    t'.value = (t.replaceNames worth).eval Constant.value := by
  rw [Tree.replaceNames, Tree.eval_graft]
  exact (h.eval_eq fun _ _ hab => hab).symm

/-- Several tokens evaluate to the text of their value. -/
theorem Tree.shown_of_several {t : Tree (Value × String)} (h : 1 < t.tokens.length) :
    t.shown = t.value >>= Value.write := by
  cases t with
  | operand => simp at h
  | paren | signed | binary => rfl

/-- Tokens that the lexemes of a tree stand for, several of them, evaluate to the value of the tree
in which names are replaced. -/
theorem evalToText_of_written {depth : Nat} {t : Tree Operand} {tokens : List Token}
    (hfits : t.Fits 0) (hnesting : t.nesting < depth)
    (htokens : List.Forall₂ (StandsFor worth) t.written tokens) (hseveral : 1 < tokens.length) :
    evalToText depth tokens = (t.replaceNames worth).eval Constant.value >>= Value.write := by
  obtain ⟨t', halike, rfl⟩ := exists_tree_of_written htokens
  rw [evalToText_tokens ((halike.fits_iff 0).1 hfits) (halike.nesting_eq ▸ hnesting),
    Tree.shown_of_several hseveral, halike.value_eq_replaceNames]

/-- Tokens evaluate to something only if the lexemes that stand for them are those of a tree. -/
theorem exists_written_of_evalToText {depth : Nat} {ls : List Lexeme} {tokens : List Token}
    {text : String} (hls : ∀ l ∈ ls, (∃ name, l = .name name) ∨ l.Proper)
    (htokens : List.Forall₂ (StandsFor worth) ls tokens)
    (h : evalToText (depth + 1) tokens = .ok text) :
    ∃ t : Tree Operand, t.Fits 0 ∧ t.nesting < depth + 1 ∧ t.written = ls := by
  obtain ⟨t', hfits, hnesting, rfl⟩ := exists_tree_of_evalToText h
  obtain ⟨t, halike, rfl⟩ := exists_written_of_tokens hls htokens
  exact ⟨t, (halike.fits_iff 0).2 hfits, halike.nesting_eq ▸ hnesting, rfl⟩

end

/-! ## Names in texts -/

/-- Whether expressions can refer to a name: it starts with a letter or an underscore and goes on
with word characters and points. -/
def Referable (name : List Char) : Prop :=
  ∃ c cs, name = c :: cs ∧ isNameStart c = true ∧ ∀ d ∈ cs, isNameRest d = true

theorem toNat_of_isNameStart {c : Char} (h : isNameStart c = true) :
    65 ≤ c.toNat ∧ c.toNat ≤ 122 := by
  simp only [isNameStart, Text.isLatinLetter, Bool.or_eq_true, Bool.and_eq_true,
    decide_eq_true_eq, beq_iff_eq, Char.le_def, UInt32.le_iff_toNat_le] at h
  rcases h with (h | h) | rfl
  · exact ⟨le_trans (by decide) h.1, le_trans h.2 (by decide)⟩
  · exact ⟨le_trans (by decide) h.1, le_trans h.2 (by decide)⟩
  · decide

/-- What a name starts with is neither white space nor the start of a numeral or a quoted text. -/
theorem apart_of_isNameStart {c : Char} (h : isNameStart c = true) :
    Text.isBlank c = false ∧ Text.isDigit c = false ∧ c ≠ '.' ∧ c ≠ '\'' ∧ c ≠ '"' := by
  obtain ⟨hlow, hhigh⟩ := toNat_of_isNameStart h
  refine ⟨?_, ?_, ?_, ?_, ?_⟩
  · have apart : ∀ range ∈ Text.blankRanges, range.2 < 65 ∨ 122 < range.1 := by decide
    simp only [Text.isBlank, List.any_eq_false, Bool.and_eq_true, decide_eq_true_eq]
    intro range hrange
    have := apart range hrange
    omega
  · have apart : ∀ start ∈ Text.zeroPoints, start + 10 ≤ 65 ∨ 122 < start := by decide
    by_contra hdigit
    simp only [Text.isDigit, Text.digitValue?, Option.isSome_map, Bool.not_eq_false,
      List.find?_isSome, Bool.and_eq_true, decide_eq_true_eq] at hdigit
    obtain ⟨start, hstart, hstarts, hends⟩ := hdigit
    have := apart start hstart
    omega
  all_goals rintro rfl; exact absurd hlow (by decide)

/-- A name is read back, if what follows does not go on with it. -/
theorem Lexeme.scan?_name {name rest : List Char} (hname : Referable name)
    (hrest : ∀ c ∈ rest.head?, isNameRest c = false) :
    Lexeme.scan? (name ++ rest) = some (.name name, rest) := by
  obtain ⟨c, cs, rfl, hc, hcs⟩ := hname
  obtain ⟨hblank, hdigit, hpoint, hsingle, hdouble⟩ := apart_of_isNameStart hc
  rw [List.cons_append, Lexeme.scan?, if_neg (by simp [hblank]),
    Numeral.scan?_eq_none _ hdigit hpoint]
  simp [hsingle, hdouble, hc, Text.takeWhile_append_of_boundary hcs hrest,
    Text.dropWhile_append_of_boundary hcs hrest]

/-- A name is all that is read from it. -/
theorem visibleLexemes_name {name : List Char} (hname : Referable name) :
    visibleLexemes name = ([.name name], []) := by
  have hscan : Lexeme.scan? (name ++ []) = some (.name name, []) := Lexeme.scan?_name hname nofun
  rw [List.append_nil] at hscan
  rw [visibleLexemes_of_scan? hscan rfl, visibleLexemes_nil]

/-- What is read as a name can be referred to. -/
theorem referable_of_scan? {cs rest name : List Char}
    (h : Lexeme.scan? cs = some (.name name, rest)) : Referable name := by
  unfold Lexeme.scan? at h
  split at h
  · cases h
  · split at h
    · cases h
    · split at h
      · cases h
      · split at h
        · unfold scanQuoted? at h
          split at h <;> cases h
        · split at h
          · rename_i hstart
            cases h
            exact ⟨_, _, rfl, hstart, fun d hd => List.mem_takeWhile_imp hd⟩
          · unfold scanMark? at h
            split at h <;> cases h

/-- Every lexeme was read from somewhere. -/
theorem exists_scan?_of_mem {cs : List Char} {l : Lexeme} (h : l ∈ (Expr.lexemes cs).1) :
    ∃ cs' rest, Lexeme.scan? cs' = some (l, rest) := by
  match hscan : Lexeme.scan? cs with
  | none =>
    rw [lexemes_of_scan?_eq_none hscan] at h
    cases h
  | some (head, rest) =>
    have shorter := Lexeme.length_lt_of_scan? hscan
    rw [lexemes_of_scan?_eq_some hscan] at h
    rcases List.mem_cons.1 h with rfl | h
    · exact ⟨cs, rest, hscan⟩
    · exact exists_scan?_of_mem h
termination_by cs.length

/-! ## Parentheses around trees -/

/-- The tree in so many pairs of parentheses. -/
def Tree.enclosed {α : Type} : Nat → Tree α → Tree α
  | 0, t => t
  | n + 1, t => .paren (t.enclosed n)

/-- The tree behind so many minus signs. -/
def Tree.negated {α : Type} : Nat → Tree α → Tree α
  | 0, t => t
  | n + 1, t => .signed .minus (t.negated n)

section
variable {α β : Type}

@[simp] theorem Tree.fits_enclosed (n : Nat) (t : Tree α) : (t.enclosed n).Fits 0 ↔ t.Fits 0 := by
  induction n with
  | zero => rfl
  | succ n ih => exact ih

/-- Parentheses around a tree do not change its value. -/
@[simp] theorem Tree.eval_enclosed (value : α → Except Cause Value) (n : Nat) (t : Tree α) :
    (t.enclosed n).eval value = t.eval value := by
  induction n with
  | zero => rfl
  | succ n ih => exact ih

@[simp] theorem Tree.graft_enclosed (f : α → Tree β) (n : Nat) (t : Tree α) :
    (t.enclosed n).graft f = (t.graft f).enclosed n := by
  induction n with
  | zero => rfl
  | succ n ih => exact congrArg Tree.paren ih

/-- Trees of the same shape have the same shape in parentheses. -/
theorem Tree.Alike.enclosed {R : α → β → Prop} {s : Tree α} {t : Tree β} (h : Tree.Alike R s t)
    (n : Nat) : Tree.Alike R (s.enclosed n) (t.enclosed n) := by
  induction n with
  | zero => exact h
  | succ n ih => exact .paren ih

/-- A tree in parentheses is spelled with them in front and behind. -/
theorem Tree.spell_enclosed (w : Spelling α β) (n : Nat) (t : Tree α) :
    (t.enclosed n).spell w =
      List.replicate n w.leftParen ++ (t.spell w ++ List.replicate n w.rightParen) := by
  induction n with
  | zero => simp [Tree.enclosed]
  | succ n ih =>
    rw [Tree.enclosed, Tree.spell, ih, List.replicate_succ, List.replicate_succ']
    simp

/-- Each pair of parentheses makes a tree nested one deeper. -/
theorem Tree.nesting_enclosed (n : Nat) (t : Tree α) : (t.enclosed n).nesting = t.nesting + n := by
  induction n with
  | zero => rfl
  | succ n ih => exact congrArg (· + 1) ih

/-- A tree behind minus signs is spelled with them in front. -/
theorem Tree.spell_negated (w : Spelling α β) (n : Nat) (t : Tree α) :
    (t.negated n).spell w = List.replicate n (w.operator .minus) ++ t.spell w := by
  induction n with
  | zero => rfl
  | succ n ih =>
    rw [Tree.negated, Tree.spell, ih, List.replicate_succ]
    rfl

theorem Tree.fits_negated {t : Tree α} (h : ∀ k, t.Fits k) (n k : Nat) : (t.negated n).Fits k := by
  induction n generalizing k with
  | zero => exact h k
  | succ n ih => exact ih levels.length

/-- Each minus sign makes a tree nested one deeper. -/
theorem Tree.nesting_negated (n : Nat) (t : Tree α) : (t.negated n).nesting = t.nesting + n := by
  induction n with
  | zero => rfl
  | succ n ih => exact congrArg (· + 1) ih

end

/-- Operators and parentheses of one kind are read one by one. -/
theorem visibleLexemes_replicate {c : Char} {l : Lexeme}
    (hscan : ∀ cs, Lexeme.scan? (c :: cs) = some (l, cs)) (hl : l.isBlank = false) (n : Nat)
    (cs : List Char) : visibleLexemes (List.replicate n c ++ cs) =
      (List.replicate n l ++ (visibleLexemes cs).1, (visibleLexemes cs).2) := by
  induction n with
  | zero => rfl
  | succ n ih =>
    rw [List.replicate_succ, List.cons_append, visibleLexemes_of_scan? (hscan _) hl, ih]
    rfl

/-- So are parentheses around an operand. -/
theorem visibleLexemes_enclosed {c : Char} {l : Lexeme} {n : Nat}
    (hscan : Lexeme.scan? (c :: List.replicate n ')') = some (l, List.replicate n ')'))
    (hl : l.isBlank = false) : visibleLexemes (List.replicate n '(' ++ c :: List.replicate n ')') =
      (List.replicate n .leftParen ++ l :: List.replicate n .rightParen, []) := by
  have hclosing : visibleLexemes (List.replicate n ')') = (List.replicate n .rightParen, []) := by
    have h := visibleLexemes_replicate (Lexeme.scan?_of_mark (c := ')') (by decide)) rfl n []
    rwa [List.append_nil, visibleLexemes_nil, List.append_nil] at h
  rw [visibleLexemes_replicate (Lexeme.scan?_of_mark (by decide)) rfl,
    visibleLexemes_of_scan? hscan hl, hclosing]

/-- If no factor can be read, neither can an expression. -/
theorem expression_of_error {factor : Reader} {tokens : List Token} {c : Cause}
    (h : factor tokens = .error c) : expression factor tokens = .error c := by
  unfold expression
  induction levels with
  | nil => exact h
  | cons ops rest ih =>
    show (rest.foldr chain factor tokens >>= _) = _
    rw [ih]
    rfl

/-- As many pairs of parentheses as the limit are too many. -/
theorem evalToText_enclosed {depth : Nat} (h : 0 < depth) (t : Tree (Value × String)) :
    evalToText depth (t.enclosed depth).tokens = .error (.arithmetic .nestingTooDeep) := by
  rw [Tree.tokens, Tree.spell_enclosed]
  generalize t.spell tokenSpelling ++ List.replicate depth tokenSpelling.rightParen = rest
  show evalToText depth (List.replicate depth .leftParen ++ rest) = _
  have hread (depth : Nat) : expression (factor depth) (List.replicate depth .leftParen ++ rest) =
      .error (.arithmetic .nestingTooDeep) := by
    induction depth with
    | zero => exact expression_of_error rfl
    | succ depth ih =>
      refine expression_of_error ?_
      rw [List.replicate_succ, List.cons_append, factor, ih]
      rfl
  have hvalue : evalTokens depth (List.replicate depth .leftParen ++ rest) =
      .error (.arithmetic .nestingTooDeep) := by
    unfold evalTokens
    rw [hread]
    rfl
  obtain ⟨depth, rfl⟩ := Nat.exists_eq_succ_of_ne_zero (Nat.ne_zero_of_lt h)
  rw [List.replicate_succ, List.cons_append] at hvalue ⊢
  unfold evalToText
  rw [hvalue]
  rfl

end XmlMacros.Expr
