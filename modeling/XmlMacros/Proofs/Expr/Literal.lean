import XmlMacros.Proofs.Expr.Grammar
import XmlMacros.Proofs.Expr.Lexing
import Mathlib.Data.List.Forall2

/-!
# Trees of literals

The grammar without names: its operands are numerals and texts between quotes. `Tree.lexemes` is how
such a tree is written, `Tree.text` is the text it stands for. A lexeme denotes a token if its
operand has a value (`Denotes`); the lexemes of a tree denote the tokens of a tree of the same
shape, and the other way around (`exists_tree_of_lexemes`, `exists_tree_of_tokens`).
-/

namespace XmlMacros.Expr

open Decimal

/-- An operand without a name: a numeral, or a text between quotes. -/
inductive Literal
  | number (n : Numeral) (h : n.WellFormed)
  | quoted (quote : Char) (body : List Char) (hquote : quote = '\'' ∨ quote = '"')
    (hbody : quote ∉ body)

/-- The lexeme of a literal. -/
def Literal.lexeme : Literal → Lexeme
  | .number n _ => .number n
  | .quoted quote body _ _ => .quoted quote body

/-- The value of a literal. -/
def Literal.value : Literal → Except Cause Value
  | .number n _ => (numberOfNumeral false n).map .number
  | .quoted _ body _ _ => .ok (.text (String.ofList body))

/-- How trees of literals are written. -/
def lexemeSpelling : Spelling Literal Lexeme where
  operand := Literal.lexeme
  operator := .operator
  leftParen := .leftParen
  rightParen := .rightParen

/-- The lexemes of a tree, in reading order. -/
def Tree.lexemes (t : Tree Literal) : List Lexeme :=
  t.spell lexemeSpelling

/-- The text that a tree stands for: that of its value, or the numeral if it is nothing else. -/
def Tree.text (t : Tree Literal) : Except Cause String := do
  let v ← t.eval Literal.value
  match t with
  | .operand (.number n _) => return String.ofList n.chars
  | _ => v.write

/-! ## How trees are written -/

/-- The lexeme of a literal is one that can be scanned. -/
theorem Literal.proper (a : Literal) : a.lexeme.Proper := by
  cases a with
  | number n h => exact h
  | quoted quote body hquote hbody => exact ⟨hquote, hbody⟩

/-- Every lexeme of a tree is one that can be scanned. -/
theorem Tree.proper_of_mem_lexemes {t : Tree Literal} {l : Lexeme} (h : l ∈ t.lexemes) :
    l.Proper := by
  unfold Tree.lexemes at h
  induction t with
  | operand a =>
    obtain rfl := List.mem_singleton.1 h
    exact a.proper
  | paren inner ih =>
    rcases List.mem_cons.1 h with rfl | h
    · trivial
    · rcases List.mem_append.1 h with h | h
      · exact ih h
      · obtain rfl := List.mem_singleton.1 h
        trivial
  | signed sign inner ih =>
    rcases List.mem_cons.1 h with rfl | h
    · trivial
    · exact ih h
  | binary op left right ihl ihr =>
    rcases List.mem_append.1 h with h | h
    · exact ihl h
    · rcases List.mem_cons.1 h with rfl | h
      · trivial
      · exact ihr h

/-- In a tree no operand stands right behind another one. -/
theorem Tree.lexemes_apart (t : Tree Literal) :
    t.lexemes.IsChain fun a b => a.isOperand = true → b.isOperand = false := by
  unfold Tree.lexemes
  induction t with
  | operand a => exact .singleton _
  | paren inner ih =>
    refine .cons (.append ih (.singleton _) ?_) nofun
    rintro a - b ⟨⟩ -
    rfl
  | signed sign inner ih => exact .cons ih nofun
  | binary op left right ihl ihr =>
    refine .append ihl (.cons ihr nofun) ?_
    rintro a - b ⟨⟩ -
    rfl

/-! ## Trees of the same shape -/

/-- Whether two trees have the same shape, with related operands in the same places. -/
inductive Tree.Alike {α β : Type} (R : α → β → Prop) : Tree α → Tree β → Prop
  | operand {a : α} {b : β} (h : R a b) : Alike R (.operand a) (.operand b)
  | paren {s : Tree α} {t : Tree β} (h : Alike R s t) : Alike R (.paren s) (.paren t)
  | signed (sign : Sign) {s : Tree α} {t : Tree β} (h : Alike R s t) :
    Alike R (.signed sign s) (.signed sign t)
  | binary (op : Operator) {s s' : Tree α} {t t' : Tree β} (hleft : Alike R s t)
    (hright : Alike R s' t') : Alike R (.binary op s s') (.binary op t t')

section
variable {α β γ δ : Type} {R : α → β → Prop} {s : Tree α} {t : Tree β}

theorem Tree.Alike.flip (h : Tree.Alike R s t) : Tree.Alike (fun b a => R a b) t s := by
  induction h with
  | operand h => exact .operand h
  | paren _ ih => exact .paren ih
  | signed sign _ ih => exact .signed sign ih
  | binary op _ _ ihl ihr => exact .binary op ihl ihr

/-- Trees of the same shape need the same room. -/
theorem Tree.Alike.fits_iff (h : Tree.Alike R s t) (k : Nat) : s.Fits k ↔ t.Fits k := by
  induction h generalizing k with
  | operand => rfl
  | paren _ ih => exact ih 0
  | signed _ _ ih => exact ih levels.length
  | binary op _ _ ihl ihr => exact and_congr_right fun _ => and_congr (ihl _) (ihr _)

/-- Trees of the same shape are nested equally deeply. -/
theorem Tree.Alike.nesting_eq (h : Tree.Alike R s t) : s.nesting = t.nesting := by
  induction h with
  | operand => rfl
  | paren _ ih => exact congrArg (· + 1) ih
  | signed _ _ ih => exact congrArg (· + 1) ih
  | binary _ _ _ ihl ihr => exact congrArg₂ max ihl ihr

/-- Trees of the same shape whose operands have the same values have the same value. -/
theorem Tree.Alike.eval_eq {value : α → Except Cause Value} {value' : β → Except Cause Value}
    (h : Tree.Alike R s t) (hR : ∀ a b, R a b → value a = value' b) :
    s.eval value = t.eval value' := by
  induction h with
  | operand h => exact hR _ _ h
  | paren _ ih => exact ih
  | signed sign _ ih => simp only [Tree.eval, ih]
  | binary op _ _ ihl ihr => simp only [Tree.eval, ihl, ihr]

theorem forall₂_append_left {S : γ → δ → Prop} {l₁ l₂ : List γ} {us : List δ}
    (h : List.Forall₂ S (l₁ ++ l₂) us) :
    ∃ us₁ us₂, us = us₁ ++ us₂ ∧ List.Forall₂ S l₁ us₁ ∧ List.Forall₂ S l₂ us₂ := by
  induction l₁ generalizing us with
  | nil => exact ⟨[], us, rfl, .nil, h⟩
  | cons a l₁ ih =>
    obtain ⟨b, us', hab, hrest, rfl⟩ := List.forall₂_cons_left_iff.1 h
    obtain ⟨us₁, us₂, rfl, h₁, h₂⟩ := ih hrest
    exact ⟨b :: us₁, us₂, rfl, .cons hab h₁, h₂⟩

/-- What is related part by part to the spelling of a tree is the spelling of a tree of the same
shape, if operands are related to operands, and operators and parentheses to themselves. -/
theorem Tree.exists_alike_of_forall₂ {w : Spelling α γ} (w' : Spelling β δ) {S : γ → δ → Prop}
    (hoperand : ∀ a u, S (w.operand a) u → ∃ b, R a b ∧ u = w'.operand b)
    (hoperator : ∀ op u, S (w.operator op) u → u = w'.operator op)
    (hleft : ∀ u, S w.leftParen u → u = w'.leftParen)
    (hright : ∀ u, S w.rightParen u → u = w'.rightParen) {us : List δ}
    (h : List.Forall₂ S (s.spell w) us) : ∃ t, Tree.Alike R s t ∧ us = t.spell w' := by
  induction s generalizing us with
  | operand a =>
    obtain ⟨u, us', hu, hrest, rfl⟩ := List.forall₂_cons_left_iff.1 h
    obtain rfl := List.forall₂_nil_left_iff.1 hrest
    obtain ⟨b, hb, rfl⟩ := hoperand a u hu
    exact ⟨.operand b, .operand hb, rfl⟩
  | paren inner ih =>
    obtain ⟨u, us', hu, hrest, rfl⟩ := List.forall₂_cons_left_iff.1 h
    obtain ⟨us₁, us₂, rfl, h₁, h₂⟩ := forall₂_append_left hrest
    obtain ⟨u', us', hu', hnil, rfl⟩ := List.forall₂_cons_left_iff.1 h₂
    obtain rfl := List.forall₂_nil_left_iff.1 hnil
    obtain ⟨t, ht, rfl⟩ := ih h₁
    obtain rfl := hleft u hu
    obtain rfl := hright u' hu'
    exact ⟨.paren t, .paren ht, rfl⟩
  | signed sign inner ih =>
    obtain ⟨u, us', hu, hrest, rfl⟩ := List.forall₂_cons_left_iff.1 h
    obtain ⟨t, ht, rfl⟩ := ih hrest
    obtain rfl := hoperator _ u hu
    exact ⟨.signed sign t, .signed sign ht, rfl⟩
  | binary op left right ihl ihr =>
    obtain ⟨us₁, us₂, rfl, h₁, h₂⟩ := forall₂_append_left h
    obtain ⟨u, us', hu, hrest, rfl⟩ := List.forall₂_cons_left_iff.1 h₂
    obtain ⟨t, ht, rfl⟩ := ihl h₁
    obtain ⟨t', ht', rfl⟩ := ihr hrest
    obtain rfl := hoperator _ u hu
    exact ⟨.binary op t t', .binary op ht ht', rfl⟩

end

/-! ## Lexemes and tokens -/

/-- Whether a lexeme stands for a token; a name stands for none by itself. -/
inductive Denotes : Lexeme → Token → Prop
  | number {n : Numeral} {x : Number} (h : numberOfNumeral false n = .ok x) :
    Denotes (.number n) (.operand (.number x) (String.ofList n.chars))
  | quoted (quote : Char) (body : List Char) :
    Denotes (.quoted quote body)
      (.operand (.text (String.ofList body)) (String.ofList (Lexeme.quoted quote body).chars))
  | operator (op : Operator) : Denotes (.operator op) (.operator op)
  | leftParen : Denotes .leftParen .leftParen
  | rightParen : Denotes .rightParen .rightParen

/-- Whether an operand of tokens is the value of a literal, shown as the literal is written. -/
def Literal.Carried (a : Literal) (b : Value × String) : Prop :=
  a.value = .ok b.1 ∧ b.2 = String.ofList a.lexeme.chars

/-- A number that is read without a sign in front is the value of its literal. -/
theorem Literal.value_number {n : Numeral} {x : Number} (hn : n.WellFormed)
    (h : numberOfNumeral false n = .ok x) : (Literal.number n hn).value = .ok (.number x) := by
  rw [Literal.value, h]
  rfl

/-- The token of a literal is an operand, with the value of the literal and its text. -/
theorem Literal.carried_of_denotes {a : Literal} {u : Token} (h : Denotes a.lexeme u) :
    ∃ b, a.Carried b ∧ u = tokenSpelling.operand b := by
  cases a with
  | number n hn =>
    cases h with
    | number hx => exact ⟨(_, _), ⟨Literal.value_number hn hx, rfl⟩, rfl⟩
  | quoted quote body _ _ =>
    cases h
    exact ⟨(_, _), ⟨rfl, rfl⟩, rfl⟩

/-- A lexeme that stands for an operand is that of a literal with this value. -/
theorem Literal.exists_of_denotes {l : Lexeme} {b : Value × String} (hl : l.Proper)
    (h : Denotes l (.operand b.1 b.2)) : ∃ a : Literal, a.Carried b ∧ l = a.lexeme := by
  obtain ⟨v, text⟩ := b
  cases h with
  | @number n x hx => exact ⟨.number n hl, ⟨Literal.value_number hl hx, rfl⟩, rfl⟩
  | quoted quote body => exact ⟨.quoted quote body hl.1 hl.2, ⟨rfl, rfl⟩, rfl⟩

/-- The tokens that the lexemes of a tree stand for are those of a tree of its shape. -/
theorem exists_tree_of_lexemes {t : Tree Literal} {tokens : List Token}
    (h : List.Forall₂ Denotes t.lexemes tokens) :
    ∃ t' : Tree (Value × String), Tree.Alike Literal.Carried t t' ∧ tokens = t'.tokens := by
  have hoperand (a : Literal) (u : Token) := Literal.carried_of_denotes (a := a) (u := u)
  refine Tree.exists_alike_of_forall₂ tokenSpelling hoperand ?_ ?_ ?_ h
  · rintro op u ⟨⟩
    rfl
  · rintro u ⟨⟩
    rfl
  · rintro u ⟨⟩
    rfl

/-- Lexemes that stand for the tokens of a tree are those of a tree of its shape. -/
theorem exists_tree_of_tokens {t' : Tree (Value × String)} {ls : List Lexeme}
    (hproper : ∀ l ∈ ls, l.Proper) (h : List.Forall₂ Denotes ls t'.tokens) :
    ∃ t : Tree Literal, Tree.Alike Literal.Carried t t' ∧ ls = t.lexemes := by
  have hflip : List.Forall₂ (fun u l => l.Proper ∧ Denotes l u) t'.tokens ls :=
    ((List.forall₂_and_left _ _).2 ⟨hproper, h⟩).flip
  obtain ⟨t, halike, rfl⟩ := Tree.exists_alike_of_forall₂ lexemeSpelling
    (R := fun b a => Literal.Carried a b)
    (fun b l hl => Literal.exists_of_denotes hl.1 hl.2) (by rintro op l ⟨-, ⟨⟩⟩; rfl)
    (by rintro l ⟨-, ⟨⟩⟩; rfl) (by rintro l ⟨-, ⟨⟩⟩; rfl) hflip
  exact ⟨t, halike.flip, rfl⟩

/-- The text of a tree of literals is what the tree of their values is shown as. -/
theorem Tree.Alike.text_eq {t : Tree Literal} {t' : Tree (Value × String)}
    (h : Tree.Alike Literal.Carried t t') : t.text = t'.shown := by
  have hvalue : t.eval Literal.value = t'.value := h.eval_eq fun a b hab => hab.1
  unfold Tree.text
  rw [hvalue]
  cases h with
  | operand hab =>
    rename_i a b
    obtain ⟨v, text⟩ := b
    obtain ⟨hv, rfl⟩ := hab
    cases a with
    | number n hn =>
      cases hx : numberOfNumeral false n with
      | error => rw [Literal.value, hx] at hv; cases hv
      | ok x =>
        rw [Literal.value_number hn hx] at hv
        cases hv
        rfl
    | quoted => cases hv; rfl
  | paren => rfl
  | signed => rfl
  | binary => rfl

/-- If a tree has a value, all its lexemes stand for tokens. -/
theorem Tree.denotes_of_mem_lexemes {t : Tree Literal} {v : Value}
    (h : t.eval Literal.value = .ok v) {l : Lexeme} (hl : l ∈ t.lexemes) :
    ∃ token, Denotes l token := by
  unfold Tree.lexemes at hl
  induction t generalizing v with
  | operand a =>
    obtain rfl := List.mem_singleton.1 hl
    cases a with
    | number n hn =>
      cases hx : numberOfNumeral false n with
      | error c => rw [Tree.eval, Literal.value, hx] at h; cases h
      | ok x => exact ⟨_, .number hx⟩
    | quoted quote body => exact ⟨_, .quoted quote body⟩
  | paren inner ih =>
    rcases List.mem_cons.1 hl with rfl | hl
    · exact ⟨_, .leftParen⟩
    · rcases List.mem_append.1 hl with hl | hl
      · exact ih h hl
      · obtain rfl := List.mem_singleton.1 hl
        exact ⟨_, .rightParen⟩
  | signed sign inner ih =>
    obtain ⟨a, ha, -⟩ := bind_eq_ok h
    rcases List.mem_cons.1 hl with rfl | hl
    · exact ⟨_, .operator _⟩
    · exact ih ha hl
  | binary op left right ihl ihr =>
    obtain ⟨a, ha, h⟩ := bind_eq_ok h
    obtain ⟨a', -, h⟩ := bind_eq_ok h
    obtain ⟨b, hb, -⟩ := bind_eq_ok h
    rcases List.mem_append.1 hl with hl | hl
    · exact ihl ha hl
    · rcases List.mem_cons.1 hl with rfl | hl
      · exact ⟨_, .operator _⟩
      · exact ihr hb hl

end XmlMacros.Expr
