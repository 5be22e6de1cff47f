import XmlMacros.Decimal.Numeral
import XmlMacros.Text.Blank
import XmlMacros.Text.Word

/-!
# Lexemes of expressions

An expression is cut into white space, numerals, quoted texts, names, operators and parentheses.
`Lexeme.scan?` takes the longest lexeme of the first kind that fits, `lexemes` goes on until none
does. Both lose nothing: `chars` gives back what a lexeme was read from (`Lexeme.scan?_eq_some`,
`lexemes_chars`).
-/

namespace XmlMacros.Expr

open XmlMacros.Decimal XmlMacros.Text

/-- The operators of expressions. -/
inductive Operator
  | plus
  | minus
  | times
  | divide
  | remainder
  | bitOr
  | bitAnd
  | equal
deriving DecidableEq, Repr

/-- The characters of an operator. -/
def Operator.chars : Operator → List Char
  | .plus => ['+']
  | .minus => ['-']
  | .times => ['*']
  | .divide => ['/']
  | .remainder => ['%']
  | .bitOr => ['|']
  | .bitAnd => ['&']
  | .equal => ['=', '=']

/-- A piece of an expression. -/
inductive Lexeme
  | blank (cs : List Char)
  | number (n : Numeral)
  | quoted (quote : Char) (body : List Char)
  | name (cs : List Char)
  | operator (op : Operator)
  | leftParen
  | rightParen
deriving DecidableEq, Repr

/-- The characters that a lexeme is read from. -/
def Lexeme.chars : Lexeme → List Char
  | .blank cs => cs
  | .number n => n.chars
  | .quoted quote body => quote :: body ++ [quote]
  | .name cs => cs
  | .operator op => op.chars
  | .leftParen => ['(']
  | .rightParen => [')']

/-- Whether a name may start with the character. -/
def isNameStart (c : Char) : Bool :=
  isLatinLetter c || c == '_'

/-- Whether a name may go on with the character. -/
def isNameRest (c : Char) : Bool :=
  isWord c || c == '.'

/-- Whether expressions can refer to a name: it starts with a letter or an underscore and goes on
with word characters and points. One line feed at the end is let pass. -/
def isReferable (name : String) : Bool :=
  match name.toList with
  | [] => false
  | c :: cs =>
    isNameStart c && (cs.dropWhile isNameRest == [] || cs.dropWhile isNameRest == ['\n'])

/-- Reads a text between quotes at the start of `cs`, where `quote` was read before. -/
def scanQuoted? (quote : Char) (cs : List Char) : Option (Lexeme × List Char) :=
  match cs.dropWhile (· != quote) with
  | [] => none
  | _ :: rest => some (.quoted quote (cs.takeWhile (· != quote)), rest)

/-- Reads an operator or a parenthesis. -/
def scanMark? : List Char → Option (Lexeme × List Char)
  | '=' :: '=' :: cs => some (.operator .equal, cs)
  | '+' :: cs => some (.operator .plus, cs)
  | '-' :: cs => some (.operator .minus, cs)
  | '*' :: cs => some (.operator .times, cs)
  | '/' :: cs => some (.operator .divide, cs)
  | '%' :: cs => some (.operator .remainder, cs)
  | '|' :: cs => some (.operator .bitOr, cs)
  | '&' :: cs => some (.operator .bitAnd, cs)
  | '(' :: cs => some (.leftParen, cs)
  | ')' :: cs => some (.rightParen, cs)
  | _ => none

/-- Reads the first lexeme of a text. -/
def Lexeme.scan? (cs : List Char) : Option (Lexeme × List Char) :=
  match cs with
  | [] => none
  | c :: rest =>
    if isBlank c then some (.blank (c :: rest.takeWhile isBlank), rest.dropWhile isBlank)
    else
      match Numeral.scan? cs with
      | some (n, rest) => some (.number n, rest)
      | none =>
        if c == '\'' || c == '"' then scanQuoted? c rest
        else if isNameStart c then
          some (.name (c :: rest.takeWhile isNameRest), rest.dropWhile isNameRest)
        else scanMark? cs

/-- A quoted lexeme that is scanned and the rest are, after the opening quote, what was there:
nothing is lost between the quotes. -/
theorem scanQuoted?_eq_some {quote : Char} {cs rest : List Char} {l : Lexeme}
    (h : scanQuoted? quote cs = some (l, rest)) : quote :: cs = l.chars ++ rest := by
  have hcs := List.takeWhile_append_dropWhile (p := (· != quote)) (l := cs)
  have hhead : ∀ c tail, cs.dropWhile (· != quote) = c :: tail → c = quote := by
    intro c tail hd
    have := List.head?_dropWhile_not (· != quote) cs
    rw [hd] at this
    simpa using this
  unfold scanQuoted? at h
  split at h
  · simp at h
  · rename_i c tail hd
    simp only [Option.some.injEq, Prod.mk.injEq] at h
    obtain ⟨rfl, rfl⟩ := h
    have := hhead _ _ hd
    subst this
    rw [hd] at hcs
    simp [Lexeme.chars, hcs]

/-- A mark that is scanned is what the characters begin with, and it has a character of its own. -/
theorem scanMark?_eq_some {cs rest : List Char} {l : Lexeme}
    (h : scanMark? cs = some (l, rest)) : cs = l.chars ++ rest ∧ l.chars ≠ [] := by
  unfold scanMark? at h
  split at h <;> simp only [Option.some.injEq, Prod.mk.injEq, reduceCtorEq] at h <;>
    obtain ⟨rfl, rfl⟩ := h <;> simp [Lexeme.chars, Operator.chars]

/-- A lexeme is the start of the text it was read from, and it is not empty. -/
theorem Lexeme.scan?_eq_some {cs rest : List Char} {l : Lexeme}
    (h : Lexeme.scan? cs = some (l, rest)) : cs = l.chars ++ rest ∧ l.chars ≠ [] := by
  unfold Lexeme.scan? at h
  split at h
  · simp at h
  · split at h
    · simp only [Option.some.injEq, Prod.mk.injEq] at h
      obtain ⟨rfl, rfl⟩ := h
      simp [Lexeme.chars]
    · split at h
      · rename_i hn
        simp only [Option.some.injEq, Prod.mk.injEq] at h
        obtain ⟨rfl, rfl⟩ := h
        exact Numeral.scan?_eq_some hn
      · split at h
        · have := scanQuoted?_eq_some h
          refine ⟨this, ?_⟩
          unfold scanQuoted? at h
          split at h
          · simp at h
          · simp only [Option.some.injEq, Prod.mk.injEq] at h
            obtain ⟨rfl, rfl⟩ := h
            simp [Lexeme.chars]
        · split at h
          · simp only [Option.some.injEq, Prod.mk.injEq] at h
            obtain ⟨rfl, rfl⟩ := h
            simp [Lexeme.chars]
          · exact scanMark?_eq_some h

/-- Every lexeme takes a character, so what is left is shorter. This is why `lexemes` ends. -/
theorem Lexeme.length_lt_of_scan? {cs rest : List Char} {l : Lexeme}
    (h : Lexeme.scan? cs = some (l, rest)) : rest.length < cs.length := by
  obtain ⟨rfl, hne⟩ := Lexeme.scan?_eq_some h
  have := List.length_pos_iff.2 hne
  simp only [List.length_append]
  omega

/-- Cuts a text into lexemes, and gives back what is left where no lexeme fits. -/
def lexemes (cs : List Char) : List Lexeme × List Char :=
  match _h : Lexeme.scan? cs with
  | none => ([], cs)
  | some (l, rest) =>
    let (ls, left) := lexemes rest
    (l :: ls, left)
termination_by cs.length
decreasing_by exact Lexeme.length_lt_of_scan? _h

/-- Where no lexeme begins, there are no more lexemes, and all that is left stays unread. -/
theorem lexemes_of_scan?_eq_none {cs : List Char} (h : Lexeme.scan? cs = none) :
    lexemes cs = ([], cs) := by
  rw [lexemes]; split <;> simp_all

/-- A lexeme that is scanned comes before the lexemes of the rest. -/
theorem lexemes_of_scan?_eq_some {cs rest : List Char} {l : Lexeme}
    (h : Lexeme.scan? cs = some (l, rest)) :
    lexemes cs = (l :: (lexemes rest).1, (lexemes rest).2) := by
  rw [lexemes]; split <;> simp_all

/-- Lexemes and what is left make up the text. -/
theorem lexemes_chars (cs : List Char) :
    ((lexemes cs).1.map Lexeme.chars).flatten ++ (lexemes cs).2 = cs := by
  match h : Lexeme.scan? cs with
  | none => rw [lexemes_of_scan?_eq_none h]; simp
  | some (l, rest) =>
    have ih := lexemes_chars rest
    rw [lexemes_of_scan?_eq_some h]
    simp [ih, (Lexeme.scan?_eq_some h).1]
termination_by cs.length
decreasing_by exact Lexeme.length_lt_of_scan? h

/-- There are no more lexemes than characters. -/
theorem length_lexemes_le (cs : List Char) : (lexemes cs).1.length ≤ cs.length := by
  match h : Lexeme.scan? cs with
  | none => rw [lexemes_of_scan?_eq_none h]; exact Nat.zero_le _
  | some (l, rest) =>
    have ih := length_lexemes_le rest
    rw [lexemes_of_scan?_eq_some h]
    exact Nat.succ_le_of_lt (Nat.lt_of_le_of_lt ih (Lexeme.length_lt_of_scan? h))
termination_by cs.length
decreasing_by exact Lexeme.length_lt_of_scan? h

end XmlMacros.Expr
