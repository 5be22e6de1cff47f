import XmlMacros.Expr.Lexeme
import XmlMacros.Proofs.Decimal.Numeral
import Mathlib.Data.List.Chain

/-!
# What is cut into which lexemes

`lexemes` takes the longest piece that fits. Told without it: a text is cut into a list of lexemes,
white space aside, if it writes them one after the other with any white space around them (`Spaced`)
and each of them can be read (`Lexeme.Proper`). Where a piece ends matters for numerals only, and
they end wherever no operand follows another one.

`visibleLexemes_of_spaced` and `spaced_of_visibleLexemes` are the two directions. They are put
together from the same two facts about the first lexeme, `Lexeme.scan?_append` and
`Lexeme.proper_of_scan?`.
-/

namespace XmlMacros.Expr

open Text Decimal

/-! ## Lexemes -/

/-- Whether a lexeme is white space. -/
def Lexeme.isBlank : Lexeme → Bool
  | .blank _ => true
  | _ => false

/-- Whether a lexeme stands for an operand. -/
def Lexeme.isOperand : Lexeme → Bool
  | .number _ | .quoted _ _ | .name _ => true
  | _ => false

/-- Whether a lexeme is one that expressions without names are made of, and is written as it can be
read. -/
def Lexeme.Proper : Lexeme → Prop
  | .number n => n.WellFormed
  | .quoted quote body => (quote = '\'' ∨ quote = '"') ∧ quote ∉ body
  | .operator _ | .leftParen | .rightParen => True
  | .blank _ | .name _ => False

/-- The characters that operators and parentheses start with. -/
def markChars : List Char :=
  ['+', '-', '*', '/', '%', '|', '&', '=', '(', ')']

/-- The first character of an operator or a parenthesis starts no other lexeme. -/
theorem Lexeme.scan?_of_mark {c : Char} (hc : c ∈ markChars) (cs : List Char) :
    Lexeme.scan? (c :: cs) = scanMark? (c :: cs) := by
  have apart : markChars.all (fun c => !Text.isBlank c && !isDigit c && c != '.'
      && !(c == '\'' || c == '"') && !isNameStart c) = true := by
    decide
  simp only [List.all_eq_true, Bool.and_eq_true, Bool.not_eq_true', bne_iff_ne] at apart
  obtain ⟨⟨⟨⟨hblank, hdigit⟩, hpoint⟩, hquote⟩, hname⟩ := apart c hc
  rw [Lexeme.scan?, if_neg (by simp [hblank]), Numeral.scan?_eq_none cs hdigit hpoint]
  simp only [hquote, hname, Bool.false_eq_true, if_false]

/-- Whether the lexeme does not go on with the text. -/
def Lexeme.EndsBefore (l : Lexeme) (rest : List Char) : Prop :=
  match l with
  | .blank _ => ∀ c ∈ rest.head?, Text.isBlank c = false
  | .number n => n.EndsBefore rest
  | .name _ => ∀ c ∈ rest.head?, isNameRest c = false
  | .quoted _ _ | .operator _ | .leftParen | .rightParen => True

/-- A proper lexeme is read back from its characters, if it does not go on with the text
behind it. -/
theorem Lexeme.scan?_of_endsBefore {l : Lexeme} {rest : List Char} (hl : l.Proper)
    (hrest : l.EndsBefore rest) : Lexeme.scan? (l.chars ++ rest) = some (l, rest) := by
  cases l with
  | blank => cases hl
  | name => cases hl
  | number n =>
    have hscan := Numeral.scan?_of_endsBefore hl hrest
    obtain ⟨c, cs, hchars, hc⟩ := Numeral.WellFormed.chars_cons hl
    have hblank : Text.isBlank c = false := by
      rcases hc with hc | rfl
      · exact isBlank_eq_false_of_isDigit hc
      · decide
    rw [hchars, List.cons_append] at hscan
    rw [Lexeme.chars, hchars, List.cons_append, Lexeme.scan?, if_neg (by simp [hblank]), hscan]
  | quoted quote body =>
    obtain ⟨hquote, hbody⟩ := hl
    have apart : Text.isBlank quote = false ∧ isDigit quote = false ∧ quote ≠ '.' := by
      rcases hquote with rfl | rfl <;> decide
    have hinside : ∀ c ∈ body, (c != quote) = true := fun c hc =>
      bne_iff_ne.2 fun h => hbody (h ▸ hc)
    have hend : ∀ c ∈ (quote :: rest).head?, (c != quote) = false := by
      rintro c ⟨⟩
      exact bne_self_eq_false quote
    have htake := takeWhile_append_of_boundary hinside hend
    have hdrop := dropWhile_append_of_boundary hinside hend
    have hquoted : (quote == '\'' || quote == '"') = true := by simpa using hquote
    rw [Lexeme.chars, List.cons_append, List.cons_append, List.append_assoc, List.singleton_append,
      Lexeme.scan?, if_neg (by simp [apart.1]), Numeral.scan?_eq_none _ apart.2.1 apart.2.2]
    simp only [hquoted, if_true, scanQuoted?, htake, hdrop]
  | operator op =>
    cases op <;> exact Lexeme.scan?_of_mark (by decide) _
  | leftParen => exact Lexeme.scan?_of_mark (by decide) _
  | rightParen => exact Lexeme.scan?_of_mark (by decide) _

/-- No operand goes on where no numeral does. -/
theorem Lexeme.scan?_append {l : Lexeme} {rest : List Char} (hl : l.Proper)
    (hrest : l.isOperand = true → NumeralEnds rest) :
    Lexeme.scan? (l.chars ++ rest) = some (l, rest) := by
  refine Lexeme.scan?_of_endsBefore hl ?_
  cases l with
  | number n => exact (hrest rfl).endsBefore n
  | blank | name => cases hl
  | quoted | operator | leftParen | rightParen => trivial

/-- What is read is white space, a name or a proper lexeme. -/
theorem Lexeme.proper_of_scan? {cs rest : List Char} {l : Lexeme}
    (h : Lexeme.scan? cs = some (l, rest)) :
    (l.isBlank = true ∧ ∀ c ∈ l.chars, Text.isBlank c = true) ∨
      (l.isBlank = false ∧ ((∃ name, l = .name name) ∨ l.Proper)) := by
  unfold Lexeme.scan? at h
  split at h
  · cases h
  · rename_i c tail
    split at h
    · rename_i hc
      cases h
      refine .inl ⟨rfl, fun d hd => ?_⟩
      rcases List.mem_cons.1 hd with rfl | hd
      · exact hc
      · exact List.mem_takeWhile_imp hd
    · split at h
      · rename_i hn
        cases h
        exact .inr ⟨rfl, .inr (Numeral.wellFormed_of_scan? hn)⟩
      · split at h
        · rename_i hquote
          unfold scanQuoted? at h
          split at h
          · cases h
          · cases h
            refine .inr ⟨rfl, .inr ⟨by simpa using hquote, fun hc => ?_⟩⟩
            simpa using List.mem_takeWhile_imp hc
        · split at h
          · cases h
            exact .inr ⟨rfl, .inl ⟨_, rfl⟩⟩
          · unfold scanMark? at h
            split at h <;> cases h <;> exact .inr ⟨rfl, .inr trivial⟩

/-! ## Texts -/

/-- Whether a text writes a list of lexemes one after the other, with any white space before,
between and behind them. -/
inductive Spaced : List Lexeme → List Char → Prop
  | nil (blanks : List Char) (h : ∀ c ∈ blanks, Text.isBlank c = true) : Spaced [] blanks
  | cons (blanks : List Char) (h : ∀ c ∈ blanks, Text.isBlank c = true) (l : Lexeme)
      {ls : List Lexeme} {cs : List Char} (rest : Spaced ls cs) :
      Spaced (l :: ls) (blanks ++ (l.chars ++ cs))

/-- The lexemes of a text other than white space, and what is left where no lexeme fits. -/
def visibleLexemes (cs : List Char) : List Lexeme × List Char :=
  ((lexemes cs).1.filter (!·.isBlank), (lexemes cs).2)

/-- A lexeme that is no white space comes first among those that are visible. -/
theorem visibleLexemes_of_scan? {cs rest : List Char} {l : Lexeme}
    (h : Lexeme.scan? cs = some (l, rest)) (hl : l.isBlank = false) :
    visibleLexemes cs = (l :: (visibleLexemes rest).1, (visibleLexemes rest).2) := by
  simp [visibleLexemes, lexemes_of_scan?_eq_some h, hl]

/-- White space is skipped between visible lexemes. -/
theorem visibleLexemes_of_scan?_blank {cs rest : List Char} {l : Lexeme}
    (h : Lexeme.scan? cs = some (l, rest)) (hl : l.isBlank = true) :
    visibleLexemes cs = visibleLexemes rest := by
  simp [visibleLexemes, lexemes_of_scan?_eq_some h, hl]

/-- White space is read up to other text. -/
theorem Lexeme.scan?_blanks {blanks rest : List Char} (hne : blanks ≠ [])
    (hblanks : ∀ c ∈ blanks, Text.isBlank c = true)
    (hrest : ∀ c ∈ rest.head?, Text.isBlank c = false) :
    Lexeme.scan? (blanks ++ rest) = some (.blank blanks, rest) := by
  obtain ⟨c, blanks, rfl⟩ := List.exists_cons_of_ne_nil hne
  obtain ⟨hc, hblanks⟩ := List.forall_mem_cons.1 hblanks
  rw [List.cons_append, Lexeme.scan?, if_pos hc, takeWhile_append_of_boundary hblanks hrest,
    dropWhile_append_of_boundary hblanks hrest]

/-- White space before other text leaves no trace. -/
theorem visibleLexemes_blanks_append {blanks rest : List Char}
    (hblanks : ∀ c ∈ blanks, Text.isBlank c = true)
    (hrest : ∀ c ∈ rest.head?, Text.isBlank c = false) :
    visibleLexemes (blanks ++ rest) = visibleLexemes rest := by
  by_cases hne : blanks = []
  · rw [hne, List.nil_append]
  · exact visibleLexemes_of_scan?_blank (Lexeme.scan?_blanks hne hblanks hrest) rfl

theorem visibleLexemes_nil : visibleLexemes [] = ([], []) := by
  have hscan : Lexeme.scan? [] = none := rfl
  simp [visibleLexemes, lexemes_of_scan?_eq_none hscan]

/-- A proper lexeme starts with a character that is not white space. -/
theorem Lexeme.Proper.head {l : Lexeme} (hl : l.Proper) :
    ∃ c cs, l.chars = c :: cs ∧ Text.isBlank c = false ∧
      (l.isOperand = false → isDigit c = false ∧ c ≠ '.' ∧ c ≠ 'e' ∧ c ≠ 'E') := by
  cases l with
  | blank => cases hl
  | name => cases hl
  | number n =>
    obtain ⟨c, cs, hchars, hc⟩ := Numeral.WellFormed.chars_cons hl
    refine ⟨c, cs, hchars, ?_, nofun⟩
    rcases hc with hc | rfl
    · exact isBlank_eq_false_of_isDigit hc
    · decide
  | quoted quote body =>
    refine ⟨quote, _, rfl, ?_, nofun⟩
    rcases hl.1 with rfl | rfl <;> decide
  | operator op => cases op <;> exact ⟨_, _, rfl, by decide, by decide⟩
  | leftParen => exact ⟨_, _, rfl, by decide, by decide⟩
  | rightParen => exact ⟨_, _, rfl, by decide, by decide⟩

/-- No numeral goes on with a text whose first lexeme is no operand. -/
theorem Spaced.numeralEnds {ls : List Lexeme} {cs : List Char} (h : Spaced ls cs)
    (hproper : ∀ l ∈ ls, l.Proper) (hhead : ∀ l ∈ ls.head?, l.isOperand = false) :
    NumeralEnds cs := by
  have of_blank : ∀ c, Text.isBlank c = true → isDigit c = false ∧ c ≠ '.' ∧ c ≠ 'e' ∧ c ≠ 'E' := by
    intro c hc
    refine ⟨?_, ?_, ?_, ?_⟩
    · by_contra hdigit
      simp [isBlank_eq_false_of_isDigit (Bool.not_eq_false _ ▸ hdigit)] at hc
    all_goals rintro rfl; exact absurd hc (by decide)
  cases h with
  | nil blanks hblanks => exact fun c hc => of_blank c (hblanks c (List.mem_of_mem_head? hc))
  | cons blanks hblanks l rest =>
    intro c hc
    cases blanks with
    | cons b blanks =>
      cases hc
      exact of_blank _ (hblanks _ List.mem_cons_self)
    | nil =>
      obtain ⟨d, ds, hchars, -, hmark⟩ := (hproper l List.mem_cons_self).head
      rw [hchars] at hc
      cases hc
      exact hmark (hhead l rfl)

/-- A text that writes proper lexemes, no operand right after another one, is cut into these
lexemes. -/
theorem visibleLexemes_of_spaced {ls : List Lexeme} {cs : List Char} (h : Spaced ls cs)
    (hproper : ∀ l ∈ ls, l.Proper)
    (hapart : ls.IsChain fun a b => a.isOperand = true → b.isOperand = false) :
    visibleLexemes cs = (ls, []) := by
  induction h with
  | nil blanks hblanks =>
    have hcut : visibleLexemes (blanks ++ []) = visibleLexemes [] :=
      visibleLexemes_blanks_append hblanks nofun
    rw [← List.append_nil blanks, hcut, visibleLexemes_nil]
  | @cons blanks hblanks l ls cs rest ih =>
    have hl : l.Proper := hproper l List.mem_cons_self
    have hls : ∀ l ∈ ls, l.Proper := fun l hl => hproper l (List.mem_cons_of_mem _ hl)
    obtain ⟨hnext, hapart⟩ := List.isChain_cons.1 hapart
    have hends : l.isOperand = true → NumeralEnds cs := fun hop =>
      rest.numeralEnds hls fun l' hl' => hnext l' hl' hop
    obtain ⟨c, cs', hchars, hblank, -⟩ := hl.head
    have hhead : ∀ c ∈ (l.chars ++ cs).head?, Text.isBlank c = false := by
      rw [hchars]
      rintro c ⟨⟩
      exact hblank
    have hvisible : l.isBlank = false := by
      cases l <;> first | rfl | cases hl
    rw [visibleLexemes_blanks_append hblanks hhead,
      visibleLexemes_of_scan? (Lexeme.scan?_append hl hends) hvisible, ih hls hapart]

theorem Spaced.blanks_append {blanks cs : List Char} {ls : List Lexeme} (h : Spaced ls cs)
    (hblanks : ∀ c ∈ blanks, Text.isBlank c = true) : Spaced ls (blanks ++ cs) := by
  have hall : ∀ {more : List Char}, (∀ c ∈ more, Text.isBlank c = true) →
      ∀ c ∈ blanks ++ more, Text.isBlank c = true := fun hmore c hc =>
    (List.mem_append.1 hc).elim (hblanks c) (hmore c)
  cases h with
  | nil more hmore => exact .nil _ (hall hmore)
  | cons more hmore l rest =>
    rw [← List.append_assoc]
    exact .cons _ (hall hmore) l rest

/-- A text of which nothing is left writes the lexemes that it is cut into, and each of them is a
name or proper. -/
theorem spaced_of_visibleLexemes {ls : List Lexeme} {cs : List Char}
    (h : visibleLexemes cs = (ls, [])) :
    Spaced ls cs ∧ ∀ l ∈ ls, (∃ name, l = .name name) ∨ l.Proper := by
  match hscan : Lexeme.scan? cs with
  | none =>
    rw [visibleLexemes, lexemes_of_scan?_eq_none hscan] at h
    cases h
    exact ⟨.nil [] nofun, nofun⟩
  | some (l, rest) =>
    have shorter := Lexeme.length_lt_of_scan? hscan
    obtain ⟨rfl, -⟩ := Lexeme.scan?_eq_some hscan
    rcases Lexeme.proper_of_scan? hscan with ⟨hl, hblanks⟩ | ⟨hl, hproper⟩
    · rw [visibleLexemes_of_scan?_blank hscan hl] at h
      obtain ⟨hspaced, hrest⟩ := spaced_of_visibleLexemes h
      exact ⟨hspaced.blanks_append hblanks, hrest⟩
    · rw [visibleLexemes_of_scan? hscan hl, Prod.mk.injEq] at h
      obtain ⟨rfl, hleft⟩ := h
      obtain ⟨hspaced, hrest⟩ := spaced_of_visibleLexemes (Prod.ext rfl hleft)
      exact ⟨.cons [] nofun l hspaced, List.forall_mem_cons.2 ⟨hproper, hrest⟩⟩
termination_by cs.length

end XmlMacros.Expr
