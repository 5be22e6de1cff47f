import XmlMacros.Proofs.Expr.Replacement

/-!
# Expressions in the place of names

A name in an expression can be taken out for another expression in parentheses (`inlineName`). This
changes the lexemes of the expression in the places of the name and nowhere else
(`visibleLexemes_inlineName`): up to such a place the two texts are the same, and no lexeme goes on
with a parenthesis (`Separates`), so the lexeme in front ends where it ended
(`Lexeme.EndsBefore.of_sameUntilParen`). What is left of a text where no lexeme fits stays as well.
-/

namespace XmlMacros.Expr

open Text Decimal

/-! ## Where lexemes end -/

/-- A lexeme is read as far as the text goes on with it. -/
theorem Lexeme.endsBefore_of_scan? {cs rest : List Char} {l : Lexeme}
    (h : Lexeme.scan? cs = some (l, rest)) : l.EndsBefore rest := by
  unfold Lexeme.scan? at h
  split at h
  · cases h
  · split at h
    · cases h
      exact head_dropWhile Text.isBlank _
    · split at h
      · rename_i hn
        cases h
        exact Numeral.endsBefore_of_scan? hn
      · split at h
        · unfold scanQuoted? at h
          split at h <;> cases h
          trivial
        · split at h
          · cases h
            exact head_dropWhile isNameRest _
          · unfold scanMark? at h
            split at h <;> cases h <;> trivial

/-- A lexeme is read from its characters wherever it does not go on with the text behind it. -/
theorem Lexeme.scan?_congr {cs rest rest' : List Char} {l : Lexeme}
    (h : Lexeme.scan? cs = some (l, rest)) (hends : l.EndsBefore rest') :
    Lexeme.scan? (l.chars ++ rest') = some (l, rest') := by
  have hne := (Lexeme.scan?_eq_some h).2
  rcases Lexeme.proper_of_scan? h with ⟨hblank, hchars⟩ | ⟨-, ⟨name, rfl⟩ | hproper⟩
  · cases l with
    | blank blanks => exact Lexeme.scan?_blanks hne hchars hends
    | number | quoted | name | operator | leftParen | rightParen => cases hblank
  · exact Lexeme.scan?_name (referable_of_scan? h) hends
  · exact Lexeme.scan?_of_endsBefore hproper hends

/-- Whatever stands behind the characters of an exponent, one is read. -/
theorem exponent_scan?_ne_none {e : Exponent} (he : e.WellFormed) (rest : List Char) :
    Exponent.scan? (e.chars ++ rest) ≠ none := by
  obtain ⟨mark, sign, digits⟩ := e
  obtain ⟨hmark, hsign, hdigits, hne⟩ := he
  obtain ⟨d, ds, rfl⟩ := List.exists_cons_of_ne_nil hne
  have hmark : (mark == 'e' || mark == 'E') = true := by simpa using hmark
  have hd : isDigit d = true := hdigits d List.mem_cons_self
  have hsigned : scanSign (sign.toList ++ d :: (ds ++ rest)) = (sign, d :: (ds ++ rest)) :=
    scanSign_append rest hsign hdigits hne
  simp [Exponent.chars, Exponent.scan?, hmark, hsigned, hd]

/-! ## Characters that separate lexemes -/

/-- No lexeme other than a quoted text goes on with the character. -/
structure Separates (c : Char) : Prop where
  blank : Text.isBlank c = false
  digit : isDigit c = false
  name : isNameRest c = false
  sign : c ≠ '+' ∧ c ≠ '-'

/-- What holds of the first character of a text, and of the one that comes after a common start,
holds of the first character of every text with this start and this character behind it. -/
theorem forall_head_append {c : Char} {common rest : List Char} {p : Char → Prop}
    (h : ∀ d ∈ (common ++ rest).head?, p d) (hc : p c) (rest' : List Char) :
    ∀ d ∈ (common ++ c :: rest').head?, p d := by
  cases common with
  | nil =>
    rintro _ ⟨⟩
    exact hc
  | cons d common => exact h

section
variable {c : Char} (hc : Separates c) {common rest : List Char}

include hc

theorem Separates.ne {c' : Char} (h : isNameRest c' = true) : c ≠ c' := by
  rintro rfl
  exact absurd h (by simp [hc.name])

/-- A character that separates lexemes stands in no exponent. -/
theorem Separates.not_mem_exponent {e : Exponent} (he : e.WellFormed) : c ∉ e.chars := by
  obtain ⟨mark, sign, digits⟩ := e
  obtain ⟨hmark, hsign, hdigits, -⟩ := he
  intro hmem
  simp only [Exponent.chars, List.cons_append, List.mem_cons, List.mem_append,
    Option.mem_toList] at hmem
  rcases hmem with rfl | hmem | hmem
  · rcases hmark with rfl | rfl <;> exact hc.ne (by decide) rfl
  · rcases hsign c hmem with rfl | rfl
    · exact hc.sign.1 rfl
    · exact hc.sign.2 rfl
  · exact absurd (hdigits c hmem) (by simp [hc.digit])

/-- No exponent goes on behind such a character. -/
theorem Separates.exponent (hnone : Exponent.scan? (common ++ rest) = none) (rest' : List Char) :
    Exponent.scan? (common ++ c :: rest') = none := by
  by_contra hsome
  obtain ⟨⟨e, left⟩, hscan⟩ := Option.ne_none_iff_exists'.1 hsome
  have he := Exponent.wellFormed_of_scan? hscan
  rcases List.append_eq_append_iff.1 (Exponent.scan?_eq_some hscan) with
    ⟨more, hchars, hrest⟩ | ⟨more, rfl, -⟩
  · cases more with
    | nil =>
      rw [List.append_nil] at hchars
      exact exponent_scan?_ne_none he rest (by rwa [hchars])
    | cons d more =>
      obtain ⟨rfl, -⟩ := List.cons.inj hrest
      exact hc.not_mem_exponent he (by simp [hchars])
  · rw [List.append_assoc] at hnone
    exact exponent_scan?_ne_none he _ hnone

/-- A lexeme that ends in front of a text still does if such a character takes the place of a part
of it. -/
theorem Separates.endsBefore {l : Lexeme} (hl : l.EndsBefore (common ++ rest)) (rest' : List Char) :
    l.EndsBefore (common ++ c :: rest') := by
  cases l with
  | blank => exact forall_head_append hl hc.blank rest'
  | number n =>
    exact ⟨forall_head_append hl.digit hc.digit rest', fun hfraction hexponent =>
      forall_head_append (hl.point hfraction hexponent) (hc.ne (by decide +kernel)) rest',
      fun hexponent => hc.exponent (hl.exponent hexponent) rest'⟩
  | name => exact forall_head_append hl hc.name rest'
  | quoted | operator | leftParen | rightParen => trivial

/-- The lexemes of a text of which nothing is left are read in front of such a character. -/
theorem Separates.lexemes_append {cs : List Char} (hleft : (Expr.lexemes cs).2 = [])
    (rest : List Char) : Expr.lexemes (cs ++ c :: rest) =
      ((Expr.lexemes cs).1 ++ (Expr.lexemes (c :: rest)).1, (Expr.lexemes (c :: rest)).2) := by
  match hscan : Lexeme.scan? cs with
  | none =>
    rw [lexemes_of_scan?_eq_none hscan] at hleft ⊢
    cases hleft
    rfl
  | some (l, tail) =>
    have shorter := Lexeme.length_lt_of_scan? hscan
    obtain ⟨hcs, -⟩ := Lexeme.scan?_eq_some hscan
    have hends : l.EndsBefore (tail ++ []) := by
      rw [List.append_nil]
      exact Lexeme.endsBefore_of_scan? hscan
    rw [lexemes_of_scan?_eq_some hscan] at hleft ⊢
    rw [hcs, List.append_assoc,
      lexemes_of_scan?_eq_some (Lexeme.scan?_congr hscan (hc.endsBefore hends rest)),
      lexemes_append hleft rest]
    rfl
termination_by cs.length

end

/-! ## Texts that differ behind a parenthesis -/

/-- The character is a parenthesis. -/
def IsParen (c : Char) : Prop :=
  c = '(' ∨ c = ')'

/-- Parentheses separate lexemes. -/
theorem IsParen.separates {c : Char} (h : IsParen c) : Separates c := by
  rcases h with rfl | rfl <;> exact ⟨by decide, by decide, by decide +kernel, by decide⟩

/-- The texts are the same, or the same up to a place where the second one has a parenthesis. -/
def SameUntilParen (cs cs' : List Char) : Prop :=
  cs' = cs ∨ ∃ common rest paren rest', IsParen paren ∧ cs = common ++ rest ∧
    cs' = common ++ paren :: rest'

section
variable {cs cs' : List Char}

/-- Texts stay the same up to a parenthesis with common characters in front. -/
theorem SameUntilParen.append (h : SameUntilParen cs cs') (front : List Char) :
    SameUntilParen (front ++ cs) (front ++ cs') := by
  rcases h with rfl | ⟨common, rest, paren, rest', hparen, rfl, rfl⟩
  · exact .inl rfl
  · exact .inr ⟨front ++ common, rest, paren, rest', hparen, (List.append_assoc ..).symm,
      (List.append_assoc ..).symm⟩

/-- No lexeme goes on with a parenthesis. -/
theorem Lexeme.EndsBefore.of_sameUntilParen {l : Lexeme} (hl : l.EndsBefore cs)
    (h : SameUntilParen cs cs') : l.EndsBefore cs' := by
  rcases h with rfl | ⟨common, rest, paren, rest', hparen, rfl, rfl⟩
  · exact hl
  · exact hparen.separates.endsBefore hl rest'

/-- The lexemes of a text are those of another one as long as they are the same. -/
theorem lexemes_of_sameUntilParen {l : Lexeme} {text : List Char}
    (hscan : Lexeme.scan? text = some (l, cs)) (h : SameUntilParen cs cs') :
    Expr.lexemes (l.chars ++ cs') = (l :: (Expr.lexemes cs').1, (Expr.lexemes cs').2) :=
  lexemes_of_scan?_eq_some
    (Lexeme.scan?_congr hscan ((Lexeme.endsBefore_of_scan? hscan).of_sameUntilParen h))

end

/-! ## Taking out a name -/

/-- The characters of a lexeme, with other characters in parentheses in the place of a name. -/
def Lexeme.inlinedChars (name body : List Char) (l : Lexeme) : List Char :=
  if l = .name name then '(' :: (body ++ [')']) else l.chars

/-- The text of an expression with another expression in parentheses in every place of a name. -/
def inlineName (name expr text : String) : String :=
  String.ofList ((Expr.lexemes text.toList).1.flatMap
    (Lexeme.inlinedChars name.toList expr.toList) ++ (Expr.lexemes text.toList).2)

/-- A lexeme, with other lexemes in parentheses in the place of a name. -/
def Lexeme.inlined (name : List Char) (body : List Lexeme) (l : Lexeme) : List Lexeme :=
  if l = .name name then .leftParen :: (body ++ [.rightParen]) else [l]

section
variable {name body : List Char}

/-- Putting the body in parentheses for a name in the lexemes of a text, and reading the lexemes
again, is the same as putting its lexemes for the name. The induction is on the lexemes, from behind
one to the next. -/
theorem lexemes_inlinedChars (hleft : (Expr.lexemes body).2 = []) (cs : List Char) :
    Expr.lexemes ((Expr.lexemes cs).1.flatMap (Lexeme.inlinedChars name body) ++
      (Expr.lexemes cs).2) =
        ((Expr.lexemes cs).1.flatMap (Lexeme.inlined name (Expr.lexemes body).1),
          (Expr.lexemes cs).2) ∧
      SameUntilParen cs
        ((Expr.lexemes cs).1.flatMap (Lexeme.inlinedChars name body) ++ (Expr.lexemes cs).2) := by
  match hscan : Lexeme.scan? cs with
  | none =>
    have hcs := lexemes_of_scan?_eq_none hscan
    rw [hcs]
    exact ⟨hcs, .inl rfl⟩
  | some (l, rest) =>
    have shorter := Lexeme.length_lt_of_scan? hscan
    obtain ⟨hcs, -⟩ := Lexeme.scan?_eq_some hscan
    obtain ⟨ih, hsame⟩ := lexemes_inlinedChars hleft rest
    rw [lexemes_of_scan?_eq_some hscan]
    dsimp only
    rw [List.flatMap_cons, List.flatMap_cons, List.append_assoc]
    generalize (Expr.lexemes rest).1.flatMap (Lexeme.inlinedChars name body) ++
      (Expr.lexemes rest).2 = rest' at ih hsame ⊢
    by_cases hl : l = .name name
    · have hopen : Lexeme.scan? ('(' :: (body ++ ')' :: rest')) = some (.leftParen, _) :=
        Lexeme.scan?_of_mark (by decide) _
      have hclose : Lexeme.scan? (')' :: rest') = some (.rightParen, rest') :=
        Lexeme.scan?_of_mark (by decide) _
      rw [Lexeme.inlinedChars, if_pos hl, Lexeme.inlined, if_pos hl, List.cons_append,
        List.append_assoc, List.singleton_append, lexemes_of_scan?_eq_some hopen,
        (IsParen.separates (.inr rfl)).lexemes_append hleft, lexemes_of_scan?_eq_some hclose, ih]
      refine ⟨?_, .inr ⟨[], cs, '(', _, .inl rfl, rfl, rfl⟩⟩
      simp
    · rw [Lexeme.inlinedChars, if_neg hl, Lexeme.inlined, if_neg hl,
        lexemes_of_sameUntilParen hscan hsame, ih]
      refine ⟨rfl, ?_⟩
      rw [hcs]
      exact hsame.append _
termination_by cs.length

/-- Lexemes without the name stay as they are. -/
theorem flatMap_inlined_of_not_mem {ls more : List Lexeme} (h : .name name ∉ ls) :
    ls.flatMap (Lexeme.inlined name more) = ls := by
  induction ls with
  | nil => rfl
  | cons l ls ih =>
    rw [List.mem_cons, not_or] at h
    rw [List.flatMap_cons, ih h.2, Lexeme.inlined, if_neg (Ne.symm h.1)]
    rfl

/-- White space may be left out before the body is put for the name, or afterwards. -/
theorem filter_inlined (name : List Char) (body ls : List Lexeme) :
    (ls.flatMap (Lexeme.inlined name body)).filter (!·.isBlank) =
      (ls.filter (!·.isBlank)).flatMap (Lexeme.inlined name (body.filter (!·.isBlank))) := by
  induction ls with
  | nil => rfl
  | cons l ls ih =>
    rw [List.flatMap_cons, List.filter_append, ih, List.filter_cons]
    by_cases hl : l = .name name
    · subst hl
      simp [Lexeme.inlined, Lexeme.isBlank]
    · cases hblank : l.isBlank <;> simp [Lexeme.inlined, hl, hblank]

/-- Taking out a name changes the lexemes of an expression in the places of the name. -/
theorem visibleLexemes_inlineName {name expr : String} (hleft : (visibleLexemes expr.toList).2 = [])
    (text : String) : visibleLexemes (inlineName name expr text).toList =
      ((visibleLexemes text.toList).1.flatMap
          (Lexeme.inlined name.toList (visibleLexemes expr.toList).1),
        (visibleLexemes text.toList).2) := by
  rw [inlineName, String.toList_ofList, visibleLexemes,
    (lexemes_inlinedChars hleft text.toList).1, filter_inlined]
  rfl

end

end XmlMacros.Expr
