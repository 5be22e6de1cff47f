import XmlMacros.Markup.Printer
import XmlMacros.Markup.Scan

/-!
# Which pieces readers take

A reader takes a piece off the start of a text. Told here is for each of the small readers exactly
which piece that is, as an equation between the text and the piece with the rest behind it
(`splitAt?_eq_some_iff`, `scanName?_eq_some_iff`): from left to right it says what is known of a
piece that was read, from right to left that a piece that was written is read. Line ends may be
normalized piece by piece (`normalizeLines_append`).
-/

namespace XmlMacros.Markup

/-- Whether a document may hold all characters of a text. -/
def IsDocumentText (s : String) : Prop :=
  ∀ c ∈ s.toList, isDocumentChar c

instance (s : String) : Decidable (IsDocumentText s) :=
  List.decidableBAll _ s.toList

/-- Characters make a text of a document if each of them may stand in one. -/
theorem isDocumentText_ofList {cs : List Char} :
    IsDocumentText (String.ofList cs) ↔ ∀ c ∈ cs, isDocumentChar c := by
  rw [IsDocumentText, String.toList_ofList]

/-- Texts of documents can be put together. -/
theorem IsDocumentText.append {s t : String} (hs : IsDocumentText s) (ht : IsDocumentText t) :
    IsDocumentText (s ++ t) := by
  intro c hc
  rw [String.toList_append, List.mem_append] at hc
  exact hc.elim (hs c) (ht c)

/-- Characters are read as a text exactly if all of them may stand in a document. -/
theorem documentText?_eq_some_iff {cs : List Char} {s : String} :
    documentText? cs = some s ↔ s.toList = cs ∧ IsDocumentText s := by
  unfold documentText? IsDocumentText
  constructor
  · intro h
    split at h
    · next hall =>
      cases h
      rw [String.toList_ofList]
      exact ⟨rfl, List.all_eq_true.1 hall⟩
    · cases h
  · rintro ⟨rfl, hall⟩
    rw [if_pos (List.all_eq_true.2 hall), String.ofList_toList]

/-! ## Fixed texts -/

/-- A pattern is read exactly if the characters begin with it. -/
theorem expect?_eq_some_iff {pattern cs rest : List Char} :
    expect? pattern cs = some rest ↔ cs = pattern ++ rest := by
  unfold expect?
  constructor
  · intro h
    split at h
    · next hpattern =>
      obtain ⟨tail, rfl⟩ := List.isPrefixOf_iff_prefix.1 hpattern
      rw [List.drop_left] at h
      cases h
      rfl
    · cases h
  · rintro rfl
    rw [if_pos (List.isPrefixOf_iff_prefix.2 (List.prefix_append _ _)), List.drop_left]

theorem occursIn_iff (pattern cs : List Char) : occursIn pattern cs ↔ pattern <:+: cs := by
  induction cs with
  | nil => simp [occursIn]
  | cons c cs ih => simp [occursIn, List.infix_cons_iff, ih]

/-- The text before a pattern is the one that has the pattern nowhere, not even where the pattern
itself helps to complete it. -/
theorem splitAt?_eq_some_iff {pattern cs before rest : List Char} (hpattern : pattern ≠ []) :
    splitAt? pattern cs = some (before, rest) ↔
      cs = before ++ (pattern ++ rest) ∧ ¬ pattern <:+: before ++ pattern.dropLast := by
  have hshort : pattern.dropLast.length < pattern.length := by
    have := List.length_pos_iff.2 hpattern
    rw [List.length_dropLast]
    omega
  have hnone : ¬ pattern <:+: pattern.dropLast := fun h => by
    have := h.length_le
    omega
  induction cs generalizing before with
  | nil => simp [splitAt?, hpattern]
  | cons c cs ih =>
    rw [splitAt?]
    by_cases hstart : pattern <+: c :: cs
    · rw [if_pos (List.isPrefixOf_iff_prefix.2 hstart)]
      constructor
      · intro h
        cases h
        obtain ⟨tail, htail⟩ := hstart
        rw [← htail, List.drop_left]
        exact ⟨rfl, hnone⟩
      · rintro ⟨hcs, hfree⟩
        cases before with
        | nil => rw [hcs, List.nil_append, List.drop_left]
        | cons b before =>
          -- The pattern at the start would lie within what is before the pattern.
          refine absurd (List.IsPrefix.isInfix ?_) hfree
          have hlonger : b :: before ++ pattern.dropLast <+: c :: cs := by
            rw [hcs]
            refine List.prefix_append_right_inj _ |>.2 ?_
            exact (List.dropLast_prefix _).trans (List.prefix_append _ _)
          refine List.prefix_of_prefix_length_le hstart hlonger ?_
          rw [List.length_append, List.length_dropLast, List.length_cons]
          omega
    · rw [if_neg (mt List.isPrefixOf_iff_prefix.1 hstart)]
      constructor
      · intro h
        obtain ⟨⟨before, rest⟩, hsplit, h⟩ := Option.map_eq_some_iff.1 h
        cases h
        obtain ⟨rfl, hfree⟩ := ih.1 hsplit
        refine ⟨rfl, ?_⟩
        rw [List.cons_append, List.infix_cons_iff]
        refine not_or.2 ⟨fun h => hstart (h.trans ?_), hfree⟩
        refine List.prefix_append_right_inj [c] |>.2 ?_
        refine List.prefix_append_right_inj before |>.2 ?_
        exact (List.dropLast_prefix _).trans (List.prefix_append _ _)
      · rintro ⟨hcs, hfree⟩
        cases before with
        | nil => exact absurd (hcs ▸ List.prefix_append pattern rest) hstart
        | cons b before =>
          obtain ⟨hc, hcs⟩ := List.cons.inj hcs
          rw [List.cons_append, List.infix_cons_iff] at hfree
          rw [ih.2 ⟨hcs, (not_or.1 hfree).2⟩, hc]
          rfl

/-- Where the pattern is a single character, the text before it does not have it. -/
theorem splitAt?_append {c : Char} {before : List Char} (h : c ∉ before) (rest : List Char) :
    splitAt? [c] (before ++ c :: rest) = some (before, rest) := by
  refine (splitAt?_eq_some_iff (List.cons_ne_nil _ _)).2 ⟨rfl, fun hc => h ?_⟩
  rw [List.dropLast_singleton, List.append_nil] at hc
  exact hc.subset List.mem_cons_self

/-! ## White space -/

/-- White space in front of characters is skipped before what is skipped in them. -/
theorem skipSpace_append {space : List Char} (h : ∀ c ∈ space, isSpace c) (cs : List Char) :
    skipSpace (space ++ cs) = skipSpace cs := by
  unfold skipSpace
  exact List.dropWhile_append_of_pos h

/-- Nothing is skipped in front of a character that is no white space. -/
theorem skipSpace_of_head {c : Char} (h : isSpace c = false) (cs : List Char) :
    skipSpace (c :: cs) = c :: cs := by
  unfold skipSpace
  rw [List.dropWhile_cons_of_neg (by rw [h]; exact Bool.false_ne_true)]

theorem skipSpace_eq_self {cs : List Char} (h : ∀ c ∈ cs.head?, isSpace c = false) :
    skipSpace cs = cs := by
  cases cs with
  | nil => rfl
  | cons c cs => exact skipSpace_of_head (h c rfl) cs

/-- No white space is left after white space that is skipped. -/
theorem head?_of_skipSomeSpace? {cs rest : List Char} (h : skipSomeSpace? cs = some rest) :
    ∀ c ∈ rest.head?, isSpace c = false := by
  intro c hc
  obtain rfl : skipSpace cs = rest := by
    cases cs with
    | nil => cases h
    | cons d cs =>
      unfold skipSomeSpace? at h
      dsimp only at h
      split at h <;> cases h
      rfl
  have hhead := List.head?_dropWhile_not isSpace cs
  unfold skipSpace at hc
  rwa [Option.mem_def.1 hc] at hhead

/-- White space is skipped no further than to a character that is none. -/
theorem skipSpace_append_of_head {c : Char} (cs : List Char) {rest : List Char}
    (h : isSpace c = false) : skipSpace (cs ++ c :: rest) = skipSpace cs ++ c :: rest := by
  induction cs with
  | nil => exact skipSpace_of_head h rest
  | cons d cs ih =>
    unfold skipSpace at ih ⊢
    rw [List.cons_append, List.dropWhile_cons, List.dropWhile_cons, ih]
    split <;> rfl

/-! ## Line ends -/

/-- A character that is no carriage return is kept. -/
theorem normalizeLines_cons {c : Char} (h : c ≠ '\r') (cs : List Char) :
    normalizeLines (c :: cs) = c :: normalizeLines cs := by
  rw [normalizeLines]
  · rintro rest rfl
    exact absurd rfl h
  · rintro rfl
    exact absurd rfl h

/-- Lines without carriage returns are normal already. -/
theorem normalizeLines_of_not_mem {cs : List Char} (h : '\r' ∉ cs) : normalizeLines cs = cs := by
  induction cs with
  | nil => rfl
  | cons c cs ih =>
    rw [List.mem_cons, not_or] at h
    rw [normalizeLines_cons (Ne.symm h.1), ih h.2]

/-- Line ends are normalized on both sides of a place that does not lie within one. -/
theorem normalizeLines_append {a b : List Char} (h : a.getLast? ≠ some '\r' ∨ b.head? ≠ some '\n') :
    normalizeLines (a ++ b) = normalizeLines a ++ normalizeLines b := by
  fun_induction normalizeLines a with
  | case1 => rfl
  | case2 cs ih =>
    rw [List.cons_append, List.cons_append, normalizeLines, ih, List.cons_append]
    refine h.imp_left fun h => ?_
    cases cs with
    | nil => nofun
    | cons c cs => simpa using h
  | case3 cs hcs ih =>
    have hb : normalizeLines ('\r' :: (cs ++ b)) = '\n' :: normalizeLines (cs ++ b) := by
      rw [normalizeLines]
      intro rest hrest
      cases cs with
      | nil =>
        subst hrest
        exact absurd rfl (h.elim (absurd rfl) id)
      | cons c cs =>
        cases hrest
        exact hcs cs rfl
    rw [List.cons_append, hb, ih, List.cons_append]
    refine h.imp_left fun h => ?_
    cases cs with
    | nil => nofun
    | cons c cs => simpa using h
  | case4 c cs h₁ h₂ ih =>
    have hc : c ≠ '\r' := fun hc => h₂ hc
    rw [List.cons_append, normalizeLines_cons hc, ih, List.cons_append]
    refine h.imp_left fun h => ?_
    cases cs with
    | nil => nofun
    | cons c cs => simpa using h

/-- What stands between fixed texts is normalized on its own. -/
theorem normalizeLines_between {a b : List Char} (ha : '\r' ∉ a) (hb : '\r' ∉ b)
    (hnewline : b.head? ≠ some '\n') (cs : List Char) :
    normalizeLines (a ++ (cs ++ b)) = a ++ (normalizeLines cs ++ b) := by
  have hlast : a.getLast? ≠ some '\r' := fun h => ha (List.mem_of_getLast? h)
  rw [normalizeLines_append (.inl hlast), normalizeLines_append (.inr hnewline),
    normalizeLines_of_not_mem ha, normalizeLines_of_not_mem hb]

/-- Every character of the text with its line ends normalized is a line feed or one of the text. -/
theorem mem_normalizeLines {c : Char} {cs : List Char} (h : c ∈ normalizeLines cs) :
    c = '\n' ∨ c ∈ cs := by
  fun_induction normalizeLines cs with
  | case1 => cases h
  | case2 cs ih | case3 cs _ ih => grind
  | case4 c cs _ _ ih => grind

/-- No carriage return is left in normal lines. -/
theorem not_mem_normalizeLines (cs : List Char) : '\r' ∉ normalizeLines cs := by
  fun_induction normalizeLines cs with
  | case1 => nofun
  | case2 cs ih | case3 cs _ ih => simpa using ih
  | case4 c cs _ h ih =>
    rw [List.mem_cons, not_or]
    exact ⟨fun hc => h hc.symm, ih⟩

/-- A text that does not begin with white space does not come to do so. -/
theorem head?_normalizeLines {cs : List Char} (h : ∀ c ∈ cs.head?, isSpace c = false) :
    ∀ c ∈ (normalizeLines cs).head?, isSpace c = false := by
  cases cs with
  | nil => exact h
  | cons c cs =>
    have hc : c ≠ '\r' := by
      rintro rfl
      exact absurd (h '\r' rfl) (by decide)
    rw [normalizeLines_cons hc]
    exact h

/-- Making lines normal brings no characters but line breaks, so they may still stand in
a document. -/
theorem isDocumentChar_normalizeLines {cs : List Char} (h : ∀ c ∈ cs, isDocumentChar c) :
    ∀ c ∈ normalizeLines cs, isDocumentChar c := fun c hc => by
  obtain rfl | hc := mem_normalizeLines hc
  · rfl
  · exact h c hc

theorem eq_nil_of_prefix_newline {pattern cs : List Char} (hpattern : '\n' ∉ pattern)
    (h : pattern <+: '\n' :: cs) : pattern = [] := by
  cases pattern with
  | nil => rfl
  | cons p pattern => exact absurd ((List.cons_prefix_cons.1 h).1 ▸ List.mem_cons_self) hpattern

/-- A pattern without line breaks that begins the normal lines begins the lines as they
are written. -/
theorem prefix_of_normalizeLines {pattern cs : List Char} (hpattern : '\n' ∉ pattern)
    (h : pattern <+: normalizeLines cs) : pattern <+: cs := by
  fun_induction normalizeLines cs generalizing pattern with
  | case1 => exact h
  | case2 cs ih | case3 cs _ ih =>
    rw [eq_nil_of_prefix_newline hpattern h]
    exact List.nil_prefix
  | case4 c cs _ _ ih =>
    cases pattern with
    | nil => exact List.nil_prefix
    | cons p pattern =>
      rw [List.mem_cons, not_or] at hpattern
      rw [List.cons_prefix_cons] at h ⊢
      exact ⟨h.1, ih hpattern.2 h.2⟩

/-- Normalizing line ends brings in no pattern without line feeds. -/
theorem infix_of_normalizeLines {pattern cs : List Char} (hpattern : '\n' ∉ pattern)
    (h : pattern <:+: normalizeLines cs) : pattern <:+: cs := by
  fun_induction normalizeLines cs with
  | case1 => exact h
  | case2 cs ih =>
    obtain h | h := List.infix_cons_iff.1 h
    · rw [eq_nil_of_prefix_newline hpattern h]
      exact List.nil_infix
    · exact (ih h).trans ((List.suffix_cons _ _).trans (List.suffix_cons _ _)).isInfix
  | case3 cs _ ih =>
    obtain h | h := List.infix_cons_iff.1 h
    · rw [eq_nil_of_prefix_newline hpattern h]
      exact List.nil_infix
    · exact (ih h).trans (List.suffix_cons _ _).isInfix
  | case4 c cs _ hc ih =>
    obtain h | h := List.infix_cons_iff.1 h
    · rw [← normalizeLines_cons (fun h => hc h)] at h
      exact (prefix_of_normalizeLines hpattern h).isInfix
    · exact (ih h).trans (List.suffix_cons _ _).isInfix

theorem escapeChar_of_ne {c : Char} (h : c ≠ '&') (h₁ : c ≠ '<') (h₂ : c ≠ '"') (h₃ : c ≠ '>') :
    escapeChar c = [c] := by
  unfold escapeChar
  split <;> first | contradiction | rfl

/-- Every character is written somehow. -/
theorem escapeChar_ne_nil (c : Char) : escapeChar c ≠ [] := by
  unfold escapeChar
  split <;> nofun

/-- Escaping brings in no white space. -/
theorem mem_of_mem_escapeChar {c d : Char} (hspace : isSpace c) (h : c ∈ escapeChar d) : c = d := by
  have hmark : ∀ m ∈ ["&amp;", "&lt;", "&quot;", "&gt;"], m.toList.all fun c => !isSpace c := by
    decide
  unfold escapeChar at h
  split at h
  case h_5 => exact List.mem_singleton.1 h
  all_goals
    have hnot := List.all_eq_true.1 (hmark _ (by decide)) c h
    rw [hspace] at hnot
    cases hnot

/-- Marks are escaped in a text with its line ends normalized as in the text itself. -/
theorem normalizeLines_flatMap_escapeChar (cs : List Char) :
    normalizeLines (cs.flatMap escapeChar) = (normalizeLines cs).flatMap escapeChar := by
  fun_induction normalizeLines cs with
  | case1 => rfl
  | case2 cs ih =>
    show normalizeLines ('\r' :: '\n' :: cs.flatMap escapeChar) = _
    rw [normalizeLines, ih]
    rfl
  | case3 cs hcs ih =>
    have hhead : (cs.flatMap escapeChar).head? ≠ some '\n' := by
      cases cs with
      | nil => nofun
      | cons c cs =>
        intro h
        have hhead : '\n' ∈ escapeChar c := by
          rw [List.flatMap_cons, List.head?_append] at h
          cases he : (escapeChar c).head? with
          | none => exact absurd (List.head?_eq_none_iff.1 he) (escapeChar_ne_nil c)
          | some d =>
            rw [he] at h
            cases h
            exact List.mem_of_head? he
        exact hcs cs (by rw [← mem_of_mem_escapeChar rfl hhead])
    show normalizeLines (['\r'] ++ cs.flatMap escapeChar) = _
    rw [normalizeLines_append (.inr hhead), ih]
    rfl
  | case4 c cs _ hc ih =>
    have hescape : '\r' ∉ escapeChar c := fun h => hc (mem_of_mem_escapeChar rfl h).symm
    rw [List.flatMap_cons, normalizeLines_append (.inl fun h => hescape (List.mem_of_getLast? h)),
      ih, normalizeLines_of_not_mem hescape, List.flatMap_cons]

/-! ## Names -/

/-- The characters of a name without a colon. -/
def IsName (cs : List Char) : Prop :=
  ∃ c rest, cs = c :: rest ∧ isNameStart c ∧ ∀ c ∈ rest, isNameRest c

/-- Characters of a kind that are followed by one of another kind are taken off as a whole. -/
theorem takeWhile_append_eq {α : Type} {p : α → Bool} {xs ys : List α} (hxs : ∀ x ∈ xs, p x)
    (hys : ∀ y ∈ ys.head?, p y = false) :
    (xs ++ ys).takeWhile p = xs ∧ (xs ++ ys).dropWhile p = ys := by
  rw [List.takeWhile_append_of_pos hxs, List.dropWhile_append_of_pos hxs]
  cases ys with
  | nil => simp
  | cons y ys => simp [hys y rfl]

/-- A name ends where no character follows that it could go on with. -/
theorem scanName?_eq_some_iff {cs name rest : List Char} : scanName? cs = some (name, rest) ↔
    cs = name ++ rest ∧ IsName name ∧ ∀ c ∈ rest.head?, isNameRest c = false := by
  unfold scanName?
  constructor
  · intro h
    split at h
    · next c tail =>
      split at h
      · next hstart =>
        cases h
        refine ⟨?_, ⟨c, _, rfl, hstart, List.all_eq_true.1 List.all_takeWhile⟩, ?_⟩
        · rw [List.cons_append, List.takeWhile_append_dropWhile]
        · intro d hd
          have := List.head?_dropWhile_not isNameRest tail
          rw [hd] at this
          exact this
      · cases h
    · cases h
  · rintro ⟨rfl, ⟨c, tail, rfl, hstart, htail⟩, hrest⟩
    obtain ⟨htake, hdrop⟩ := takeWhile_append_eq htail hrest
    simp only [List.cons_append]
    rw [if_pos hstart, htake, hdrop]

/-- A character with which a name may start may also go on in a name. -/
theorem isNameRest_of_isNameStart {c : Char} (h : isNameStart c) : isNameRest c := by
  unfold isNameRest
  rw [h, Bool.true_or]

/-- A character that may not stand in names stands in none. -/
theorem IsName.not_mem {cs : List Char} (h : IsName cs) {c : Char} (hc : isNameRest c = false) :
    c ∉ cs := by
  obtain ⟨d, rest, rfl, hstart, hrest⟩ := h
  intro hmem
  have hname : isNameRest c := (List.mem_cons.1 hmem).elim
    (fun h => h ▸ isNameRest_of_isNameStart hstart) (hrest c)
  rw [hc] at hname
  cases hname

/-- The parts of a qualified name are names. -/
structure QName.Legal (q : QName) : Prop where
  space : ∀ p ∈ q.space, IsName p.toList
  label : IsName q.label.toList

/-- What is read as a qualified name is one, and its text is what was read. -/
theorem QName.legal_of_scan? {cs rest : List Char} {q : QName}
    (h : QName.scan? cs = some (q, rest)) :
    q.Legal ∧ cs = q.text.toList ++ rest := by
  unfold QName.scan? at h
  obtain ⟨⟨first, tail⟩, hfirst, h₁⟩ := Option.bind_eq_some_iff.1 h
  clear h
  obtain ⟨rfl, hname, -⟩ := scanName?_eq_some_iff.1 hfirst
  dsimp only at h₁
  split at h₁
  · next _ tail =>
    obtain ⟨⟨second, tail⟩, hsecond, h₂⟩ := Option.bind_eq_some_iff.1 h₁
    clear h₁
    obtain ⟨rfl, hlabel, -⟩ := scanName?_eq_some_iff.1 hsecond
    dsimp only at h₂
    split at h₂
    · cases h₂
    · cases h₂
      refine ⟨⟨?_, by rwa [String.toList_ofList]⟩, ?_⟩
      · rintro p ⟨⟩
        rwa [String.toList_ofList]
      · simp [QName.text]
  · cases h₁
    refine ⟨⟨nofun, by rwa [String.toList_ofList]⟩, ?_⟩
    simp [QName.text]

/-- A qualified name is read where it was written. -/
theorem QName.scan?_append {q : QName} (h : q.Legal) {rest : List Char}
    (hrest : ∀ c ∈ rest.head?, isNameRest c = false ∧ c ≠ ':') :
    QName.scan? (q.text.toList ++ rest) = some (q, rest) := by
  rcases q with ⟨space, label⟩
  have hlabel : scanName? (label.toList ++ rest) = some (label.toList, rest) :=
    scanName?_eq_some_iff.2 ⟨rfl, h.label, fun c hc => (hrest c hc).1⟩
  have hend : ∀ tail, rest ≠ ':' :: tail := by
    rintro tail rfl
    exact (hrest ':' rfl).2 rfl
  cases space with
  | none =>
    show QName.scan? (label.toList ++ rest) = _
    unfold QName.scan?
    rw [hlabel]
    dsimp only [Option.bind_eq_bind, Option.bind_some]
    split
    · exact absurd rfl (hend _)
    · rw [String.ofList_toList]
      rfl
  | some p =>
    have hp : scanName? (p.toList ++ ':' :: (label.toList ++ rest))
        = some (p.toList, ':' :: (label.toList ++ rest)) :=
      scanName?_eq_some_iff.2 ⟨rfl, h.space p rfl, by rintro c ⟨⟩; decide⟩
    have htext : (QName.text ⟨some p, label⟩).toList ++ rest
        = p.toList ++ ':' :: (label.toList ++ rest) := by simp [QName.text]
    rw [htext]
    unfold QName.scan?
    rw [hp]
    show (scanName? (label.toList ++ rest)).bind _ = _
    rw [hlabel]
    dsimp only [Option.bind_some]
    split
    · exact absurd rfl (hend _)
    · rw [String.ofList_toList, String.ofList_toList]
      rfl

/-- The text of a qualified name tells its parts. -/
theorem QName.ofText_text {q : QName} (h : q.Legal) : QName.ofText q.text = q := by
  have hno : ∀ {s : String}, IsName s.toList → ∀ c ∈ s.toList, (c != ':') = true := by
    intro s hs c hc
    rw [bne_iff_ne]
    rintro rfl
    exact hs.not_mem (by decide) hc
  rcases q with ⟨space, label⟩
  cases space with
  | none =>
    show QName.ofText label = _
    have hdrop : (label.toList ++ []).dropWhile (· != ':') = [] :=
      (takeWhile_append_eq (hno h.label) (by simp)).2
    rw [List.append_nil] at hdrop
    unfold QName.ofText
    dsimp only
    rw [hdrop]
  | some p =>
    have htext : (QName.text ⟨some p, label⟩).toList = p.toList ++ ':' :: label.toList := by
      simp [QName.text]
    have hcolon : ∀ c ∈ (':' :: label.toList).head?, (c != ':') = false := by
      rintro c ⟨⟩
      rfl
    obtain ⟨htake, hdrop⟩ := takeWhile_append_eq (hno (h.space p rfl)) hcolon
    unfold QName.ofText
    dsimp only
    rw [htext, hdrop, htake, String.ofList_toList]
    show QName.mk (some p) (String.ofList label.toList) = _
    rw [String.ofList_toList]

/-- Splitting a text at its colon loses nothing. -/
theorem QName.text_ofText (text : String) : (QName.ofText text).text = text := by
  have hsplit := List.takeWhile_append_dropWhile (p := (· != ':')) (l := text.toList)
  have hhead := List.head?_dropWhile_not (· != ':') text.toList
  unfold QName.ofText
  dsimp only
  split
  · rfl
  · next c label heq =>
    rw [heq, List.head?_cons] at hhead
    obtain rfl : c = ':' := by simpa using hhead
    rw [heq] at hsplit
    rw [← String.toList_inj]
    simpa [QName.text] using hsplit

/-- Different texts are different names. -/
theorem QName.ofText_injective {s t : String} (h : QName.ofText s = QName.ofText t) : s = t := by
  rw [← text_ofText s, h, text_ofText]

/-- The text of a qualified name starts like a name. -/
theorem QName.Legal.exists_text {q : QName} (h : q.Legal) :
    ∃ c rest, q.text.toList = c :: rest ∧ isNameStart c := by
  rcases q with ⟨_ | p, label⟩
  · obtain ⟨c, rest, hlabel, hstart, -⟩ := h.label
    exact ⟨c, rest, hlabel, hstart⟩
  · obtain ⟨c, rest, hp, hstart, -⟩ := h.space p rfl
    refine ⟨c, rest ++ ':' :: label.toList, ?_, hstart⟩
    simp [text, hp]

/-- A character that may stand in no name, and is no colon, stands in no qualified name. -/
theorem QName.Legal.not_mem {q : QName} (h : q.Legal) {c : Char} (hc : isNameRest c = false)
    (hcolon : c ≠ ':') : c ∉ q.text.toList := by
  rcases q with ⟨_ | p, label⟩
  · exact h.label.not_mem hc
  · have hp := (h.space p rfl).not_mem hc
    have hlabel := h.label.not_mem hc
    simp [text, hp, hlabel, hcolon]

end XmlMacros.Markup
