import XmlMacros.Proofs.Markup.Legality

/-!
# The pieces of a written document

A document is written as characters and marks in turn: tags, comments, sections and instructions
(`Piece`). Told here is how such a row of pieces is read. Marks are read one by one; characters are
read together up to the next mark, whatever pieces they were written in, since references and line
ends may begin in one piece and end in the next. So reading carries the characters along that are
pending (`Builder.readPieces`), and what the tokens of the written text do to a builder is the same
(`reads_pieces`).
-/

namespace XmlMacros.Markup

/-- A piece of markup between characters. -/
inductive Mark
  | startTag (name : QName) (attrs : List (QName × String)) (isEmpty : Bool)
  | endTag (name : QName)
  | cdata (data : String)
  | comment (data : String)
  | instruction (target data : String)

/-- A piece of a written document. -/
inductive Piece
  | chars (cs : List Char)
  | mark (m : Mark)

/-! ## How pieces are written -/

/-- An attribute as it is written. -/
def writeAttr (a : QName × String) : List Char :=
  ' ' :: (a.1.text.toList ++ '=' :: '"' :: (a.2.toList.flatMap escapeChar ++ ['"']))

/-- The end of a start tag as it is written. -/
def writeTagEnd (isEmpty : Bool) : List Char :=
  if isEmpty then ['/', '>'] else ['>']

/-- A mark as it is written. -/
def Mark.write : Mark → List Char
  | .startTag name attrs isEmpty =>
    '<' :: (name.text.toList ++ (attrs.flatMap writeAttr ++ writeTagEnd isEmpty))
  | .endTag name => '<' :: '/' :: (name.text.toList ++ ['>'])
  | .cdata data =>
    ['<', '!', '[', 'C', 'D', 'A', 'T', 'A', '['] ++ (data.toList ++ [']', ']', '>'])
  | .comment data => ['<', '!', '-', '-'] ++ (data.toList ++ ['-', '-', '>'])
  | .instruction target data => '<' :: '?' :: (target.toList ++ ' ' :: (data.toList ++ ['?', '>']))

/-- A piece as it is written. -/
def Piece.write : Piece → List Char
  | .chars cs => cs.flatMap escapeChar
  | .mark m => m.write

/-- What a mark must be made of in order to be read back. -/
def Mark.Legal : Mark → Prop
  | .startTag name attrs _ => name.Legal ∧ ∀ a ∈ attrs, a.1.Legal ∧ IsDocumentText a.2
  | .endTag name => name.Legal
  | .cdata data => IsDocumentText data ∧ ¬ [']', ']', '>'] <:+: data.toList
  | .comment data => IsDocumentText data ∧ ¬ ['-', '-'] <:+: data.toList ++ ['-']
  | .instruction target data => LegalInstruction target data

/-- What a piece must be made of in order to be read back. -/
def Piece.Legal : Piece → Prop
  | .chars cs => ∀ c ∈ cs, isDocumentChar c
  | .mark m => m.Legal

/-! ## Line ends -/

/-- A text with its line ends normalized. -/
def withLineFeeds (s : String) : String :=
  String.ofList (normalizeLines s.toList)

/-- A mark with the line ends in its texts normalized. -/
def Mark.withLineFeeds : Mark → Mark
  | .startTag name attrs isEmpty =>
    .startTag name (attrs.map fun a => (a.1, Markup.withLineFeeds a.2)) isEmpty
  | .endTag name => .endTag name
  | .cdata data => .cdata (Markup.withLineFeeds data)
  | .comment data => .comment (Markup.withLineFeeds data)
  | .instruction target data => .instruction target (Markup.withLineFeeds data)

/-- Line ends of a text are those of its characters. -/
theorem toList_withLineFeeds (s : String) : (withLineFeeds s).toList = normalizeLines s.toList := by
  rw [withLineFeeds, String.toList_ofList]

/-- A line feed may stand in a document, and no other character is added. -/
theorem IsDocumentText.withLineFeeds {s : String} (h : IsDocumentText s) :
    IsDocumentText (withLineFeeds s) :=
  isDocumentText_ofList.2 (isDocumentChar_normalizeLines h)

/-- No carriage return is left. -/
theorem carriageReturn_not_mem_withLineFeeds (s : String) : '\r' ∉ (withLineFeeds s).toList := by
  rw [toList_withLineFeeds]
  exact not_mem_normalizeLines _

/-- A mark is as legal with other line ends. -/
theorem Mark.Legal.withLineFeeds {m : Mark} (h : m.Legal) : m.withLineFeeds.Legal := by
  cases m with
  | startTag name attrs isEmpty =>
    refine ⟨h.1, fun a ha => ?_⟩
    obtain ⟨a', ha', rfl⟩ := List.mem_map.1 ha
    exact ⟨(h.2 a' ha').1, (h.2 a' ha').2.withLineFeeds⟩
  | endTag name => exact h
  | cdata data =>
    refine ⟨h.1.withLineFeeds, fun hinfix => h.2 ?_⟩
    rw [toList_withLineFeeds] at hinfix
    exact infix_of_normalizeLines (by decide) hinfix
  | comment data =>
    refine ⟨h.1.withLineFeeds, fun hinfix => h.2 (infix_of_normalizeLines (by decide) ?_)⟩
    rw [toList_withLineFeeds] at hinfix
    rwa [normalizeLines_append (.inr (by decide)), normalizeLines_of_not_mem
      (show '\r' ∉ ['-'] by decide)]
  | instruction target data =>
    refine ⟨h.name, h.free, h.text.withLineFeeds, fun hinfix => h.closed ?_, ?_⟩
    · rw [toList_withLineFeeds] at hinfix
      exact infix_of_normalizeLines (by decide) hinfix
    · rw [toList_withLineFeeds]
      exact head?_normalizeLines h.trimmed

/-- White space is no part of a name. -/
theorem QName.Legal.carriageReturn_not_mem {q : QName} (h : q.Legal) : '\r' ∉ q.text.toList :=
  h.not_mem (by decide) (by decide)

/-- Line ends of a written attribute are those of its value, which is not changed by quotes
around it. -/
theorem normalizeLines_writeAttr {a : QName × String} (h : a.1.Legal) :
    normalizeLines (writeAttr a) = writeAttr (a.1, withLineFeeds a.2) := by
  have hname : '\r' ∉ ' ' :: (a.1.text.toList ++ ['=', '"']) := by
    simp [h.carriageReturn_not_mem]
  have hwrite : ∀ v : List Char, ' ' :: (a.1.text.toList ++ '=' :: '"' :: (v ++ ['"']))
      = ' ' :: (a.1.text.toList ++ ['=', '"']) ++ (v ++ ['"']) := by simp
  rw [writeAttr, writeAttr, hwrite, hwrite, normalizeLines_between hname (by decide) (by decide),
    normalizeLines_flatMap_escapeChar, toList_withLineFeeds]

/-- So it is for several attributes in a row, with anything behind them. -/
theorem normalizeLines_flatMap_writeAttr {attrs : List (QName × String)}
    (h : ∀ a ∈ attrs, a.1.Legal) (rest : List Char) :
    normalizeLines (attrs.flatMap writeAttr ++ rest) =
      (attrs.map fun a => (a.1, withLineFeeds a.2)).flatMap writeAttr ++ normalizeLines rest := by
  induction attrs with
  | nil => rfl
  | cons a attrs ih =>
    obtain ⟨ha, hattrs⟩ := List.forall_mem_cons.1 h
    have hlast : (writeAttr a).getLast? ≠ some '\r' := by
      rw [writeAttr]
      simp [List.getLast?_cons]
    rw [List.flatMap_cons, List.append_assoc, normalizeLines_append (.inl hlast), ih hattrs,
      normalizeLines_writeAttr ha, List.map_cons, List.flatMap_cons, List.append_assoc]

/-- A mark is written with its line ends normalized by normalizing them in its texts. -/
theorem Mark.normalizeLines_write {m : Mark} (h : m.Legal) :
    normalizeLines m.write = m.withLineFeeds.write := by
  cases m with
  | startTag name attrs isEmpty =>
    have hname : '\r' ∉ '<' :: name.text.toList := by
      simp [h.1.carriageReturn_not_mem]
    have hend : '\r' ∉ writeTagEnd isEmpty := by
      cases isEmpty <;> decide
    show normalizeLines ('<' :: name.text.toList ++ (attrs.flatMap writeAttr ++ writeTagEnd isEmpty))
      = '<' :: name.text.toList ++ (_ ++ writeTagEnd isEmpty)
    rw [normalizeLines_append (.inl fun h => hname (List.mem_of_getLast? h)),
      normalizeLines_of_not_mem hname,
      normalizeLines_flatMap_writeAttr (fun a ha => (h.2 a ha).1), normalizeLines_of_not_mem hend]
  | endTag name =>
    have hname : '\r' ∉ '<' :: '/' :: (name.text.toList ++ ['>']) := by
      simp [QName.Legal.carriageReturn_not_mem h]
    exact normalizeLines_of_not_mem hname
  | cdata data =>
    show normalizeLines (['<', '!', '[', 'C', 'D', 'A', 'T', 'A', '[']
        ++ (data.toList ++ [']', ']', '>'])) =
      ['<', '!', '[', 'C', 'D', 'A', 'T', 'A', '['] ++ (_ ++ [']', ']', '>'])
    rw [normalizeLines_between (by decide) (by decide) (by decide), toList_withLineFeeds]
  | comment data =>
    show normalizeLines (['<', '!', '-', '-'] ++ (data.toList ++ ['-', '-', '>'])) =
      ['<', '!', '-', '-'] ++ (_ ++ ['-', '-', '>'])
    rw [normalizeLines_between (by decide) (by decide) (by decide), toList_withLineFeeds]
  | instruction target data =>
    have htarget : '\r' ∉ '<' :: '?' :: (target.toList ++ [' ']) := by
      simp [h.name.not_mem (show isNameRest '\r' = false by decide)]
    have hwrite : ∀ cs : List Char, '<' :: '?' :: (target.toList ++ ' ' :: (cs ++ ['?', '>']))
        = '<' :: '?' :: (target.toList ++ [' ']) ++ (cs ++ ['?', '>']) := by simp
    show normalizeLines ('<' :: '?' :: (target.toList ++ ' ' :: (data.toList ++ ['?', '>'])))
      = '<' :: '?' :: (target.toList ++ ' ' :: (_ ++ ['?', '>']))
    rw [hwrite, hwrite, normalizeLines_between htarget (by decide) (by decide),
      toList_withLineFeeds]

/-! ## Values of attributes -/

/-- A character that has a name is read back from a reference to it. -/
theorem Reference.scan?_of_namedChar? {name : List Char} {c : Char} (hname : IsName name)
    (hc : namedChar? (String.ofList name) = some c) (rest : List Char) :
    Reference.scan? (name ++ ';' :: rest) = some (.char c, rest) := by
  have hscan : scanName? (name ++ ';' :: rest) = some (name, ';' :: rest) :=
    scanName?_eq_some_iff.2 ⟨rfl, hname, by rintro d ⟨⟩; decide⟩
  have hmark : name ++ ';' :: rest ≠ [] ∧ (name ++ ';' :: rest).head? ≠ some '#' := by
    obtain ⟨d, tail, rfl, hstart, -⟩ := hname
    refine ⟨nofun, ?_⟩
    rintro ⟨⟩
    exact absurd hstart (by decide)
  unfold Reference.scan?
  split
  · next heq =>
    rw [heq] at hmark
    exact absurd rfl hmark.2
  · next heq =>
    rw [heq] at hmark
    exact absurd rfl hmark.2
  · have hsemicolon : expect? [';'] (';' :: rest) = some rest := expect?_eq_some_iff.2 rfl
    simp only [hscan, Option.bind_eq_bind, Option.bind_some, hsemicolon, hc]
    rfl

/-- A character is escaped by a reference to it, or else stands for itself. -/
theorem escapeChar_eq (c : Char) :
    (escapeChar c = [c] ∧ c ≠ '&' ∧ c ≠ '<' ∧ c ≠ '"' ∧ c ≠ '>') ∨
      (isSpace c = false ∧ ∃ name, escapeChar c = '&' :: name ∧
        ∀ rest, Reference.scan? (name ++ rest) = some (.char c, rest)) := by
  have hnamed : ∀ name ∈ [['a', 'm', 'p'], ['l', 't'], ['g', 't'], ['q', 'u', 'o', 't']],
      IsName name := by
    intro name h
    simp only [List.mem_cons, List.not_mem_nil, or_false] at h
    obtain rfl | rfl | rfl | rfl := h
    all_goals exact ⟨_, _, rfl, by decide, List.all_eq_true.1 (by decide)⟩
  unfold escapeChar
  split
  · refine .inr ⟨rfl, ['a', 'm', 'p', ';'], rfl, fun rest => ?_⟩
    exact Reference.scan?_of_namedChar? (hnamed ['a', 'm', 'p'] (by decide)) rfl rest
  · refine .inr ⟨rfl, ['l', 't', ';'], rfl, fun rest => ?_⟩
    exact Reference.scan?_of_namedChar? (hnamed ['l', 't'] (by decide)) rfl rest
  · refine .inr ⟨rfl, ['q', 'u', 'o', 't', ';'], rfl, fun rest => ?_⟩
    exact Reference.scan?_of_namedChar? (hnamed ['q', 'u', 'o', 't'] (by decide)) rfl rest
  · refine .inr ⟨rfl, ['g', 't', ';'], rfl, fun rest => ?_⟩
    exact Reference.scan?_of_namedChar? (hnamed ['g', 't'] (by decide)) rfl rest
  · next h₁ h₂ h₃ h₄ => exact .inl ⟨rfl, h₁, h₂, h₃, h₄⟩

/-- A character as it is read in the value of an attribute. -/
def blankOf (c : Char) : Char :=
  if isSpace c then ' ' else c

/-- A value of an attribute as it is read. -/
def piecesOfValue (cs : List Char) : List ValuePiece :=
  if cs.isEmpty then [] else [.literal (cs.map blankOf)]

/-- The value of an attribute is one literal, or empty, with blanks for white space. -/
theorem consLiteral_piecesOfValue (c : Char) (cs : List Char) :
    consLiteral (blankOf c) (piecesOfValue cs) = piecesOfValue (c :: cs) := by
  cases cs <;> rfl

/-- A value that is written with escapes is scanned into the pieces of its characters, by induction
on them. -/
theorem valuePieces?_flatMap_escapeChar {fuel : Nat} {cs : List Char}
    (h : ∀ c ∈ cs, isDocumentChar c) (hfuel : (cs.flatMap escapeChar).length ≤ fuel) :
    valuePieces? fuel (cs.flatMap escapeChar) = some (piecesOfValue cs) := by
  induction cs generalizing fuel with
  | nil => cases fuel <;> rfl
  | cons c cs ih =>
    obtain ⟨hc, hcs⟩ := List.forall_mem_cons.1 h
    rw [List.flatMap_cons, List.length_append] at hfuel
    have hpos := List.length_pos_iff.2 (escapeChar_ne_nil c)
    obtain ⟨fuel, rfl⟩ : ∃ k, fuel = k + 1 := ⟨fuel - 1, by omega⟩
    have ih := ih hcs (show (cs.flatMap escapeChar).length ≤ fuel by omega)
    rw [List.flatMap_cons, ← consLiteral_piecesOfValue]
    obtain ⟨hself, hamp, hlt, -, -⟩ | ⟨hspace, name, hname, hscan⟩ := escapeChar_eq c
    · rw [hself, List.singleton_append, valuePieces?, if_neg (by simpa using hlt),
        if_neg (by simpa using hamp), ih]
      unfold blankOf
      split <;> rfl
    · rw [hname, List.cons_append, valuePieces?, if_neg (by decide), if_pos (by decide), hscan]
      show ((valuePieces? fuel (cs.flatMap escapeChar)).bind fun pieces =>
        some (consLiteral c pieces)) = _
      rw [ih, blankOf, hspace]
      rfl

/-! ## Marks -/

theorem isSpace_of_isNameStart {c : Char} (h : isNameStart c) : isSpace c = false := by
  cases hc : isSpace c with
  | false => rfl
  | true =>
    obtain rfl | rfl | rfl | rfl : c = ' ' ∨ c = '\t' ∨ c = '\n' ∨ c = '\r' := by
      simpa [isSpace, or_assoc] using hc
    all_goals exact absurd h (by decide)

/-- The token of an attribute. -/
def rawAttrOf (a : QName × String) : RawAttr :=
  ⟨a.1, piecesOfValue a.2.toList⟩

/-- A quote is always escaped, so the first one ends the value. -/
theorem quote_not_mem_flatMap_escapeChar (cs : List Char) : '"' ∉ cs.flatMap escapeChar := by
  intro h
  obtain ⟨c, -, hc⟩ := List.mem_flatMap.1 h
  unfold escapeChar at hc
  split at hc
  case h_5 hquote _ => exact hquote (List.mem_singleton.1 hc).symm
  all_goals revert hc; decide

/-- An attribute that is written is scanned as it was, up to what stands behind it. -/
theorem RawAttr.scan?_append {a : QName × String} (hname : a.1.Legal)
    (hvalue : IsDocumentText a.2) (rest : List Char) :
    RawAttr.scan? (a.1.text.toList ++ '=' :: '"' :: (a.2.toList.flatMap escapeChar ++ '"' :: rest))
      = some (rawAttrOf a, rest) := by
  have hquoted : scanQuoted? ('"' :: (a.2.toList.flatMap escapeChar ++ '"' :: rest))
      = some (a.2.toList.flatMap escapeChar, rest) :=
    splitAt?_append (quote_not_mem_flatMap_escapeChar _) rest
  have hequals : ∀ cs : List Char, expect? ['='] (skipSpace ('=' :: cs)) = some cs := fun cs =>
    expect?_eq_some_iff.2 (skipSpace_of_head rfl cs)
  have hquote : ∀ cs : List Char, skipSpace ('"' :: cs) = '"' :: cs := skipSpace_of_head rfl
  unfold RawAttr.scan?
  rw [QName.scan?_append hname (by rintro c ⟨⟩; decide)]
  simp only [Option.bind_eq_bind, Option.bind_some, hequals, hquote, hquoted,
    valuePieces?_flatMap_escapeChar hvalue (Nat.le_refl _)]
  rfl

/-- Attributes that are written are scanned one after the other up to the end of the tag, by
induction on their list. -/
theorem scanAttrs?_flatMap_writeAttr {fuel : Nat} {attrs : List (QName × String)}
    (h : ∀ a ∈ attrs, a.1.Legal ∧ IsDocumentText a.2) (isEmpty : Bool) (rest : List Char)
    (hfuel : attrs.length < fuel) :
    scanAttrs? fuel (attrs.flatMap writeAttr ++ (writeTagEnd isEmpty ++ rest))
      = some (attrs.map rawAttrOf, isEmpty, rest) := by
  induction attrs generalizing fuel with
  | nil =>
    obtain ⟨fuel, rfl⟩ : ∃ k, fuel = k + 1 := ⟨fuel - 1, by simp at hfuel; omega⟩
    cases isEmpty <;> rfl
  | cons a attrs ih =>
    obtain ⟨⟨hname, hvalue⟩, hattrs⟩ := List.forall_mem_cons.1 h
    rw [List.length_cons] at hfuel
    obtain ⟨fuel, rfl⟩ : ∃ k, fuel = k + 1 := ⟨fuel - 1, by omega⟩
    obtain ⟨c, tail, htext, hstart⟩ := hname.exists_text
    have hscan := RawAttr.scan?_append hname hvalue
      (attrs.flatMap writeAttr ++ (writeTagEnd isEmpty ++ rest))
    have hskip : ∀ cs : List Char, skipSpace (' ' :: (a.1.text.toList ++ cs))
        = a.1.text.toList ++ cs := by
      intro cs
      rw [htext]
      exact skipSpace_of_head (isSpace_of_isNameStart hstart) (tail ++ cs)
    have hskipSome : ∀ cs : List Char, skipSomeSpace? (' ' :: (a.1.text.toList ++ cs))
        = some (a.1.text.toList ++ cs) := fun cs => congrArg some (hskip cs)
    have hwrite : (a :: attrs).flatMap writeAttr ++ (writeTagEnd isEmpty ++ rest)
        = ' ' :: (a.1.text.toList ++ '=' :: '"' :: (a.2.toList.flatMap escapeChar
          ++ '"' :: (attrs.flatMap writeAttr ++ (writeTagEnd isEmpty ++ rest)))) := by
      simp [writeAttr]
    rw [hwrite, scanAttrs?, hskip]
    split
    · next heq =>
      rw [htext] at heq
      obtain rfl := (List.cons.inj heq).1
      exact absurd hstart (by decide)
    · next heq =>
      rw [htext] at heq
      obtain rfl := (List.cons.inj heq).1
      exact absurd hstart (by decide)
    · simp only [hskipSome, Option.bind_eq_bind, Option.bind_some, hscan,
        ih hattrs (Nat.lt_of_succ_lt_succ hfuel)]
      rfl

/-- The token that a mark is read as. White space in front of the data of an instruction is passed
over. -/
def Mark.token : Mark → Token
  | .startTag name attrs isEmpty => .startTag name (attrs.map rawAttrOf) isEmpty
  | .endTag name => .endTag name
  | .cdata data => .cdata data
  | .comment data => .comment data
  | .instruction target data => .instruction target data

/-- What begins with a bracket and a letter is a start tag. -/
theorem Token.scan?_of_isNameStart {c : Char} (h : isNameStart c) (cs : List Char) :
    Token.scan? ('<' :: c :: cs) = scanStartTag? (c :: cs) := by
  unfold Token.scan?
  split
  case h_4 heq =>
    cases heq
    rfl
  case h_5 heq => cases heq
  case h_6 hlt _ => exact absurd rfl (hlt (c :: cs))
  all_goals
    next heq =>
      cases heq
      exact absurd h (by decide)

/-- A start tag that is written is scanned with its name, its attributes and its end. -/
theorem scanStartTag?_append {name : QName} (hname : name.Legal) {attrs : List (QName × String)}
    (hattrs : ∀ a ∈ attrs, a.1.Legal ∧ IsDocumentText a.2) (isEmpty : Bool) (rest : List Char) :
    scanStartTag? (name.text.toList ++ (attrs.flatMap writeAttr ++ (writeTagEnd isEmpty ++ rest)))
      = some (.startTag name (attrs.map rawAttrOf) isEmpty, rest) := by
  have hhead : ∀ c ∈ (attrs.flatMap writeAttr ++ (writeTagEnd isEmpty ++ rest)).head?,
      isNameRest c = false ∧ c ≠ ':' := by
    intro c hc
    cases attrs with
    | nil =>
      cases isEmpty <;> cases hc <;> decide
    | cons a attrs =>
      cases hc
      decide
  have hfuel : attrs.length
      < (attrs.flatMap writeAttr ++ (writeTagEnd isEmpty ++ rest)).length + 1 := by
    have hle : attrs.length ≤ (attrs.flatMap writeAttr).length := by
      clear hattrs hhead
      induction attrs with
      | nil => exact Nat.zero_le _
      | cons a attrs ih =>
        rw [List.flatMap_cons, List.length_append, List.length_cons]
        have hpos : 0 < (writeAttr a).length := Nat.succ_pos _
        omega
    rw [List.length_append]
    omega
  unfold scanStartTag?
  simp only [QName.scan?_append hname hhead, Option.bind_eq_bind, Option.bind_some,
    scanAttrs?_flatMap_writeAttr hattrs isEmpty rest hfuel]
  rfl

/-- Line ends stay as they are if there is no carriage return among them. -/
theorem withLineFeeds_eq_iff {s : String} : withLineFeeds s = s ↔ '\r' ∉ s.toList := by
  constructor
  · intro h
    rw [← h]
    exact carriageReturn_not_mem_withLineFeeds s
  · intro h
    rw [withLineFeeds, normalizeLines_of_not_mem h, String.ofList_toList]

/-- A pattern does not end in what lacks its last element. -/
theorem infix_of_infix_append {α : Type} {pattern xs ys : List α} {x : α}
    (hlast : pattern.getLast? = some x) (hx : x ∉ ys) (h : pattern <:+: xs ++ ys) :
    pattern <:+: xs := by
  obtain ⟨before, after, h⟩ := h
  obtain ⟨tail, hxs, -⟩ | ⟨tail, hbefore, hys⟩ := List.append_eq_append_iff.1 h
  · exact ⟨before, tail, hxs.symm⟩
  · cases htail : tail.getLast? with
    | none =>
      rw [List.getLast?_eq_none_iff.1 htail, List.append_nil] at hbefore
      exact ⟨before, [], by rw [List.append_nil, hbefore]⟩
    | some y =>
      have heq : (before ++ pattern).getLast? = (xs ++ tail).getLast? := by rw [hbefore]
      rw [List.getLast?_append, List.getLast?_append, hlast, htail] at heq
      cases heq
      exact absurd (hys ▸ List.mem_append_left _ (List.mem_of_getLast? htail)) hx

/-- The data of an instruction ends at the first sequence that can end it, so it must not
hold one. -/
theorem scanInstruction?_append {target data : String} (h : LegalInstruction target data)
    (hlines : '\r' ∉ data.toList) (rest : List Char) :
    scanInstruction? (target.toList ++ ' ' :: (data.toList ++ (['?', '>'] ++ rest)))
      = some ((target, data), rest) := by
  have htarget : scanName? (target.toList ++ ' ' :: (data.toList ++ (['?', '>'] ++ rest)))
      = some (target.toList, ' ' :: (data.toList ++ (['?', '>'] ++ rest))) :=
    scanName?_eq_some_iff.2 ⟨rfl, h.name, by rintro c ⟨⟩; decide⟩
  have hspace : skipSomeSpace? (' ' :: (data.toList ++ (['?', '>'] ++ rest)))
      = some (data.toList ++ (['?', '>'] ++ rest)) := by
    refine congrArg some ((skipSpace_append_of_head (data.toList) rfl).trans ?_)
    rw [skipSpace_eq_self h.trimmed]
    rfl
  have hsplit : splitAt? ['?', '>'] (data.toList ++ (['?', '>'] ++ rest))
      = some (data.toList, rest) := by
    refine (splitAt?_eq_some_iff (by decide)).2 ⟨rfl, fun hinfix => h.closed ?_⟩
    exact infix_of_infix_append rfl (show '>' ∉ ['?'] by decide) hinfix
  have hopen : expect? ['?', '>'] (' ' :: (data.toList ++ (['?', '>'] ++ rest))) = none := rfl
  have hdata : documentText? data.toList = some data :=
    documentText?_eq_some_iff.2 ⟨rfl, h.text⟩
  unfold scanInstruction?
  simp only [htarget, Option.bind_eq_bind, Option.bind_some, h.free, hopen, hspace, hsplit,
    normalizeLines_of_not_mem hlines, hdata, String.ofList_toList]
  rfl

/-- A comment that is written is scanned, if no two hyphens stand in it and none at its end. -/
theorem scanComment?_append {data : String} (hdata : IsDocumentText data)
    (hclosed : ¬ ['-', '-'] <:+: data.toList ++ ['-']) (hlines : '\r' ∉ data.toList)
    (rest : List Char) :
    scanComment? (data.toList ++ (['-', '-'] ++ '>' :: rest)) = some (data, rest) := by
  have hsplit : splitAt? ['-', '-'] (data.toList ++ (['-', '-'] ++ '>' :: rest))
      = some (data.toList, '>' :: rest) :=
    (splitAt?_eq_some_iff (by decide)).2 ⟨rfl, hclosed⟩
  have hclose : expect? ['>'] ('>' :: rest) = some rest := expect?_eq_some_iff.2 rfl
  unfold scanComment?
  simp only [hsplit, Option.bind_eq_bind, Option.bind_some, hclose,
    normalizeLines_of_not_mem hlines, documentText?_eq_some_iff.2 ⟨rfl, hdata⟩]
  rfl

/-- A mark whose line ends are normalized is read where it was written. -/
theorem Mark.scan?_write_append {m : Mark} (h : m.Legal) (hlines : m.withLineFeeds = m)
    (rest : List Char) : Token.scan? (m.write ++ rest) = some (m.token, rest) := by
  cases m with
  | startTag name attrs isEmpty =>
    obtain ⟨hname, hattrs⟩ := h
    obtain ⟨c, tail, htext, hstart⟩ := hname.exists_text
    have hscan := scanStartTag?_append hname hattrs isEmpty rest
    have hwrite : (Mark.startTag name attrs isEmpty).write ++ rest = '<' :: (name.text.toList
        ++ (attrs.flatMap writeAttr ++ (writeTagEnd isEmpty ++ rest))) := by
      simp [write]
    rw [hwrite]
    rw [htext] at hscan ⊢
    rw [List.cons_append, Token.scan?_of_isNameStart hstart]
    exact hscan
  | endTag name =>
    have hname : QName.scan? (name.text.toList ++ '>' :: rest) = some (name, '>' :: rest) :=
      QName.scan?_append h (by rintro c ⟨⟩; decide)
    have hclose : expect? ['>'] (skipSpace ('>' :: rest)) = some rest :=
      expect?_eq_some_iff.2 (skipSpace_of_head rfl rest)
    have hwrite : (Mark.endTag name).write ++ rest
        = '<' :: '/' :: (name.text.toList ++ '>' :: rest) := by
      simp [write]
    rw [hwrite]
    show scanEndTag? _ = _
    unfold scanEndTag?
    simp only [hname, Option.bind_eq_bind, Option.bind_some, hclose]
    rfl
  | cdata data =>
    obtain ⟨hdata, hclosed⟩ := h
    have hsplit : splitAt? [']', ']', '>'] (data.toList ++ ([']', ']', '>'] ++ rest))
        = some (data.toList, rest) := by
      refine (splitAt?_eq_some_iff (by decide)).2 ⟨rfl, fun hinfix => hclosed ?_⟩
      exact infix_of_infix_append rfl (show '>' ∉ [']', ']'] by decide) hinfix
    have hwrite : (Mark.cdata data).write ++ rest = '<' :: '!' ::
      ['[', 'C', 'D', 'A', 'T', 'A', '[']
        ++ (data.toList ++ ([']', ']', '>'] ++ rest)) := by
      simp [write]
    rw [hwrite]
    show scanCdata? (data.toList ++ ([']', ']', '>'] ++ rest)) = _
    unfold scanCdata?
    simp only [hsplit, Option.bind_eq_bind, Option.bind_some,
      documentText?_eq_some_iff.2 ⟨rfl, hdata⟩]
    rfl
  | comment data =>
    have hscan := scanComment?_append h.1 h.2 (withLineFeeds_eq_iff.1 (Mark.comment.inj hlines)) rest
    have hwrite : (Mark.comment data).write ++ rest = '<' :: '!' :: ['-', '-']
        ++ (data.toList ++ (['-', '-'] ++ '>' :: rest)) := by
      simp [write]
    rw [hwrite]
    show (scanComment? (data.toList ++ (['-', '-'] ++ '>' :: rest))).map _ = _
    rw [hscan]
    rfl
  | instruction target data =>
    have hscan := scanInstruction?_append h (withLineFeeds_eq_iff.1 (Mark.instruction.inj hlines).2)
      rest
    have hwrite : (Mark.instruction target data).write ++ rest
        = '<' :: '?' :: (target.toList ++ ' ' :: (data.toList ++ (['?', '>'] ++ rest))) := by
      simp [write]
    rw [hwrite]
    show (scanInstruction? _).map _ = _
    rw [hscan]
    rfl

/-! ## Reading the pieces -/

/-- Takes in one token of a document. -/
def Builder.feed (b : Builder) (t : Token) : Option Builder :=
  b.take? b.doctype.entityDepth [] t

/-- Takes in character data that was read in one go. Outside of the root it must be white space. -/
def Builder.flush (b : Builder) (cs : List Char) : Option Builder :=
  if cs.isEmpty then some b
  else if b.stack.isEmpty then if cs.all isSpace then some b else none
  else b.addChars? (String.ofList cs)

/-- Takes in the pieces of a written document behind characters that are pending. -/
def Builder.readPieces (b : Builder) (pending : List Char) : List Piece → Option Builder
  | [] => b.flush (normalizeLines pending)
  | .chars cs :: rest => b.readPieces (pending ++ cs) rest
  | .mark m :: rest => do
    let b ← b.flush (normalizeLines pending)
    let b ← b.feed m.withLineFeeds.token
    b.readPieces [] rest

/-- The text is made of tokens, and taking them in does the same as a function. -/
def Reads (cs : List Char) (f : Builder → Option Builder) : Prop :=
  ∃ ts, (∀ fuel, cs.length ≤ fuel → scanTokens? fuel cs = some ts) ∧
    ∀ b : Builder, ts.foldlM Builder.feed b = f b

/-- Where nothing is written nothing is read. -/
theorem Reads.nil : Reads [] some := by
  refine ⟨[], fun fuel _ => ?_, fun b => rfl⟩
  cases fuel <;> rfl

/-- What is read of a token and of the rest is read of the whole. -/
theorem Reads.cons {cs rest : List Char} {t : Token} {f : Builder → Option Builder}
    (hscan : Token.scan? cs = some (t, rest)) (hlength : rest.length < cs.length)
    (h : Reads rest f) : Reads cs fun b => b.feed t >>= f := by
  obtain ⟨ts, hts, hf⟩ := h
  refine ⟨t :: ts, fun fuel hfuel => ?_, fun b => ?_⟩
  · obtain ⟨fuel, rfl⟩ : ∃ k, fuel = k + 1 := ⟨fuel - 1, by omega⟩
    cases cs with
    | nil => cases hlength
    | cons c cs =>
      rw [scanTokens?, hscan]
      show ((scanTokens? fuel rest).bind fun ts => some (t :: ts)) = _
      rw [hts fuel (by omega)]
      rfl
  · rw [List.foldlM_cons]
    exact congrArg (b.feed t >>= ·) (funext hf)

theorem Reads.congr {cs : List Char} {f g : Builder → Option Builder} (h : Reads cs f)
    (hfg : ∀ b, f b = g b) : Reads cs g :=
  funext hfg ▸ h

/-! ### Characters -/

/-- Text that is added in two parts is added at once. -/
theorem addChars_append {s : String} (hs : s ≠ "") (t : String) (nodes : List Node) :
    addChars (s ++ t) nodes = addChars t (addChars s nodes) := by
  have happend : s ++ t ≠ "" := fun h => hs (String.append_eq_empty_iff.1 h).1
  unfold addChars
  cases nodes with
  | nil => simp [hs, happend]
  | cons n nodes => cases n <;> simp [hs, happend, String.append_assoc]

/-- Inside of an element pending characters become text of it. -/
theorem Builder.flush_of_stack {b : Builder} {e : OpenElement} {outer : List OpenElement}
    (h : b.stack = e :: outer) (cs : List Char) : b.flush cs =
      some { b with
        stack := { e with children := addChars (String.ofList cs) e.children } :: outer } := by
  unfold flush addChars?
  rw [h]
  cases cs with
  | nil =>
    have hsame : addChars (String.ofList []) e.children = e.children := by
      unfold addChars
      split
      · next heq => simp [heq]
      · rfl
    rw [hsame, ← h]
    rfl
  | cons c cs => rfl

/-- Characters that are pending may be taken in one after the other. -/
theorem Builder.flush_append (b : Builder) (cs ds : List Char) :
    b.flush (cs ++ ds) = (b.flush cs).bind (·.flush ds) := by
  cases cs with
  | nil => rfl
  | cons c cs =>
    cases hstack : b.stack with
    | nil =>
      cases ds with
      | nil =>
        rw [List.append_nil]
        cases b.flush (c :: cs) <;> rfl
      | cons d ds =>
        have hflush : ∀ {cs : List Char}, cs ≠ [] →
            b.flush cs = if cs.all isSpace then some b else none := by
          intro cs h
          unfold flush
          rw [hstack, if_neg (by simpa using h)]
          rfl
        rw [hflush (by simp), hflush (by simp), List.all_append]
        cases (c :: cs).all isSpace with
        | true => exact (hflush (by simp)).symm
        | false => rfl
    | cons e outer =>
      have hne : String.ofList (c :: cs) ≠ "" := by simp [← String.toList_inj]
      rw [flush_of_stack hstack, flush_of_stack hstack, Option.bind_some, flush_of_stack rfl,
        String.ofList_append, addChars_append hne]

/-- A character that is no white space is text like any other. -/
theorem Builder.feed_character {c : Char} (h : isSpace c = false) (b : Builder) :
    b.feed (.character c) = b.flush [c] := by
  show b.addChars? (String.ofList [c]) = _
  unfold flush addChars?
  cases b.stack <;> simp [h]

/-- Characters in a row are text. -/
theorem Builder.feed_chars {cs : List Char} (h : cs ≠ []) (b : Builder) :
    b.feed (.chars (String.ofList cs)) = b.flush cs := by
  show (if b.stack.isEmpty then if (String.ofList cs).toList.all isSpace then some b else none
    else b.addChars? (String.ofList cs)) = _
  have hempty : cs.isEmpty = false := by simpa using h
  rw [flush, String.toList_ofList, hempty]
  rfl

/-- Characters without marks are read up to the next mark or reference. -/
theorem Token.scan?_chars {cs rest : List Char} (hne : cs ≠ [])
    (h : ∀ c ∈ cs, isDocumentChar c ∧ c ≠ '&' ∧ c ≠ '<' ∧ c ≠ '>')
    (hrest : ∀ c ∈ rest.head?, c = '<' ∨ c = '&') :
    Token.scan? (cs ++ rest) = some (.chars (String.ofList cs), rest) := by
  have hstops : ∀ c ∈ cs, (!(c == '<' || c == '&')) = true := by
    intro c hc
    obtain ⟨-, hamp, hlt, -⟩ := h c hc
    simp [hamp, hlt]
  have hnext : ∀ c ∈ rest.head?, (!(c == '<' || c == '&')) = false := by
    intro c hc
    obtain rfl | rfl := hrest c hc <;> rfl
  obtain ⟨htake, hdrop⟩ := takeWhile_append_eq hstops hnext
  have hsplit : splitAt? [']', ']', '>'] cs = none := by
    cases hsplit : splitAt? [']', ']', '>'] cs with
    | none => rfl
    | some found =>
      obtain ⟨hcs, -⟩ := (splitAt?_eq_some_iff (by decide)).1 hsplit
      have hmem : '>' ∈ cs := by
        rw [hcs]
        simp
      exact absurd rfl (h _ hmem).2.2.2
  have hdata : documentText? cs = some (String.ofList cs) :=
    documentText?_eq_some_iff.2
      ⟨String.toList_ofList, isDocumentText_ofList.2 fun c hc => (h c hc).1⟩
  have hscan : scanChars? (cs ++ rest) = some (.chars (String.ofList cs), rest) := by
    unfold scanChars?
    dsimp only
    rw [htake, hdrop, hsplit, hdata]
    cases cs with
    | nil => exact absurd rfl hne
    | cons c cs => rfl
  cases cs with
  | nil => exact absurd rfl hne
  | cons c cs =>
    obtain ⟨-, hamp, hlt, -⟩ := h c List.mem_cons_self
    rw [List.cons_append] at hscan ⊢
    unfold Token.scan?
    split
    case h_6 => exact hscan
    case h_5 heq => exact absurd (List.cons.inj heq).1 hamp
    all_goals
      next heq => exact absurd (List.cons.inj heq).1 hlt

/-- A text without characters to be escaped is written as it is. -/
theorem flatMap_escapeChar_of_self {cs : List Char} (h : ∀ c ∈ cs, escapeChar c = [c]) :
    cs.flatMap escapeChar = cs := by
  induction cs with
  | nil => rfl
  | cons c cs ih =>
    obtain ⟨hc, hcs⟩ := List.forall_mem_cons.1 h
    rw [List.flatMap_cons, hc, ih hcs]
    rfl

/-- Escaping leaves the character as it is. -/
def isPlain (c : Char) : Bool :=
  c != '&' && c != '<' && c != '"' && c != '>'

/-- Plain characters are not escaped and begin neither references nor tags. -/
theorem escapeChar_of_isPlain {c : Char} (h : isPlain c) :
    escapeChar c = [c] ∧ c ≠ '&' ∧ c ≠ '<' ∧ c ≠ '>' := by
  obtain ⟨⟨⟨hamp, hlt⟩, hquot⟩, hgt⟩ : ((c ≠ '&' ∧ c ≠ '<') ∧ c ≠ '"') ∧ c ≠ '>' := by
    simpa [isPlain] using h
  exact ⟨escapeChar_of_ne hamp hlt hquot hgt, hamp, hlt, hgt⟩

/-- Others are written as references, which are read back as the character. -/
theorem escapeChar_of_not_isPlain {c : Char} (h : isPlain c = false) :
    isSpace c = false ∧ ∃ name, escapeChar c = '&' :: name ∧
      ∀ rest, Reference.scan? (name ++ rest) = some (.char c, rest) := by
  refine (escapeChar_eq c).resolve_left fun ⟨_, hamp, hlt, hquot, hgt⟩ => ?_
  simp [isPlain, hamp, hlt, hquot, hgt] at h

/-- Characters that stand for themselves are one token, up to a mark or a reference. -/
theorem Reads.plain {cs rest : List Char} {f : Builder → Option Builder} (hne : cs ≠ [])
    (h : ∀ c ∈ cs, isDocumentChar c) (hplain : ∀ c ∈ cs, isPlain c)
    (hnext : ∀ c ∈ rest.head?, c = '<' ∨ c = '&') (hf : Reads rest f) :
    Reads (cs ++ rest) fun b => b.flush cs >>= f := by
  have hscan := Token.scan?_chars hne
    (fun c hc => ⟨h c hc, (escapeChar_of_isPlain (hplain c hc)).2⟩) hnext
  refine (Reads.cons hscan ?_ hf).congr fun b => ?_
  · have := List.length_pos_iff.2 hne
    rw [List.length_append]
    omega
  · rw [Builder.feed_chars hne]

/-- A character that does not stand for itself is a token of its own. -/
theorem Reads.escaped {c : Char} {rest : List Char} {f : Builder → Option Builder}
    (h : isPlain c = false) (hf : Reads rest f) :
    Reads (escapeChar c ++ rest) fun b => b.flush [c] >>= f := by
  obtain ⟨hspace, name, hname, hscan⟩ := escapeChar_of_not_isPlain h
  have hreference : Token.scan? ('&' :: (name ++ rest)) = some (.character c, rest) := by
    show (Reference.scan? _).map _ = _
    rw [hscan]
    rfl
  rw [hname, List.cons_append]
  refine (Reads.cons hreference ?_ hf).congr fun b => ?_
  · simp only [List.length_cons, List.length_append]
    omega
  · rw [Builder.feed_character hspace]

/-- Escaped characters up to the next mark are read in one go. -/
theorem Reads.chars {cs rest : List Char} {f : Builder → Option Builder}
    (h : ∀ c ∈ cs, isDocumentChar c) (hrest : ∀ c ∈ rest.head?, c = '<') (hf : Reads rest f) :
    Reads (cs.flatMap escapeChar ++ rest) fun b => b.flush cs >>= f := by
  match cs with
  | [] => exact hf
  | c :: tail =>
    cases hc : isPlain c with
    | true =>
      have hsplit := List.takeWhile_append_dropWhile (p := isPlain) (l := c :: tail)
      have hrun : ∀ d ∈ (c :: tail).takeWhile isPlain, isPlain d :=
        List.all_eq_true.1 List.all_takeWhile
      have hne : (c :: tail).takeWhile isPlain ≠ [] := by
        rw [List.takeWhile_cons_of_pos hc]
        nofun
      have hhead := List.head?_dropWhile_not isPlain (c :: tail)
      generalize (c :: tail).takeWhile isPlain = run at hsplit hrun hne
      generalize (c :: tail).dropWhile isPlain = left at hsplit hhead
      rw [← hsplit] at h ⊢
      obtain ⟨hlegal, hleft⟩ := List.forall_mem_append.1 h
      have hlength : left.length < (c :: tail).length := by
        rw [← hsplit, List.length_append]
        have := List.length_pos_iff.2 hne
        omega
      have hescape := flatMap_escapeChar_of_self fun d hd => (escapeChar_of_isPlain (hrun d hd)).1
      have hnext : ∀ c ∈ (left.flatMap escapeChar ++ rest).head?, c = '<' ∨ c = '&' := by
        intro d hd
        cases left with
        | nil => exact .inl (hrest d hd)
        | cons d' left =>
          obtain ⟨-, name, hname, -⟩ := escapeChar_of_not_isPlain hhead
          rw [List.flatMap_cons, hname] at hd
          cases hd
          exact .inr rfl
      rw [List.flatMap_append, hescape, List.append_assoc]
      refine (Reads.plain hne hlegal hrun hnext (Reads.chars hleft hrest hf)).congr fun b => ?_
      rw [Builder.flush_append]
      exact (Option.bind_assoc _ _ _).symm
    | false =>
      have ih := Reads.chars (List.forall_mem_cons.1 h).2 hrest hf
      rw [List.flatMap_cons, List.append_assoc]
      refine (Reads.escaped hc ih).congr fun b => ?_
      show _ = b.flush ([c] ++ tail) >>= f
      rw [Builder.flush_append]
      exact (Option.bind_assoc _ _ _).symm
termination_by cs.length
decreasing_by
  · exact Nat.lt_succ_self _
  · exact hlength

/-! ### All pieces -/

/-- Line ends are put in order once and for all. -/
theorem Mark.withLineFeeds_withLineFeeds (m : Mark) :
    m.withLineFeeds.withLineFeeds = m.withLineFeeds := by
  have htext : ∀ s, Markup.withLineFeeds (Markup.withLineFeeds s) = Markup.withLineFeeds s :=
    fun s => withLineFeeds_eq_iff.2 (carriageReturn_not_mem_withLineFeeds s)
  cases m with
  | startTag name attrs isEmpty =>
    simp only [withLineFeeds, List.map_map, Function.comp_def, htext]
  | endTag name => rfl
  | cdata data | comment data | instruction target data => simp only [withLineFeeds, htext]

/-- Marks begin with a bracket, which ends the text before them. -/
theorem Mark.head?_write (m : Mark) : m.write.head? = some '<' := by
  cases m <;> rfl

theorem Mark.write_length_pos (m : Mark) : 0 < m.write.length := by
  rw [List.length_pos_iff]
  intro h
  cases h ▸ m.head?_write

/-- And they end with one. -/
theorem Mark.getLast?_write (m : Mark) : m.write.getLast? = some '>' := by
  cases m with
  | startTag name attrs isEmpty =>
    cases isEmpty <;> simp [write, writeTagEnd, List.getLast?_cons]
  | endTag name | cdata data | comment data | instruction target data =>
    simp [write, List.getLast?_cons]

/-- Reading what was written takes in the pieces. -/
theorem reads_pieces {ps : List Piece} (hps : ∀ p ∈ ps, p.Legal) {pending : List Char}
    (hpending : ∀ c ∈ pending, isDocumentChar c) :
    Reads (normalizeLines (pending.flatMap escapeChar ++ ps.flatMap Piece.write))
      (·.readPieces pending ps) := by
  induction ps generalizing pending with
  | nil =>
    have hread := Reads.chars (isDocumentChar_normalizeLines hpending) (by simp) Reads.nil
    rw [List.append_nil] at hread
    rw [List.flatMap_nil, List.append_nil, normalizeLines_flatMap_escapeChar]
    exact hread.congr fun b => Option.bind_fun_some _
  | cons p ps ih =>
    obtain ⟨hp, hrest⟩ := List.forall_mem_cons.1 hps
    cases p with
    | chars cs =>
      have hboth : ∀ c ∈ pending ++ cs, isDocumentChar c :=
        List.forall_mem_append.2 ⟨hpending, hp⟩
      have ih := ih hrest hboth
      rw [List.flatMap_append, List.append_assoc] at ih
      exact ih
    | mark m =>
      have ih := ih hrest (List.forall_mem_nil _)
      have hp : m.Legal := hp
      have hmark : (m.write ++ ps.flatMap Piece.write).head? ≠ some '\n' := by
        rw [List.head?_append, m.head?_write]
        nofun
      have hscan := Mark.scan?_write_append hp.withLineFeeds m.withLineFeeds_withLineFeeds
        (normalizeLines (ps.flatMap Piece.write))
      have hnext : ∀ c ∈ (m.withLineFeeds.write ++ normalizeLines (ps.flatMap Piece.write)).head?,
          c = '<' := by
        intro c hc
        rw [List.head?_append, m.withLineFeeds.head?_write] at hc
        cases hc
        rfl
      have hlength : (normalizeLines (ps.flatMap Piece.write)).length
          < (m.withLineFeeds.write ++ normalizeLines (ps.flatMap Piece.write)).length := by
        have := m.withLineFeeds.write_length_pos
        rw [List.length_append]
        omega
      show Reads (normalizeLines (_ ++ (m.write ++ ps.flatMap Piece.write))) _
      rw [normalizeLines_append (.inr hmark), normalizeLines_append
        (.inl (by simp [m.getLast?_write])),
        Mark.normalizeLines_write hp, normalizeLines_flatMap_escapeChar]
      exact Reads.chars (isDocumentChar_normalizeLines hpending) hnext (Reads.cons hscan hlength ih)

end XmlMacros.Markup
