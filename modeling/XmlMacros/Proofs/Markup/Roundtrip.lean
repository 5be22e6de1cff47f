import XmlMacros.Proofs.Markup.Rereading

/-!
# Written documents are read back

A legal document that can be told from its marks and whose prefixes are bound is written, and what
is written is read (`rereadable_of_legal`). In front of the root only comments and instructions are
written, so the start of what is written is read as such (`readPrologue_written`); from the root on
the document is read as the row of its pieces.
-/

namespace XmlMacros.Markup

/-- All nodes of a document can be told from what ends them. -/
def Document.Writable (d : Document) : Prop :=
  ∀ n ∈ d.nodes, n.Writable

/-- All names of a document are in order. -/
def Document.Bound (d : Document) : Prop :=
  d.root.node.Bound Bindings.initial

instance (d : Document) : Decidable d.Writable :=
  inferInstanceAs (Decidable (∀ n ∈ d.nodes, n.Writable))

instance (d : Document) : Decidable d.Bound :=
  inferInstanceAs (Decidable (d.root.node.Bound Bindings.initial))

/-- The document is written, and what is written is read. -/
def Document.Rereadable (layout : Layout) (d : Document) : Prop :=
  ∃ text d', d.write layout = .ok text ∧ read text = .ok d'

/-- Whether a document is written and read back can be tried out. -/
instance (layout : Layout) (d : Document) : Decidable (d.Rereadable layout) :=
  decidable_of_iff ((d.write layout).toOption.any fun text => (read text).toOption.isSome) <| by
    unfold Document.Rereadable
    cases d.write layout with
    | error => simp [Except.toOption]
    | ok text => cases hread : read text <;> simp [Except.toOption, hread]

/-! ## The pieces of what is in order -/

/-- White space may stand in a document. -/
theorem isDocumentChar_of_isSpace {c : Char} (h : isSpace c) : isDocumentChar c := by
  obtain rfl | rfl | rfl | rfl : c = ' ' ∨ c = '\t' ∨ c = '\n' ∨ c = '\r' := by
    simpa [isSpace, or_assoc] using h
  all_goals decide

/-- White space stays white space where lines are made normal. -/
theorem isSpace_of_mem_normalizeLines {space : List Char} (h : ∀ c ∈ space, isSpace c) :
    ∀ c ∈ normalizeLines space, isSpace c := by
  intro c hc
  obtain rfl | hc := mem_normalizeLines hc
  · rfl
  · exact h c hc

/-- The hyphen that ends a comment makes no two hyphens with characters that do not end in one. -/
theorem not_infix_append_hyphen {cs : List Char} (h : ¬ ['-', '-'] <:+: cs)
    (hlast : cs.getLast? ≠ some '-') : ¬ ['-', '-'] <:+: cs ++ ['-'] := by
  rintro ⟨before, after, heq⟩
  obtain rfl | ⟨after, c, rfl⟩ := List.eq_nil_or_concat after
  · have heq : (before ++ ['-']) ++ ['-'] = cs ++ ['-'] := by simpa using heq
    refine hlast ?_
    rw [← List.append_cancel_right heq, List.getLast?_concat]
  · have heq : (before ++ ['-', '-'] ++ after) ++ [c] = cs ++ ['-'] := by simpa using heq
    exact h ⟨before, after, (List.append_inj' heq rfl).1⟩

/-- Names that declare are in order, and all others are names anyway. -/
theorem legal_parts {bindings : Bindings} {tag : QName} {attrs : List Attr}
    (hnames : NamesBound bindings tag (readAttrs (attrs.map Attr.parts)))
    (hattrs : ∀ a ∈ attrs, a.Legal) :
    ∀ a ∈ attrs.map Attr.parts, a.1.Legal ∧ IsDocumentText a.2 := by
  intro parts hparts
  obtain ⟨a, ha, rfl⟩ := List.mem_map.1 hparts
  refine ⟨?_, (hattrs a ha).value⟩
  obtain ⟨q, hq, hname⟩ | hdeclares := (hattrs a ha).name
  · rw [Attr.parts, ← hname, QName.ofText_text hq]
    exact hq
  · exact (hnames.declared _ (List.mem_map_of_mem hparts) hdeclares).name

theorem legal_ofText {text : String} (h : IsQName text) : (QName.ofText text).Legal := by
  obtain ⟨q, hq, rfl⟩ := h
  rwa [QName.ofText_text hq]

/-- White space between marks is a legal piece. -/
theorem legal_chars_of_isSpace {cs : List Char} (h : ∀ c ∈ cs, isSpace c) :
    (Piece.chars cs).Legal :=
  fun c hc => isDocumentChar_of_isSpace (h c hc)

mutual

/-- The pieces of a node that is in order are legal. -/
theorem legal_pieces {layout : Layout} (hlayout : layout.IsBlank) {level : List Char}
    (hlevel : ∀ c ∈ level, isSpace c) :
    ∀ {n : Node} {bindings : Bindings}, n.Legal → n.Writable → n.Bound bindings →
      ∀ p ∈ n.pieces layout level, p.Legal
  | .text data, _, .text h, _, _ => by
    refine List.forall_mem_singleton.2 (List.forall_mem_append.2
      ⟨List.forall_mem_append.2 ⟨?_, h⟩, ?_⟩)
    · exact legal_chars_of_isSpace hlevel
    · exact legal_chars_of_isSpace hlayout.newline
  | .cdata data, _, .cdata h, .cdata hfree, _ => List.forall_mem_singleton.2 ⟨h, hfree⟩
  | .comment data, _, .comment h, .comment hfree hlast, _ => by
    have hmark : (Piece.mark (.comment data)).Legal := ⟨h, not_infix_append_hyphen hfree hlast⟩
    simpa [Node.pieces, hmark] using
      ⟨legal_chars_of_isSpace hlevel, legal_chars_of_isSpace hlayout.newline⟩
  | .instruction target data, _, .instruction h, _, _ => by
    have hmark : (Piece.mark (.instruction target data)).Legal := h
    simpa [Node.pieces, hmark] using
      ⟨legal_chars_of_isSpace hlevel, legal_chars_of_isSpace hlayout.newline⟩
  | .element tag attrs children, bindings, .element htag hattrs _ hlegal, .element hwritable,
      .element hnames hbound => by
    have htag := legal_ofText htag
    have hstart : ∀ isEmpty,
        (Piece.mark (.startTag (.ofText tag) (attrs.map Attr.parts) isEmpty)).Legal :=
      fun _ => ⟨htag, legal_parts hnames hattrs⟩
    have hend : (Piece.mark (.endTag (.ofText tag))).Legal := htag
    have hlevel' := legal_chars_of_isSpace hlevel
    have hnewline := legal_chars_of_isSpace hlayout.newline
    have hchildren := legal_piecesOfChildren hlayout
      (List.forall_mem_append.2 ⟨hlevel, hlayout.indent⟩) hlegal hwritable hbound
    unfold Node.pieces
    dsimp only
    split
    · simpa [hstart] using ⟨hlevel', hnewline⟩
    · next data =>
      cases hlegal _ List.mem_cons_self with | text hdata =>
      have hdata : (Piece.chars data.toList).Legal := hdata
      simpa [hstart, hend, hdata] using ⟨hlevel', hnewline⟩
    · simp only [List.forall_mem_append, List.forall_mem_cons]
      exact ⟨⟨⟨hlevel', hstart false, hnewline, nofun⟩, hchildren⟩, hlevel', hend, hnewline, nofun⟩

/-- The pieces that legal nodes are written as are legal. The induction is on the nodes, together
with the one on a node's children. -/
theorem legal_piecesOfChildren {layout : Layout} (hlayout : layout.IsBlank) {level : List Char}
    (hlevel : ∀ c ∈ level, isSpace c) :
    ∀ {nodes : List Node} {bindings : Bindings}, (∀ n ∈ nodes, n.Legal) →
      (∀ n ∈ nodes, n.Writable) → (∀ n ∈ nodes, n.Bound bindings) →
      ∀ p ∈ piecesOfChildren layout level nodes, p.Legal
  | [], _, _, _, _ => nofun
  | n :: rest, _, hlegal, hwritable, hbound => by
    obtain ⟨hn, hrest⟩ := List.forall_mem_cons.1 hlegal
    obtain ⟨hn', hrest'⟩ := List.forall_mem_cons.1 hwritable
    obtain ⟨hn'', hrest''⟩ := List.forall_mem_cons.1 hbound
    refine List.forall_mem_append.2 ⟨?_, legal_piecesOfChildren hlayout hlevel hrest hrest' hrest''⟩
    split
    · exact nofun
    · exact legal_pieces hlayout hlevel hn hn' hn''

end

/-- What nodes are written as is what their pieces are written as. -/
theorem writeNodes_eq {layout : Layout} (hlayout : layout.IsBlank) {nodes : List Node}
    (h : ∀ n ∈ nodes, n.Writable) :
    writeNodes layout nodes
      = .ok (String.ofList ((piecesOfNodes layout nodes).flatMap Piece.write)) := by
  induction nodes with
  | nil => rfl
  | cons n rest ih =>
    obtain ⟨hn, hrest⟩ := List.forall_mem_cons.1 h
    have hfirst : n.write layout "" = _ := Node.write_eq hlayout (by simp) hn
    rw [writeNodes, hfirst, ih hrest]
    refine congrArg Except.ok (String.toList_inj.1 ?_)
    simp [piecesOfNodes]

/-! ## Outside of the root -/

/-- The mark of a comment or an instruction. -/
def Misc.mark : Misc → Mark
  | .comment data => .comment data
  | .instruction target data => .instruction target data

/-- What stands beside the root is written as one mark, on a line of its own. -/
theorem Misc.pieces_node (m : Misc) (layout : Layout) (level : List Char) :
    m.node.pieces layout level = [.chars level, .mark m.mark, .chars layout.newline.toList] := by
  cases m <;> rfl

/-- The pieces of an element from its tag on. -/
def Element.pieces (layout : Layout) (level : List Char) (e : Element) : List Piece :=
  (e.node.pieces layout level).tail

theorem Element.pieces_eq {layout : Layout} {level : List Char} {e : Element} {p : Piece}
    {ps : List Piece} (h : e.node.pieces layout level = p :: ps) : e.pieces layout level = ps := by
  rw [pieces, h, List.tail_cons]

/-- An element is written behind the indentation of its level. -/
theorem Element.pieces_node (layout : Layout) (level : List Char) (e : Element) :
    e.node.pieces layout level = .chars level :: e.pieces layout level := by
  unfold pieces Element.node Node.pieces
  dsimp only
  split <;> rfl

namespace Builder

/-- Outside of the root, blank characters are dropped. -/
theorem flush_of_blank {b : Builder} (h : b.stack = []) {cs : List Char}
    (hcs : ∀ c ∈ cs, isSpace c) : b.flush (normalizeLines cs) = some b := by
  have hall : (normalizeLines cs).all isSpace = true :=
    List.all_eq_true.2 (isSpace_of_mem_normalizeLines hcs)
  unfold flush
  rw [h, hall]
  cases (normalizeLines cs).isEmpty <;> rfl

/-- Outside of the root a mark is read behind white space. -/
theorem readPieces_mark {b b' : Builder} (hstack : b.stack = []) {space : List Char}
    (hspace : ∀ c ∈ space, isSpace c) {m : Mark} (hfeed : b.feed m.withLineFeeds.token = some b')
    (rest : List Piece) : b.readPieces space (.mark m :: rest) = b'.readPieces [] rest := by
  show (b.flush (normalizeLines space)).bind (fun b =>
    (b.feed m.withLineFeeds.token).bind (·.readPieces [] rest)) = _
  rw [flush_of_blank hstack hspace, Option.bind_some, hfeed, Option.bind_some]

/-- The root is read with all that it holds. -/
theorem readPieces_root {b : Builder} (hplain : b.IsPlain) (hstack : b.stack = [])
    (hroot : b.root = none) (layout : Layout) (level : List Char) {space : List Char}
    (hspace : ∀ c ∈ space, isSpace c) {e : Element} (hlegal : e.node.Legal)
    (hbound : e.node.Bound Bindings.initial) (rest : List Piece) :
    b.readPieces space (e.pieces layout level ++ rest) =
      { b with root := some (e.reread layout level) }.readPieces layout.newline.toList rest := by
  cases hlegal with | element _ _ hnames hlegal =>
  cases hbound with | element hbound hchildren =>
  have houter : b.bindings = Bindings.initial := by
    unfold bindings
    rw [hstack]
  let first := opened Bindings.initial (.ofText e.tag) (e.attrs.map Attr.parts)
  have hclose (children : List Node) :
      (b.withStack [{ first with children := children }]).closeElement? (.ofText e.tag) =
        some { b with root := some ⟨e.tag, first.attrs, children.reverse⟩ } := by
    unfold closeElement? withStack OpenElement.close
    simp [first, opened, hplain.nested, hstack, QName.text_ofText]
  have hopen := feed_startTag hplain (fun _ => hroot) (houter.symm ▸ hbound)
    (nodup_parts hnames.distinct)
  rw [houter, hstack] at hopen
  have hchildren := absorbed_piecesOfChildren layout (level ++ layout.indent.toList) hlegal
    hchildren
  obtain ⟨hempty, hpieces⟩ | ⟨inner, f, hinner, hinside, hpieces⟩ :=
    pieces_element e.tag e.attrs hchildren
  · have hread : e.reread layout level = ⟨e.tag, first.attrs, [].reverse⟩ := by
      unfold Element.reread
      rw [hempty]
      rfl
    rw [Element.pieces_eq hpieces, hread]
    exact readPieces_mark hstack hspace ((hopen true).trans (hclose [])) _
  · have hread := hinner.read [] (.mark (.endTag (.ofText e.tag)) :: .chars layout.newline.toList :: rest)
      (hplain.withStack [first]) rfl rfl
    rw [Element.pieces_eq hpieces]
    show b.readPieces space (.mark _ :: ((inner ++ _) ++ rest)) = _
    rw [List.append_assoc]
    refine (readPieces_mark hstack hspace (hopen false) _).trans (hread.trans ?_)
    show (Builder.flush _ (normalizeLines (f ⟨[], []⟩).pending)).bind (fun b =>
      (b.feed (.endTag (.ofText e.tag))).bind
        (·.readPieces [] (.chars layout.newline.toList :: rest))) = _
    rw [flush_of_stack rfl, Option.bind_some]
    have hend : (b.withStack [{ first with children := (f ⟨[], []⟩).flush }]).feed
        (.endTag (.ofText e.tag)) = some { b with root := some (e.reread layout level) } := by
      rw [hinside]
      exact hclose _
    exact congrArg (Option.bind · (·.readPieces [] (.chars layout.newline.toList :: rest))) hend

/-- Behind the root comments and instructions are read up to the end of the document. -/
theorem exists_readPieces_misc {b : Builder} (hstack : b.stack = []) (hroot : b.root.isSome)
    {layout : Layout} (hlayout : layout.IsBlank) {space : List Char}
    (hspace : ∀ c ∈ space, isSpace c) (nodes : List Misc) :
    ∃ d, (b.readPieces space (piecesOfNodes layout (nodes.map Misc.node))).bind finish? = some d := by
  induction nodes generalizing b space with
  | nil =>
    obtain ⟨e, hroot⟩ := Option.isSome_iff_exists.1 hroot
    refine ⟨⟨b.before.reverse, e, b.after.reverse⟩, ?_⟩
    show (b.flush (normalizeLines space)).bind finish? = _
    rw [flush_of_blank hstack hspace, Option.bind_some]
    unfold finish?
    rw [hstack, hroot]
    rfl
  | cons m nodes ih =>
    have hfeed : ∃ m', b.feed m.mark.withLineFeeds.token = some { b with after := m' :: b.after } := by
      have hadd : ∀ m', b.addMisc m' = { b with after := m' :: b.after } := by
        intro m'
        unfold addMisc
        rw [hstack, if_neg (by simpa [Option.isSome_iff_ne_none] using hroot)]
      cases m with
      | comment data => exact ⟨_, congrArg some (hadd _)⟩
      | instruction target data => exact ⟨_, congrArg some (hadd _)⟩
    obtain ⟨m', hfeed⟩ := hfeed
    obtain ⟨d, hread⟩ := ih (b := { b with after := m' :: b.after }) hstack hroot hlayout.newline
    refine ⟨d, ?_⟩
    have hpieces : piecesOfNodes layout ((m :: nodes).map Misc.node) = .chars [] :: .mark m.mark ::
        .chars layout.newline.toList :: piecesOfNodes layout (nodes.map Misc.node) := by
      rw [List.map_cons, piecesOfNodes, List.flatMap_cons, m.pieces_node]
      rfl
    have hspace : ∀ c ∈ space ++ [], isSpace c := by rwa [List.append_nil]
    rw [hpieces, readPieces, readPieces_mark hstack hspace hfeed]
    exact hread

end Builder

/-! ## In front of the root -/

/-- The pieces beside the root are written as their mark and a line break. -/
theorem write_misc {layout : Layout} (hlayout : layout.IsBlank) (m : Misc) :
    (m.node.pieces layout []).flatMap Piece.write = m.mark.write ++ layout.newline.toList := by
  rw [m.pieces_node]
  simp [Piece.write, flatMap_escapeChar_of_isSpace hlayout.newline]

/-- A comment or an instruction is passed over in front of the root. -/
theorem readPrologue_mark {m : Misc} (hm : m.mark.Legal) {space : List Char}
    (hspace : ∀ c ∈ space, isSpace c) (standalone : Bool) (fuel : Nat) (nodes : List Misc)
    (rest : List Char) : ∃ m', readPrologue standalone (fuel + 1) nodes
        (space ++ (m.mark.withLineFeeds.write ++ rest))
      = readPrologue standalone fuel (m' :: nodes) rest := by
  cases m with
  | comment data =>
    refine ⟨.comment (withLineFeeds data), ?_⟩
    have hlegal : (Mark.comment data).withLineFeeds.Legal := hm.withLineFeeds
    have hscan := scanComment?_append hlegal.1 hlegal.2
      (carriageReturn_not_mem_withLineFeeds data) rest
    have hwrite : (Mark.comment data).withLineFeeds.write ++ rest = '<' :: '!' :: '-' :: '-' ::
        ((withLineFeeds data).toList ++ (['-', '-'] ++ '>' :: rest)) := by
      simp [Mark.withLineFeeds, Mark.write]
    rw [Misc.mark, hwrite, readPrologue, skipSpace_append hspace, skipSpace_of_head rfl]
    show (wellFormed (scanComment? _)).bind _ = _
    rw [hscan]
    rfl
  | instruction target data =>
    refine ⟨.instruction target (withLineFeeds data), ?_⟩
    have hlegal : (Mark.instruction target data).withLineFeeds.Legal := hm.withLineFeeds
    have hscan := scanInstruction?_append hlegal (carriageReturn_not_mem_withLineFeeds data) rest
    have hwrite : (Mark.instruction target data).withLineFeeds.write ++ rest = '<' :: '?' ::
        (target.toList ++ ' ' :: ((withLineFeeds data).toList ++ (['?', '>'] ++ rest))) := by
      simp [Mark.withLineFeeds, Mark.write]
    rw [Misc.mark, hwrite, readPrologue, skipSpace_append hspace, skipSpace_of_head rfl]
    show (wellFormed (scanInstruction? _)).bind _ = _
    rw [hscan]
    rfl

/-- White space and a tag are made the same lines together as apart. -/
theorem normalizeLines_tag (space : List Char) {c : Char} (hc : isNameStart c) (tail : List Char) :
    normalizeLines (space ++ '<' :: c :: tail) =
      normalizeLines space ++ '<' :: c :: normalizeLines tail := by
  have hreturn : c ≠ '\r' := by
    rintro rfl
    exact absurd hc (by decide)
  rw [normalizeLines_append (.inr (by simp)), normalizeLines_cons (by decide),
    normalizeLines_cons hreturn]

/-- A tag is where the start of a document ends. -/
theorem readPrologue_tag {space : List Char} (hspace : ∀ c ∈ space, isSpace c) {c : Char}
    (hc : isNameStart c) (tail : List Char) (standalone : Bool) (fuel : Nat) (nodes : List Misc) :
    readPrologue standalone (fuel + 1) nodes (normalizeLines (space ++ '<' :: c :: tail)) =
      .ok (⟨nodes.reverse, { standalone := standalone }⟩, normalizeLines ('<' :: c :: tail)) := by
  have htag : normalizeLines ('<' :: c :: tail) = '<' :: c :: normalizeLines tail :=
    normalizeLines_tag [] hc tail
  have hskip : skipSpace (normalizeLines (space ++ '<' :: c :: tail)) =
      '<' :: c :: normalizeLines tail := by
    rw [normalizeLines_tag space hc, skipSpace_append (isSpace_of_mem_normalizeLines hspace),
      skipSpace_of_head rfl]
  rw [readPrologue, hskip, htag]
  have hmark : c ≠ '?' ∧ c ≠ '!' := by
    constructor <;> (rintro rfl; exact absurd hc (by decide))
  split
  · next heq => exact absurd (List.cons.inj (List.cons.inj heq).2).1 hmark.1
  · next heq => exact absurd (List.cons.inj (List.cons.inj heq).2).1 hmark.2
  · have hdoctype : expect? "<!DOCTYPE".toList ('<' :: c :: normalizeLines tail) = none := by
      refine Option.eq_none_iff_forall_ne_some.2 fun rest h => ?_
      exact hmark.2 (List.cons.inj (List.cons.inj (expect?_eq_some_iff.1 h)).2).1
    rw [hdoctype]

/-- In front of a tag the start of what is written is read. -/
theorem readPrologue_written {layout : Layout} (hlayout : layout.IsBlank) {before : List Misc}
    (hbefore : ∀ m ∈ before, m.mark.Legal) {space : List Char} (hspace : ∀ c ∈ space, isSpace c)
    {c : Char} (hc : isNameStart c) (tail : List Char) {fuel : Nat} (nodes : List Misc) :
    let written := normalizeLines (space ++
      ((piecesOfNodes layout (before.map Misc.node)).flatMap Piece.write ++ '<' :: c :: tail))
    written.length < fuel → ∃ nodes', readPrologue false fuel nodes written
      = .ok (⟨nodes', { standalone := false }⟩, normalizeLines ('<' :: c :: tail)) := by
  induction before generalizing space fuel nodes with
  | nil =>
    intro written hfuel
    obtain ⟨fuel, rfl⟩ : ∃ k, fuel = k + 1 := ⟨fuel - 1, by omega⟩
    exact ⟨nodes.reverse, readPrologue_tag hspace hc tail false fuel nodes⟩
  | cons m before ih =>
    intro written hfuel
    obtain ⟨hm, hbefore⟩ := List.forall_mem_cons.1 hbefore
    obtain ⟨fuel, rfl⟩ : ∃ k, fuel = k + 1 := ⟨fuel - 1, by omega⟩
    let rest := layout.newline.toList ++
      ((piecesOfNodes layout (before.map Misc.node)).flatMap Piece.write ++ '<' :: c :: tail)
    have hwritten : written
        = normalizeLines space ++ (m.mark.withLineFeeds.write ++ normalizeLines rest) := by
      have hparts : (piecesOfNodes layout ((m :: before).map Misc.node)).flatMap Piece.write
          ++ '<' :: c :: tail = m.mark.write ++ rest := by
        rw [List.map_cons, piecesOfNodes, List.flatMap_cons, List.flatMap_append, write_misc
          hlayout]
        simp [rest, piecesOfNodes]
      show normalizeLines (space ++ (_ ++ '<' :: c :: tail)) = _
      rw [hparts, normalizeLines_append (.inr (by simp [m.mark.head?_write])),
        normalizeLines_append (.inl (by simp [m.mark.getLast?_write])), Mark.normalizeLines_write hm]
    have hlength : (normalizeLines rest).length < fuel := by
      have hpos : 0 < m.mark.withLineFeeds.write.length := m.mark.withLineFeeds.write_length_pos
      rw [hwritten, List.length_append, List.length_append] at hfuel
      omega
    obtain ⟨m', hread⟩ := readPrologue_mark hm (isSpace_of_mem_normalizeLines hspace) false fuel nodes
      (normalizeLines rest)
    obtain ⟨nodes', ih⟩ := ih hbefore hlayout.newline (m' :: nodes) hlength
    exact ⟨nodes', by rw [hwritten, hread, ih]⟩

/-- What a document is declared as when it is written. -/
def declaration : List Char :=
  "<?xml version=\"1.0\" ?>".toList

/-- The declaration that is written is read, and does not claim that the document stands alone. -/
theorem readDeclaration?_declaration (rest : List Char) :
    readDeclaration? (declaration ++ rest) = some (false, rest) := by
  have hopen : expect? "<?xml".toList (declaration ++ rest)
      = some (" version=\"1.0\" ".toList ++ (['?', '>'] ++ rest)) :=
    expect?_eq_some_iff.2 rfl
  have hsplit : splitAt? ['?', '>'] (" version=\"1.0\" ".toList ++ (['?', '>'] ++ rest))
      = some (" version=\"1.0\" ".toList, rest) := by
    refine (splitAt?_eq_some_iff (by decide)).2 ⟨rfl, fun hinfix => ?_⟩
    exact absurd ((occursIn_iff _ _).2 hinfix) (by decide)
  have hsettings : readSettings? " version=\"1.0\" ".toList = some false := by decide
  unfold readDeclaration?
  rw [hopen]
  dsimp only
  have hname : ¬ (" version=\"1.0\" ".toList ++ (['?', '>'] ++ rest)).head?.any isNameRest :=
    Bool.false_ne_true
  rw [if_neg hname, hsplit]
  show ((readSettings? " version=\"1.0\" ".toList).bind fun standalone => some (standalone, rest)) = _
  rw [hsettings]
  rfl

/-- Behind its declaration a document is read as what stands in front of the root and the root. -/
theorem read_declaration (body : List Char) : read (String.ofList (declaration ++ body)) = (do
    let (prologue, cs) ← readPrologue false ((normalizeLines body).length + 1) []
      (normalizeLines body)
    let start : Builder := .start prologue (String.ofList (declaration ++ body)).utf8ByteSize
    wellFormed (do documentOfTokens? start (← tokens? cs))) := by
  have hlines : normalizeLines (declaration ++ body) = declaration ++ normalizeLines body := by
    rw [normalizeLines_append (.inl (by decide)), normalizeLines_of_not_mem (by decide)]
  unfold read
  rw [String.toList_ofList]
  show (wellFormed (readDeclaration? (normalizeLines (declaration ++ body)))).bind _ = _
  rw [hlines, readDeclaration?_declaration]
  rfl

/-- What is put together of the tokens of written pieces is what reading the pieces gives. -/
theorem documentOfTokens?_pieces {ps : List Piece} (hps : ∀ p ∈ ps, p.Legal) (start : Builder) :
    (do documentOfTokens? start (← tokens? (normalizeLines (ps.flatMap Piece.write)))) =
      (start.readPieces [] ps).bind Builder.finish? := by
  obtain ⟨ts, hts, hfeed⟩ := reads_pieces hps (List.forall_mem_nil _)
  have htokens : tokens? (normalizeLines (ps.flatMap Piece.write)) = some ts := hts _
    (Nat.le_refl _)
  rw [htokens]
  exact congrArg (Option.bind · Builder.finish?) (hfeed start)

/-! ## Documents -/

/-- The pieces of a document from the root on. -/
def Document.rootPieces (layout : Layout) (d : Document) : List Piece :=
  d.root.pieces layout [] ++ piecesOfNodes layout (d.after.map Misc.node)

/-- A document as it is written. -/
def Document.written (layout : Layout) (d : Document) : List Char :=
  declaration ++ (layout.newline.toList ++
    ((piecesOfNodes layout (d.before.map Misc.node)).flatMap Piece.write ++
      (d.rootPieces layout).flatMap Piece.write))

theorem Misc.bound_node (m : Misc) (bindings : Bindings) : m.node.Bound bindings := by
  cases m
  · exact .comment
  · exact .instruction

/-- An element is written from its tag on. -/
theorem Element.exists_write (layout : Layout) (level : List Char) {e : Element}
    (htag : IsQName e.tag) :
    ∃ c tail, isNameStart c ∧ (e.pieces layout level).flatMap Piece.write = '<' :: c :: tail := by
  obtain ⟨c, tail, htext, hc⟩ := (legal_ofText htag).exists_text
  have hpieces : ∃ isEmpty more, e.node.pieces layout level = .chars level ::
      .mark (.startTag (.ofText e.tag) (e.attrs.map Attr.parts) isEmpty) :: more := by
    unfold Element.node Node.pieces
    dsimp only
    split <;> exact ⟨_, _, rfl⟩
  obtain ⟨isEmpty, more, hpieces⟩ := hpieces
  rw [Element.pieces_eq hpieces, List.flatMap_cons]
  simp only [Piece.write, Mark.write, htext]
  exact ⟨c, _, hc, rfl⟩

section
variable {layout : Layout} (hlayout : layout.IsBlank) {d : Document}

include hlayout

/-- A document that can be written is written as `written` puts its pieces together. -/
theorem write_eq_written (hwritable : d.Writable) :
    d.write layout = .ok (String.ofList (d.written layout)) := by
  have hnodes : (piecesOfNodes layout d.nodes).flatMap Piece.write =
      (piecesOfNodes layout (d.before.map Misc.node)).flatMap Piece.write ++
        (d.rootPieces layout).flatMap Piece.write := by
    unfold piecesOfNodes Document.nodes Document.rootPieces
    rw [List.flatMap_append, List.flatMap_cons, d.root.pieces_node, List.flatMap_append]
    rfl
  unfold Document.write
  rw [writeNodes_eq hlayout hwritable, hnodes]
  refine congrArg Except.ok (String.toList_inj.1 ?_)
  rw [String.toList_append, String.toList_append, String.toList_ofList, String.toList_ofList,
    List.append_assoc]
  exact String.toList_ofList.symm

/-- The mark of a legal node beside the root is legal. -/
theorem legal_mark_of_mem {m : Misc} (hlegal : m.node.Legal) (hwritable : m.node.Writable) :
    m.mark.Legal := by
  refine legal_pieces hlayout (List.forall_mem_nil _) hlegal hwritable
    (m.bound_node Bindings.initial) (.mark m.mark) ?_
  rw [m.pieces_node]
  simp

/-- The pieces of a legal root are legal. -/
theorem legal_rootPieces (hlegal : d.Legal) (hwritable : d.Writable) (hbound : d.Bound) :
    ∀ p ∈ d.rootPieces layout, p.Legal := by
  obtain ⟨-, hroot, hafter⟩ := Document.forall_nodes_iff.1 hlegal
  obtain ⟨-, hroot', hafter'⟩ := Document.forall_nodes_iff.1 hwritable
  refine List.forall_mem_append.2 ⟨fun p hp => ?_, fun p hp => ?_⟩
  · refine legal_pieces hlayout (List.forall_mem_nil _) hroot hroot' hbound p ?_
    exact List.mem_of_mem_tail hp
  · obtain ⟨n, hn, hp⟩ := List.mem_flatMap.1 hp
    obtain ⟨m, hm, rfl⟩ := List.mem_map.1 hn
    exact legal_pieces hlayout (List.forall_mem_nil _) (hafter m hm) (hafter' m hm)
      (m.bound_node Bindings.initial) p hp

/-- From the root on a document is read as the row of its pieces. -/
theorem exists_readPieces_rootPieces (hlegal : d.Legal) (hbound : d.Bound) {b : Builder}
    (hplain : b.IsPlain) (hstack : b.stack = []) (hroot : b.root = none) :
    ∃ d', (b.readPieces [] (d.rootPieces layout)).bind Builder.finish? = some d' := by
  have hread := Builder.readPieces_root hplain hstack hroot layout [] (List.forall_mem_nil _)
    (Document.forall_nodes_iff.1 hlegal).2.1 hbound (piecesOfNodes layout (d.after.map Misc.node))
  obtain ⟨d', hmisc⟩ := Builder.exists_readPieces_misc
    (b := { b with root := some (d.root.reread layout []) }) hstack rfl hlayout hlayout.newline
    d.after
  exact ⟨d', (congrArg (Option.bind · Builder.finish?) hread).trans hmisc⟩

/-- What is written of a document in order is read. -/
theorem exists_read_written (hlegal : d.Legal) (hwritable : d.Writable) (hbound : d.Bound) :
    ∃ d', read (String.ofList (d.written layout)) = .ok d' := by
  obtain ⟨hbefore, hroot, -⟩ := Document.forall_nodes_iff.1 hlegal
  obtain ⟨hbefore', -, -⟩ := Document.forall_nodes_iff.1 hwritable
  obtain ⟨c, tail, hc, hstart⟩ : ∃ c tail, isNameStart c ∧
      (d.rootPieces layout).flatMap Piece.write = '<' :: c :: tail := by
    cases hroot with | element htag =>
    obtain ⟨c, tail, hc, hwrite⟩ := Element.exists_write layout [] htag
    refine ⟨c, tail ++ (piecesOfNodes layout (d.after.map Misc.node)).flatMap Piece.write, hc, ?_⟩
    rw [Document.rootPieces, List.flatMap_append, hwrite]
    rfl
  obtain ⟨nodes, hprologue⟩ := readPrologue_written hlayout
    (fun m hm => legal_mark_of_mem hlayout (hbefore m hm) (hbefore' m hm)) hlayout.newline hc tail []
    (Nat.lt_succ_self _)
  rw [← hstart] at hprologue
  let start : Builder := .start ⟨nodes, { standalone := false }⟩
    (String.ofList (d.written layout)).utf8ByteSize
  obtain ⟨d', hd'⟩ := exists_readPieces_rootPieces hlayout hlegal hbound (b := start)
    ⟨rfl, rfl, rfl⟩ rfl rfl
  refine ⟨d', ?_⟩
  rw [Document.written, read_declaration, hprologue]
  refine (congrArg wellFormed (documentOfTokens?_pieces ?_ start)).trans ?_
  · exact legal_rootPieces hlayout hlegal hwritable hbound
  · rw [hd']
    rfl

/-- A legal document in order is written, and what is written is read. -/
theorem rereadable_of_legal (hlegal : d.Legal) (hwritable : d.Writable) (hbound : d.Bound) :
    d.Rereadable layout := by
  obtain ⟨d', hread⟩ := exists_read_written hlayout hlegal hwritable hbound
  exact ⟨_, d', write_eq_written hlayout hwritable, hread⟩

end

end XmlMacros.Markup
