import Mathlib.Data.Option.Basic
import XmlMacros.Markup.Reader
import XmlMacros.Proofs.Markup.Scanning
import XmlMacros.Proofs.Run
import XmlMacros.Proofs.Text.Characters

/-!
# What is read is legal

A tree is legal if its parts may stand in a document as far as each of them is concerned alone: tags
are names, the targets of instructions too, no attribute is given twice, declarations stand before
the other attributes, and all texts are made of characters that documents may hold (`Node.Legal`).
Whatever is read is legal (`legal_of_read`), no matter what the document declares: the texts of
entities are read like the document itself, and the values that attributes have by declaration are
looked at where they are declared (`Doctype.Legal`).

The names of attributes are not all names. A declaration of a prefix that an element has without
giving it comes into the tree under the name that a document type declaration has for it, and there
a digit may follow the colon.

Texts that are evaluated may come to hold other characters. So which ones a tree has is left open
where nothing depends on them (`Node.LegalOver`).
-/

namespace XmlMacros.Markup

/-- The text of a qualified name. -/
def IsQName (text : String) : Prop :=
  ∃ q : QName, q.Legal ∧ q.text = text

/-- A text made of certain characters. -/
def TextOver (p : Char → Prop) (s : String) : Prop :=
  ∀ c ∈ s.toList, p c

/-- A text made of some characters is made of those of a larger class. -/
theorem TextOver.mono {p q : Char → Prop} (h : ∀ c, p c → q c) {text : String}
    (htext : TextOver p text) : TextOver q text :=
  fun c hc => h c (htext c hc)

/-- Two such texts in a row are such a text. -/
theorem TextOver.append {p : Char → Prop} {s t : String} (hs : TextOver p s) (ht : TextOver p t) :
    TextOver p (s ++ t) := by
  unfold TextOver
  rw [String.toList_append]
  exact List.forall_mem_append.2 ⟨hs, ht⟩

/-- An attribute with a name or the declaration of a prefix. Only the default namespace can be taken
back. -/
structure Attr.LegalOver (p : Char → Prop) (a : Attr) : Prop where
  name : IsQName a.name ∨ declares (QName.ofText a.name)
  value : TextOver p a.value
  valued : a.value? = none → a.name = "xmlns"

/-- The names of an element's attributes: none is there twice, and declarations come first. -/
structure NamesInOrder (names : List String) : Prop where
  distinct : names.Nodup
  declared : names.Pairwise fun a b => declares (.ofText b) → declares (.ofText a)

/-- Names stay in order where some of them are left out. -/
theorem NamesInOrder.sublist {names names' : List String} (h : NamesInOrder names)
    (hsublist : names'.Sublist names) : NamesInOrder names' :=
  ⟨h.distinct.sublist hsublist, h.declared.sublist hsublist⟩

/-- What an instruction may be made of. White space in front of its data belongs to none. -/
structure LegalInstruction (target data : String) : Prop where
  name : IsName target.toList
  free : isReservedTarget target.toList = false
  text : IsDocumentText data
  closed : ¬ ['?', '>'] <:+: data.toList
  trimmed : ∀ c ∈ data.toList.head?, isSpace c = false

/-- A tree that is legal in every part, whatever its texts are made of. -/
inductive Node.LegalOver (p : Char → Prop) : Node → Prop
  | element {tag : String} {attrs : List Attr} {children : List Node} (htag : IsQName tag)
    (hattrs : ∀ a ∈ attrs, a.LegalOver p) (hnames : NamesInOrder (attrs.map Attr.name))
    (hchildren : ∀ n ∈ children, n.LegalOver p) : LegalOver p (.element tag attrs children)
  | text {data : String} (h : TextOver p data) : LegalOver p (.text data)
  | cdata {data : String} (h : TextOver p data) : LegalOver p (.cdata data)
  | comment {data : String} (h : TextOver p data) : LegalOver p (.comment data)
  | instruction {target data : String} (h : LegalInstruction target data) :
    LegalOver p (.instruction target data)

/-- A tree with texts over some characters is one with texts over more. -/
theorem Node.LegalOver.mono {p q : Char → Prop} (h : ∀ c, p c → q c) {n : Node}
    (hn : n.LegalOver p) : n.LegalOver q := by
  induction hn with
  | element htag hattrs hnames _ ih =>
    refine .element htag (fun a ha => ?_) hnames ih
    exact ⟨(hattrs a ha).name, (hattrs a ha).value.mono h, (hattrs a ha).valued⟩
  | text htext => exact .text (htext.mono h)
  | cdata htext => exact .cdata (htext.mono h)
  | comment htext => exact .comment (htext.mono h)
  | instruction hdata => exact .instruction hdata

/-- An attribute that is legal. -/
abbrev Attr.Legal (a : Attr) : Prop :=
  a.LegalOver (isDocumentChar ·)

/-- A tree that is legal in every part. -/
abbrev Node.Legal (n : Node) : Prop :=
  n.LegalOver (isDocumentChar ·)

/-- All nodes of a document are legal, whatever their texts are made of. -/
def Document.LegalOver (p : Char → Prop) (d : Document) : Prop :=
  ∀ n ∈ d.nodes, n.LegalOver p

/-- All nodes of a document are legal. -/
abbrev Document.Legal (d : Document) : Prop :=
  d.LegalOver (isDocumentChar ·)

/-- The nodes of a document are its root and what stands before and after it. -/
theorem Document.forall_nodes_iff {P : Node → Prop} {d : Document} : (∀ n ∈ d.nodes, P n) ↔
    (∀ m ∈ d.before, P m.node) ∧ P d.root.node ∧ ∀ m ∈ d.after, P m.node := by
  unfold nodes
  rw [List.forall_mem_append, List.forall_mem_cons, List.forall_mem_map, List.forall_mem_map]

/-! ## References and values -/

/-- References by number are refused for characters that a document may not hold. -/
theorem isDocumentChar_of_charOfNumber? {n : Nat} {c : Char} (h : charOfNumber? n = some c) :
    isDocumentChar c := by
  unfold charOfNumber? at h
  split at h
  · dsimp only at h
    split at h
    · next hc =>
      cases h
      exact hc
    · cases h
  · cases h

/-- The five characters with a name of their own may all stand in documents. -/
theorem isDocumentChar_of_namedChar? {name : String} {c : Char} (h : namedChar? name = some c) :
    isDocumentChar c := by
  unfold namedChar? at h
  split at h <;> cases h <;> rfl

/-- A reference to a character stands for one that documents may hold. -/
theorem isDocumentChar_of_scan? {cs rest : List Char} {c : Char}
    (h : Reference.scan? cs = some (.char c, rest)) : isDocumentChar c := by
  unfold Reference.scan? at h
  split at h
  · obtain ⟨⟨digits, tail⟩, -, h⟩ := Option.bind_eq_some_iff.1 h
    obtain ⟨n, -, h⟩ := Option.bind_eq_some_iff.1 h
    obtain ⟨d, hd, h⟩ := Option.bind_eq_some_iff.1 h
    cases h
    exact isDocumentChar_of_charOfNumber? hd
  · obtain ⟨⟨digits, tail⟩, -, h⟩ := Option.bind_eq_some_iff.1 h
    obtain ⟨n, -, h⟩ := Option.bind_eq_some_iff.1 h
    obtain ⟨d, hd, h⟩ := Option.bind_eq_some_iff.1 h
    cases h
    exact isDocumentChar_of_charOfNumber? hd
  · obtain ⟨⟨name, tail⟩, -, h⟩ := Option.bind_eq_some_iff.1 h
    obtain ⟨tail, -, h⟩ := Option.bind_eq_some_iff.1 h
    dsimp only at h
    split at h
    · next hnamed =>
      cases h
      exact isDocumentChar_of_namedChar? hnamed
    · cases h

/-- The literal pieces of a value are made of characters that documents may hold. -/
def LegalPieces (pieces : List ValuePiece) : Prop :=
  ∀ cs, .literal cs ∈ pieces → ∀ c ∈ cs, isDocumentChar c

/-- Another character in front of a value joins the literal that it begins with, or makes one. -/
theorem legalPieces_consLiteral {c : Char} {pieces : List ValuePiece} (hc : isDocumentChar c)
    (h : LegalPieces pieces) : LegalPieces (consLiteral c pieces) := by
  intro cs hcs
  unfold consLiteral at hcs
  split at hcs
  · next tail rest =>
    obtain hcs | hcs := List.mem_cons.1 hcs
    · cases hcs
      exact List.forall_mem_cons.2 ⟨hc, h _ List.mem_cons_self⟩
    · exact h cs (List.mem_cons_of_mem _ hcs)
  · obtain hcs | hcs := List.mem_cons.1 hcs
    · cases hcs
      exact List.forall_mem_singleton.2 hc
    · exact h cs hcs

/-- The pieces of a value that was scanned are legal, since its literals come from the document and
its references are resolved to characters that it may hold. -/
theorem legalPieces_of_valuePieces? {fuel : Nat} {cs : List Char} {pieces : List ValuePiece}
    (h : valuePieces? fuel cs = some pieces) : LegalPieces pieces := by
  induction fuel generalizing cs pieces with
  | zero =>
    cases cs with
    | nil =>
      cases h
      nofun
    | cons c cs => cases h
  | succ fuel ih =>
    cases cs with
    | nil =>
      cases h
      nofun
    | cons c cs =>
      rw [valuePieces?] at h
      split at h
      · cases h
      · split at h
        · obtain ⟨⟨reference, rest⟩, hreference, h⟩ := Option.bind_eq_some_iff.1 h
          cases reference with
          | char d =>
            obtain ⟨tail, htail, h⟩ := Option.bind_eq_some_iff.1 h
            cases h
            exact legalPieces_consLiteral (isDocumentChar_of_scan? hreference) (ih htail)
          | entity name =>
            obtain ⟨tail, htail, h⟩ := Option.bind_eq_some_iff.1 h
            cases h
            intro cs hcs
            obtain hcs | hcs := List.mem_cons.1 hcs
            · cases hcs
            · exact ih htail cs hcs
        · split at h
          · obtain ⟨tail, htail, rfl⟩ := Option.map_eq_some_iff.1 h
            exact legalPieces_consLiteral rfl (ih htail)
          · split at h
            · next hc =>
              obtain ⟨tail, htail, rfl⟩ := Option.map_eq_some_iff.1 h
              exact legalPieces_consLiteral hc (ih htail)
            · cases h

theorem of_guard {p : Prop} [Decidable p] {u : Unit} (h : (guard p : Option Unit) = some u) :
    p := by
  unfold guard at h
  split at h
  · assumption
  · cases h

/-- What comes out of a list, where nothing fails, comes out of one of its elements. -/
theorem exists_of_mem_mapM {α β : Type} {f : α → Option β} {xs : List α} {ys : List β}
    (h : xs.mapM f = some ys) : ∀ y ∈ ys, ∃ x ∈ xs, f x = some y := by
  induction xs generalizing ys with
  | nil =>
    cases h
    nofun
  | cons x xs ih =>
    rw [List.mapM_cons] at h
    obtain ⟨y, hy, h⟩ := Option.bind_eq_some_iff.1 h
    obtain ⟨ys, hys, h⟩ := Option.bind_eq_some_iff.1 h
    cases h
    refine List.forall_mem_cons.2 ⟨⟨x, List.mem_cons_self, hy⟩, fun z hz => ?_⟩
    obtain ⟨x', hx', hz⟩ := ih hys z hz
    exact ⟨x', List.mem_cons_of_mem _ hx', hz⟩

/-- The value that pieces are expanded to is made of their literals and of the values of entities,
which are expanded in the same way. So the induction is on how deep entities may hold each other. -/
theorem isDocumentChar_of_expandValue? {entity? : String → Option EntityValue} {depth : Nat}
    {active : List String} {pieces : List ValuePiece} {value : List Char}
    (hpieces : LegalPieces pieces) (h : expandValue? entity? depth active pieces = some value) :
    ∀ c ∈ value, isDocumentChar c := by
  induction depth generalizing active pieces value with
  | zero => cases h
  | succ depth ih =>
    rw [expandValue?] at h
    obtain ⟨expanded, hexpanded, h⟩ := Option.bind_eq_some_iff.1 h
    cases h
    have hpiece : ∀ cs ∈ expanded, ∀ c ∈ cs, isDocumentChar c := by
      intro cs hcs
      obtain ⟨piece, hmem, hpiece⟩ := exists_of_mem_mapM hexpanded cs hcs
      cases piece with
      | literal cs =>
        cases hpiece
        exact hpieces _ hmem
      | reference name =>
        dsimp only at hpiece
        split at hpiece
        · split at hpiece
          · cases hpiece
          · obtain ⟨inner, hinner, hpiece⟩ := Option.bind_eq_some_iff.1 hpiece
            exact ih (legalPieces_of_valuePieces? hinner) hpiece
        · cases hpiece
    intro c hc
    obtain ⟨cs, hcs, hc⟩ := List.mem_flatten.1 hc
    exact hpiece cs hcs c hc

/-- A value that is a list of words is made of its own characters and the blanks between words. -/
theorem mem_tokenized {cs : List Char} {c : Char} (h : c ∈ tokenized cs) : c = ' ' ∨ c ∈ cs := by
  obtain h | ⟨piece, hpiece, hc⟩ := Text.mem_intercalate h
  · exact .inl (List.mem_singleton.1 h)
  · exact .inr (Text.mem_splitAtP (List.mem_filter.1 hpiece).1 hc)

/-- Whether words are told apart in a value or not, it may stand in a document. -/
theorem Doctype.isDocumentText_of_value? {d : Doctype} {words : Bool} {pieces : List ValuePiece}
    {value : String} (hpieces : LegalPieces pieces) (h : d.value? words pieces = some value) :
    IsDocumentText value := by
  obtain ⟨cs, hcs, h⟩ := Option.bind_eq_some_iff.1 h
  cases h
  have hlegal := isDocumentChar_of_expandValue? hpieces hcs
  rw [isDocumentText_ofList]
  intro c hc
  split at hc
  · obtain rfl | hc := mem_tokenized hc
    · rfl
    · exact hlegal c hc
  · exact hlegal c hc

/-! ## Tokens -/

/-- A token that is legal. -/
def Token.Legal : Token → Prop
  | .startTag name attrs _ => name.Legal ∧ ∀ a ∈ attrs, a.name.Legal ∧ LegalPieces a.value
  | .endTag name => name.Legal
  | .chars text => IsDocumentText text
  | .character c => isDocumentChar c
  | .reference _ => True
  | .cdata data | .comment data => IsDocumentText data
  | .instruction target data => LegalInstruction target data

/-- A comment is refused where it holds a character that a document may not. -/
theorem isDocumentText_of_scanComment? {cs rest : List Char} {data : String}
    (h : scanComment? cs = some (data, rest)) : IsDocumentText data := by
  obtain ⟨⟨_, _⟩, -, h⟩ := Option.bind_eq_some_iff.1 h
  obtain ⟨_, -, h⟩ := Option.bind_eq_some_iff.1 h
  obtain ⟨_, hdata, h⟩ := Option.bind_eq_some_iff.1 h
  cases h
  exact (documentText?_eq_some_iff.1 hdata).2

/-- An instruction has a name for its target, and its data may stand in a document. -/
theorem legal_of_scanInstruction? {cs rest : List Char} {target data : String}
    (h : scanInstruction? cs = some ((target, data), rest)) : LegalInstruction target data := by
  obtain ⟨⟨name, tail⟩, hname, h⟩ := Option.bind_eq_some_iff.1 h
  obtain ⟨⟨⟩, hfree, h⟩ := Option.bind_eq_some_iff.1 h
  obtain ⟨-, hname, -⟩ := scanName?_eq_some_iff.1 hname
  have hfree : isReservedTarget name = false := by
    simpa [guard] using hfree
  dsimp only at h
  split at h
  · cases h
    refine ⟨?_, ?_, ?_, ?_, ?_⟩
    · rwa [String.toList_ofList]
    · rwa [String.toList_ofList]
    · rintro c ⟨⟩
    · decide
    · rintro c ⟨⟩
  · obtain ⟨cs, hspace, h⟩ := Option.bind_eq_some_iff.1 h
    obtain ⟨⟨body, tail⟩, hbody, h⟩ := Option.bind_eq_some_iff.1 h
    obtain ⟨text, htext, h⟩ := Option.bind_eq_some_iff.1 h
    cases h
    obtain ⟨htext, hlegal⟩ := documentText?_eq_some_iff.1 htext
    obtain ⟨hsplit, hclosed⟩ := (splitAt?_eq_some_iff (by decide)).1 hbody
    refine ⟨?_, ?_, hlegal, ?_, ?_⟩
    · rwa [String.toList_ofList]
    · rwa [String.toList_ofList]
    · rw [htext]
      intro hinfix
      refine hclosed ((infix_of_normalizeLines (by decide) hinfix).trans ?_)
      exact (List.prefix_append _ _).isInfix
    · rw [htext]
      refine head?_normalizeLines fun c hc => head?_of_skipSomeSpace? hspace c ?_
      rw [hsplit, List.head?_append, Option.mem_def.1 hc]
      rfl

/-- An attribute is scanned with a name and a value whose pieces are legal. -/
theorem RawAttr.legal_of_scan? {cs rest : List Char} {a : RawAttr}
    (h : RawAttr.scan? cs = some (a, rest)) : a.name.Legal ∧ LegalPieces a.value := by
  obtain ⟨⟨name, _⟩, hname, h⟩ := Option.bind_eq_some_iff.1 h
  obtain ⟨_, -, h⟩ := Option.bind_eq_some_iff.1 h
  obtain ⟨⟨value, _⟩, -, h⟩ := Option.bind_eq_some_iff.1 h
  obtain ⟨pieces, hpieces, h⟩ := Option.bind_eq_some_iff.1 h
  cases h
  exact ⟨(QName.legal_of_scan? hname).1, legalPieces_of_valuePieces? hpieces⟩

/-- All attributes of a tag are scanned like this, up to the end of the tag. -/
theorem legal_of_scanAttrs? {fuel : Nat} {cs rest : List Char} {attrs : List RawAttr}
    {isEmpty : Bool} (h : scanAttrs? fuel cs = some (attrs, isEmpty, rest)) :
    ∀ a ∈ attrs, a.name.Legal ∧ LegalPieces a.value := by
  induction fuel generalizing cs attrs isEmpty rest with
  | zero => cases h
  | succ fuel ih =>
    rw [scanAttrs?] at h
    split at h
    · cases h
      nofun
    · cases h
      nofun
    · obtain ⟨_, -, h⟩ := Option.bind_eq_some_iff.1 h
      obtain ⟨⟨a, _⟩, ha, h⟩ := Option.bind_eq_some_iff.1 h
      obtain ⟨⟨attrs, isEmpty, rest⟩, hattrs, h⟩ := Option.bind_eq_some_iff.1 h
      cases h
      exact List.forall_mem_cons.2 ⟨RawAttr.legal_of_scan? ha, ih hattrs⟩

/-- Every token that is read is legal. -/
theorem Token.legal_of_scan? {cs rest : List Char} {t : Token}
    (h : Token.scan? cs = some (t, rest)) : t.Legal := by
  unfold Token.scan? at h
  split at h
  · obtain ⟨⟨name, _⟩, hname, h⟩ := Option.bind_eq_some_iff.1 h
    obtain ⟨_, -, h⟩ := Option.bind_eq_some_iff.1 h
    cases h
    exact (QName.legal_of_scan? hname).1
  · obtain ⟨⟨⟨target, data⟩, _⟩, hscan, h⟩ := Option.map_eq_some_iff.1 h
    cases h
    exact legal_of_scanInstruction? hscan
  · split at h
    · obtain ⟨⟨data, _⟩, hscan, h⟩ := Option.map_eq_some_iff.1 h
      cases h
      exact isDocumentText_of_scanComment? hscan
    · obtain ⟨_, -, h⟩ := Option.bind_eq_some_iff.1 h
      obtain ⟨⟨_, _⟩, -, h⟩ := Option.bind_eq_some_iff.1 h
      obtain ⟨_, hdata, h⟩ := Option.bind_eq_some_iff.1 h
      cases h
      exact (documentText?_eq_some_iff.1 hdata).2
  · obtain ⟨⟨name, _⟩, hname, h⟩ := Option.bind_eq_some_iff.1 h
    obtain ⟨⟨attrs, isEmpty, _⟩, hattrs, h⟩ := Option.bind_eq_some_iff.1 h
    cases h
    exact ⟨(QName.legal_of_scan? hname).1, legal_of_scanAttrs? hattrs⟩
  · obtain ⟨⟨reference, _⟩, hscan, h⟩ := Option.map_eq_some_iff.1 h
    cases reference with
    | char c =>
      cases h
      exact isDocumentChar_of_scan? hscan
    | entity name =>
      cases h
      trivial
  · obtain ⟨⟨⟩, -, h⟩ := Option.bind_eq_some_iff.1 h
    obtain ⟨_, hdata, h⟩ := Option.bind_eq_some_iff.1 h
    cases h
    exact (documentText?_eq_some_iff.1 hdata).2

/-- Every token of a text that is cut into tokens is legal, by recursion on what is left of
the text. -/
theorem legal_of_tokens? {cs : List Char} {ts : List Token} (h : tokens? cs = some ts) :
    ∀ t ∈ ts, t.Legal := by
  have hscan : ∀ {fuel : Nat} {cs : List Char} {ts : List Token}, scanTokens? fuel cs = some ts →
      ∀ t ∈ ts, t.Legal := by
    intro fuel
    induction fuel with
    | zero =>
      intro cs ts h
      cases cs with
      | nil =>
        cases h
        nofun
      | cons c cs => cases h
    | succ fuel ih =>
      intro cs ts h
      cases cs with
      | nil =>
        cases h
        nofun
      | cons c cs =>
        rw [scanTokens?] at h
        obtain ⟨⟨t, rest⟩, ht, h⟩ := Option.bind_eq_some_iff.1 h
        obtain ⟨ts, hts, h⟩ := Option.bind_eq_some_iff.1 h
        cases h
        exact List.forall_mem_cons.2 ⟨Token.legal_of_scan? ht, ih hts⟩
  exact hscan h

/-! ## Document type declarations -/

/-- What fails where a text is not well formed gives a value just where there is one. -/
theorem wellFormed_eq_ok_iff {α : Type} {x : Option α} {a : α} :
    wellFormed x = .ok a ↔ x = some a := by
  cases x <;> simp [wellFormed]

namespace Doctype

/-- No attribute of an element is declared twice, and the values that attributes have by declaration
are made of characters that documents may hold. -/
structure Legal (d : Doctype) : Prop where
  distinct : d.attributes.Pairwise fun r r' => r.element = r'.element → r.name ≠ r'.name
  name : ∀ rule ∈ d.attributes, QName.ofText rule.name.text = rule.name
  fallback : ∀ rule ∈ d.attributes, ∀ value ∈ rule.fallback, IsDocumentText value

/-- A document type that declares nothing is legal. -/
theorem legal_initial {standalone incomplete : Bool} :
    Legal { standalone := standalone, incomplete := incomplete } :=
  ⟨.nil, nofun, nofun⟩

variable {d d' : Doctype}

/-- A rule for an attribute is added to a legal document type if its name is one and its value, if
it has any, may stand in a document. -/
theorem legal_addRule {rule : AttrRule} (hname : QName.ofText rule.name.text = rule.name)
    (hrule : ∀ value ∈ rule.fallback, IsDocumentText value) (hd : d.Legal) :
    (d.addRule rule).Legal := by
  unfold addRule
  split
  · exact hd
  · next hnew =>
    refine ⟨List.pairwise_append.2 ⟨hd.distinct, List.pairwise_singleton _ _, ?_⟩, ?_, ?_⟩
    · intro r hr r' hr' helement heq
      cases List.mem_singleton.1 hr'
      refine hnew (List.any_eq_true.2 ⟨r, List.mem_filter.2 ⟨hr, ?_⟩, ?_⟩)
      · exact beq_iff_eq.2 helement
      · exact beq_iff_eq.2 heq
    · intro r hr
      obtain hr | hr := List.mem_append.1 hr
      · exact hd.name r hr
      · cases List.mem_singleton.1 hr
        exact hname
    · intro r hr
      obtain hr | hr := List.mem_append.1 hr
      · exact hd.fallback r hr
      · cases List.mem_singleton.1 hr
        exact hrule

/-- An attribute is declared with a value that is looked at here, or without one. Where declarations
are not heeded any more nothing changes. -/
theorem legal_declareAttribute? {element name : String} {words : Bool}
    {fallback : Option (List Char)} (h : d.declareAttribute? element name words fallback = some d')
    (hd : d.Legal) : d'.Legal := by
  unfold declareAttribute? at h
  split at h
  · cases h
    exact hd
  · cases fallback with
    | none =>
      cases h
      exact legal_addRule (congrArg QName.ofText (QName.text_ofText name)) nofun hd
    | some cs =>
      obtain ⟨pieces, hpieces, h⟩ := Option.bind_eq_some_iff.1 h
      obtain ⟨value, hvalue, h⟩ := Option.bind_eq_some_iff.1 h
      cases h
      refine legal_addRule (congrArg QName.ofText (QName.text_ofText name)) ?_ hd
      rintro _ ⟨⟩
      exact isDocumentText_of_value? (legalPieces_of_valuePieces? hpieces) hvalue

/-- The attributes of one declaration are declared in turn. -/
theorem legal_declareAttributes? {element : String} {fuel : Nat} {parts : List Part}
    (h : declareAttributes? element fuel d parts = some d') (hd : d.Legal) : d'.Legal := by
  induction fuel generalizing d parts with
  | zero =>
    unfold declareAttributes? at h
    split at h
    · cases h
      exact hd
    · next _ heq => cases heq
    · cases h
  | succ fuel ih =>
    unfold declareAttributes? at h
    split at h
    · cases h
      exact hd
    · next _ heq =>
      cases heq
      obtain ⟨name, -, h⟩ := Option.bind_eq_some_iff.1 h
      obtain ⟨⟨words, parts⟩, -, h⟩ := Option.bind_eq_some_iff.1 h
      obtain ⟨⟨fallback, parts⟩, -, h⟩ := Option.bind_eq_some_iff.1 h
      obtain ⟨next, hnext, h⟩ := Option.bind_eq_some_iff.1 h
      exact ih h (legal_declareAttribute? hnext hd)
    · cases h

/-- An entity is no attribute, and so what is known of these stays as it is. -/
theorem attributes_addEntity (name : String) (value : EntityValue) :
    (d.addEntity name value).attributes = d.attributes := by
  unfold addEntity
  split <;> rfl

/-- To declare an entity is to add one, or nothing where there is one of its name. -/
theorem attributes_of_declareEntity? {parts : List Part} (h : d.declareEntity? parts = some d') :
    d'.attributes = d.attributes := by
  have hadd : ∀ (general : Bool) (name : String) (value : EntityValue),
      (if general then d.addEntity name value else d).attributes = d.attributes := by
    intro general name value
    cases general
    · rfl
    · exact attributes_addEntity name value
  unfold declareEntity? at h
  dsimp only at h
  split at h
  · obtain ⟨source, -, h⟩ := Option.bind_eq_some_iff.1 h
    split at h
    · cases h
      rfl
    · cases source with
      | literal cs =>
        obtain ⟨value, -, h⟩ := Option.bind_eq_some_iff.1 h
        cases h
        exact hadd _ _ _
      | file | unparsedFile =>
        cases h
        exact hadd _ _ _
  · cases h

/-- Of the declaration of an element only the name is kept. -/
theorem attributes_of_declareElement {parts : List Part} (h : d.declareElement parts = .ok d') :
    d'.attributes = d.attributes := by
  unfold declareElement at h
  split at h
  · cases h
  · obtain ⟨name, -, h⟩ := exists_of_bind_eq_ok h
    obtain ⟨rest, -, h⟩ := exists_of_bind_eq_ok h
    dsimp only at h
    split at h
    · cases h
    · split at h
      · cases h
        rfl
      · cases h

/-- Whether a document type is legal is told by its attributes alone. -/
theorem Legal.of_attributes (hd : d.Legal) (h : d'.attributes = d.attributes) : d'.Legal := by
  obtain ⟨hdistinct, hname, hfallback⟩ := hd
  rw [← h] at hdistinct hname hfallback
  exact ⟨hdistinct, hname, hfallback⟩

/-- Whatever is declared, the document type stays legal. -/
theorem legal_declare {keyword : String} {parts : List Part}
    (h : d.declare keyword parts = .ok d') (hd : d.Legal) : d'.Legal := by
  unfold declare at h
  split at h
  · exact hd.of_attributes (attributes_of_declareEntity? (wellFormed_eq_ok_iff.1 h))
  · exact hd.of_attributes (attributes_of_declareElement h)
  · split at h
    · cases h
      exact hd
    · cases h
  · split at h
    · obtain ⟨element, -, h⟩ := Option.bind_eq_some_iff.1 (wellFormed_eq_ok_iff.1 h)
      exact legal_declareAttributes? h hd
    · cases h

/-- The declarations between the brackets of a document type are read one by one, so the induction
is on their number. -/
theorem legal_readSubset {fuel : Nat} {cs rest : List Char}
    (h : readSubset fuel d cs = .ok (d', rest)) (hd : d.Legal) : d'.Legal := by
  induction fuel generalizing d cs with
  | zero => cases h
  | succ fuel ih =>
    rw [readSubset] at h
    split at h
    · cases h
      exact hd
    · obtain ⟨⟨_, _⟩, -, h⟩ := exists_of_bind_eq_ok h
      obtain ⟨_, -, h⟩ := exists_of_bind_eq_ok h
      exact ih h (hd.of_attributes rfl)
    · obtain ⟨⟨_, _⟩, -, h⟩ := exists_of_bind_eq_ok h
      exact ih h hd
    · obtain ⟨⟨_, _⟩, -, h⟩ := exists_of_bind_eq_ok h
      exact ih h hd
    · obtain ⟨⟨keyword, _⟩, -, h⟩ := exists_of_bind_eq_ok h
      obtain ⟨_, -, h⟩ := exists_of_bind_eq_ok h
      obtain ⟨next, hnext, h⟩ := exists_of_bind_eq_ok h
      obtain ⟨_, -, h⟩ := exists_of_bind_eq_ok h
      exact ih h (legal_declare hnext hd)
    · cases h

/-- A document type is read as a legal one, with or without declarations of its own. -/
theorem legal_of_read {standalone : Bool} {cs rest : List Char}
    (h : Doctype.read standalone cs = .ok (d, rest)) : d.Legal := by
  obtain ⟨cs, -, h⟩ := exists_of_bind_eq_ok h
  obtain ⟨_, -, h⟩ := exists_of_bind_eq_ok h
  split at h
  · cases h
  · obtain ⟨_, -, h⟩ := exists_of_bind_eq_ok h
    dsimp only at h
    split at h
    · cases h
      exact legal_initial
    · obtain ⟨⟨d₁, _⟩, hsubset, h⟩ := exists_of_bind_eq_ok h
      obtain ⟨_, -, h⟩ := exists_of_bind_eq_ok h
      cases h
      exact legal_readSubset hsubset legal_initial
    · cases h

end Doctype

/-! ## Trees -/

/-- What has been read of an element is legal. -/
structure OpenElement.Legal (e : OpenElement) : Prop where
  name : e.name.Legal
  attrs : ∀ a ∈ e.attrs, a.Legal
  names : NamesInOrder (e.attrs.map Attr.name)
  children : ∀ n ∈ e.children, n.Legal

/-- What has been read of a document is legal. -/
structure Builder.Legal (b : Builder) : Prop where
  before : ∀ m ∈ b.before, m.node.Legal
  stack : ∀ e ∈ b.stack, e.Legal
  root : ∀ e ∈ b.root, e.node.Legal
  after : ∀ m ∈ b.after, m.node.Legal
  doctype : b.doctype.Legal

/-- An element that is legal while it is open is a legal node when it is closed. -/
theorem OpenElement.Legal.close {e : OpenElement} (h : e.Legal) : e.close.node.Legal :=
  .element ⟨_, h.name, rfl⟩ h.attrs h.names fun n hn => h.children n (List.mem_reverse.1 hn)

/-- Characters are added to the text that stands last, or as a text of their own. -/
theorem legal_addChars {text : String} {nodes : List Node} (htext : IsDocumentText text)
    (h : ∀ n ∈ nodes, n.Legal) : ∀ n ∈ addChars text nodes, n.Legal := by
  unfold addChars
  split
  · obtain ⟨hfirst, hrest⟩ := List.forall_mem_cons.1 h
    cases hfirst with
    | text hdata => exact List.forall_mem_cons.2 ⟨.text (IsDocumentText.append hdata htext), hrest⟩
  · split
    · exact h
    · exact List.forall_mem_cons.2 ⟨.text htext, h⟩

/-- Declarations are told by the texts of their names. -/
theorem declares_ofText {name : QName} (h : declares name) : declares (QName.ofText name.text) := by
  rcases name with ⟨space, label⟩
  have h : space = some "xmlns" ∨ space = none ∧ label = "xmlns" := by
    simpa [declares] using h
  obtain rfl | ⟨rfl, rfl⟩ := h
  · have htext : (QName.text ⟨some "xmlns", label⟩).toList
        = 'x' :: 'm' :: 'l' :: 'n' :: 's' :: ':' :: label.toList := by
      simp [QName.text]
    unfold QName.ofText
    rw [htext]
    rfl
  · decide

/-- An attribute is put into the tree under the name that it was given or declared with. -/
theorem legal_attrOf {name : QName} {value : String}
    (hname : IsQName name.text ∨ declares (QName.ofText name.text))
    (hvalue : IsDocumentText value) :
    (attrOf name value).Legal := by
  unfold attrOf
  split
  · next h => exact ⟨hname, nofun, fun _ => eq_of_beq (Bool.and_eq_true_iff.1 h).1⟩
  · exact ⟨hname, hvalue, nofun⟩

theorem allDistinct_iff {α : Type} [BEq α] [LawfulBEq α] (l : List α) :
    allDistinct l ↔ l.Nodup := by
  induction l with
  | nil => simp [allDistinct]
  | cons a l ih => simp [allDistinct, ih]

/-- The attributes that an element has by declaration without giving them. -/
structure LegalImplied (given implied : List (QName × String)) : Prop where
  distinct : (implied.map Prod.fst).Nodup
  absent : ∀ a ∈ implied, a.1 ∉ given.map Prod.fst
  name : ∀ a ∈ implied, QName.ofText a.1.text = a.1
  value : ∀ a ∈ implied, IsDocumentText a.2

/-- Of the attributes that hold by declaration only those come into the tree that declare a prefix
themselves. -/
theorem legal_of_bindAttrs? {bindings inner : Bindings} {tag : QName}
    {given implied : List (QName × String)} {attrs : List Attr}
    (h : bindAttrs? bindings tag given implied = some (attrs, inner))
    (hgiven : ∀ a ∈ given, a.1.Legal ∧ IsDocumentText a.2) (himplied : LegalImplied given implied) :
    (∀ a ∈ attrs, a.Legal) ∧ NamesInOrder (attrs.map Attr.name) := by
  obtain ⟨_, -, h⟩ := Option.bind_eq_some_iff.1 h
  obtain ⟨⟨⟩, -, h⟩ := Option.bind_eq_some_iff.1 h
  obtain ⟨⟨⟩, hdistinct, h⟩ := Option.bind_eq_some_iff.1 h
  cases h
  have hdistinct : (given.map Prod.fst).Nodup :=
    (allDistinct_iff _).1 (Bool.and_eq_true_iff.1 (of_guard hdistinct)).1
  constructor
  · intro a ha
    obtain ⟨⟨name, value⟩, hmem, rfl⟩ := List.mem_map.1 ha
    obtain hmem | hmem := List.mem_append.1 hmem
    · obtain ⟨hmem, hdeclares⟩ := List.mem_filter.1 hmem
      obtain hmem | hmem := List.mem_append.1 hmem
      · exact legal_attrOf (.inl ⟨name, (hgiven _ hmem).1, rfl⟩) (hgiven _ hmem).2
      · exact legal_attrOf (.inr (declares_ofText hdeclares)) (himplied.value _ hmem)
    · obtain ⟨hlegal, hvalue⟩ := hgiven _ (List.mem_filter.1 hmem).1
      exact legal_attrOf (.inl ⟨name, hlegal, rfl⟩) hvalue
  · have hall : ((given ++ implied).map Prod.fst).Nodup := by
      rw [List.map_append, List.nodup_append]
      refine ⟨hdistinct, himplied.distinct, fun q hq q' hq' heq => ?_⟩
      obtain ⟨a, ha, rfl⟩ := List.mem_map.1 hq'
      exact himplied.absent a ha (heq ▸ hq)
    have hname : ∀ a ∈ given ++ implied, QName.ofText a.1.text = a.1 := fun a ha =>
      (List.mem_append.1 ha).elim (fun ha => QName.ofText_text (hgiven a ha).1) (himplied.name a)
    have hkept : (((given ++ implied).filter (declares ·.1) ++ given.filter (!declares ·.1)).map
        Prod.fst).Nodup := by
      rw [List.map_append, List.nodup_append]
      refine ⟨(List.filter_sublist.map _).nodup hall, (List.filter_sublist.map _).nodup hdistinct,
        fun q hq q' hq' heq => ?_⟩
      obtain ⟨a, ha, rfl⟩ := List.mem_map.1 hq
      obtain ⟨a', ha', rfl⟩ := List.mem_map.1 hq'
      have hdeclares := (List.mem_filter.1 ha).2
      rw [heq] at hdeclares
      simp [hdeclares] at ha'
    have hmem : ∀ a ∈ (given ++ implied).filter (declares ·.1) ++ given.filter (!declares ·.1),
        QName.ofText a.1.text = a.1 := fun a ha => hname a <| (List.mem_append.1 ha).elim
      (fun ha => (List.mem_filter.1 ha).1) fun ha => List.mem_append_left _ (List.mem_filter.1 ha).1
    rw [List.map_map]
    refine ⟨List.pairwise_map.2 ((List.pairwise_map.1 hkept).imp_of_mem ?_), ?_⟩
    · intro a a' ha ha' hne heq
      have heq : a.1.text = a'.1.text := heq
      exact hne (by rw [← hmem a ha, heq, hmem a' ha'])
    · have hdeclared : ((given ++ implied).filter (declares ·.1) ++ given.filter (!declares ·.1)).Pairwise
          fun a a' => declares a'.1 → declares a.1 := by
        refine List.pairwise_append.2 ⟨?_, ?_, fun a ha _ _ _ => (List.mem_filter.1 ha).2⟩
        · exact List.pairwise_of_forall_mem_list fun a ha _ _ _ => (List.mem_filter.1 ha).2
        · refine List.pairwise_of_forall_mem_list fun _ _ a' ha' h => ?_
          simp [h] at ha'
      refine List.pairwise_map.2 (hdeclared.imp_of_mem fun {a a'} ha ha' h => ?_)
      show declares (.ofText a'.1.text) → declares (.ofText a.1.text)
      rwa [hmem a ha, hmem a' ha']

namespace Builder

variable {b b' : Builder}

/-- Before anything is read the builder holds what stands before the root. -/
theorem legal_start {p : Prologue} (h : (∀ m ∈ p.nodes, m.node.Legal) ∧ p.doctype.Legal)
    (written : Nat) : (start p written).Legal :=
  ⟨fun m hm => h.1 m (List.mem_reverse.1 hm), nofun, nofun, nofun, h.2⟩

/-- Inside of the replacement of an entity only the innermost element is seen. -/
theorem Legal.nested {e : OpenElement} (hb : b.Legal) (he : e.Legal) :
    { b with stack := [e], nested := true }.Legal :=
  ⟨hb.before, List.forall_mem_singleton.2 he, hb.root, hb.after, hb.doctype⟩

/-- References are counted, and nothing is added to the tree. -/
theorem legal_expand? {names : List String} (h : b.expand? names = some b') (hb : b.Legal) :
    b'.Legal := by
  unfold expand? at h
  split at h
  · cases h
    exact hb
  · dsimp only at h
    split at h
    · cases h
    · cases h
      exact ⟨hb.before, hb.stack, hb.root, hb.after, hb.doctype⟩

/-- Where an element is closed, it is added to the one around it, or it is the root. -/
theorem legal_closeElement? {name : QName} (h : b.closeElement? name = some b') (hb : b.Legal) :
    b'.Legal := by
  have hstack := hb.stack
  unfold closeElement? at h
  split at h
  · cases h
  · next e heq =>
    rw [heq] at hstack
    split at h
    · cases h
    · cases h
      refine ⟨hb.before, nofun, ?_, hb.after, hb.doctype⟩
      rintro _ ⟨⟩
      exact (hstack e List.mem_cons_self).close
  · next e parent outer heq =>
    rw [heq] at hstack
    obtain ⟨he, hparent, houter⟩ := List.forall_mem_cons.1 hstack |>.imp_right
      List.forall_mem_cons.1
    split at h
    · cases h
    · cases h
      refine ⟨hb.before, List.forall_mem_cons.2 ⟨⟨hparent.name, hparent.attrs, hparent.names, ?_⟩,
        houter⟩,
        hb.root, hb.after, hb.doctype⟩
      exact List.forall_mem_cons.2 ⟨he.close, hparent.children⟩

/-- Attributes that an element has by declaration come with the values that were looked at where
they were declared, and none of them was given. -/
theorem Legal.legalImplied (hb : b.Legal) {tag : QName} {attrs : List RawAttr}
    {given : List (QName × String)} (hgiven : ∀ a ∈ given, ∃ raw ∈ attrs, raw.name = a.1) :
    LegalImplied given (b.implied tag attrs) := by
  have hrule : ∀ a ∈ b.implied tag attrs, ∃ rule ∈ b.doctype.attributes,
      (attrs.any (·.name == rule.name)) = false ∧ ∃ value ∈ rule.fallback, (rule.name, value) = a := by
    intro a ha
    obtain ⟨rule, hrule, ha⟩ := List.mem_filterMap.1 ha
    split at ha
    · cases ha
    · next hnone =>
      obtain ⟨value, hvalue, rfl⟩ := Option.map_eq_some_iff.1 ha
      exact ⟨rule, (List.mem_filter.1 hrule).1, by simpa using hnone, value, hvalue, rfl⟩
  have hrules : (b.doctype.rulesOf tag.text).Pairwise fun r r' => r.name ≠ r'.name := by
    refine (hb.doctype.distinct.filter _).imp_of_mem fun hr hr' h => h ?_
    rw [eq_of_beq (List.mem_filter.1 hr).2, eq_of_beq (List.mem_filter.1 hr').2]
  refine ⟨?_, fun a ha hmem => ?_, fun a ha => ?_, fun a ha => ?_⟩
  · refine List.pairwise_map.2 (hrules.filterMap _ fun r r' hne a ha a' ha' => ?_)
    split at ha
    · cases ha
    · split at ha'
      · cases ha'
      · obtain ⟨value, -, rfl⟩ := Option.map_eq_some_iff.1 ha
        obtain ⟨value', -, rfl⟩ := Option.map_eq_some_iff.1 ha'
        exact hne
  · obtain ⟨rule, -, hnone, value, -, rfl⟩ := hrule a ha
    obtain ⟨a, ha, heq⟩ := List.mem_map.1 hmem
    obtain ⟨raw, hraw, hname⟩ := hgiven a ha
    have := List.any_eq_false.1 hnone raw hraw
    exact this (beq_iff_eq.2 (hname.trans heq))
  · obtain ⟨rule, hrule, -, value, -, rfl⟩ := hrule a ha
    exact hb.doctype.name rule hrule
  · obtain ⟨rule, hrule, -, value, hvalue, rfl⟩ := hrule a ha
    exact hb.doctype.fallback rule hrule value hvalue

/-- An element is opened with the attributes that it was given and those that it has by declaration,
all of them distinct. -/
theorem legal_openElement? {name : QName} {attrs : List RawAttr} (hname : name.Legal)
    (hattrs : ∀ a ∈ attrs, a.name.Legal ∧ LegalPieces a.value)
    (h : b.openElement? name attrs = some b') (hb : b.Legal) : b'.Legal := by
  obtain ⟨⟨⟩, -, h⟩ := Option.bind_eq_some_iff.1 h
  obtain ⟨b₁, hexpand, h⟩ := Option.bind_eq_some_iff.1 h
  obtain ⟨given, hgiven, h⟩ := Option.bind_eq_some_iff.1 h
  obtain ⟨⟨bound, bindings⟩, hbound, h⟩ := Option.bind_eq_some_iff.1 h
  cases h
  have hb₁ := legal_expand? hexpand hb
  have hraw : ∀ a ∈ given, (a.1.Legal ∧ IsDocumentText a.2) ∧ ∃ raw ∈ attrs, raw.name = a.1 := by
    intro a ha
    obtain ⟨raw, hraw, ha⟩ := exists_of_mem_mapM hgiven a ha
    obtain ⟨value, hvalue, ha⟩ := Option.bind_eq_some_iff.1 ha
    cases ha
    obtain ⟨hlegal, hpieces⟩ := hattrs raw hraw
    exact ⟨⟨hlegal, Doctype.isDocumentText_of_value? hpieces hvalue⟩, raw, hraw, rfl⟩
  obtain ⟨hbound, hdistinct⟩ := legal_of_bindAttrs? hbound (fun a ha => (hraw a ha).1)
    (hb₁.legalImplied fun a ha => (hraw a ha).2)
  exact ⟨hb₁.before, List.forall_mem_cons.2 ⟨⟨hname, hbound, hdistinct, nofun⟩, hb₁.stack⟩,
    hb₁.root, hb₁.after, hb₁.doctype⟩

/-- Character data stands inside of an element and joins the text before it. -/
theorem legal_addChars? {text : String} (htext : IsDocumentText text)
    (h : b.addChars? text = some b') (hb : b.Legal) : b'.Legal := by
  have hstack := hb.stack
  unfold addChars? at h
  split at h
  · cases h
  · next e outer heq =>
    rw [heq] at hstack
    obtain ⟨he, houter⟩ := List.forall_mem_cons.1 hstack
    cases h
    refine ⟨hb.before, List.forall_mem_cons.2 ⟨⟨he.name, he.attrs, he.names, ?_⟩, houter⟩, hb.root,
      hb.after,
      hb.doctype⟩
    exact legal_addChars htext he.children

/-- A CDATA section is a node of its own, if there is anything in it. -/
theorem legal_addCdata? {data : String} (hdata : IsDocumentText data)
    (h : b.addCdata? data = some b') (hb : b.Legal) : b'.Legal := by
  have hstack := hb.stack
  unfold addCdata? at h
  split at h
  · cases h
  · next e outer heq =>
    rw [heq] at hstack
    obtain ⟨he, houter⟩ := List.forall_mem_cons.1 hstack
    cases h
    split
    · exact hb
    · refine ⟨hb.before, List.forall_mem_cons.2 ⟨⟨he.name, he.attrs, he.names, ?_⟩, houter⟩,
        hb.root,
        hb.after, hb.doctype⟩
      exact List.forall_mem_cons.2 ⟨.cdata hdata, he.children⟩

/-- Comments and instructions may stand anywhere, also behind the root. -/
theorem legal_addMisc {m : Misc} (hm : m.node.Legal) (hb : b.Legal) : (b.addMisc m).Legal := by
  have hstack := hb.stack
  unfold addMisc
  split
  · next e outer heq =>
    rw [heq] at hstack
    obtain ⟨he, houter⟩ := List.forall_mem_cons.1 hstack
    refine ⟨hb.before, List.forall_mem_cons.2 ⟨⟨he.name, he.attrs, he.names, ?_⟩, houter⟩, hb.root,
      hb.after,
      hb.doctype⟩
    exact List.forall_mem_cons.2 ⟨hm, he.children⟩
  · split
    · exact ⟨List.forall_mem_cons.2 ⟨hm, hb.before⟩, hb.stack, hb.root, hb.after, hb.doctype⟩
    · exact ⟨hb.before, hb.stack, hb.root, List.forall_mem_cons.2 ⟨hm, hb.after⟩, hb.doctype⟩

/-- What holds for every token holds for all of them in a row. -/
theorem legal_foldlM {f : Builder → Token → Option Builder}
    (hf : ∀ {b b' t}, t.Legal → f b t = some b' → b.Legal → b'.Legal) {ts : List Token}
    (hts : ∀ t ∈ ts, t.Legal) (h : ts.foldlM f b = some b') (hb : b.Legal) : b'.Legal := by
  induction ts generalizing b with
  | nil =>
    cases h
    exact hb
  | cons t ts ih =>
    obtain ⟨ht, hts⟩ := List.forall_mem_cons.1 hts
    rw [List.foldlM_cons] at h
    obtain ⟨b₁, hb₁, h⟩ := Option.bind_eq_some_iff.1 h
    exact ih hts h (hf ht hb₁ hb)

/-- Every token is taken into a legal builder so that it stays legal. An entity is taken by way of
its own tokens, so the induction is on how deep entities may hold each other. -/
theorem legal_take? {depth : Nat} {active : List String} {t : Token} (ht : t.Legal)
    (h : b.take? depth active t = some b') (hb : b.Legal) : b'.Legal := by
  induction depth generalizing active b b' t with
  | zero => cases h
  | succ depth ih =>
    unfold take? at h
    cases t with
    | chars text =>
      dsimp only at h
      split at h
      · split at h
        · cases h
          exact hb
        · cases h
      · exact legal_addChars? ht h hb
    | character c =>
      exact legal_addChars? (isDocumentText_ofList.2 (List.forall_mem_singleton.2 ht)) h hb
    | cdata data => exact legal_addCdata? ht h hb
    | comment data =>
      cases h
      exact legal_addMisc (.comment ht) hb
    | instruction target data =>
      cases h
      exact legal_addMisc (.instruction ht) hb
    | startTag name attrs isEmpty =>
      obtain ⟨b₁, hopen, h⟩ := Option.bind_eq_some_iff.1 h
      have hb₁ := legal_openElement? ht.1 ht.2 hopen hb
      split at h
      · exact legal_closeElement? h hb₁
      · cases h
        exact hb₁
    | endTag name => exact legal_closeElement? h hb
    | reference name =>
      obtain ⟨e, he, h⟩ := Option.bind_eq_some_iff.1 h
      obtain ⟨b₁, hexpand, h⟩ := Option.bind_eq_some_iff.1 h
      have hb₁ := legal_expand? hexpand hb
      split at h
      · split at h
        · cases h
        · obtain ⟨inner, hinner, h⟩ := Option.bind_eq_some_iff.1 h
          obtain ⟨read, hread, h⟩ := Option.bind_eq_some_iff.1 h
          have hread := legal_foldlM (fun ht h hb => ih ht h hb) (legal_of_tokens? hinner) hread
            (hb₁.nested (hb.stack e (List.mem_of_head? he)))
          split at h
          · next heq =>
            cases h
            have hstack := hread.stack
            rw [heq] at hstack
            refine ⟨hb₁.before, List.forall_mem_cons.2 ⟨hstack _ List.mem_cons_self, ?_⟩, hb₁.root,
              hb₁.after, hb₁.doctype⟩
            exact fun e he => hb₁.stack e (List.mem_of_mem_tail he)
          · cases h
      · cases h
        exact hb₁
      · cases h

end Builder

/-- What stands before the root is legal, by induction on the number of its parts. -/
theorem legal_of_readPrologue {standalone : Bool} {fuel : Nat} {nodes : List Misc}
    {cs rest : List Char} {p : Prologue}
    (h : readPrologue standalone fuel nodes cs = .ok (p, rest))
    (hnodes : ∀ m ∈ nodes, m.node.Legal) :
    (∀ m ∈ p.nodes, m.node.Legal) ∧ p.doctype.Legal := by
  have hreverse : ∀ {nodes : List Misc}, (∀ m ∈ nodes, m.node.Legal) →
      ∀ m ∈ nodes.reverse, m.node.Legal := fun h m hm => h m (List.mem_reverse.1 hm)
  induction fuel generalizing nodes cs with
  | zero => cases h
  | succ fuel ih =>
    rw [readPrologue] at h
    split at h
    · obtain ⟨⟨⟨target, data⟩, _⟩, hscan, h⟩ := exists_of_bind_eq_ok h
      have hscan := legal_of_scanInstruction? (wellFormed_eq_ok_iff.1 hscan)
      exact ih h (List.forall_mem_cons.2 ⟨.instruction hscan, hnodes⟩)
    · obtain ⟨⟨data, _⟩, hscan, h⟩ := exists_of_bind_eq_ok h
      have hscan := isDocumentText_of_scanComment? (wellFormed_eq_ok_iff.1 hscan)
      exact ih h (List.forall_mem_cons.2 ⟨.comment hscan, hnodes⟩)
    · split at h
      · obtain ⟨⟨d, _⟩, hread, h⟩ := exists_of_bind_eq_ok h
        cases h
        exact ⟨hreverse hnodes, Doctype.legal_of_read hread⟩
      · cases h
        exact ⟨hreverse hnodes, Doctype.legal_initial⟩

/-- A document that is read is legal. -/
theorem legal_of_read {text : String} {d : Document} (h : read text = .ok d) : d.Legal := by
  obtain ⟨⟨standalone, cs⟩, -, h⟩ := exists_of_bind_eq_ok h
  obtain ⟨⟨prologue, cs⟩, hprologue, h⟩ := exists_of_bind_eq_ok h
  have h := wellFormed_eq_ok_iff.1 h
  obtain ⟨ts, hts, h⟩ := Option.bind_eq_some_iff.1 h
  obtain ⟨b, hb, h⟩ := Option.bind_eq_some_iff.1 h
  obtain ⟨⟨⟩, -, h⟩ := Option.bind_eq_some_iff.1 h
  obtain ⟨root, hroot, h⟩ := Option.bind_eq_some_iff.1 h
  cases h
  have hstart := Builder.legal_start (legal_of_readPrologue hprologue nofun) text.utf8ByteSize
  have hlegal := Builder.legal_foldlM (fun ht h hb => Builder.legal_take? ht h hb)
    (legal_of_tokens? hts) hb hstart
  intro n hn
  simp only [Document.nodes, List.mem_append, List.mem_cons, List.mem_map, List.mem_reverse] at hn
  obtain ⟨m, hm, rfl⟩ | rfl | ⟨m, hm, rfl⟩ := hn
  · exact hlegal.before m hm
  · exact hlegal.root root hroot
  · exact hlegal.after m hm

end XmlMacros.Markup
