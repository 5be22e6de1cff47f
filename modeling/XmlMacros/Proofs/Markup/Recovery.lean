import Mathlib.Data.List.Forall2
import XmlMacros.Proofs.Expansion.NoDirectives
import XmlMacros.Proofs.Markup.Roundtrip

/-!
# Written elements are recovered

An element that is written on lines of its own comes back with white space between its children that
was not there, and without the blank texts that were. Nothing else is changed in a tree whose names
are in order (`Element.recovered_of_legal`) if every element holds a single text or no text but
blank ones, and no data is in it that reading changes or drops (`Element.Exact`).

What an element holds when it is read back is known (`Node.reread`). Behind every child that is
written the characters that are pending are blank, and the child is no text that they could join
(`Content.Settled`); so blank texts are all that is added (`gained_rereadChildren`).
-/

namespace XmlMacros.Markup

open XmlMacros.Expansion

/-! ## Trees up to blank texts -/

mutual

/-- A node without the blank texts in it. -/
def Node.withoutBlanks : Node → Node
  | .element tag attrs children => .element tag attrs (withoutBlanks children)
  | n => n

/-- Nodes without the blank texts among them and in them. -/
def withoutBlanks : List Node → List Node
  | [] => []
  | n :: rest => if n.isBlank then withoutBlanks rest else n.withoutBlanks :: withoutBlanks rest

end

/-- The text that an element holds if it holds nothing else. Of an empty one nothing is written. -/
def loneText? : List Node → Option String
  | [.text data] => if data == "" then none else some data
  | _ => none

/-- The second tree is the first up to blank texts. A text that an element holds alone is the same
in both, whether it is blank or not. -/
inductive Node.EqUpToBlanks : Node → Node → Prop
  | lone {tag : String} {attrs : List Attr} {data : String} (h : data ≠ "") :
    EqUpToBlanks (.element tag attrs [.text data]) (.element tag attrs [.text data])
  | element {tag : String} {attrs : List Attr} {children children' : List Node}
    (hlone : loneText? children = none)
    (h : List.Forall₂ EqUpToBlanks (children.filter (!·.isBlank)) (children'.filter (!·.isBlank))) :
    EqUpToBlanks (.element tag attrs children) (.element tag attrs children')
  | leaf {n : Node} (h : n.element? = none) : EqUpToBlanks n n

/-- Children are a lone text exactly if they are one text with something in it. -/
theorem loneText?_eq_some_iff {children : List Node} {data : String} :
    loneText? children = some data ↔ data ≠ "" ∧ children = [.text data] := by
  constructor
  · intro h
    unfold loneText? at h
    split at h
    · split at h
      · cases h
      · next hdata =>
        cases h
        exact ⟨by simpa using hdata, rfl⟩
    · cases h
  · rintro ⟨hdata, rfl⟩
    simp [loneText?, hdata]

/-- Blank texts are left out at a level before they are left out inside of what stays. -/
theorem withoutBlanks_eq_map (nodes : List Node) :
    withoutBlanks nodes = (nodes.filter (!·.isBlank)).map Node.withoutBlanks := by
  induction nodes with
  | nil => rfl
  | cons n rest ih =>
    unfold withoutBlanks
    rw [List.filter_cons, ih]
    cases n.isBlank <;> rfl

theorem map_eq_map_of_forall₂ {R : Node → Node → Prop} {f : Node → Node} {nodes nodes' : List Node}
    (h : List.Forall₂ R nodes nodes') (hf : ∀ n ∈ nodes, ∀ n', R n n' → f n = f n') :
    nodes.map f = nodes'.map f := by
  induction h with
  | nil => rfl
  | cons hn _ ih =>
    obtain ⟨hfirst, hrest⟩ := List.forall_mem_cons.1 hf
    rw [List.map_cons, List.map_cons, hfirst _ hn, ih hrest]

/-- Nodes that are equal up to blank texts are equal without them. The induction is on the nodes. -/
theorem withoutBlanks_eq_of_eqUpToBlanks {nodes : List Node} :
    ∀ n ∈ nodes, ∀ n', n.EqUpToBlanks n' → n.withoutBlanks = n'.withoutBlanks := by
  induction nodes using nodes_induction with
  | nil => exact List.forall_mem_nil _
  | element e rest ihchildren ihrest =>
    refine List.forall_mem_cons.2 ⟨fun n' h => ?_, ihrest⟩
    obtain ⟨tag, attrs, children⟩ := e
    cases h with
    | lone | leaf => rfl
    | element _ h =>
      refine congrArg (Node.element tag attrs) ?_
      rw [withoutBlanks_eq_map, withoutBlanks_eq_map]
      exact map_eq_map_of_forall₂ h fun n hn => ihchildren n (List.mem_filter.1 hn).1
  | leaf n rest hleaf ih =>
    refine List.forall_mem_cons.2 ⟨fun n' h => ?_, ih⟩
    cases h with
    | lone | element => cases hleaf
    | leaf => rfl

/-- Trees that are the same up to blank texts are the same without them. -/
theorem Node.EqUpToBlanks.withoutBlanks_eq {n n' : Node} (h : n.EqUpToBlanks n') :
    n.withoutBlanks = n'.withoutBlanks :=
  withoutBlanks_eq_of_eqUpToBlanks n (List.mem_singleton_self n) n' h

/-! ## What is read as it is written -/

/-- The character is read in texts as it is written. -/
def isKept (c : Char) : Bool :=
  isDocumentChar c && c != '\r'

/-- The character is read in values of attributes as it is written. -/
def isKeptInValue (c : Char) : Bool :=
  isKept c && c != '\t' && c != '\n'

/-- The data of a node that is no element is read as it is written. Empty sections are dropped. -/
def Node.KeepsData : Node → Prop
  | .text data | .comment data | .instruction _ data => TextOver (isKept ·) data
  | .cdata data => data ≠ "" ∧ TextOver (isKept ·) data
  | .element .. => True

/-- What stands in an element itself is read as it is written, and there is a text alone in it or
none but blank ones. -/
structure Element.Exact (e : Element) : Prop where
  values : ∀ a ∈ e.attrs, TextOver (isKeptInValue ·) a.value
  data : ∀ n ∈ e.children, n.KeepsData
  layout : (loneText? e.children).isSome ∨ ∀ n ∈ e.children, n.isText → n.isBlank

instance (p : Char → Bool) (s : String) : Decidable (TextOver (p ·) s) :=
  List.decidableBAll _ s.toList

instance : DecidablePred Node.KeepsData
  | .text data | .comment data | .instruction _ data =>
    inferInstanceAs (Decidable (TextOver (isKept ·) data))
  | .cdata data => inferInstanceAs (Decidable (data ≠ "" ∧ TextOver (isKept ·) data))
  | .element .. => .isTrue trivial

instance (e : Element) : Decidable e.Exact :=
  decidable_of_iff ((∀ a ∈ e.attrs, TextOver (isKeptInValue ·) a.value) ∧
      (∀ n ∈ e.children, n.KeepsData) ∧
      ((loneText? e.children).isSome ∨ ∀ n ∈ e.children, n.isText → n.isBlank))
    ⟨fun ⟨hvalues, hdata, hlayout⟩ => ⟨hvalues, hdata, hlayout⟩,
      fun h => ⟨h.values, h.data, h.layout⟩⟩

/-- An element that is exact, and of which the default namespace is no empty text. -/
structure Element.Faithful (e : Element) : Prop extends e.Exact where
  default : ⟨"xmlns", some ""⟩ ∉ e.attrs

/-- A character is kept in data if it may stand in a document and is no carriage return. -/
theorem isKept_iff {c : Char} : isKept c ↔ isDocumentChar c ∧ c ≠ '\r' := by
  simp [isKept]

/-- A character is kept in a value if it is kept in data and is neither a tab nor a line feed. -/
theorem isKeptInValue_iff {c : Char} : isKeptInValue c ↔ isKept c ∧ c ≠ '\t' ∧ c ≠ '\n' := by
  simp [isKeptInValue, and_assoc]

/-- Data of characters that are kept is read as it is. -/
theorem withLineFeeds_eq_self {s : String} (h : TextOver (isKept ·) s) : withLineFeeds s = s :=
  withLineFeeds_eq_iff.2 fun hreturn => (isKept_iff.1 (h _ hreturn)).2 rfl

/-- A value of characters that are kept in values is read as it is. -/
theorem readValue_eq_self {s : String} (h : TextOver (isKeptInValue ·) s) : readValue s = s := by
  have hblank : ∀ c ∈ s.toList, blankOf c = c := by
    intro c hc
    obtain ⟨hkept, htab, hfeed⟩ := isKeptInValue_iff.1 (h c hc)
    unfold blankOf
    split
    · next hspace =>
      simp only [isSpace, Bool.or_eq_true, beq_iff_eq] at hspace
      obtain ((rfl | rfl) | rfl) | rfl := hspace
      · rfl
      · exact absurd rfl htab
      · exact absurd rfl hfeed
      · exact absurd rfl (isKept_iff.1 hkept).2
    · rfl
  unfold readValue
  rw [withLineFeeds_eq_self fun c hc => (isKeptInValue_iff.1 (h c hc)).1, List.map_congr_left
    hblank,
    List.map_id', String.ofList_toList]

/-- Trees that are read as they are written are made of characters that documents may hold. -/
theorem legal_of_exact {p : Char → Prop} {nodes : List Node} (hlegal : ∀ n ∈ nodes, n.LegalOver p)
    (hdata : ∀ n ∈ nodes, n.KeepsData) (hexact : ∀ e ∈ elementsIn nodes, e.Exact) :
    ∀ n ∈ nodes, n.Legal := by
  have hkept {s : String} (h : TextOver (isKept ·) s) : TextOver (isDocumentChar ·) s :=
    h.mono fun c hc => (isKept_iff.1 hc).1
  induction nodes using nodes_induction with
  | nil => exact List.forall_mem_nil _
  | element e rest ihchildren ihrest =>
    obtain ⟨he, hrest⟩ := List.forall_mem_cons.1 hlegal
    obtain ⟨hself, hinner, hlater⟩ := forall_elementsIn_cons.1 hexact
    refine List.forall_mem_cons.2 ⟨?_, ihrest hrest (List.forall_mem_cons.1 hdata).2 hlater⟩
    cases he with | element htag hattrs hnames hchildren =>
    refine .element htag (fun a ha => ?_) hnames (ihchildren hchildren hself.data hinner)
    refine ⟨(hattrs a ha).name, hkept fun c hc => ?_, (hattrs a ha).valued⟩
    exact (isKeptInValue_iff.1 (hself.values a ha c hc)).1
  | leaf n rest hleaf ih =>
    obtain ⟨hn, hrest⟩ := List.forall_mem_cons.1 hlegal
    obtain ⟨hfirst, hlater⟩ := List.forall_mem_cons.1 hdata
    rw [elementsIn_leaf hleaf] at hexact
    refine List.forall_mem_cons.2 ⟨?_, ih hrest hlater hexact⟩
    cases hn with
    | element => cases hleaf
    | text => exact .text (hkept hfirst)
    | cdata => exact .cdata (hkept hfirst.2)
    | comment => exact .comment (hkept hfirst)
    | instruction h => exact .instruction h

/-! ## Attributes -/

/-- What is in order with regard to a property already is not moved by putting it first. -/
theorem filter_append_filter_not {α : Type} {p : α → Bool} {l : List α}
    (h : l.Pairwise fun a b => p b → p a) : l.filter p ++ l.filter (!p ·) = l := by
  induction h with
  | nil => rfl
  | @cons a l ha _ ih =>
    cases hp : p a with
    | true => simp [hp, ih]
    | false =>
      have hnone : ∀ b ∈ l, p b = false := fun b hb =>
        Bool.eq_false_iff.2 fun hb' => by simpa [hp] using ha b hb hb'
      have hfirst : l.filter p = [] := List.filter_eq_nil_iff.2 fun b hb => by simp [hnone b hb]
      have hrest : l.filter (!p ·) = l := List.filter_eq_self.2 fun b hb => by simp [hnone b hb]
      simp [hp, hfirst, hrest]

/-- An attribute that is taken apart to be written is put together again, but for the empty
declaration of a default namespace. -/
theorem attrOf_parts {p : Char → Prop} {a : Attr} (h : a.LegalOver p)
    (hdefault : a ≠ ⟨"xmlns", some ""⟩) : attrOf a.parts.1 a.parts.2 = a := by
  obtain ⟨name, value?⟩ := a
  unfold attrOf Attr.parts
  rw [QName.text_ofText]
  cases value? with
  | none =>
    obtain rfl : name = "xmlns" := h.valued rfl
    rfl
  | some value =>
    have hgiven : ¬ (name == "xmlns" && value == "") = true := by
      rintro hboth
      obtain ⟨hname, hvalue⟩ : name = "xmlns" ∧ value = "" := by simpa using hboth
      exact hdefault (by rw [hname, hvalue])
    show Attr.mk name (if name == "xmlns" && value == "" then none else some value) = _
    rw [if_neg hgiven]

/-- Attributes that are in order come back as they are. -/
theorem boundAttrs_parts {p : Char → Prop} {attrs : List Attr} (hattrs : ∀ a ∈ attrs, a.LegalOver p)
    (hnames : NamesInOrder (attrs.map Attr.name))
    (hvalues : ∀ a ∈ attrs, TextOver (isKeptInValue ·) a.value)
    (hdefault : ⟨"xmlns", some ""⟩ ∉ attrs) :
    boundAttrs (readAttrs (attrs.map Attr.parts)) = attrs := by
  have hread : readAttrs (attrs.map Attr.parts) = attrs.map Attr.parts := by
    unfold readAttrs
    rw [List.map_map]
    refine List.map_congr_left fun a ha => Prod.ext rfl ?_
    exact readValue_eq_self (hvalues a ha)
  have hdeclared : (attrs.map Attr.parts).Pairwise fun a b => declares b.1 → declares a.1 :=
    List.pairwise_map.2 (List.pairwise_map.1 hnames.declared)
  unfold boundAttrs
  rw [hread, filter_append_filter_not hdeclared, List.map_map]
  refine (List.map_congr_left fun a ha => ?_).trans (List.map_id _)
  exact attrOf_parts (hattrs a ha) fun h => hdefault (h ▸ ha)

/-! ## Contents -/

theorem isBlank_of_isSpace {c : Char} (h : isSpace c) : Text.isBlank c := by
  simp only [isSpace, Bool.or_eq_true, beq_iff_eq] at h
  obtain ((rfl | rfl) | rfl) | rfl := h <;> decide

theorem Node.isBlank_eq_false {n : Node} (h : n.isText = false) : n.isBlank = false := by
  cases n with
  | text => cases h
  | element | cdata | comment | instruction => rfl

namespace Content

/-- The characters that are pending are blank, and the last child is no text that they join. -/
structure Settled (c : Content) : Prop where
  pending : ∀ x ∈ c.pending, isSpace x
  last : ∀ n ∈ c.children.head?, n.isText = false

/-- The children that are no blank texts, in order. -/
def shown (c : Content) : List Node :=
  (c.children.filter (!·.isBlank)).reverse

variable {c : Content}

/-- Blank characters without children are settled. -/
theorem settled_blank {cs : List Char} (hcs : ∀ x ∈ cs, isSpace x) : Settled ⟨[], cs⟩ :=
  ⟨hcs, by rintro _ ⟨⟩⟩

/-- A text that is all there is comes as it is. -/
theorem flush_text {data : String} (hdata : data ≠ "") (hkept : TextOver (isKept ·) data) :
    (⟨[], data.toList⟩ : Content).flush = [.text data] := by
  show addChars (withLineFeeds data) [] = _
  rw [withLineFeeds_eq_self hkept]
  simp [addChars, hdata]

/-- Further blank characters leave a content settled. -/
theorem Settled.chars (h : c.Settled) {cs : List Char} (hcs : ∀ x ∈ cs, isSpace x) :
    (c.chars cs).Settled :=
  ⟨List.forall_mem_append.2 ⟨h.pending, hcs⟩, h.last⟩

/-- Only a blank text can be taken in. -/
theorem Settled.flush (h : c.Settled) : (c.flush.filter (!·.isBlank)).reverse = c.shown := by
  have hblank : (Node.text (String.ofList (normalizeLines c.pending))).isBlank = true := by
    refine List.all_eq_true.2 fun x hx => isBlank_of_isSpace ?_
    rw [String.toList_ofList] at hx
    exact isSpace_of_mem_normalizeLines h.pending x hx
  unfold Content.flush addChars
  split
  · next heq =>
    have := h.last
    rw [heq] at this
    cases this _ rfl
  · split
    · rfl
    · rw [List.filter_cons, hblank]
      rfl

/-- A node that is no text settles the content behind it. -/
theorem Settled.add {n : Node} (hn : n.isText = false) : (c.add n).Settled :=
  ⟨List.forall_mem_nil _, by rintro _ ⟨⟩; exact hn⟩

/-- Behind settled content a node that is no text comes last, and nothing else is shown besides. -/
theorem Settled.shown_add (h : c.Settled) {n : Node} (hn : n.isText = false) :
    (c.add n).shown = c.shown ++ [n] := by
  unfold Content.add
  rw [shown, List.filter_cons, Node.isBlank_eq_false hn, ← h.flush]
  exact List.reverse_cons

/-- The nodes were read behind a content. Blank texts apart, they are what came to it. -/
structure Gained (c : Content) (nodes : List Node) (after : Content) : Prop where
  settled : after.Settled
  shown : ∃ added, after.shown = c.shown ++ added ∧
    List.Forall₂ Node.EqUpToBlanks (nodes.filter (!·.isBlank)) added

variable {after : Content} {n n' : Node} {rest : List Node}

/-- Where nothing is read, nothing comes to the content. -/
theorem Gained.nil (h : c.Settled) : c.Gained [] c :=
  ⟨h, [], (List.append_nil _).symm, .nil⟩

/-- A blank text in front brings nothing. -/
theorem Gained.skip (hn : n.isBlank) (h : c.Gained rest after) : c.Gained (n :: rest) after := by
  refine ⟨h.settled, ?_⟩
  rw [List.filter_cons, hn]
  exact h.shown

/-- A node that is shown stands in front of what comes with the rest. -/
theorem Gained.cons {c' : Content} (hn : n.isBlank = false) (hsame : n.EqUpToBlanks n')
    (hshown : c'.shown = c.shown ++ [n']) (h : c'.Gained rest after) :
    c.Gained (n :: rest) after := by
  obtain ⟨hsettled, added, hadded, hall⟩ := h
  refine ⟨hsettled, n' :: added, ?_, ?_⟩
  · rw [hadded, hshown, List.append_assoc]
    rfl
  · rw [List.filter_cons, hn]
    exact .cons hsame hall

end Content

/-! ## What is read back -/

section
variable {layout : Layout} {p : Char → Prop}

/-- Between the tags of an element the children are read up to blank texts if they are read so
behind a line end. -/
theorem forall₂_rereadInside {level : List Char} (hlevel : ∀ x ∈ level, isSpace x)
    {children : List Node} (hlone : loneText? children = none)
    (hchildren : Content.Gained ⟨[], layout.newline.toList⟩ children
      (rereadChildren layout (level ++ layout.indent.toList) children
        ⟨[], layout.newline.toList⟩)) :
    List.Forall₂ Node.EqUpToBlanks (children.filter (!·.isBlank))
      ((rereadInside layout level children).flush.filter (!·.isBlank)).reverse := by
  unfold rereadInside
  split
  · exact .nil
  · next data =>
    have hdata : data = "" := by
      by_contra hdata
      rw [loneText?_eq_some_iff.2 ⟨hdata, rfl⟩] at hlone
      cases hlone
    subst hdata
    exact .nil
  · obtain ⟨hsettled, added, hshown, hadded⟩ := hchildren
    rw [(hsettled.chars hlevel).flush]
    exact hshown ▸ hadded

/-- The tag and the attributes of an element are read as they are. -/
theorem Element.reread_node_of_faithful (level : List Char) {e : Element}
    (hlegal : e.node.LegalOver p) (he : e.Faithful) : (e.reread layout level).node =
      .element e.tag e.attrs (rereadInside layout level e.children).flush.reverse := by
  cases hlegal with | element _ hattrs hnames _ =>
  unfold Element.reread
  rw [boundAttrs_parts hattrs hnames he.values he.default]
  rfl

/-- An element is read as itself up to blank texts if what it holds is. -/
theorem Element.reread_eqUpToBlanks {level : List Char} (hlevel : ∀ x ∈ level, isSpace x)
    {e : Element} (hlegal : e.node.LegalOver p) (he : e.Faithful)
    (hinside : (∀ n ∈ e.children, n.isText → n.isBlank) →
      Content.Gained ⟨[], layout.newline.toList⟩ e.children (rereadChildren layout
        (level ++ layout.indent.toList) e.children ⟨[], layout.newline.toList⟩)) :
    e.node.EqUpToBlanks (e.reread layout level).node := by
  rw [Element.reread_node_of_faithful level hlegal he]
  obtain ⟨tag, attrs, children⟩ := e
  cases hlone : loneText? children with
  | some data =>
    obtain ⟨hdata, rfl⟩ := loneText?_eq_some_iff.1 hlone
    have hflush : (rereadInside layout level [.text data]).flush = [.text data] :=
      Content.flush_text hdata (he.data (.text data) List.mem_cons_self)
    show Node.EqUpToBlanks (.element tag attrs [.text data])
      (.element tag attrs (rereadInside layout level [.text data]).flush.reverse)
    rw [hflush]
    exact .lone hdata
  | none =>
    have hblank : ∀ n ∈ children, n.isText → n.isBlank :=
      he.layout.resolve_left fun h => by simp [hlone] at h
    refine .element hlone ?_
    rw [List.filter_reverse]
    exact forall₂_rereadInside hlevel hlone (hinside hblank)

variable (hlayout : layout.IsBlank)

include hlayout

/-- A node that is written on lines of its own is read behind white space. -/
theorem settled_lines {c : Content} (hc : c.Settled) {level : List Char}
    (hlevel : ∀ x ∈ level, isSpace x) {n : Node} (hn : n.isText = false) :
    (((c.chars level).add n).chars layout.newline.toList).Settled ∧
      (((c.chars level).add n).chars layout.newline.toList).shown = c.shown ++ [n] :=
  ⟨(Content.Settled.add hn).chars hlayout.newline, (hc.chars hlevel).shown_add hn⟩

/-- What a node that is no element and no text is read as is the node. -/
theorem reread_leaf {c : Content} (hc : c.Settled) {level : List Char}
    (hlevel : ∀ x ∈ level, isSpace x) {n : Node} (hleaf : n.element? = none)
    (htext : n.isText = false) (hdata : n.KeepsData) :
    (n.reread layout level c).Settled ∧ (n.reread layout level c).shown = c.shown ++ [n] := by
  cases n with
  | element => cases hleaf
  | text => cases htext
  | cdata data =>
    have hgiven : ¬ (withLineFeeds data == "") = true := by
      simpa [withLineFeeds_eq_self hdata.2] using hdata.1
    unfold Node.reread
    rw [if_neg hgiven, withLineFeeds_eq_self hdata.2]
    exact ⟨.add htext, hc.shown_add htext⟩
  | comment data =>
    unfold Node.reread
    rw [withLineFeeds_eq_self hdata]
    exact settled_lines hlayout hc hlevel htext
  | instruction target data =>
    unfold Node.reread
    rw [withLineFeeds_eq_self hdata]
    exact settled_lines hlayout hc hlevel htext

/-- The children of an element that are no blank texts are read as themselves up to blank texts, and
blank texts are all that comes between them. -/
theorem gained_rereadChildren {nodes : List Node} (hlegal : ∀ n ∈ nodes, n.LegalOver p)
    (hdata : ∀ n ∈ nodes, n.KeepsData) (htexts : ∀ n ∈ nodes, n.isText → n.isBlank)
    (hfaithful : ∀ e ∈ elementsIn nodes, e.Faithful) {level : List Char}
    (hlevel : ∀ x ∈ level, isSpace x) {c : Content} (hc : c.Settled) :
    c.Gained nodes (rereadChildren layout level nodes c) := by
  induction nodes using nodes_induction generalizing level c with
  | nil => exact .nil hc
  | element e rest ihchildren ihrest =>
    obtain ⟨he, hrest⟩ := List.forall_mem_cons.1 hlegal
    obtain ⟨hself, hinner, hlater⟩ := forall_elementsIn_cons.1 hfaithful
    have hchildren : ∀ n ∈ e.children, n.LegalOver p := by
      cases he with | element _ _ _ h => exact h
    have hdeeper : ∀ x ∈ level ++ layout.indent.toList, isSpace x :=
      List.forall_mem_append.2 ⟨hlevel, hlayout.indent⟩
    have hsame : e.node.EqUpToBlanks (e.reread layout level).node :=
      e.reread_eqUpToBlanks hlevel he hself fun hblank =>
        ihchildren hchildren hself.data hblank hinner hdeeper
          (Content.settled_blank hlayout.newline)
    obtain ⟨hsettled, hshown⟩ := settled_lines hlayout hc hlevel (n := (e.reread layout level).node) rfl
    unfold rereadChildren
    rw [if_neg (show ¬ e.node.isBlank = true from Bool.false_ne_true), e.reread_node]
    refine .cons rfl hsame hshown ?_
    exact ihrest hrest (List.forall_mem_cons.1 hdata).2 (List.forall_mem_cons.1 htexts).2 hlater
      hlevel hsettled
  | leaf n rest hleaf ih =>
    obtain ⟨-, hrest⟩ := List.forall_mem_cons.1 hlegal
    obtain ⟨hfirst, hlater⟩ := List.forall_mem_cons.1 hdata
    obtain ⟨hblank, htexts⟩ := List.forall_mem_cons.1 htexts
    rw [elementsIn_leaf hleaf] at hfaithful
    unfold rereadChildren
    cases htext : n.isText with
    | true =>
      rw [if_pos (hblank htext)]
      exact .skip (hblank htext) (ih hrest hlater htexts hfaithful hlevel hc)
    | false =>
      obtain ⟨hsettled, hshown⟩ := reread_leaf hlayout hc hlevel hleaf htext hfirst
      have hshows : n.isBlank = false := Node.isBlank_eq_false htext
      rw [if_neg (by rw [hshows]; exact Bool.false_ne_true)]
      exact .cons hshows (.leaf hleaf) hshown (ih hrest hlater htexts hfaithful hlevel hsettled)

end

/-! ## Written elements -/

/-- White space and a tag are no declaration of a document. -/
theorem readDeclaration?_tag {space : List Char} (hspace : ∀ c ∈ space, isSpace c) {c : Char}
    (hc : isNameStart c) (tail : List Char) :
    readDeclaration? (space ++ '<' :: c :: tail) = some (false, space ++ '<' :: c :: tail) := by
  have hnone : expect? "<?xml".toList (space ++ '<' :: c :: tail) = none := by
    refine Option.eq_none_iff_forall_ne_some.2 fun rest h => ?_
    have heq := expect?_eq_some_iff.1 h
    cases space with
    | nil =>
      obtain rfl : c = '?' := (List.cons.inj (List.cons.inj heq).2).1
      exact absurd hc (by decide)
    | cons x space =>
      obtain rfl : x = '<' := (List.cons.inj heq).1
      exact absurd (hspace _ List.mem_cons_self) (by decide)
  unfold readDeclaration?
  rw [hnone]

/-- A text that starts with no byte order mark is read from its start. -/
theorem read_cons {c : Char} (hc : (c.toNat == 0xFEFF) = false) (rest : List Char) :
    read (String.ofList (c :: rest)) = (do
      let (standalone, cs) ← wellFormed (readDeclaration? (normalizeLines (c :: rest)))
      let (prologue, cs) ← readPrologue standalone (cs.length + 1) [] cs
      wellFormed (do
        documentOfTokens? (.start prologue (String.ofList (c :: rest)).utf8ByteSize)
          (← tokens? cs))) := by
  unfold read
  rw [String.toList_ofList]
  dsimp only
  rw [hc]
  rfl

/-- White space and an element are read as a document of which the element is the root. -/
theorem read_tag {space : List Char} (hspace : ∀ c ∈ space, isSpace c) {c : Char}
    (hc : isNameStart c) (tail : List Char) :
    ∃ written, read (String.ofList (space ++ '<' :: c :: tail)) = wellFormed (do
      documentOfTokens? (.start ⟨[], { standalone := false }⟩ written)
        (← tokens? (normalizeLines ('<' :: c :: tail)))) := by
  obtain ⟨first, rest, htext, hfirst⟩ : ∃ first rest, space ++ '<' :: c :: tail = first :: rest ∧
      (first.toNat == 0xFEFF) = false := by
    cases space with
    | nil => exact ⟨'<', c :: tail, rfl, rfl⟩
    | cons x space =>
      have hx := hspace x List.mem_cons_self
      simp only [isSpace, Bool.or_eq_true, beq_iff_eq] at hx
      obtain ((rfl | rfl) | rfl) | rfl := hx <;> exact ⟨_, _, rfl, rfl⟩
  have hdeclaration : readDeclaration? (normalizeLines (space ++ '<' :: c :: tail)) =
      some (false, normalizeLines (space ++ '<' :: c :: tail)) := by
    rw [normalizeLines_tag space hc]
    exact readDeclaration?_tag (isSpace_of_mem_normalizeLines hspace) hc _
  have hprologue := readPrologue_tag hspace hc tail false
    (normalizeLines (space ++ '<' :: c :: tail)).length []
  rw [htext] at hdeclaration hprologue ⊢
  refine ⟨(String.ofList (first :: rest)).utf8ByteSize, ?_⟩
  rw [read_cons hfirst, hdeclaration]
  show Except.bind (readPrologue _ _ _ _) _ = _
  rw [hprologue]
  rfl

/-- The element is written, and what is written is read as a document of one that is the same up to
blank texts. -/
def Element.IsRecovered (layout : Layout) (level : String) (e : Element) : Prop :=
  ∃ text root, e.node.write layout level = .ok text ∧ read text = .ok ⟨[], root, []⟩ ∧
    e.node.withoutBlanks = root.node.withoutBlanks ∧ e.node.EqUpToBlanks root.node

/-- An element that can be written is read back as `Element.reread` describes it, whatever blank
layout it is written in. -/
theorem Element.exists_read_write {layout : Layout} (hlayout : layout.IsBlank) {level : String}
    (hlevel : ∀ c ∈ level.toList, isSpace c) {e : Element} (hlegal : e.node.Legal)
    (hwritable : e.node.Writable) (hbound : e.node.Bound Bindings.initial) :
    ∃ text, e.node.write layout level = .ok text ∧
      read text = .ok ⟨[], e.reread layout level.toList, []⟩ := by
  obtain ⟨c, tail, hc, hwrite⟩ : ∃ c tail, isNameStart c ∧
      (e.pieces layout level.toList).flatMap Piece.write = '<' :: c :: tail := by
    cases hlegal with | element htag => exact e.exists_write layout level.toList htag
  have hpieces : ∀ p ∈ e.pieces layout level.toList, p.Legal := fun p hp =>
    legal_pieces hlayout hlevel hlegal hwritable hbound p (List.mem_of_mem_tail hp)
  obtain ⟨written, hread⟩ := read_tag hlevel hc tail
  let start : Builder := .start ⟨[], { standalone := false }⟩ written
  have hroot := Builder.readPieces_root (b := start) ⟨rfl, rfl, rfl⟩ rfl rfl layout level.toList
    (List.forall_mem_nil _) hlegal hbound []
  have hend : ({ start with root := some (e.reread layout level.toList) } : Builder).readPieces
      layout.newline.toList [] = some { start with root := some (e.reread layout level.toList) } :=
    Builder.flush_of_blank rfl hlayout.newline
  refine ⟨_, Node.write_eq hlayout hlevel hwritable, ?_⟩
  rw [e.pieces_node, List.flatMap_cons, hwrite]
  show read (String.ofList (level.toList.flatMap escapeChar ++ _)) = _
  rw [flatMap_escapeChar_of_isSpace hlevel, hread, ← hwrite]
  refine (congrArg wellFormed (documentOfTokens?_pieces hpieces start)).trans ?_
  rw [← List.append_nil (e.pieces layout level.toList), hroot, hend]
  rfl

/-- An element that is legal is recovered if what stands in it is read as it is written and its
names are in order. -/
theorem Element.recovered_of_legal {layout : Layout} (hlayout : layout.IsBlank) {level : String}
    (hlevel : ∀ c ∈ level.toList, isSpace c) {p : Char → Prop} {e : Element}
    (hlegal : e.node.LegalOver p) (hfaithful : ∀ e' ∈ elementsIn [e.node], e'.Faithful)
    (hwritable : e.node.Writable) (hbound : e.node.Bound Bindings.initial) :
    e.IsRecovered layout level := by
  have hall : ∀ n ∈ [e.node], n.Legal :=
    legal_of_exact (List.forall_mem_singleton.2 hlegal) (List.forall_mem_singleton.2 trivial)
      fun e' he' => (hfaithful e' he').toExact
  obtain ⟨text, hwrite, hread⟩ := Element.exists_read_write hlayout hlevel
    (hall _ List.mem_cons_self) hwritable hbound
  obtain ⟨hself, hinner, -⟩ := forall_elementsIn_cons.1 hfaithful
  have hsame := e.reread_eqUpToBlanks hlevel hlegal hself fun htexts => by
    cases hlegal with | element _ _ _ hchildren =>
    exact gained_rereadChildren hlayout hchildren hself.data htexts hinner
      (List.forall_mem_append.2 ⟨hlevel, hlayout.indent⟩) (Content.settled_blank hlayout.newline)
  exact ⟨text, e.reread layout level.toList, hwrite, hread, hsame.withoutBlanks_eq, hsame⟩

end XmlMacros.Markup
