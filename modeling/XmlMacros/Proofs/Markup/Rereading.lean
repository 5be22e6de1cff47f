import XmlMacros.Proofs.Markup.Piece

/-!
# Written elements are read back

A tree that is legal in every part can be written, and is read back, under two conditions that are
about its parts together. Comments and CDATA sections must be told apart from their ends
(`Node.Writable`), and every prefix must be bound to a namespace that may be declared, with no two
attributes of an element having the same name in the same namespace (`Node.Bound`). White space of
any kind may be added between the parts.

What a tree is written as is the row of its pieces (`Node.write_eq`), and inside of an element these
are read and come to stand in it (`absorbed_pieces`). What is read back has the tags and the
bindings of what was written; what it holds is told by the same recursion that writes
(`Node.reread`).
-/

namespace XmlMacros.Markup

/-! ## Conditions -/

/-- The comments and CDATA sections of a tree do not hold what ends them, and no comment ends in a
hyphen. -/
inductive Node.Writable : Node → Prop
  | element {tag : String} {attrs : List Attr} {children : List Node}
    (h : ∀ n ∈ children, n.Writable) : Writable (.element tag attrs children)
  | text {data : String} : Writable (.text data)
  | cdata {data : String} (h : ¬ [']', ']', '>'] <:+: data.toList) : Writable (.cdata data)
  | comment {data : String} (h : ¬ ['-', '-'] <:+: data.toList)
    (hlast : data.toList.getLast? ≠ some '-') : Writable (.comment data)
  | instruction {target data : String} : Writable (.instruction target data)

/-- The name of an attribute with its value. -/
def Attr.parts (a : Attr) : QName × String :=
  (QName.ofText a.name, a.value)

/-- The value of an attribute as it is read back: with spaces for all white space. -/
def readValue (s : String) : String :=
  String.ofList ((withLineFeeds s).toList.map blankOf)

/-- The attributes of an element as they are read back. -/
def readAttrs (attrs : List (QName × String)) : List (QName × String) :=
  attrs.map fun a => (a.1, readValue a.2)

/-- The bindings inside of an element with attributes. -/
def Bindings.inside (bindings : Bindings) (attrs : List (QName × String)) : Bindings :=
  attrs.foldl (fun bindings a =>
    if a.1.space == some "xmlns" then (a.1.label, a.2) :: bindings else bindings) bindings

/-- Whether the prefix of a name is bound, if the name has one. -/
def Bindings.Binds (bindings : Bindings) (name : QName) : Prop :=
  ∀ p ∈ name.space, (bindings.lookup p).isSome

/-- A name with the namespace that its prefix is bound to. -/
def Bindings.expandedName (bindings : Bindings) (name : QName) : Option String × String :=
  (name.space.bind fun p => bindings.lookup p, name.label)

/-- A declaration gives a prefix or the default a namespace that may be declared for it. -/
structure LegalDeclaration (a : QName × String) : Prop where
  name : a.1.Legal
  declarable : isDeclarable (a.1.space.map fun _ => a.1.label) a.2

/-- The names of a tag and its attributes are in order where prefixes are bound outside of it. -/
structure NamesBound (bindings : Bindings) (tag : QName) (attrs : List (QName × String)) : Prop where
  declared : ∀ a ∈ attrs, declares a.1 → LegalDeclaration a
  tagBound : (bindings.inside attrs).Binds tag
  attrsBound : ∀ a ∈ attrs, declares a.1 = false → (bindings.inside attrs).Binds a.1
  distinct : ((attrs.filter (!declares ·.1)).map
    fun a => (bindings.inside attrs).expandedName a.1).Nodup

/-- All names of a tree are in order, as it is read back, where prefixes are bound outside of it. -/
inductive Node.Bound : Bindings → Node → Prop
  | element {bindings : Bindings} {tag : String} {attrs : List Attr} {children : List Node}
    (hnames : NamesBound bindings (.ofText tag) (readAttrs (attrs.map Attr.parts)))
    (hchildren : ∀ n ∈ children, n.Bound (bindings.inside (readAttrs (attrs.map Attr.parts)))) :
    Bound bindings (.element tag attrs children)
  | text {bindings : Bindings} {data : String} : Bound bindings (.text data)
  | cdata {bindings : Bindings} {data : String} : Bound bindings (.cdata data)
  | comment {bindings : Bindings} {data : String} : Bound bindings (.comment data)
  | instruction {bindings : Bindings} {target data : String} :
    Bound bindings (.instruction target data)

/-- What is added between the parts of a document is white space. -/
structure Layout.IsBlank (layout : Layout) : Prop where
  indent : ∀ c ∈ layout.indent.toList, isSpace c
  newline : ∀ c ∈ layout.newline.toList, isSpace c

/-! ### The conditions can be tried out -/

instance : (cs : List Char) → Decidable (IsName cs)
  | [] => .isFalse fun ⟨_, _, heq, _⟩ => nomatch heq
  | c :: rest =>
    decidable_of_iff (isNameStart c ∧ rest.all isNameRest)
      ⟨fun ⟨hc, hrest⟩ => ⟨c, rest, rfl, hc, List.all_eq_true.1 hrest⟩,
        fun ⟨_, _, heq, hc, hrest⟩ => by cases heq; exact ⟨hc, List.all_eq_true.2 hrest⟩⟩

instance (q : QName) : Decidable q.Legal :=
  decidable_of_iff ((∀ p ∈ q.space, IsName p.toList) ∧ IsName q.label.toList)
    ⟨fun ⟨hspace, hlabel⟩ => ⟨hspace, hlabel⟩, fun h => ⟨h.space, h.label⟩⟩

instance (bindings : Bindings) (name : QName) : Decidable (bindings.Binds name) :=
  inferInstanceAs (Decidable (∀ p ∈ name.space, (bindings.lookup p).isSome))

instance (a : QName × String) : Decidable (LegalDeclaration a) :=
  decidable_of_iff (a.1.Legal ∧ isDeclarable (a.1.space.map fun _ => a.1.label) a.2)
    ⟨fun ⟨hname, hdeclarable⟩ => ⟨hname, hdeclarable⟩, fun h => ⟨h.name, h.declarable⟩⟩

instance (bindings : Bindings) (tag : QName) (attrs : List (QName × String)) :
    Decidable (NamesBound bindings tag attrs) :=
  decidable_of_iff ((∀ a ∈ attrs, declares a.1 → LegalDeclaration a) ∧
      (bindings.inside attrs).Binds tag ∧
      (∀ a ∈ attrs, declares a.1 = false → (bindings.inside attrs).Binds a.1) ∧
      ((attrs.filter (!declares ·.1)).map fun a => (bindings.inside attrs).expandedName a.1).Nodup)
    ⟨fun ⟨hdeclared, htag, hattrs, hdistinct⟩ => ⟨hdeclared, htag, hattrs, hdistinct⟩,
      fun h => ⟨h.declared, h.tagBound, h.attrsBound, h.distinct⟩⟩

mutual

/-- Whether the comments and CDATA sections of a node hold what ends them. -/
def Node.decideWritable : (n : Node) → Decidable n.Writable
  | .element _ _ children =>
    have := decideAllWritable children
    decidable_of_iff (∀ n ∈ children, n.Writable) ⟨.element, fun | .element h => h⟩
  | .cdata data =>
    decidable_of_iff (¬ [']', ']', '>'] <:+: data.toList) ⟨.cdata, fun | .cdata h => h⟩
  | .comment data =>
    decidable_of_iff (¬ ['-', '-'] <:+: data.toList ∧ data.toList.getLast? ≠ some '-')
      ⟨fun ⟨h, hlast⟩ => .comment h hlast, fun | .comment h hlast => ⟨h, hlast⟩⟩
  | .text _ => .isTrue .text
  | .instruction _ _ => .isTrue .instruction

def decideAllWritable : (nodes : List Node) → Decidable (∀ n ∈ nodes, n.Writable)
  | [] => .isTrue (List.forall_mem_nil _)
  | n :: rest =>
    have := n.decideWritable
    have := decideAllWritable rest
    decidable_of_iff' _ List.forall_mem_cons

end

mutual

/-- Whether all names of a node are in order. -/
def Node.decideBound : (bindings : Bindings) → (n : Node) → Decidable (n.Bound bindings)
  | bindings, .element tag attrs children =>
    let attrs' := readAttrs (attrs.map Attr.parts)
    have := decideAllBound (bindings.inside attrs') children
    decidable_of_iff
      (NamesBound bindings (.ofText tag) attrs' ∧ ∀ n ∈ children, n.Bound (bindings.inside attrs'))
      ⟨fun ⟨hnames, h⟩ => .element hnames h, fun | .element hnames h => ⟨hnames, h⟩⟩
  | _, .text _ => .isTrue .text
  | _, .cdata _ => .isTrue .cdata
  | _, .comment _ => .isTrue .comment
  | _, .instruction _ _ => .isTrue .instruction

def decideAllBound (bindings : Bindings) :
    (nodes : List Node) → Decidable (∀ n ∈ nodes, n.Bound bindings)
  | [] => .isTrue (List.forall_mem_nil _)
  | n :: rest =>
    have := n.decideBound bindings
    have := decideAllBound bindings rest
    decidable_of_iff' _ List.forall_mem_cons

end

instance (n : Node) : Decidable n.Writable :=
  n.decideWritable

instance (bindings : Bindings) (n : Node) : Decidable (n.Bound bindings) :=
  n.decideBound bindings

/-! ## The pieces of a tree -/

mutual

/-- The pieces of a node. -/
def Node.pieces (layout : Layout) (level : List Char) : Node → List Piece
  | .text data => [.chars (level ++ data.toList ++ layout.newline.toList)]
  | .cdata data => [.mark (.cdata data)]
  | .comment data => [.chars level, .mark (.comment data), .chars layout.newline.toList]
  | .instruction target data =>
    [.chars level, .mark (.instruction target data), .chars layout.newline.toList]
  | .element tag attrs children =>
    let start (isEmpty : Bool) : Piece :=
      .mark (.startTag (.ofText tag) (attrs.map Attr.parts) isEmpty)
    let finish : List Piece := [.mark (.endTag (.ofText tag)), .chars layout.newline.toList]
    match children with
    | [] => [.chars level, start true, .chars layout.newline.toList]
    | [.text data] => [.chars level, start false, .chars data.toList] ++ finish
    | children =>
      [.chars level, start false, .chars layout.newline.toList]
        ++ piecesOfChildren layout (level ++ layout.indent.toList) children
        ++ .chars level :: finish

/-- The pieces of the children of an element, blank texts left out. -/
def piecesOfChildren (layout : Layout) (level : List Char) : List Node → List Piece
  | [] => []
  | n :: rest =>
    (if n.isBlank then [] else n.pieces layout level) ++ piecesOfChildren layout level rest

end

/-- The pieces of a list of nodes. -/
def piecesOfNodes (layout : Layout) (nodes : List Node) : List Piece :=
  nodes.flatMap (Node.pieces layout [])

/-- White space is written as it is. -/
theorem flatMap_escapeChar_of_isSpace {cs : List Char} (h : ∀ c ∈ cs, isSpace c) :
    cs.flatMap escapeChar = cs := by
  refine flatMap_escapeChar_of_self fun c hc => ?_
  obtain ⟨hself, -⟩ | ⟨hspace, -⟩ := escapeChar_eq c
  · exact hself
  · rw [h c hc] at hspace
    cases hspace

/-- A text is escaped character by character. -/
theorem toList_escape (s : String) : (escape s).toList = s.toList.flatMap escapeChar := by
  rw [escape, String.toList_ofList]

/-- An attribute is written with its name and its value. -/
theorem toList_write_attr (a : Attr) : a.write.toList = writeAttr a.parts := by
  simp [Attr.write, writeAttr, Attr.parts, QName.text_ofText, toList_escape]

/-- And so are several of them in a row. -/
theorem flatMap_write_attrs (attrs : List Attr) :
    (attrs.map Attr.write).flatMap String.toList = (attrs.map Attr.parts).flatMap writeAttr := by
  simp [List.flatMap, List.map_map, Function.comp_def, toList_write_attr]

mutual

/-- What a node is written as is what its pieces are written as. -/
theorem Node.write_eq {layout : Layout} (hlayout : layout.IsBlank) {level : String}
    (hlevel : ∀ c ∈ level.toList, isSpace c) :
    ∀ {n : Node}, n.Writable → n.write layout level
      = .ok (String.ofList ((n.pieces layout level.toList).flatMap Piece.write))
  | .text data, _ => by
    refine congrArg Except.ok (String.toList_inj.1 ?_)
    simp [toList_escape, Node.pieces, Piece.write]
  | .cdata data, .cdata h => by
    have hfree : occursIn "]]>".toList data.toList = false :=
      Bool.eq_false_iff.2 fun hoccurs => h ((occursIn_iff _ _).1 hoccurs)
    unfold Node.write
    rw [hfree, if_neg Bool.false_ne_true]
    refine congrArg Except.ok (String.toList_inj.1 ?_)
    simp [Node.pieces, Piece.write, Mark.write]
  | .comment data, .comment h _ => by
    have hfree : occursIn "--".toList data.toList = false :=
      Bool.eq_false_iff.2 fun hoccurs => h ((occursIn_iff _ _).1 hoccurs)
    unfold Node.write
    rw [hfree, if_neg Bool.false_ne_true]
    refine congrArg Except.ok (String.toList_inj.1 ?_)
    simp [Node.pieces, Piece.write, Mark.write, flatMap_escapeChar_of_isSpace hlevel,
      flatMap_escapeChar_of_isSpace hlayout.newline]
  | .instruction target data, _ => by
    refine congrArg Except.ok (String.toList_inj.1 ?_)
    simp [Node.pieces, Piece.write, Mark.write, flatMap_escapeChar_of_isSpace hlevel,
      flatMap_escapeChar_of_isSpace hlayout.newline]
  | .element tag attrs children, .element h => by
    have hdeeper : ∀ c ∈ (level ++ layout.indent).toList, isSpace c := by
      rw [String.toList_append]
      exact List.forall_mem_append.2 ⟨hlevel, hlayout.indent⟩
    have hchildren := writeChildren_eq hlayout hdeeper h
    unfold Node.write Node.pieces
    dsimp only
    split
    · refine congrArg Except.ok (String.toList_inj.1 ?_)
      simp [Piece.write, Mark.write, writeTagEnd, flatMap_write_attrs, QName.text_ofText,
        flatMap_escapeChar_of_isSpace hlevel, flatMap_escapeChar_of_isSpace hlayout.newline]
    · refine congrArg Except.ok (String.toList_inj.1 ?_)
      simp [Piece.write, Mark.write, writeTagEnd, flatMap_write_attrs, QName.text_ofText,
        toList_escape, flatMap_escapeChar_of_isSpace hlevel,
        flatMap_escapeChar_of_isSpace hlayout.newline]
    · rw [hchildren]
      refine congrArg Except.ok (String.toList_inj.1 ?_)
      simp [Piece.write, Mark.write, writeTagEnd, flatMap_write_attrs, QName.text_ofText,
        flatMap_escapeChar_of_isSpace hlevel, flatMap_escapeChar_of_isSpace hlayout.newline]

/-- The children of an element are written as pieces, each on a line of its own where white space
may be added. -/
theorem writeChildren_eq {layout : Layout} (hlayout : layout.IsBlank) {level : String}
    (hlevel : ∀ c ∈ level.toList, isSpace c) :
    ∀ {nodes : List Node}, (∀ n ∈ nodes, n.Writable) → writeChildren layout level nodes
      = .ok (String.ofList ((piecesOfChildren layout level.toList nodes).flatMap Piece.write))
  | [], _ => rfl
  | n :: rest, h => by
    obtain ⟨hn, hrest⟩ := List.forall_mem_cons.1 h
    have hfirst := Node.write_eq hlayout hlevel hn
    have hlater := writeChildren_eq hlayout hlevel hrest
    unfold writeChildren piecesOfChildren
    cases n.isBlank with
    | true => exact hlater
    | false =>
      rw [if_neg Bool.false_ne_true, if_neg Bool.false_ne_true, hfirst, hlater]
      refine congrArg Except.ok (String.toList_inj.1 ?_)
      simp

end

/-! ## Tags and their bindings -/

theorem inside_cons (bindings : Bindings) (a : QName × String) (attrs : List (QName × String)) :
    bindings.inside (a :: attrs) =
      (if a.1.space == some "xmlns" then (a.1.label, a.2) :: bindings else bindings :
        Bindings).inside attrs := rfl

/-- A name that declares nothing is not in the space of declarations. -/
theorem space_ne_of_declares_eq_false {name : QName} (h : declares name = false) :
    (name.space == some "xmlns") = false := by
  unfold declares at h
  exact (Bool.or_eq_false_iff.1 h).1

/-- A legal declaration binds its prefix, or the default. -/
theorem declare?_of_legal {bindings : Bindings} {a : QName × String} (hdeclares : declares a.1)
    (h : LegalDeclaration a) : bindings.declare? a.1 a.2
      = some (if a.1.space == some "xmlns" then (a.1.label, a.2) :: bindings else bindings) := by
  have hdeclarable := h.declarable
  unfold Bindings.declare?
  rcases a with ⟨⟨space, label⟩, uri⟩
  cases space with
  | none =>
    have hdeclarable : isDeclarable none uri := hdeclarable
    simp [hdeclarable]
  | some p =>
    obtain rfl : p = "xmlns" := by simpa [declares] using hdeclares
    have hdeclarable : isDeclarable (some label) uri := hdeclarable
    simp [hdeclarable]

/-- Declarations are taken in one after the other, and give the bindings inside of the element. -/
theorem foldlM_declare? {bindings : Bindings} {attrs : List (QName × String)}
    (h : ∀ a ∈ attrs, declares a.1 → LegalDeclaration a) :
    (attrs.filter (declares ·.1)).foldlM (fun b (name, uri) => b.declare? name uri) bindings
      = some (bindings.inside attrs) := by
  induction attrs generalizing bindings with
  | nil => rfl
  | cons a attrs ih =>
    obtain ⟨ha, hattrs⟩ := List.forall_mem_cons.1 h
    rw [inside_cons, List.filter_cons]
    cases hdeclares : declares a.1 with
    | true =>
      rw [if_pos rfl, List.foldlM_cons]
      show (bindings.declare? a.1 a.2).bind _ = _
      rw [declare?_of_legal hdeclares (ha hdeclares)]
      exact ih hattrs
    | false =>
      rw [if_neg Bool.false_ne_true, space_ne_of_declares_eq_false hdeclares]
      exact ih hattrs

/-- The attributes of an element as they stand in a tree that is read: declarations first. -/
def boundAttrs (attrs : List (QName × String)) : List Attr :=
  (attrs.filter (declares ·.1) ++ attrs.filter (!declares ·.1)).map fun a => attrOf a.1 a.2

/-- Attributes with names in order are bound. -/
theorem bindAttrs?_of_namesBound {bindings : Bindings} {tag : QName}
    {attrs : List (QName × String)} (h : NamesBound bindings tag attrs)
    (hdistinct : (attrs.map Prod.fst).Nodup) :
    bindAttrs? bindings tag attrs [] = some (boundAttrs attrs, bindings.inside attrs) := by
  have hbinds : ∀ {name : QName}, (bindings.inside attrs).Binds name →
      ((name.space.map fun p => ((bindings.inside attrs).lookup p).isSome).getD true) = true := by
    intro name h
    cases hspace : name.space with
    | none => rfl
    | some p => exact h p hspace
  have htag := hbinds h.tagBound
  have hattrs : (attrs.filter (!declares ·.1)).all (fun a =>
      (a.1.space.map fun p => ((bindings.inside attrs).lookup p).isSome).getD true) = true := by
    refine List.all_eq_true.2 fun a ha => ?_
    obtain ⟨ha, hdeclares⟩ := List.mem_filter.1 ha
    exact hbinds (h.attrsBound a ha (by simpa using hdeclares))
  have hexpanded := (allDistinct_iff _).2 h.distinct
  have hnames := (allDistinct_iff _).2 hdistinct
  unfold bindAttrs?
  simp only [List.append_nil]
  rw [foldlM_declare? h.declared]
  simp only [Option.bind_eq_bind, Option.bind_some]
  rw [htag, hattrs, hnames, Bool.true_and]
  unfold Bindings.expandedName at hexpanded
  rw [hexpanded]
  rfl

namespace Builder

/-- The document declares nothing, and no reference was taken in. -/
structure IsPlain (b : Builder) : Prop where
  attributes : b.doctype.attributes = []
  expanded : b.expanded = 0
  nested : b.nested = false

/-- The builder with other open elements. -/
def withStack (b : Builder) (stack : List OpenElement) : Builder :=
  { b with stack := stack }

/-- Nothing changes where the stack is put back. -/
theorem withStack_self {b : Builder} {stack : List OpenElement} (h : b.stack = stack) :
    b.withStack stack = b := by
  rw [← h]
  rfl

/-- Which elements are open does not matter for entities and weights. -/
theorem IsPlain.withStack {b : Builder} (h : b.IsPlain) (stack : List OpenElement) :
    (b.withStack stack).IsPlain :=
  ⟨h.attributes, h.expanded, h.nested⟩

/-- Where no entity is referred to none is counted. -/
theorem expand?_nil {b : Builder} (h : b.IsPlain) : b.expand? [] = some b := by
  have hexcess : isExcessive b.written 0 = false := by
    unfold isExcessive excessThreshold excessFactor
    rw [Bool.and_eq_false_iff, decide_eq_false_iff_not, decide_eq_false_iff_not]
    omega
  obtain ⟨before, stack, root, after, doctype, weights, written, expanded, nested⟩ := b
  obtain ⟨-, rfl : expanded = 0, rfl : nested = false⟩ := h
  have hexcess : isExcessive written 0 = false := hexcess
  unfold expand? weightOf
  simp [hexcess]

/-- Values that were written refer to no entities, since their characters are escaped. -/
theorem referencesOf_rawAttrOf (attrs : List (QName × String)) :
    referencesOf (attrs.map rawAttrOf) = [] := by
  unfold referencesOf
  rw [List.flatMap_map, List.flatMap_eq_nil_iff]
  intro a _
  unfold rawAttrOf piecesOfValue
  dsimp only
  split <;> rfl

/-- They stand for themselves, with blanks for white space. -/
theorem value?_piecesOfValue (d : Doctype) (cs : List Char) :
    d.value? false (piecesOfValue cs) = some (String.ofList (cs.map blankOf)) := by
  unfold Doctype.value? Doctype.entityDepth piecesOfValue
  cases cs with
  | nil => rfl
  | cons c cs =>
    simp [expandValue?]

/-- The attributes of a tag as they are read back, where the document declares nothing. -/
theorem mapM_attrValue? {b : Builder} (h : b.IsPlain) (tag : QName)
    (attrs : List (QName × String)) :
    ((attrs.map fun a => (a.1, withLineFeeds a.2)).map rawAttrOf).mapM (b.attrValue? tag)
      = some (readAttrs attrs) := by
  have hvalue (a : QName × String) :
      b.attrValue? tag (rawAttrOf (a.1, withLineFeeds a.2)) = some (a.1, readValue a.2) := by
    have hwords : b.doctype.isTokenized tag.text (rawAttrOf (a.1, withLineFeeds a.2)).name
        = false := by
      unfold Doctype.isTokenized Doctype.rulesOf
      rw [h.attributes]
      rfl
    unfold attrValue?
    rw [hwords]
    show ((b.doctype.value? false (piecesOfValue _)).bind _) = _
    rw [value?_piecesOfValue]
    rfl
  induction attrs with
  | nil => rfl
  | cons a attrs ih =>
    rw [List.map_cons, List.map_cons, List.mapM_cons, ih, hvalue]
    rfl

/-- An element whose start tag was read where prefixes are bound outside of it. -/
def opened (bindings : Bindings) (tag : QName) (attrs : List (QName × String)) : OpenElement :=
  ⟨tag, boundAttrs (readAttrs attrs), [], bindings.inside (readAttrs attrs)⟩

/-- A tag with names in order is read. -/
theorem openElement?_of_namesBound {b : Builder} (h : b.IsPlain)
    (hfirst : b.stack = [] → b.root = none) {tag : QName} {attrs : List (QName × String)}
    (hnames : NamesBound b.bindings tag (readAttrs attrs)) (hdistinct : (attrs.map Prod.fst).Nodup) :
    b.openElement? tag ((attrs.map fun a => (a.1, withLineFeeds a.2)).map rawAttrOf)
      = some (b.withStack (opened b.bindings tag attrs :: b.stack)) := by
  have hread : ((readAttrs attrs).map Prod.fst).Nodup := by
    unfold readAttrs
    rw [List.map_map]
    exact hdistinct
  have hguard : (!(b.stack.isEmpty && b.root.isSome)) = true := by
    cases hstack : b.stack with
    | nil => rw [hfirst hstack]; rfl
    | cons => rfl
  have himplied (attrs : List RawAttr) : b.implied tag attrs = [] := by
    unfold implied Doctype.rulesOf
    rw [h.attributes]
    rfl
  unfold openElement?
  rw [hguard, referencesOf_rawAttrOf, expand?_nil h]
  show ((List.mapM (b.attrValue? tag) _).bind _) = _
  rw [mapM_attrValue? h]
  show ((bindAttrs? b.bindings tag (readAttrs attrs) (b.implied tag _)).bind _) = _
  rw [himplied, bindAttrs?_of_namesBound hnames hread]
  rfl

/-- A start tag with names in order is taken in. -/
theorem feed_startTag {b : Builder} (h : b.IsPlain) (hfirst : b.stack = [] → b.root = none)
    {tag : QName} {attrs : List (QName × String)}
    (hnames : NamesBound b.bindings tag (readAttrs attrs)) (hdistinct : (attrs.map Prod.fst).Nodup)
    (isEmpty : Bool) :
    b.feed (Mark.startTag tag attrs isEmpty).withLineFeeds.token =
      if isEmpty then (b.withStack (opened b.bindings tag attrs :: b.stack)).closeElement? tag
      else some (b.withStack (opened b.bindings tag attrs :: b.stack)) := by
  show (b.openElement? tag _).bind _ = _
  rw [openElement?_of_namesBound h hfirst hnames hdistinct]
  rfl

/-- Inside of another element, an element ends with its tag. -/
theorem closeElement?_inner (b : Builder) {e parent : OpenElement} {outer : List OpenElement} :
    (b.withStack (e :: parent :: outer)).closeElement? e.name =
      some (b.withStack
        ({ parent with children := e.close.node :: parent.children } :: outer)) := by
  unfold closeElement? withStack
  simp

end Builder

/-! ## What stands in an element -/

/-- What an element holds of which the start was read: its children in reverse, and the characters
behind them that are pending. -/
structure Content where
  children : List Node
  pending : List Char

namespace Content

/-- The children of the element once the characters that are pending are taken in. -/
def flush (c : Content) : List Node :=
  addChars (String.ofList (normalizeLines c.pending)) c.children

/-- The content with characters behind it. -/
def chars (cs : List Char) (c : Content) : Content :=
  { c with pending := c.pending ++ cs }

/-- The content with a node behind it. -/
def add (n : Node) (c : Content) : Content :=
  ⟨n :: c.flush, []⟩

end Content

mutual

/-- What is read of a node that was written in an element with this content. -/
def Node.reread (layout : Layout) (level : List Char) : Node → Content → Content
  | .text data, c => c.chars (level ++ data.toList ++ layout.newline.toList)
  | .cdata data, c =>
    if withLineFeeds data == "" then ⟨c.flush, []⟩ else c.add (.cdata (withLineFeeds data))
  | .comment data, c =>
    ((c.chars level).add (.comment (withLineFeeds data))).chars layout.newline.toList
  | .instruction target data, c =>
    ((c.chars level).add (.instruction target (withLineFeeds data))).chars layout.newline.toList
  | .element tag attrs children, c =>
    let inner : Content :=
      match children with
      | [] => ⟨[], []⟩
      | [.text data] => ⟨[], data.toList⟩
      | children =>
        (rereadChildren layout (level ++ layout.indent.toList) children
          ⟨[], layout.newline.toList⟩).chars level
    ((c.chars level).add (.element tag (boundAttrs (readAttrs (attrs.map Attr.parts)))
      inner.flush.reverse)).chars layout.newline.toList

/-- What is read of the children of an element, behind this content. -/
def rereadChildren (layout : Layout) (level : List Char) : List Node → Content → Content
  | [], c => c
  | n :: rest, c =>
    rereadChildren layout level rest (if n.isBlank then c else n.reread layout level c)

end

/-- What is read between the tags of an element. -/
def rereadInside (layout : Layout) (level : List Char) : List Node → Content
  | [] => ⟨[], []⟩
  | [.text data] => ⟨[], data.toList⟩
  | children =>
    (rereadChildren layout (level ++ layout.indent.toList) children
      ⟨[], layout.newline.toList⟩).chars level

/-- What an element is read back as. -/
def Element.reread (layout : Layout) (level : List Char) (e : Element) : Element :=
  ⟨e.tag, boundAttrs (Markup.readAttrs (e.attrs.map Attr.parts)),
    (rereadInside layout level e.children).flush.reverse⟩

/-- An element is read back behind the text before it, and the white space of a line. -/
theorem Element.reread_node (layout : Layout) (level : List Char) (e : Element) (c : Content) :
    e.node.reread layout level c =
      ((c.chars level).add (e.reread layout level).node).chars layout.newline.toList := by
  unfold Element.reread Element.node Node.reread rereadInside
  rfl

/-! ## Pieces inside of an element -/

/-- Inside of an element with these bindings the pieces are read, and change its content. -/
structure Absorbed (bindings : Bindings) (ps : List Piece) (f : Content → Content) : Prop where
  read : ∀ {b : Builder} {e : OpenElement} {outer : List OpenElement} (pending : List Char)
    (rest : List Piece), b.IsPlain → b.stack = e :: outer → e.bindings = bindings →
    let after := f ⟨e.children, pending⟩
    b.readPieces pending (ps ++ rest) =
      (b.withStack ({ e with children := after.children } :: outer)).readPieces after.pending rest

namespace Absorbed

variable {bindings : Bindings} {ps qs : List Piece} {f g : Content → Content}

theorem nil : Absorbed bindings [] id := by
  refine ⟨fun {b e outer} pending rest _ hstack _ => ?_⟩
  show _ = (b.withStack (e :: outer)).readPieces pending rest
  rw [Builder.withStack_self hstack]
  rfl

/-- What two rows of pieces give, the first and then the second, they give in one row. -/
theorem append (hps : Absorbed bindings ps f) (hqs : Absorbed bindings qs g) :
    Absorbed bindings (ps ++ qs) (g ∘ f) := by
  refine ⟨fun {b e outer} pending rest hplain hstack hbindings => ?_⟩
  have h₁ := hps.read pending (qs ++ rest) hplain hstack hbindings
  let e' : OpenElement := { e with children := (f ⟨e.children, pending⟩).children }
  have h₂ := hqs.read (e := e') (f ⟨e.children, pending⟩).pending rest
    (hplain.withStack (e' :: outer)) rfl hbindings
  rw [List.append_assoc]
  exact h₁.trans h₂

/-- Characters wait until it is known what stands behind them. -/
theorem chars (cs : List Char) : Absorbed bindings [.chars cs] (Content.chars cs) := by
  refine ⟨fun {b e outer} pending rest _ hstack _ => ?_⟩
  show _ = (b.withStack (e :: outer)).readPieces (pending ++ cs) rest
  rw [Builder.withStack_self hstack]
  rfl

/-- A mark that changes the children is read where the characters before it end. -/
theorem of_feed {m : Mark} {f : List Node → List Node}
    (h : ∀ {b : Builder} {e : OpenElement} {outer : List OpenElement},
      b.IsPlain → b.stack = e :: outer → e.bindings = bindings →
      b.feed m.withLineFeeds.token =
        some (b.withStack ({ e with children := f e.children } :: outer))) :
    Absorbed bindings [.mark m] fun c => ⟨f c.flush, []⟩ := by
  refine ⟨fun {b e outer} pending rest hplain hstack hbindings => ?_⟩
  let e' : OpenElement := { e with
    children := addChars (String.ofList (normalizeLines pending)) e.children }
  have hfeed := h (hplain.withStack (e' :: outer)) rfl hbindings
  show (b.flush (normalizeLines pending)).bind (fun b =>
    (b.feed m.withLineFeeds.token).bind (·.readPieces [] rest)) = _
  rw [Builder.flush_of_stack hstack, Option.bind_some]
  exact congrArg (Option.bind · (·.readPieces [] rest)) hfeed

/-- A CDATA section is read back as it is, with line ends in order, or not at all if it is empty. -/
theorem cdata (layout : Layout) (level : List Char) (data : String) :
    Absorbed bindings [.mark (.cdata data)] ((Node.cdata data).reread layout level) := by
  let taken (children : List Node) : List Node :=
    if withLineFeeds data == "" then children else .cdata (withLineFeeds data) :: children
  have hcontent : (Node.cdata data).reread layout level = fun c => ⟨taken c.flush, []⟩ := by
    funext c
    simp only [taken]
    unfold Node.reread
    split <;> rfl
  rw [hcontent]
  refine of_feed (m := .cdata data) (f := taken) fun {b e outer} _ hstack _ => ?_
  show b.addCdata? _ = _
  unfold Builder.addCdata?
  rw [hstack]
  simp only [taken]
  split
  · rw [Builder.withStack_self hstack]
  · rfl

/-- A comment is read back behind the text before it. -/
theorem comment (data : String) :
    Absorbed bindings [.mark (.comment data)] (Content.add (.comment (withLineFeeds data))) := by
  refine of_feed (f := (.comment (withLineFeeds data) :: ·)) fun {b e outer} _ hstack _ => ?_
  show some (b.addMisc _) = _
  unfold Builder.addMisc
  rw [hstack]
  rfl

/-- And so is an instruction. -/
theorem instruction (target data : String) :
    Absorbed bindings [.mark (.instruction target data)]
      (Content.add (.instruction target (withLineFeeds data))) := by
  refine of_feed (f := (.instruction target (withLineFeeds data) :: ·))
    fun {b e outer} _ hstack _ => ?_
  show some (b.addMisc _) = _
  unfold Builder.addMisc
  rw [hstack]
  rfl

section
variable {tag : QName} {attrs : List (QName × String)}
  (hnames : NamesBound bindings tag (readAttrs attrs)) (hdistinct : (attrs.map Prod.fst).Nodup)

include hnames hdistinct

/-- A start tag opens an element with the bindings inside of it, and closes it at once where it is
empty. -/
theorem feed_startTag {b : Builder} {e : OpenElement} {outer : List OpenElement}
    (hplain : b.IsPlain) (hstack : b.stack = e :: outer) (hbindings : e.bindings = bindings)
    (isEmpty : Bool) :
    b.feed (Mark.startTag tag attrs isEmpty).withLineFeeds.token =
      if isEmpty then
        (b.withStack (Builder.opened bindings tag attrs :: e :: outer)).closeElement? tag
      else some (b.withStack (Builder.opened bindings tag attrs :: e :: outer)) := by
  have hinside : b.bindings = bindings := by
    unfold Builder.bindings
    rw [hstack]
    exact hbindings
  have hfeed := Builder.feed_startTag hplain (fun h => by cases hstack.symm.trans h)
    (hinside.symm ▸ hnames) hdistinct isEmpty
  rwa [hstack, hinside] at hfeed

/-- So an empty element is read back without children. -/
theorem emptyElement : Absorbed bindings [.mark (.startTag tag attrs true)]
    (Content.add (.element tag.text (boundAttrs (readAttrs attrs)) [])) := by
  refine of_feed (f := (_ :: ·)) fun {b e outer} hplain hstack hbindings => ?_
  exact (feed_startTag hnames hdistinct hplain hstack hbindings true).trans b.closeElement?_inner

/-- What an element holds is read inside of it, up to its end tag. -/
theorem element (hps : Absorbed (bindings.inside (readAttrs attrs)) ps f) :
    Absorbed bindings (.mark (.startTag tag attrs false) :: ps ++ [.mark (.endTag tag)])
      (Content.add (.element tag.text (boundAttrs (readAttrs attrs))
        (f ⟨[], []⟩).flush.reverse)) := by
  refine ⟨fun {b e outer} pending rest hplain hstack hbindings => ?_⟩
  -- The element is opened behind the characters that are pending.
  let parent : OpenElement := { e with
    children := addChars (String.ofList (normalizeLines pending)) e.children }
  let inner := Builder.opened bindings tag attrs
  have hopen := feed_startTag hnames hdistinct (hplain.withStack (parent :: outer)) rfl hbindings false
  have hread := hps.read [] (.mark (.endTag tag) :: rest)
    (hplain.withStack (inner :: parent :: outer)) rfl rfl
  let filled : OpenElement := { inner with children := (f ⟨[], []⟩).flush }
  have hclose : (b.withStack (filled :: parent :: outer)).feed (.endTag tag) =
      some (b.withStack ({ parent with children := filled.close.node :: parent.children } ::
        outer)) :=
    b.closeElement?_inner
  show (b.flush (normalizeLines pending)).bind (fun b =>
    (b.feed (Mark.startTag tag attrs false).withLineFeeds.token).bind
      (·.readPieces [] ((ps ++ [.mark (.endTag tag)]) ++ rest))) = _
  rw [Builder.flush_of_stack hstack, Option.bind_some]
  refine (congrArg (Option.bind · _) hopen).trans ?_
  rw [List.append_assoc]
  refine hread.trans ?_
  show (Builder.flush _ (normalizeLines (f ⟨[], []⟩).pending)).bind (fun b =>
    (b.feed (.endTag tag)).bind (·.readPieces [] rest)) = _
  rw [Builder.flush_of_stack rfl, Option.bind_some]
  exact congrArg (Option.bind · (·.readPieces [] rest)) hclose

end

end Absorbed

/-- The names of attributes tell their parts. -/
theorem nodup_parts {attrs : List Attr} (h : (attrs.map Attr.name).Nodup) :
    ((attrs.map Attr.parts).map Prod.fst).Nodup := by
  rw [List.map_map]
  have hparts : (Prod.fst ∘ Attr.parts : Attr → QName) = QName.ofText ∘ Attr.name := rfl
  rw [hparts, ← List.map_map]
  exact List.Pairwise.map _ (fun _ _ hne heq => hne (QName.ofText_injective heq)) h

/-- An element is written as an empty tag, or as two tags with pieces between them that are read
inside of it if its children are. -/
theorem pieces_element {layout : Layout} {level : List Char} {bindings : Bindings} (tag : String)
    (attrs : List Attr) {children : List Node}
    (h : Absorbed bindings (piecesOfChildren layout (level ++ layout.indent.toList) children)
      (rereadChildren layout (level ++ layout.indent.toList) children)) :
    let start (isEmpty : Bool) : Piece :=
      .mark (.startTag (.ofText tag) (attrs.map Attr.parts) isEmpty)
    (children = [] ∧ (Node.element tag attrs children).pieces layout level =
        [.chars level, start true, .chars layout.newline.toList]) ∨
      ∃ inner f, Absorbed bindings inner f ∧ f ⟨[], []⟩ = rereadInside layout level children ∧
        (Node.element tag attrs children).pieces layout level = .chars level :: start false :: inner
          ++ [.mark (.endTag (.ofText tag)), .chars layout.newline.toList] := by
  unfold Node.pieces rereadInside
  dsimp only
  split
  · exact .inl ⟨rfl, rfl⟩
  · exact .inr ⟨_, _, .chars _, rfl, rfl⟩
  · refine .inr ⟨_, _, ((Absorbed.chars layout.newline.toList).append h).append (.chars level), ?_, ?_⟩
    · rfl
    · simp

mutual

/-- A node that is in order is read inside of an element. -/
theorem absorbed_pieces (layout : Layout) (level : List Char) :
    ∀ {n : Node} {bindings : Bindings}, n.Legal → n.Bound bindings →
      Absorbed bindings (n.pieces layout level) (n.reread layout level)
  | .text _, _, _, _ => .chars _
  | .cdata data, _, _, _ => .cdata layout level data
  | .comment data, _, _, _ => ((Absorbed.chars level).append (.comment data)).append (.chars _)
  | .instruction target data, _, _, _ =>
    ((Absorbed.chars level).append (.instruction target data)).append (.chars _)
  | .element tag attrs children, bindings, .element _ _ hnames hlegal, .element hbound hchildren => by
    have hdistinct := nodup_parts hnames.distinct
    have hchildren :=
      absorbed_piecesOfChildren layout (level ++ layout.indent.toList) hlegal hchildren
    let e : Element := ⟨tag, attrs, children⟩
    have hreread : e.node.reread layout level = Content.chars layout.newline.toList ∘
        Content.add (e.reread layout level).node ∘ Content.chars level :=
      funext (e.reread_node layout level)
    show Absorbed bindings (e.node.pieces layout level) (e.node.reread layout level)
    rw [hreread]
    obtain ⟨rfl, hpieces⟩ | ⟨inner, f, hinner, hinside, hpieces⟩ := pieces_element tag attrs
      hchildren
    · have helement := ((Absorbed.chars level).append (.emptyElement hbound hdistinct)).append
        (.chars layout.newline.toList)
      rw [QName.text_ofText] at helement
      exact hpieces ▸ helement
    · have helement := ((Absorbed.chars level).append (.element hbound hdistinct hinner)).append
        (.chars layout.newline.toList)
      rw [QName.text_ofText, hinside] at helement
      have hrow : e.node.pieces layout level = _ := hpieces
      rw [hrow]
      simpa [e, Element.reread, Element.node] using helement

/-- Nodes in a row are read back in turn, each in the bindings of the element that they stand in. -/
theorem absorbed_piecesOfChildren (layout : Layout) (level : List Char) :
    ∀ {nodes : List Node} {bindings : Bindings}, (∀ n ∈ nodes, n.Legal) →
      (∀ n ∈ nodes, n.Bound bindings) →
      Absorbed bindings (piecesOfChildren layout level nodes) (rereadChildren layout level nodes)
  | [], _, _, _ => .nil
  | n :: rest, _, hlegal, hbound => by
    obtain ⟨hn, hrest⟩ := List.forall_mem_cons.1 hlegal
    obtain ⟨hn', hrest'⟩ := List.forall_mem_cons.1 hbound
    refine Absorbed.append ?_ (absorbed_piecesOfChildren layout level hrest hrest')
    split
    · exact .nil
    · exact absorbed_pieces layout level hn hn'

end

end XmlMacros.Markup
