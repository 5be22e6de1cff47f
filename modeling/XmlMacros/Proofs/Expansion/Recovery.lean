import XmlMacros.Proofs.Expansion.Output
import XmlMacros.Proofs.Markup.Recovery

/-!
# Printed trees are recovered

Whatever is read or expanded, and every element in it, is legal apart from the characters of its
texts (`Obtained.legalOver`), no matter what the run was given. So printing loses nothing but blank
texts of it (`Obtained.isRecovered`) if its texts are such that reading does not change them and its
names are in order.

That its prefixes are bound is not enough. What declarations of namespaces evaluate to is not looked
at any more: two prefixes may come to mean the same, or one no namespace. Then what is printed is
not read. A document type may declare a prefix that is no name, which is not read either where it is
given. And the default namespace that is evaluated to nothing is read back as one that is taken
back, without a value. `not_isRecovered` has a document for each of these.
-/

namespace XmlMacros

open XmlMacros.Markup XmlMacros.Expansion

/-- Elements there may be to print: the roots of documents as they were read or as they were
expanded, whatever the runs were given, and the elements in them. -/
inductive Obtained : Element → Prop
  | read {text : String} {d : Document} (h : Markup.read text = .ok d) : Obtained d.root
  | expanded [Limits] {c : Config} {custom : Commands} {surroundings : Surroundings}
    {fetch : String → Except FetchFailure String} {filename : Option String} {console : Console}
    {text : String} {d : Document}
    (h : (expand c custom surroundings fetch filename console text).result = .ok d) :
    Obtained d.root
  | child {e child : Element} (h : Obtained e) (hchild : child.node ∈ e.children) : Obtained child

theorem Obtained.legalOver {e : Element} (h : Obtained e) : e.node.LegalOver fun _ => True := by
  induction h with
  | read hread =>
    exact ((Document.forall_nodes_iff.1 (legal_of_read hread)).2.1).mono fun _ _ => trivial
  | @expanded _ c _ _ _ filename _ _ _ hrun =>
    exact (Document.forall_nodes_iff.1 (expand_legalOver (Environment.keepsTexts_any _)
      (c.start_legalOver_any filename) hrun)).2.1
  | child _ hchild ih => exact Element.legal_children ih _ hchild

/-- An element that was read or expanded is printed, and what is printed is read as the same element
up to blank texts, if every element in it holds a single text or no text but blank ones, its texts
are read as they are written, comments and CDATA sections are told from what ends them, and its
names are in order. -/
theorem Obtained.isRecovered {e : Element} (h : Obtained e) {layout : Layout}
    (hlayout : layout.IsBlank) {level : String} (hlevel : ∀ c ∈ level.toList, isSpace c)
    (hexact : ∀ e' ∈ elementsIn [e.node], e'.Exact) (hwritable : e.node.Writable)
    (hbound : e.node.Bound Bindings.initial)
    (hdefault : ∀ e' ∈ elementsIn [e.node], ⟨"xmlns", some ""⟩ ∉ e'.attrs) :
    e.IsRecovered layout level :=
  e.recovered_of_legal hlayout hlevel h.legalOver
    (fun e' he' => ⟨hexact e' he', hdefault e' he'⟩) hwritable hbound

/-- Spans in texts of every sort, in lines with white space around them. -/
theorem isRecovered_evaluated :
    let text := "<p:a xmlns:p='u'><b c=\"$\x7b'>'\x7d\"> $\x7b1 + 1\x7d </b>
      <!--$\x7b'-'\x7d.--><![CDATA[$\x7b'<'\x7d]]> <d p:f='' f=''/><?g h?></p:a>"
    prettyLayout.IsBlank ∧ (∀ c ∈ "\t".toList, isSpace c) ∧ ∃ d, expandAlone text = .ok d ∧
      Obtained d.root ∧ ((∀ e ∈ elementsIn [d.root.node], e.Exact) ∧ d.root.node.Writable ∧
        d.root.node.Bound Bindings.initial ∧
        ∀ e ∈ elementsIn [d.root.node], ⟨"xmlns", some ""⟩ ∉ e.attrs) ∧
      d.root.IsRecovered prettyLayout "\t" := by
  let _ := Limits.usual
  intro text
  have hlayout : prettyLayout.IsBlank :=
    ⟨List.all_eq_true.1 (by decide), List.all_eq_true.1 (by decide)⟩
  have hlevel : ∀ c ∈ "\t".toList, isSpace c := List.all_eq_true.1 (by decide)
  obtain ⟨d, hrun, hexact, hwritable, hbound, hdefault⟩ : ∃ d, expandAlone text = .ok d ∧
      (∀ e ∈ elementsIn [d.root.node], e.Exact) ∧ d.root.node.Writable ∧
      d.root.node.Bound Bindings.initial ∧
      ∀ e ∈ elementsIn [d.root.node], ⟨"xmlns", some ""⟩ ∉ e.attrs :=
    exists_output (by decide +kernel)
  have hobtained : Obtained d.root := .expanded hrun
  exact ⟨hlayout, hlevel, d, hrun, hobtained, ⟨hexact, hwritable, hbound, hdefault⟩,
    hobtained.isRecovered hlayout hlevel hexact hwritable hbound hdefault⟩

/-! ## Names out of order -/

mutual

/-- Whether all prefixes in a node are bound, in it or outside of it. -/
def bindsPrefixes (bindings : Bindings) : Node → Bool
  | .element tag attrs children =>
    let inner := bindings.inside (attrs.map Attr.parts)
    let names := attrs.map fun a => QName.ofText a.name
    (QName.ofText tag :: names.filter (!declares ·)).all (inner.Binds ·) &&
      allBindPrefixes inner children
  | _ => true

/-- Whether all prefixes in nodes are bound, in them or outside of them. -/
def allBindPrefixes (bindings : Bindings) : List Node → Bool
  | [] => true
  | n :: rest => bindsPrefixes bindings n && allBindPrefixes bindings rest

end

/-- What is recovered is read, and its root has the attributes that were printed. -/
theorem attrs_of_isRecovered {layout : Layout} {level : String} {e : Element}
    (h : e.IsRecovered layout level) : (e.node.write layout level).toOption.any fun text =>
      (read text).toOption.any fun d => d.root.attrs = e.attrs := by
  obtain ⟨text, root, hwrite, hread, hsame, -⟩ := h
  have hattrs : e.attrs = root.attrs := by
    simp only [Element.node, Node.withoutBlanks, Node.element.injEq] at hsame
    exact hsame.2.1
  rw [hwrite]
  show ((read text).toOption.any fun d => d.root.attrs = e.attrs) = true
  rw [hread, hattrs]
  exact decide_eq_true rfl

/-- The text expands to an element that is not recovered, though its texts are read as they are
written and all its prefixes are bound. -/
def ExpandsLossy (text : String) : Prop :=
  ∃ d, expandAlone text = .ok d ∧ ((∀ e ∈ elementsIn [d.root.node], e.Exact) ∧
    d.root.node.Writable ∧ bindsPrefixes Bindings.initial d.root.node) ∧
    ¬ d.root.IsRecovered prettyLayout ""

/-- What can be tried out on an output that is not recovered. -/
theorem expandsLossy_of_attrs {text : String} (h : (expandAlone text).toOption.any fun d : Document =>
      decide (((∀ e ∈ elementsIn [d.root.node], e.Exact) ∧ d.root.node.Writable ∧
        bindsPrefixes Bindings.initial d.root.node) ∧
      ¬ (d.root.node.write prettyLayout "").toOption.any fun written =>
        (read written).toOption.any fun d' => decide (d'.root.attrs = d.root.attrs))) : ExpandsLossy text := by
  obtain ⟨d, hrun, hclaimed, hlost⟩ := exists_output h
  exact ⟨d, hrun, hclaimed, fun hrecovered => hlost (attrs_of_isRecovered hrecovered)⟩

/-- Not every tree is recovered of which all prefixes are bound: two attributes may have come to
have one name in one namespace, a prefix may have come to be declared as no namespace, what is
declared may be no name, and the default namespace may have come to be nothing. -/
theorem not_isRecovered :
    ExpandsLossy "<r xmlns:a=\"$\x7b'u'\x7d\" xmlns:b='u'><e a:x='1' b:x='2'/></r>" ∧
    ExpandsLossy "<r xmlns:a=\"$\x7b''\x7d\"/>" ∧
    ExpandsLossy "<!DOCTYPE r [<!ATTLIST r xmlns:1a CDATA 'u'>]><r/>" ∧
    ExpandsLossy "<r xmlns=\"$\x7b''\x7d\"/>" := by
  refine ⟨?_, ?_, ?_, ?_⟩ <;> exact expandsLossy_of_attrs (by decide +kernel)

end XmlMacros
