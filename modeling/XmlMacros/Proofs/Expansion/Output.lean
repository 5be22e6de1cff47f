import XmlMacros.Config
import XmlMacros.Proofs.Expansion.Legality
import XmlMacros.Proofs.Markup.Roundtrip

/-!
# Expanded documents are read back

What a document expands to is legal (`expand_legal`), so it is written and read back if its comments
and CDATA sections are told apart from what ends them, and its names are in order
(`expand_rereadable`).

Both are asked of the output because they do not follow from the input. The data of comments and
CDATA sections is evaluated like any other text, and nothing looks at what comes out; whoever writes
the document refuses it then, or the comment runs into its end. So are the namespaces that prefixes
are bound to, and declarations are dropped with the directives that hold them, and that of the
prefix of directives from the root, whether the prefix is still used or not. `not_expand_rereadable`
has documents for each of these.
-/

namespace XmlMacros

open XmlMacros.Markup

/-! ## Characters that are kept to -/

/-- What a text expands to is legal, with texts over the characters that the run keeps to. -/
theorem expand_legalOver [Limits] {p : Char → Prop} {c : Config} {custom : Commands}
    {surroundings : Surroundings} {fetch : String → Except Expansion.FetchFailure String}
    {filename : Option String} {console : Console} {text : String} {d : Document}
    (henv : (c.environment custom surroundings fetch).KeepsTexts p)
    (hstart : ∀ console, (c.start filename console).LegalOver p)
    (hrun : (expand c custom surroundings fetch filename console text).result = .ok d) :
    d.LegalOver p := by
  unfold expand at hrun
  cases hread : Markup.read text with
  | error e =>
    rw [hread] at hrun
    cases hrun
  | ok source =>
    rw [hread] at hrun
    have hsource : source.LegalOver p := fun n hn => (legal_of_read hread n hn).mono henv.document
    have hexpanded := Expansion.expandDocument_legal henv Expansion.depthLimit c.inOrder.isTruthy
      hsource
    exact (hexpanded _ _ _ (hstart _) rfl).2 d hrun

/-- Whatever a run starts with is made of characters. -/
theorem Config.start_legalOver_any (c : Config) (filename : Option String) (console : Console) :
    (c.start filename console).LegalOver fun _ => True where
  scopes := List.forall_mem_singleton.2 (Expansion.initialTable_legal fun _ _ => trivial)
  macros := .empty
  args _ _ _ _ _ := trivial
  files _ _ _ _ := trivial
  filename _ _ _ _ := trivial
  workingPath _ _ _ _ := trivial
  preloaded := .empty

/-! ## What runs are given -/

/-- Whatever a run is given besides documents may stand in documents: what the commands give that it
brings along, its surroundings, the substitution arguments, the name of the document and where
relative names of files start. -/
structure LegalInputs (c : Config) (custom : Commands) (surroundings : Surroundings)
    (filename : Option String) : Prop where
  commands : custom.All Command.Legal
  surroundings : surroundings.Legal
  mappings : c.mappings.All IsDocumentText
  workingPath : ∀ path, c.workingPath.text? = some path → IsDocumentText path
  filename : ∀ path, filename = some path → IsDocumentText path

section
variable {c : Config} {custom : Commands} {surroundings : Surroundings} {filename : Option String}
  (h : LegalInputs c custom surroundings filename)

include h

/-- From legal inputs the environment of the expansion is legal. -/
theorem LegalInputs.environment [Limits]
    (fetch : String → Except Expansion.FetchFailure String) :
    (c.environment custom surroundings fetch).Legal where
  commands := by
    refine Dict.All.update (Dict.All.ofList fun entry hentry => ?_) h.commands
    simp only [List.mem_cons, List.not_mem_nil, or_false] at hentry
    obtain rfl | rfl | rfl | rfl | rfl | rfl := hentry <;> exact fun _ => nofun
  surroundings := h.surroundings

theorem LegalInputs.start (console : Console) :
    (c.start filename console).LegalOver (isDocumentChar ·) where
  scopes := List.forall_mem_singleton.2 (Expansion.initialTable_legal fun _ h => h)
  macros := .empty
  args := h.mappings
  files path hpath := h.filename path (List.mem_singleton.1 hpath).symm
  filename := h.filename
  workingPath path hpath := by
    unfold Config.start at hpath
    dsimp only at hpath
    split at hpath
    · next text htext =>
      cases hpath
      exact h.workingPath path htext
    · cases hpath
  preloaded := .empty

/-! ## Outputs -/

variable [Limits] {fetch : String → Except Expansion.FetchFailure String} {console : Console}
  {text : String} {d : Document}
  (hrun : (expand c custom surroundings fetch filename console text).result = .ok d)

include hrun

/-- Whatever a text expands to is legal. -/
theorem expand_legal : d.Legal :=
  expand_legalOver (h.environment fetch).keepsTexts h.start hrun

/-- What a text expands to is written and read back, with white space added or without, if no
comment holds two hyphens or ends in one, no CDATA section holds its own end, and its names are in
order. -/
theorem expand_rereadable {layout : Layout} (hlayout : layout.IsBlank) (hwritable : d.Writable)
    (hbound : d.Bound) : d.Rereadable layout :=
  rereadable_of_legal hlayout (expand_legal h hrun) hwritable hbound

end

/-! ## Runs without surroundings -/

/-- The configuration with no option given. -/
def Config.standard : Config where
  inOrder := .bool true
  localProperties := .bool true
  requirePrefix := .bool true
  workingPath := .text ""
  commands := .table []
  mappings := Dict.empty
  verbosity := .int 1

/-- Expands a text for itself. -/
def expandAlone (text : String) : Except Expansion.Abort Document :=
  letI := Limits.usual
  (expand .standard ∅ ⟨∅, ∅, "/"⟩ (fun _ => .error ⟨"no such file"⟩) none .fresh text).result

theorem legalInputs_alone : LegalInputs .standard ∅ ⟨∅, ∅, "/"⟩ none where
  commands := .empty
  surroundings := ⟨.empty, .empty, by decide⟩
  mappings := .empty
  workingPath := by
    rintro _ ⟨⟩
    decide
  filename := nofun

/-- The layout with two spaces for each level. -/
def prettyLayout : Layout := ⟨"  ", "\n"⟩

/-- What can be tried out on an output. -/
theorem exists_output {text : String} {P : Document → Prop} [DecidablePred P]
    (h : (expandAlone text).toOption.any fun d => P d) : ∃ d, expandAlone text = .ok d ∧ P d := by
  cases hrun : expandAlone text with
  | error abort =>
    rw [hrun] at h
    cases h
  | ok d =>
    rw [hrun] at h
    exact ⟨d, rfl, of_decide_eq_true h⟩

/-- Spans in a comment and in an attribute, whose prefix is declared at the root. -/
theorem expand_rereadable_evaluated :
    let text := "<p:a xmlns:p='u'><!--$\x7b'-'\x7db--><c p:d=\"$\x7b'>'\x7d\"/></p:a>"
    LegalInputs .standard ∅ ⟨∅, ∅, "/"⟩ none ∧ prettyLayout.IsBlank ∧
      ∃ d, expandAlone text = .ok d ∧ (d.Writable ∧ d.Bound) ∧ d.Rereadable prettyLayout := by
  let _ := Limits.usual
  intro text
  have hlayout : prettyLayout.IsBlank :=
    ⟨List.all_eq_true.1 (by decide), List.all_eq_true.1 (by decide)⟩
  obtain ⟨d, hrun, hwritable, hbound⟩ : ∃ d, expandAlone text = .ok d ∧ d.Writable ∧ d.Bound :=
    exists_output (by decide +kernel)
  exact ⟨legalInputs_alone, hlayout, d, hrun, ⟨hwritable, hbound⟩,
    expand_rereadable legalInputs_alone hrun hlayout hwritable hbound⟩

/-- The text expands to a document that is not written and read back. -/
def ExpandsUnreadable (text : String) : Prop :=
  ∃ d, expandAlone text = .ok d ∧ ¬ d.Rereadable prettyLayout

/-- Not every output is written and read back: a CDATA section that comes to hold its own end, a
comment that comes to hold two hyphens or to end in one, a prefix in a tag or an attribute whose
declaration was dropped, with a directive or from the root, a prefix that comes to be declared as no
namespace, one that a document type declares under what is not a name, and attributes whose prefixes
come to mean the same. -/
theorem not_expand_rereadable :
    ExpandsUnreadable "<a><![CDATA[]]$\x7b'>'\x7d]]></a>" ∧
    ExpandsUnreadable "<a><!--$\x7b'-'\x7d$\x7b'-'\x7d--></a>" ∧
    ExpandsUnreadable "<a><!--$\x7b'-'\x7d--></a>" ∧
    ExpandsUnreadable "<a xmlns:xacro='x'><xacro:if value='1' xmlns:p='u'><p:b/></xacro:if></a>" ∧
    ExpandsUnreadable "<a xmlns:xacro='x'><b xacro:c=''/></a>" ∧
    ExpandsUnreadable "<a><b xmlns:p=\"$\x7b''\x7d\"/></a>" ∧
    ExpandsUnreadable "<!DOCTYPE a [<!ATTLIST a xmlns:1p CDATA 'u'>]><a/>" ∧
    ExpandsUnreadable "<a xmlns:p='u' xmlns:q=\"$\x7b'u'\x7d\"><b p:c='' q:c=''/></a>" := by
  refine ⟨?_, ?_, ?_, ?_, ?_, ?_, ?_, ?_⟩ <;> exact exists_output (by decide +kernel)

end XmlMacros
