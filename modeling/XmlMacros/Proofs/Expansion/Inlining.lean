import Mathlib
import XmlMacros.Proofs.Expansion.Correspondence

/-!
# Including a file is writing its nodes

An element that includes a file may be replaced by the nodes in the root of the file, and the
document expands to the same (`exists_expandDocument_inlined_iff`). It does not matter where the
element stands, nor how often its place is expanded: the place may be in the body of a macro, in a
block or in a condition.

The two expansions simulate each other (`inlining_simulation`). They are in different files at the
same time, which shows in relative file names and in what the command `dirname` answers, and nowhere
else. Nodes of a file are nested more deeply where they are included, so the bounds on how deeply
directives may be nested differ; each of the expansions may go deeper than the other one, by as much
as the files and the directives that are replaced are high (`heightOfNodes_le_of_inlined`).
-/

namespace XmlMacros

open XmlMacros.Markup Expansion

/-! ## What the command `dirname` answers -/

namespace Substitution

/-- The context with another command in the place of `dirname`, under all of its names. -/
def Context.withDirname (call : List String → Except CommandFailure String) (ctx : Context) :
    Context :=
  { ctx with
    commands := ctx.commands.map fun
      | .dirname => .custom call
      | command => command }

end Substitution

/-- The value of the text does not depend on what the command `dirname` does, as is the case
wherever the command is not called. -/
def IgnoresDirname (ctx : Substitution.Context) (text : String) : Prop :=
  ∀ call, valueIn (ctx.withDirname call) text = valueIn ctx text

/-- What a text evaluates to without commands does not depend on any. -/
theorem IgnoresDirname.of_bare {ctx : Substitution.Context} {text value : String}
    (h : Substitution.Gives (.bare ctx.limits) text value) : IgnoresDirname ctx text := by
  intro call
  have hcall : Substitution.Gives (ctx.withDirname call) text value := .of_bare h
  rw [valueIn_of_gives hcall, valueIn_of_gives h.of_bare]

/-- The file that is being processed matters to no other command. -/
theorem Command.call_congr {command : Command} {view view' : CommandView}
    (h : command ≠ .dirname) (hsurroundings : view'.surroundings = view.surroundings)
    (hargs : view'.args = view.args) (arguments : List String) :
    command.call view' arguments = command.call view arguments := by
  obtain ⟨surroundings, args, filename⟩ := view
  obtain ⟨_, _, filename'⟩ := view'
  cases hsurroundings
  cases hargs
  cases command with
  | dirname => exact absurd rfl h
  | env | optenv | arg | find | cwd | custom =>
    rcases arguments with _ | ⟨name, _ | ⟨other, rest⟩⟩ <;> rfl

/-- Commands answer the same in another file, once `dirname` is replaced by what it
answers there. -/
theorem Substitution.Context.withDirname_answers_iff {ctx ctx' : Substitution.Context}
    (hcommands : ctx'.commands = ctx.commands)
    (hsurroundings : ctx'.view.surroundings = ctx.view.surroundings)
    (hargs : ctx'.view.args = ctx.view.args) {name : String} {arguments : List String}
    {text : String} :
    (ctx.withDirname (Command.dirname.call ctx'.view)).Answers name arguments text ↔
      ctx'.Answers name arguments text := by
  unfold Substitution.Context.Answers Substitution.Context.withDirname
  rw [Dict.get?_map, hcommands]
  cases ctx.commands.get? name with
  | none => simp
  | some command =>
    by_cases h : command = .dirname
    · subst h
      simp [Command.call]
    · have hcall := Command.call_congr h hsurroundings hargs arguments
      cases command with
      | dirname => exact absurd rfl h
      | env | optenv | arg | find | cwd | custom => simp [hcall]

namespace Expansion

/-! ## Inlined nodes -/

/-- The element includes a file by a name in which nothing is to be evaluated, and has the nodes of
that file; in neither are elements nested more deeply than the height. -/
def InlinesWithin (env : Environment) (height : Nat) (e : Element) (content : List Node) : Prop :=
  (∃ path, FileAt env e path content) ∧ e.node.height ≤ height ∧ heightOfNodes content ≤ height

/-- The nodes with some elements that include files replaced by the nodes of the files. -/
def Inlined (env : Environment) : List Node → List Node → Prop :=
  Corresponding (fun e e' => e'.tag = e.tag ∧ e'.attrs = e.attrs)
    fun e content => ∃ path, FileAt env e path content

/-- Inlined nodes, where the elements and the files have a largest height. -/
def InlinedWithin (env : Environment) (height : Nat) : List Node → List Node → Prop :=
  Corresponding (fun e e' => e'.tag = e.tag ∧ e'.attrs = e.attrs) (InlinesWithin env height)

/-- A bound on the height of what is put in may be greater. -/
theorem InlinedWithin.mono {env : Environment} {k l : Nat} {ns ns' : List Node}
    (h : InlinedWithin env k ns ns') (hkl : k ≤ l) : InlinedWithin env l ns ns' :=
  Corresponding.mono h id fun ⟨hfile, he, hcontent⟩ =>
    ⟨hfile, he.trans hkl, hcontent.trans hkl⟩

/-- Only finitely many elements are replaced. -/
theorem exists_inlinedWithin {env : Environment} {ns ns' : List Node} (h : Inlined env ns ns') :
    ∃ height, InlinedWithin env height ns ns' := by
  induction h with
  | nil => exact ⟨0, .nil⟩
  | leaf hleaf _ ih =>
    obtain ⟨k, hrest⟩ := ih
    exact ⟨k, .leaf hleaf hrest⟩
  | element hpair _ _ ihchildren ih =>
    obtain ⟨k, hchildren⟩ := ihchildren
    obtain ⟨l, hrest⟩ := ih
    exact ⟨max k l, .element hpair (hchildren.mono (Nat.le_max_left k l))
      (hrest.mono (Nat.le_max_right k l))⟩
  | @splice tag attrs children content _ _ hfile _ ih =>
    obtain ⟨k, hrest⟩ := ih
    let height := max (Node.element tag attrs children).height (heightOfNodes content)
    have hsplice : InlinesWithin env (max height k) ⟨tag, attrs, children⟩ content :=
      ⟨hfile, (Nat.le_max_left _ _).trans (Nat.le_max_left _ _),
        (Nat.le_max_right _ _).trans (Nat.le_max_left _ _)⟩
    exact ⟨max height k, .splice hsplice (hrest.mono (Nat.le_max_right height k))⟩

/-- Two lists are as high together as the higher one of them. -/
theorem heightOfNodes_append (ns ms : List Node) :
    heightOfNodes (ns ++ ms) = max (heightOfNodes ns) (heightOfNodes ms) := by
  induction ns with
  | nil => simp [heightOfNodes]
  | cons n rest ih => rw [List.cons_append, heightOfNodes, heightOfNodes, ih, Nat.max_assoc]

/-- The heights of nodes and inlined nodes differ by no more than the height of what is inlined. -/
theorem heightOfNodes_le_of_inlined {env : Environment} {height : Nat} {ns ns' : List Node}
    (h : InlinedWithin env height ns ns') :
    heightOfNodes ns' ≤ heightOfNodes ns + height ∧
      heightOfNodes ns ≤ heightOfNodes ns' + height := by
  induction h with
  | nil => exact ⟨Nat.zero_le _, Nat.zero_le _⟩
  | leaf _ _ ih =>
    simp only [heightOfNodes]
    omega
  | element _ _ _ ihchildren ih =>
    simp only [heightOfNodes, Node.height]
    omega
  | splice hsplice _ ih =>
    obtain ⟨-, he, hcontent⟩ := hsplice
    rw [heightOfNodes_append]
    simp only [heightOfNodes, Element.node, Node.height] at he ⊢
    omega

/-! ## Both expansions -/

/-- Which of the two expansions may go deeper than the other. -/
inductive Deeper
  | original
  | inlined

/-- How an expansion compares to that of the inlined nodes. -/
def inlining (env : Environment) (height : Nat) (deeper : Deeper) : Comparison where
  overflows₁ := deeper = .inlined
  overflows₂ := deeper = .original
  deep a b :=
    match deeper with
    | .inlined => a + height ≤ b
    | .original => 2 * b + 1 + height ≤ a
  flat a b :=
    match deeper with
    | .inlined => a + height ≤ b
    | .original => 2 * b + height ≤ a
  pair e e' := e'.tag = e.tag ∧ e'.attrs = e.attrs
  splice := InlinesWithin env height
  tables table table' := ∀ name, Option.Rel (Property.Alike Eq (InlinedWithin env height))
    (table.get? name) (table'.get? name)
  footing a b :=
    b.localProperties = a.localProperties ∧ a.failed = ∅ ∧ b.failed = ∅ ∧
      a.preloaded = ∅ ∧ b.preloaded = ∅
  param _ := True
  text := IgnoresDirname
  file name := IncludePath.isAbsolute name

section
variable {env : Environment} {height : Nat} {deeper : Deeper} {s t : State}

/-- In both runs a name stands for the same text, or for blocks that differ by inlining only. -/
theorem inlining_lookup? (hst : (inlining env height deeper).States s t) (name : String) :
    Option.Rel (Property.Alike Eq (InlinedWithin env height)) (s.scopes.lookup? name)
      (t.scopes.lookup? name) :=
  hst.lookup? fun htables => htables name

/-- What the expansions see when they evaluate texts differs in the file that is being processed
only. -/
theorem inlining_value (hst : (inlining env height deeper).States s t) {text : String}
    (h : IgnoresDirname (s.context env) text) :
    valueIn (t.context env) text = valueIn (s.context env) text := by
  have hanswers : ∀ name arguments answer,
      ((s.context env).withDirname (Command.dirname.call (t.context env).view)).Answers name
        arguments answer ↔ (t.context env).Answers name arguments answer :=
    fun _ _ _ => Substitution.Context.withDirname_answers_iff
      (show (t.context env).commands = (s.context env).commands from rfl) rfl hst.args
  rw [← h (Command.dirname.call (t.context env).view)]
  refine valueIn_congr fun value => ⟨fun hgives => ?_, fun hgives => ?_⟩
  · exact hgives.of_mirrors 0 (fun _ _ _ => (hanswers _ _ _).1) fun name x hx =>
      ⟨x, Property.Alike.text_iff (inlining_lookup? hst name) |>.1 hx, .inl rfl⟩
  · exact hgives.of_mirrors 0 (fun _ _ _ => (hanswers _ _ _).2) fun name x hx =>
      ⟨x, Property.Alike.text_iff (inlining_lookup? hst name) |>.2 hx, .inl rfl⟩

/-- Tables stay alike when alike values are put in. -/
theorem inlining_insert {table table' : Table} {name : String} {value value' : Property}
    (h : (inlining env height deeper).tables table table')
    (hvalue : Property.Alike Eq (InlinedWithin env height) value value') :
    (inlining env height deeper).tables (table.insert name value) (table'.insert name value') := by
  intro other
  rw [Dict.get?_insert, Dict.get?_insert]
  split
  · exact .some hvalue
  · exact h other

/-- Nodes differ from themselves by no inlining. -/
theorem inlined_refl (env : Environment) (height : Nat) (ns : List Node) :
    InlinedWithin env height ns ns :=
  .refl (fun _ => ⟨rfl, rfl⟩) ns

/-- Where only tags with the prefix are directives, both expansions do the same. -/
theorem inlining_simulation (hrequired : env.requirePrefix = true) (height : Nat)
    (deeper : Deeper) : Simulation (inlining env height deeper) env env where
  flat_of_deep h := by
    cases deeper with
    | original => exact Nat.le_trans (by omega) h
    | inlined => exact h
  deep_of_flat h := by
    cases deeper <;> simp only [inlining] at h ⊢ <;> omega
  flat_of_splice _ h := by
    cases deeper <;> simp only [inlining] at h ⊢ <;> omega
  overflow_left h := by
    cases deeper with
    | original => simp only [inlining] at h; omega
    | inlined => rfl
  overflow_right h := by
    cases deeper with
    | original => rfl
    | inlined => simp only [inlining] at h; omega
  overflow_splice _ h := by
    cases deeper with
    | original => simp only [inlining] at h; omega
    | inlined => rfl
  heights {a b ns ns'} h hnodes := by
    obtain ⟨hle, hge⟩ := heightOfNodes_le_of_inlined hnodes
    cases deeper with
    | original =>
      simp only [inlining] at h
      rcases Nat.lt_or_ge b (heightOfNodes ns') with hlt | hle
      · exact .inr (.inr ⟨rfl, hlt⟩)
      · exact .inl ⟨fun _ => hle, fun _ => by omega⟩
    | inlined =>
      simp only [inlining] at h
      rcases Nat.lt_or_ge a (heightOfNodes ns) with hlt | hle
      · exact .inr (.inl ⟨rfl, hlt⟩)
      · exact .inl ⟨fun _ => by omega, fun _ => hle⟩
  attrs h := h.2
  stripTag h := by rw [h.1]
  classify h isMacro := by
    unfold Directive.classify
    rw [h.1, hrequired]
    rfl
  tag h _ := h.1
  output _ _ _ _ := ⟨rfl, rfl⟩
  params _ _ _ _ := trivial
  lookup h name := Property.Alike.weaken (h name)
  bind h _ hvalue := inlining_insert h hvalue
  define _ _ _ _ _ _ _ h hvalue := inlining_insert h hvalue
  define_footing _ _ _ _ _ _ _ h _ := h
  insertArg h _ _ := h
  value hst h := inlining_value hst h
  forwarded hst hs ht h := by
    cases ((Property.Alike.text_iff (inlining_lookup? hst _)).1 hs).symm.trans ht
    exact inlining_value hst h
  localProperties _ _ h := h.1
  path h _ := .inl h
  known _ h := ⟨h.2.2.1.trans h.2.1.symm, h.2.2.2.2.trans h.2.2.2.1.symm⟩
  fetch _ := rfl
  content _ ns := .refl (fun _ => ⟨rfl, rfl⟩) ns
  enterFile _ h _ := h
  leaveFile _ _ h := h
  spliced h := h.1
  splice_content _ := .refl (fun _ => ⟨rfl, rfl⟩) _
  splice_known _ h path := by
    rw [h.2.1, h.2.2.2.1]
    exact ⟨rfl, rfl⟩
  splice_enter _ h _ := h
  splice_leave _ _ h := h

/-- Expansions of documents begin in states that correspond to each other. -/
theorem inlining_opened (hs : Reportable s) (hfailed : s.failed = ∅)
    (hpreloaded : s.preloaded = ∅) :
    (inlining env height deeper).States (opened s) (opened s) where
  scopes := .cons (fun _ => Property.Alike.refl (inlined_refl env height) _) .nil
  macros _ := .none
  args := rfl
  reportable₁ := hs
  reportable₂ := hs
  footing := ⟨rfl, hfailed, hfailed, hpreloaded, hpreloaded⟩

end

/-! ## Documents -/

/-- The document with other nodes in its root. -/
def withContent (d : Document) (nodes : List Node) : Document :=
  { d with root := { d.root with children := nodes } }

/-- In a document where the names of included files are absolute whenever they are evaluated, and
the command `dirname` matters to no text, elements that include files by a written name may be
replaced by the nodes in the roots of the files: both documents expand to the same, if directives
may be nested deeply enough. -/
theorem exists_expandDocument_inlined_iff (env : Environment) (hrequired : env.requirePrefix = true)
    (d : Document) (inlined : List Node) (hinlined : Inlined env d.root.children inlined)
    (s : State) (hs : Reportable s) (hfailed : s.failed = ∅) (hpreloaded : s.preloaded = ∅)
    (hdirname : ∀ depth text ctx, TextOfDocument env depth d s text ctx → IgnoresDirname ctx text)
    (habsolute : ∀ depth k e t name, VisitsDocument env depth d s k e.node t →
      classify env t e = .includeFile → e.attr? "filename" = some name →
      IncludePath.isAbsolute (valueIn (t.context env) name)) (out : Document) :
    (∃ depth, (expandDocument env depth true d s).1 = .ok out) ↔
      ∃ depth, (expandDocument env depth true (withContent d inlined) s).1 = .ok out := by
  obtain ⟨height, hwithin⟩ := exists_inlinedWithin hinlined
  have hends (deeper : Deeper) {a b : Nat} (hdeep : (inlining env height deeper).deep a b) :
      (inlining env height deeper).pairing.Ends (fun out out' => out' = out)
        (expandParts env a d (opened s))
        (expandParts env b (withContent d inlined) (opened s)) :=
    (inlining_simulation hrequired height deeper).expandDocument hdeep
      (inlining_opened hs hfailed hpreloaded) rfl rfl rfl hwithin rfl (hdirname a)
      fun k e _ t name hvisits _ => habsolute a k e t name hvisits
  constructor
  · rintro ⟨a, hrun⟩
    refine ⟨a + height, ?_⟩
    have h := hends .inlined (Nat.le_refl (a + height))
    rw [expandDocument_inOrder_fst] at hrun ⊢
    generalize expandParts env a d (opened s) = r at h hrun
    generalize expandParts env (a + height) _ (opened s) = r' at h ⊢
    cases h with
    | ok hvalue _ => rw [hvalue]; exact hrun
    | overflow₂ h => cases h
    | fault | abort | overflow₁ => cases hrun
  · rintro ⟨b, hrun⟩
    refine ⟨2 * b + 1 + height, ?_⟩
    have h := hends .original (Nat.le_refl (2 * b + 1 + height))
    rw [expandDocument_inOrder_fst] at hrun ⊢
    generalize expandParts env b _ (opened s) = r' at h hrun
    generalize expandParts env (2 * b + 1 + height) d (opened s) = r at h ⊢
    cases h with
    | ok hvalue _ => rw [← hvalue]; exact hrun
    | overflow₁ h => cases h
    | fault | abort | overflow₂ => cases hrun

/-! ## An example -/

section
variable {env : Environment} {depth k : Nat} {s t : State} {e : Element} {n : Node}

/-- An element that includes a file is visited, and then its nodes. -/
theorem FileAt.visits {path : String} {content : List Node} (hfile : FileAt env e path content)
    (hs : Reportable s) (hfailed : s.failed = ∅) (hpreloaded : s.preloaded = ∅)
    (h : Visits env depth [e.node] s k n t) :
    (n = e.node ∧ t = s) ∨
      ∃ depth' s', Loaded path s s' ∧ Visits env depth' content (enterFile path s') k n t := by
  have hincludes : classify env s e = .includeFile ↔ meaning env e = .includeFile :=
    classify_eq_iff nofun nofun
  have hmeans := hincludes.2 hfile.means
  obtain ⟨root, s₁, hroot, hloaded, hrun⟩ :=
    hfile.namedFile hs (by rw [hfailed]; rfl) (by rw [hpreloaded]; rfl)
  obtain ⟨tag, attrs, children⟩ := e
  cases h with
  | here => exact .inl ⟨rfl, rfl⟩
  | inside hgoes h =>
    cases hgoes with
    | file _ hrun' =>
      cases hrun.symm.trans hrun'
      rw [hroot] at h
      exact .inr ⟨_, _, hloaded, h⟩
    | block h' | whenTrue h' | whenFalse h' | children h' => cases hmeans.symm.trans h'
    | @arguments naming _ _ _ h' => cases naming <;> cases hmeans.symm.trans h'
  | @body _ _ _ naming _ _ _ _ _ _ _ _ _ _ _ h' => cases naming <;> cases hmeans.symm.trans h'
  | later _ h => cases h

end

/-- A file is included that has an element with a value to be evaluated. -/
def includesOne : Document where
  before := []
  root := ⟨"r", [], [.element "xacro:include" [⟨"filename", some "/f"⟩] []]⟩
  after := []

/-- The nodes of the file. -/
def oneIncluded : List Node :=
  [.element "a" [⟨"v", some "${1 + 1}"⟩] []]

/-- The files that there are. -/
def oneFile : Environment :=
  .ofFiles true [("/f", "<x><a v=\"${1 + 1}\"/></x>")]

/-- A document that includes one file has the same output as the document with the file's children
in its place. -/
theorem exists_expandDocument_inlined_iff_includesOne :
    ∃ out, childValues out = ["2"] ∧
      (∃ depth, (expandDocument oneFile depth true includesOne (.fresh true)).1 = .ok out) ∧
      ∃ depth, (expandDocument oneFile depth true (withContent includesOne oneIncluded)
        (.fresh true)).1 = .ok out := by
  let e : Element := ⟨"xacro:include", [⟨"filename", some "/f"⟩], []⟩
  let a : Element := ⟨"a", [⟨"v", some "${1 + 1}"⟩], []⟩
  have hfile : FileAt oneFile e "/f" oneIncluded := by
    refine ⟨by decide, by decide, by decide, by decide, ?_⟩
    refine ⟨"<x><a v=\"${1 + 1}\"/></x>", ⟨[], ⟨"x", [], oneIncluded⟩, []⟩, rfl, ?_, rfl⟩
    cbv
  have hvisits : ∀ {depth k n t}, VisitsDocument oneFile depth includesOne (.fresh true) k n t →
      n = e.node ∨ n = a.node := by
    rintro depth k n t ⟨before, s₁, attrs, s₂, hbefore, hattrs, hvisits⟩
    cases hbefore
    cases hattrs
    rcases hfile.visits ⟨_, rfl⟩ rfl rfl hvisits with ⟨rfl, -⟩ | ⟨depth', s', -, hvisits⟩
    · exact .inl rfl
    · have hmeans : classify oneFile (enterFile "/f" s') a = .ordinary :=
        classify_of_requirePrefix rfl (by decide) _
      exact .inr (Visits.of_childless hmeans rfl hvisits).1
  have hincludes (t : State) : classify oneFile t e = .includeFile :=
    (classify_eq_iff (d := .includeFile) (by decide) (by decide)).2 hfile.means
  have hordinary (t : State) : classify oneFile t a = .ordinary :=
    classify_of_requirePrefix rfl (by decide) t
  have hname (ctx : Substitution.Context) : Substitution.Gives ctx "/f" "/f" :=
    .of_not_mem (by decide)
  have hvalue : Substitution.Gives (.bare oneFile.limits) "${1 + 1}" "2" := by
    unfold Substitution.Gives Substitution.GivesWithin
    decide +kernel
  have hvalues : (expandDocument oneFile 8 true includesOne (.fresh true)).1.toOption.map
      childValues = some ["2"] := by
    decide +kernel
  have hinlined : Inlined oneFile includesOne.root.children oneIncluded :=
    show Corresponding _ _ [e.node] (oneIncluded ++ []) from .splice ⟨"/f", hfile⟩ .nil
  have hiff := exists_expandDocument_inlined_iff oneFile rfl includesOne oneIncluded hinlined
    (.fresh true) ⟨_, rfl⟩ rfl rfl ?_ ?_
  · cases hrun : (expandDocument oneFile 8 true includesOne (.fresh true)).1 with
    | error => rw [hrun] at hvalues; cases hvalues
    | ok out =>
      rw [hrun] at hvalues
      exact ⟨out, Option.some.inj hvalues, ⟨8, hrun⟩, (hiff out).1 ⟨8, hrun⟩⟩
  · intro depth text ctx htext
    cases htext with
    | before h | attr h | after _ _ h => cases h
    | node hv htext =>
      rw [← htext.limits] at hvalue
      rcases hvisits hv with rfl | rfl
      · cases htext.of_includeFile (hincludes _)
        exact .of_bare (hname _)
      · obtain ⟨x, hx, rfl, -⟩ := htext.of_ordinary (hordinary _)
        cases List.mem_singleton.1 (show x ∈ [_] from hx)
        exact .of_bare hvalue
  · intro depth k e' t name hv hmeans hattr
    obtain ⟨tag, attrs, children⟩ := e'
    rcases hvisits hv with h | h <;> cases h
    · cases (show some "/f" = some name from hattr)
      rw [valueIn_of_gives (hname _)]
      decide
    · cases (hordinary t).symm.trans hmeans

end Expansion

end XmlMacros
