import XmlMacros.Proofs.Expansion.Hoisting
import XmlMacros.Proofs.Expansion.Inlining
import XmlMacros.Proofs.Expansion.NoDirectives
import XmlMacros.Proofs.Expansion.Preloading

/-!
# The prefix of directives does not matter where it is not required

Where the prefix is not required, directives may be written with it or without it: the document
expands to the same (`expandDocument_prefixed`), in both orders of processing. It does not matter
where the directives stand, nor which macros have their names.

Both expansions simulate each other (`prefixing_simulation`): elements that differ in the prefix
only mean the same, whichever macros are registered (`classify_prefixed`). Where definitions are
gathered first, nodes are searched and stripped before they are expanded, and stripped nodes differ
in prefixes only too (`stripNodes_prefixed`); an element for including that may have the prefix
holds no elements, so it is none of those that stripping turns into plain ones or back.
-/

namespace XmlMacros

open XmlMacros.Markup

/-! ## Elements that may have the prefix -/

/-- A bare element that may as well have the prefix: a directive, but not one of the elements for
including that stand for themselves. -/
def Prefixable (e : Element) : Prop :=
  e.tag ∈ Expansion.bareTags ∨ e.tag = "include" ∧ e.isPlainInclude = false

/-- The element as it is, or with the prefix that it may have. -/
structure Prefixed (e e' : Element) : Prop where
  attrs : e'.attrs = e.attrs
  tag : e'.tag = e.tag ∨ Prefixable e ∧ e'.tag = tagPrefix ++ e.tag

/-- The nodes with the prefix added to any of the elements in them that may have it. -/
def WithPrefixes : List Node → List Node → Prop :=
  Corresponding Prefixed fun _ _ => False

/-- Taking the prefix off again gives the word it was put in front of. -/
theorem stripTag?_append (word : String) : stripTag? (tagPrefix ++ word) = some word := by
  unfold stripTag?
  rw [String.toList_append, if_pos (List.isPrefixOf_iff_prefix.2 (List.prefix_append _ _)),
    List.drop_left, String.ofList_toList]

/-- The tags of elements that may have the prefix are words for directives. -/
theorem Prefixable.word {e : Element} (h : Prefixable e) :
    stripTag? e.tag = none ∧ ∃ d, Directive.ofWord? e.tag = some d ∧
      Directive.ofBareTag? e.tag = some d ∧ d ≠ .ordinary ∧
        (d = .includeFile → e.isPlainInclude = false) := by
  rcases h with hbare | ⟨htag, hplain⟩
  · simp only [Expansion.bareTags, List.mem_cons, List.not_mem_nil, or_false] at hbare
    rcases hbare with h | h | h | h | h | h | h <;> rw [h] <;>
      exact ⟨by decide, _, rfl, rfl, by decide, fun h => absurd h (by decide)⟩
  · rw [htag]
    exact ⟨by decide, _, rfl, rfl, by decide, fun _ => hplain⟩

/-- Where the prefix is not required, it does not change what an element means. -/
theorem Prefixable.classify {e : Element} (h : Prefixable e) (isMacro : String → Bool) :
    ∃ d, Directive.ofWord? e.tag = some d ∧ d ≠ .ordinary ∧
      Directive.classify false isMacro e = d := by
  obtain ⟨hstart, d, hword, hbare, hordinary, hplain⟩ := h.word
  refine ⟨d, hword, hordinary, ?_⟩
  unfold Directive.classify
  rw [hstart, hbare]
  cases d with
  | includeFile => simp [hplain rfl]
  | _ => rfl

namespace Expansion

/-! ## Both expansions -/

/-- Elements that differ in the prefix only, and stand for themselves or not as elements for
including. -/
structure SamePrefixed (env : Environment) (e e' : Element) : Prop where
  prefixed : Prefixed e e'
  plain : e'.isPlainInclude = e.isPlainInclude
  /-- A prefix that is required is not added. -/
  required : env.requirePrefix = true → e'.tag = e.tag

/-- Nodes with elements that differ in prefixes only. -/
def PrefixedNodes (env : Environment) : List Node → List Node → Prop :=
  Corresponding (SamePrefixed env) fun _ _ => False

/-- How an expansion compares to one with other prefixes. What is known of files is the same. -/
def prefixing (env : Environment) : Comparison where
  overflows₁ := False
  overflows₂ := False
  deep a b := b = a
  flat a b := b = a
  pair := SamePrefixed env
  splice _ _ := False
  tables table table' := ∀ name, Option.Rel (Property.Alike Eq (PrefixedNodes env))
    (table.get? name) (table'.get? name)
  footing a b := ∃ global, b = { a with global := global }
  param _ := True
  text _ _ := True
  file _ := True

section
variable {env : Environment} {s t : State} {e e' : Element} {ns ns' : List Node}

/-- Every element has the prefix that it has. -/
theorem SamePrefixed.refl (e : Element) : SamePrefixed env e e :=
  ⟨⟨rfl, .inl rfl⟩, rfl, fun _ => rfl⟩

/-- Nodes differ from themselves in no prefix. -/
theorem prefixedNodes_refl (ns : List Node) : PrefixedNodes env ns ns :=
  .refl SamePrefixed.refl ns

/-- The prefix was added only where it is not required. -/
theorem SamePrefixed.tag (h : SamePrefixed env e e') :
    e'.tag = e.tag ∨ env.requirePrefix = false ∧ Prefixable e ∧ e'.tag = tagPrefix ++ e.tag := by
  cases hrequired : env.requirePrefix with
  | true => exact .inl (h.required hrequired)
  | false => exact h.prefixed.tag.imp_right fun h => ⟨rfl, h⟩

/-- What an element means does not depend on the prefix. -/
theorem classify_prefixed (h : SamePrefixed env e e') (isMacro : String → Bool) :
    Directive.classify env.requirePrefix isMacro e' =
      Directive.classify env.requirePrefix isMacro e := by
  rcases h.tag with htag | ⟨hrequired, hprefixable, htag⟩
  · unfold Directive.classify
    rw [htag, h.plain]
  · obtain ⟨d, hword, -, hmeans⟩ := hprefixable.classify isMacro
    rw [hrequired, hmeans]
    unfold Directive.classify
    rw [htag, stripTag?_append]
    show (Directive.ofWord? e.tag).getD .invoke = d
    rw [hword]
    rfl

/-- An ordinary element was not given the prefix. -/
theorem SamePrefixed.tag_of_ordinary (h : SamePrefixed env e e')
    (hmeans : classify env s e = .ordinary) : e'.tag = e.tag := by
  rcases h.tag with htag | ⟨hrequired, hprefixable, -⟩
  · exact htag
  · obtain ⟨d, -, hordinary, hclassify⟩ := hprefixable.classify s.macros.contains
    unfold classify at hmeans
    rw [hrequired, hclassify] at hmeans
    exact absurd hmeans hordinary

/-- Without the prefix both tags are the same. -/
theorem SamePrefixed.stripTag_eq (h : SamePrefixed env e e') :
    stripTag e'.tag = stripTag e.tag := by
  rcases h.tag with htag | ⟨-, hprefixable, htag⟩
  · rw [htag]
  · unfold stripTag
    rw [htag, stripTag?_append, hprefixable.word.1]
    rfl

/-- Prefixes do not make nodes any higher. -/
theorem heightOfNodes_prefixed (h : PrefixedNodes env ns ns') :
    heightOfNodes ns' = heightOfNodes ns := by
  induction h with
  | nil => rfl
  | leaf _ _ ih => rw [heightOfNodes, heightOfNodes, ih]
  | element _ _ _ ihchildren ih =>
    simp only [heightOfNodes, Node.height]
    rw [ihchildren, ih]
  | splice h => exact h.elim

/-- In both runs a name stands for the same text, or for blocks that differ in prefixes only. -/
theorem prefixing_lookup? (hst : (prefixing env).States s t) (name : String) :
    Option.Rel (Property.Alike Eq (PrefixedNodes env)) (s.scopes.lookup? name)
      (t.scopes.lookup? name) :=
  hst.lookup? fun htables => htables name

/-- What evaluations see of both expansions differs in blocks only. -/
theorem prefixing_value (hst : (prefixing env).States s t) (text : String) :
    valueIn (t.context env) text = valueIn (s.context env) text := by
  obtain ⟨global, hfooting⟩ := hst.footing
  have hview : (t.context env).view = (s.context env).view := by
    unfold State.context
    rw [hst.args, show t.filename = s.filename from congrArg Footing.filename hfooting]
  have hanswers : ∀ name arguments answer, (s.context env).Answers name arguments answer ↔
      (t.context env).Answers name arguments answer := by
    intro name arguments answer
    unfold Substitution.Context.Answers
    rw [hview]
    rfl
  refine valueIn_congr fun value => ⟨fun hgives => ?_, fun hgives => ?_⟩
  · exact hgives.of_mirrors 0 (fun _ _ _ => (hanswers _ _ _).1) fun name x hx =>
      ⟨x, (Property.Alike.text_iff (prefixing_lookup? hst name)).1 hx, .inl rfl⟩
  · exact hgives.of_mirrors 0 (fun _ _ _ => (hanswers _ _ _).2) fun name x hx =>
      ⟨x, (Property.Alike.text_iff (prefixing_lookup? hst name)).2 hx, .inl rfl⟩

/-- Tables stay alike when alike values are put in. -/
theorem prefixing_insert {table table' : Table} {name : String} {value value' : Property}
    (h : (prefixing env).tables table table')
    (hvalue : Property.Alike Eq (PrefixedNodes env) value value') :
    (prefixing env).tables (table.insert name value) (table'.insert name value') := by
  intro other
  rw [Dict.get?_insert, Dict.get?_insert]
  split
  · exact .some hvalue
  · exact h other

/-- Expansions of nodes that differ in prefixes only do the same. -/
theorem prefixing_simulation (env : Environment) : Simulation (prefixing env) env env where
  flat_of_deep h := h
  deep_of_flat h := Nat.succ.inj h
  flat_of_splice h := h.elim
  overflow_left h := nomatch h
  overflow_right h := nomatch h
  overflow_splice h := h.elim
  heights h hnodes := by
    cases (show _ = _ from h)
    rw [heightOfNodes_prefixed hnodes]
    exact .inl Iff.rfl
  attrs h := h.prefixed.attrs
  stripTag h := h.stripTag_eq
  classify h := classify_prefixed h
  tag h hmeans := h.tag_of_ordinary hmeans
  output _ _ _ _ := .refl _
  params _ _ _ _ := trivial
  lookup h name := Property.Alike.weaken (h name)
  bind h _ hvalue := prefixing_insert h hvalue
  define _ _ _ _ _ _ _ h hvalue := prefixing_insert h hvalue
  define_footing := by
    rintro e e' s name - - - a _ value value' ⟨global, rfl⟩ -
    exact ⟨_, rfl⟩
  insertArg := by
    rintro a _ name ⟨global, rfl⟩ - value
    exact ⟨_, rfl⟩
  value hst _ := prefixing_value hst _
  forwarded hst hs ht _ := by
    cases ((Property.Alike.text_iff (prefixing_lookup? hst _)).1 hs).symm.trans ht
    exact prefixing_value hst _
  localProperties := by
    rintro e e' s a _ - - ⟨global, rfl⟩
    rfl
  path := by
    rintro name a _ - ⟨global, rfl⟩
    exact .inr rfl
  known := by
    rintro name a _ - ⟨global, rfl⟩
    exact ⟨rfl, rfl⟩
  fetch _ := rfl
  content _ ns := prefixedNodes_refl ns
  enterFile := by
    rintro name a _ - ⟨global, rfl⟩ path
    exact ⟨_, rfl⟩
  leaveFile := by
    rintro name a _ a' _ - ⟨global, rfl⟩ ⟨global', rfl⟩
    exact ⟨_, rfl⟩
  spliced h := h.elim
  splice_content h := h.elim
  splice_known h := h.elim
  splice_enter h := h.elim
  splice_leave h := h.elim

/-! ## Searching and stripping -/

/-- Elements that differ in prefixes only, with their children. -/
structure PrefixedElements (env : Environment) (e e' : Element) : Prop where
  same : SamePrefixed env e e'
  children : PrefixedNodes env e.children e'.children

/-- Elements that differ in the prefix only mean the same. -/
theorem meaning_prefixed (h : SamePrefixed env e e') : meaning env e' = meaning env e :=
  classify_prefixed h _

/-- Elements that differ in the prefix only are both definitions or neither. -/
theorem isDefining_prefixed (h : SamePrefixed env e e') : isDefining env e' = isDefining env e :=
  congrArg Directive.isDefinition (meaning_prefixed h)

/-- Nodes that differ in prefixes only make elements for including plain or not alike. -/
theorem isPlainInclude_prefixed (h : PrefixedNodes env e.children e'.children) :
    e'.isPlainInclude = e.isPlainInclude := by
  obtain ⟨tag, attrs, children⟩ := e
  obtain ⟨tag', attrs', children'⟩ := e'
  cases (show PrefixedNodes env children children' from h) with
  | nil => rfl
  | leaf hleaf hrest =>
    cases hrest with
    | nil | leaf | element => rfl
    | splice hfalse => exact hfalse.elim
  | element hpair hchildren hrest =>
    cases hrest with
    | nil | leaf | element => rfl
    | splice hfalse => exact hfalse.elim
  | splice hfalse => exact hfalse.elim

/-- What is searched for is found in both. -/
theorem findIn_prefixed {isMatch prune : Element → Bool}
    (hmatch : ∀ {e e'}, SamePrefixed env e e' → isMatch e' = isMatch e)
    (hprune : ∀ {e e'}, SamePrefixed env e e' → prune e' = prune e)
    (h : PrefixedNodes env ns ns') :
    List.Forall₂ (PrefixedElements env) (findIn isMatch prune ns) (findIn isMatch prune ns') := by
  induction h with
  | nil => exact .nil
  | @leaf n rest rest' hleaf _ ih =>
    cases n with
    | element => cases hleaf
    | text | cdata | comment | instruction => exact ih
  | @element tag tag' attrs attrs' children children' rest rest' hsame hchildren _ ihchildren ih =>
    rw [findIn, findIn, findAt, findAt, hmatch hsame, hprune hsame]
    refine List.rel_append (List.rel_append ?_ ?_) ih
    · split
      · exact .cons ⟨hsame, hchildren⟩ .nil
      · exact .nil
    · split
      · exact .nil
      · exact ihchildren
  | splice h => exact h.elim

/-- Elements that may have the prefix for including hold nothing that can be stripped. -/
theorem stripNodes_of_not_plain {isMatch : Element → Bool} (h : e.isPlainInclude = false) :
    stripNodes isMatch e.children = e.children := by
  obtain ⟨tag, attrs, children⟩ := e
  unfold Element.isPlainInclude at h
  rcases children with _ | ⟨n, _ | ⟨n', rest⟩⟩
  · rfl
  · cases n with
    | text => rfl
    | element | cdata | comment | instruction => cases h
  · cases h

/-- Stripped nodes differ in prefixes only. -/
theorem stripNodes_prefixed {isMatch : Element → Bool}
    (hmatch : ∀ {e e'}, SamePrefixed env e e' → isMatch e' = isMatch e)
    (h : PrefixedNodes env ns ns') :
    PrefixedNodes env (stripNodes isMatch ns) (stripNodes isMatch ns') := by
  induction h with
  | nil => exact .nil
  | @leaf n rest rest' hleaf _ ih =>
    cases n with
    | element => cases hleaf
    | text | cdata | comment | instruction => exact .leaf hleaf ih
  | @element tag tag' attrs attrs' children children' rest rest' hsame hchildren _ ihchildren ih =>
    rw [stripNodes, stripNodes, stripNode, stripNode, hmatch hsame]
    split
    · exact ih
    · refine .element ⟨⟨hsame.prefixed.attrs, hsame.prefixed.tag.imp_right (And.imp_left
        fun h => h.imp_right (And.imp_right fun hplain => ?_))⟩,
        isPlainInclude_prefixed ihchildren, hsame.required⟩ ihchildren ih
      have hstrip : stripNodes isMatch children = children := stripNodes_of_not_plain hplain
      rw [hstrip]
      exact hplain
  | splice h => exact h.elim

/-! ## Gathering definitions -/

/-- Roots that differ in prefixes below them only. -/
structure PrefixedRoots (env : Environment) (root root' : Element) : Prop where
  tag : root'.tag = root.tag
  attrs : root'.attrs = root.attrs
  children : PrefixedNodes env root.children root'.children

theorem PrefixedRoots.refl (root : Element) : PrefixedRoots env root root :=
  ⟨rfl, rfl, prefixedNodes_refl _⟩

/-- Without definitions the roots still differ in prefixes below them only. -/
theorem PrefixedRoots.strip {root root' : Element} (h : PrefixedRoots env root root') :
    PrefixedRoots env (root.strip (isDefining env)) (root'.strip (isDefining env)) :=
  ⟨h.tag, h.attrs, stripNodes_prefixed isDefining_prefixed h.children⟩

theorem meaning_beq_prefixed (d : Directive) (h : SamePrefixed env e e') :
    (meaning env e' == d) = (meaning env e == d) := by
  rw [meaning_prefixed h]

/-- The definitions that are gathered are the same but for prefixes, one by one. -/
theorem outermostDefinitions_prefixed {root root' : Element} (h : PrefixedRoots env root root') :
    List.Forall₂ (PrefixedElements env) (outermostDefinitions env root)
      (outermostDefinitions env root') :=
  List.rel_append
    (findIn_prefixed (meaning_beq_prefixed .property) isDefining_prefixed h.children)
    (findIn_prefixed (meaning_beq_prefixed .defineMacro) isDefining_prefixed h.children)

/-- The includes that are gathered are the same but for prefixes, one by one. -/
theorem includesOf_prefixed {root root' : Element} (h : PrefixedRoots env root root') :
    List.Forall₂ (PrefixedElements env) (includesOf env root) (includesOf env root') :=
  findIn_prefixed (meaning_beq_prefixed .includeFile) (fun _ => rfl) h.children

/-- Nothing is asked of what is evaluated and included. -/
theorem prefixing_fine (depth : Nat) (ns : List Node) (s : State) :
    During env ((prefixing env).Fine env) depth ns s :=
  fun _ _ _ _ => ⟨fun _ _ _ => trivial, fun _ _ _ _ _ _ _ => trivial⟩

/-- Definitions and includes that differ in prefixes only do the same one after the other. -/
theorem performAll_prefixed (hst : (prefixing env).States s t) (depth : Nat)
    {es es' : List Element} (h : List.Forall₂ (PrefixedElements env) es es') :
    Parallel (prefixing env).pairing Eq s t (performAll env depth es)
      (performAll env depth es') := by
  induction h generalizing s t with
  | nil => exact .pure rfl hst
  | cons he _ ih =>
    have hexpand := (prefixing_simulation env).expandNode rfl he.same he.children hst
      (prefixing_fine depth _ s)
    exact hexpand.bind fun _ _ _ _ _ _ _ hst' => ih hst'

/-- Gathering the definitions of two such roots runs in parallel. -/
theorem grabDefinitions_prefixed (hst : (prefixing env).States s t) (depth : Nat)
    {root root' : Element} (h : PrefixedRoots env root root') :
    Parallel (prefixing env).pairing Eq s t (grabDefinitions env depth root)
      (grabDefinitions env depth root') := by
  rw [grabDefinitions_eq, grabDefinitions_eq]
  exact performAll_prefixed hst depth (outermostDefinitions_prefixed h)

/-- What is known of files is the same in both. -/
theorem prefixing_known (hst : (prefixing env).States s t) :
    t.files = s.files ∧ t.workingPath = s.workingPath ∧ t.localProperties = s.localProperties ∧
      t.preloaded = s.preloaded ∧ t.failed = s.failed := by
  obtain ⟨global, h⟩ := hst.footing
  exact ⟨congrArg Footing.files h, congrArg Footing.workingPath h,
    congrArg Footing.localProperties h, congrArg Footing.preloaded h, congrArg Footing.failed h⟩

/-- Two such lists of includes ask for the same paths. -/
theorem includePaths_prefixed (hst : (prefixing env).States s t)
    (workingPath : Except Mismatch String) {es es' : List Element}
    (h : List.Forall₂ (PrefixedElements env) es es') (paths : List String) :
    Parallel (prefixing env).pairing Eq s t (includePaths env workingPath es paths)
      (includePaths env workingPath es' paths) := by
  induction h generalizing s t paths with
  | nil => exact .pure rfl hst
  | @cons e e' _ _ he _ ih =>
    have hattr : e'.attr? "filename" = e.attr? "filename" := by
      unfold Element.attr?
      rw [he.same.prefixed.attrs]
    unfold includePaths
    rw [hattr]
    cases e.attr? "filename" with
    | none => exact ih hst paths
    | some filename =>
      refine hst.bind_value (prefixing_value hst filename) fun s₁ t₁ _ _ hst₁ => ?_
      have hpath (filename : String) : Parallel (prefixing env).pairing Eq s₁ t₁
          (includePath filename workingPath) (includePath filename workingPath) := by
        unfold includePath
        split
        · exact .pure rfl hst₁
        · cases workingPath with
          | ok directory => exact .pure rfl hst₁
          | error m => exact .abort (by rintro f ⟨⟩)
      refine (hpath _).bind fun path path' s₂ t₂ _ _ hsame hst₂ => .get_bind ?_
      cases hsame
      obtain ⟨-, -, -, hpreloaded, hfailed⟩ := prefixing_known hst₂
      rw [hpreloaded, hfailed]
      split
      · exact ih hst₂ paths
      · exact ih hst₂ _

/-- The roots that are left without definitions differ in prefixes only. -/
theorem stripDefinitions_prefixed (hst : (prefixing env).States s t) {root root' : Element}
    (h : PrefixedRoots env root root') :
    Parallel (prefixing env).pairing (PrefixedRoots env) s t (stripDefinitions env root)
      (stripDefinitions env root') :=
  .of_ok (stripDefinitions_apply root s) (stripDefinitions_apply root' t) h.strip hst

section
variable {depth levels : Nat}
  (hnested : ∀ {s t} root workingPath, (prefixing env).States s t →
    Parallel (prefixing env).pairing Eq s t (collectIncludes env depth levels root workingPath)
      (collectIncludes env depth levels root workingPath))

include hnested

/-- Within a file the same is gathered. -/
theorem takeWithin_prefixed (hst : (prefixing env).States s t)
    (workingPath : Except Mismatch String) (path text : String) :
    Parallel (prefixing env).pairing Eq s t
      (takeWithin env depth levels workingPath path text)
      (takeWithin env depth levels workingPath path text) := by
  have hroot : Parallel (prefixing env).pairing Eq s t (parseRoot text) (parseRoot text) := by
    unfold parseRoot
    split
    · exact .pure rfl hst
    · exact .abort nofun
  refine hroot.bind fun root root' s₁ t₁ _ _ hsame hst₁ => ?_
  cases hsame
  refine (grabDefinitions_prefixed hst₁ depth (.refl root)).bind fun _ _ s₂ t₂ _ _ _ hst₂ => ?_
  have hstrip : Parallel (prefixing env).pairing Eq s₂ t₂ (stripDefinitions env root)
      (stripDefinitions env root) :=
    .of_ok (stripDefinitions_apply root s₂) (stripDefinitions_apply root t₂) rfl hst₂
  refine hstrip.bind fun root root' s₃ t₃ _ _ hsame hst₃ => ?_
  cases hsame
  refine .modify_bind (hnested root _ ⟨hst₃.scopes, hst₃.macros, hst₃.args, hst₃.reportable₁,
    hst₃.reportable₂, ?_⟩)
  obtain ⟨global, h⟩ := hst₃.footing
  exact ⟨global, congrArg (fun a : Footing =>
    { a with preloaded := a.preloaded.insert path ⟨workingPath, root⟩ }) h⟩

/-- Files are taken in alike. -/
theorem takeFiles_prefixed (hst : (prefixing env).States s t)
    (workingPath : Except Mismatch String)
    (files : List (String × Except FetchFailure String)) :
    Parallel (prefixing env).pairing Eq s t
      (takeFiles env depth workingPath (collectIncludes env depth levels) files)
      (takeFiles env depth workingPath (collectIncludes env depth levels) files) := by
  induction files generalizing s t with
  | nil => exact .pure rfl hst
  | cons file rest ih =>
    obtain ⟨global, h⟩ := hst.footing
    obtain ⟨path, failure | text⟩ := file
    · refine .modify_bind (ih ⟨hst.scopes, hst.macros, hst.args, hst.reportable₁,
        hst.reportable₂, global, ?_⟩)
      exact congrArg (fun a : Footing => { a with failed := a.failed.insert path failure }) h
    · have hwithin := takeWithin_prefixed hnested (s := takingIn path s) (t := takingIn path t)
        ⟨hst.scopes, hst.macros, hst.args, hst.reportable₁, hst.reportable₂, global,
          congrArg (fun a : Footing =>
            { a with files := some path :: a.files, filename := some path }) h⟩
        workingPath path text
      refine .modify_bind (Parallel.bind (.bracket hwithin fun s' t' hst' => ?_)
        fun _ _ s₁ t₁ _ _ _ hst₁ => ih hst₁)
      refine ⟨hst'.scopes, hst'.macros, hst'.args, hst'.reportable₁, hst'.reportable₂, ?_⟩
      obtain ⟨global', h'⟩ := hst'.footing
      have hfiles : t.files = s.files := congrArg Footing.files h
      refine ⟨global', ?_⟩
      show ({ t'.footing with files := t.files, filename := t.files.head?.join } : Footing) = _
      rw [h', hfiles]
      rfl

end

/-- Loading the included files runs in parallel. Files are the same in both runs, so below the first
level both are one run. -/
theorem collectIncludes_prefixed (hst : (prefixing env).States s t) (depth levels : Nat)
    {root root' : Element} (h : PrefixedRoots env root root')
    (workingPath : Except Mismatch String) :
    Parallel (prefixing env).pairing Eq s t (collectIncludes env depth levels root workingPath)
      (collectIncludes env depth levels root' workingPath) := by
  induction levels generalizing root root' workingPath s t with
  | zero => exact .abort nofun
  | succ levels ih =>
    refine .get_bind ?_
    simp only [classify_beq env (d := .includeFile) nofun nofun]
    refine (includePaths_prefixed hst workingPath (includesOf_prefixed h) []).bind
      fun paths paths' s₁ t₁ _ _ hsame hst₁ => ?_
    cases hsame
    have hfetch : Parallel (prefixing env).pairing Eq s₁ t₁ (fetchAll env paths)
        (fetchAll env paths) :=
      .of_ok (fetchAll_apply paths s₁) (fetchAll_apply paths t₁) rfl
        ⟨hst₁.scopes, hst₁.macros, hst₁.args, hst₁.reportable₁, hst₁.reportable₂, hst₁.footing⟩
    refine hfetch.bind fun files files' s₂ t₂ _ _ hsame hst₂ => ?_
    cases hsame
    exact takeFiles_prefixed (fun root workingPath hst => ih hst (.refl root) workingPath) hst₂
      workingPath files

theorem disableLocalProperties_prefixed (hst : (prefixing env).States s t) :
    Parallel (prefixing env).pairing Eq s t disableLocalProperties disableLocalProperties := by
  refine .get_bind ?_
  rw [(prefixing_known hst).2.2.1]
  split
  · refine (hst.warn _ _).bind fun _ _ s₁ t₁ _ _ _ hst₁ => ?_
    obtain ⟨global, h⟩ := hst₁.footing
    exact Pairing.Ends.ok rfl ⟨hst₁.scopes, hst₁.macros, hst₁.args, hst₁.reportable₁,
      hst₁.reportable₂, global, congrArg (fun a : Footing => { a with localProperties := false }) h⟩
  · exact .pure rfl hst

/-- The root is prepared alike in both orders of processing. -/
theorem preparedRoot_prefixed (hst : (prefixing env).States s t) (depth : Nat) (inOrder : Bool)
    {root root' : Element} (h : PrefixedRoots env root root') :
    Parallel (prefixing env).pairing (PrefixedRoots env) s t (preparedRoot env depth inOrder root)
      (preparedRoot env depth inOrder root') := by
  cases inOrder with
  | true => exact .pure h hst
  | false =>
    refine (disableLocalProperties_prefixed hst).bind fun _ _ s₁ t₁ _ _ _ hst₁ => ?_
    refine (grabDefinitions_prefixed hst₁ depth h).bind fun _ _ s₂ t₂ _ _ _ hst₂ => ?_
    refine (stripDefinitions_prefixed hst₂ h).bind fun root root' s₃ t₃ _ _ h hst₃ => .get_bind ?_
    rw [(prefixing_known hst₃).2.1]
    exact (collectIncludes_prefixed hst₃ depth depth h _).bind
      fun _ _ s₄ t₄ _ _ _ hst₄ => .pure h hst₄

/-! ## Documents -/

/-- A document in related states gives the same document with other prefixes. -/
theorem expandDocument_prefixing (hst : (prefixing env).States (opened s) (opened t)) (depth : Nat)
    (inOrder : Bool) (d : Document) {nodes : List Node}
    (h : PrefixedNodes env d.root.children nodes) :
    (expandDocument env depth inOrder (withContent d nodes) t).1 =
      (expandDocument env depth inOrder d s).1 := by
  have hparallel : Parallel (prefixing env).pairing (fun out out' => out' = out)
      (opened s) (opened t)
      (preparedRoot env depth inOrder d.root >>= fun root =>
        expandParts env depth { d with root := root })
      (preparedRoot env depth inOrder (withContent d nodes).root >>= fun root =>
        expandParts env depth { withContent d nodes with root := root }) := by
    have hroots : PrefixedRoots env d.root (withContent d nodes).root := ⟨rfl, rfl, h⟩
    refine (preparedRoot_prefixed hst depth inOrder hroots).bind
      fun root root' s₁ t₁ _ _ hroots hst₁ => ?_
    exact (prefixing_simulation env).expandParts rfl hst₁ rfl hroots.tag hroots.attrs
      hroots.children rfl (fun _ _ => trivial)
      (fun _ _ _ => ⟨fun _ _ => trivial, fun _ _ _ => prefixing_fine _ _ _⟩)
      fun _ _ _ _ _ _ _ _ => trivial
  have hfaultless := expandDocument_faultless env depth inOrder d s
  rw [expandDocument_fst] at hfaultless ⊢
  rw [expandDocument_fst]
  unfold Parallel at hparallel
  generalize (preparedRoot env depth inOrder d.root >>= fun root =>
    expandParts env depth { d with root := root }) (opened s) = r at hparallel hfaultless ⊢
  generalize (preparedRoot env depth inOrder (withContent d nodes).root >>= fun root =>
    expandParts env depth { withContent d nodes with root := root }) (opened t) = r' at hparallel ⊢
  cases hparallel with
  | ok hvalue => rw [hvalue]
  | fault => exact absurd rfl (hfaultless _)
  | abort => rfl
  | overflow₁ h => exact h.elim
  | overflow₂ h => exact h.elim

/-- Where the prefix is not required, nodes with the prefix added differ in prefixes only. -/
theorem prefixedNodes_of_withPrefixes (hpermissive : env.requirePrefix = false)
    (h : WithPrefixes ns ns') : PrefixedNodes env ns ns' := by
  induction h with
  | nil => exact .nil
  | leaf hleaf _ ih => exact .leaf hleaf ih
  | element hprefixed _ _ ihchildren ih =>
    refine .element ⟨hprefixed, isPlainInclude_prefixed ihchildren, fun hrequired => ?_⟩
      ihchildren ih
    cases hpermissive.symm.trans hrequired
  | splice h => exact h.elim

/-- Expansions begin in states that are related. -/
theorem prefixing_opened (hs : Reportable s) (ht : Reportable t) (hargs : t.args = s.args)
    (hfooting : (opened t).footing = (opened s).footing) :
    (prefixing env).States (opened s) (opened t) where
  scopes := .cons (fun _ => Property.Alike.refl prefixedNodes_refl _) .nil
  macros _ := .none
  args := hargs
  reportable₁ := hs
  reportable₂ := ht
  footing := ⟨_, hfooting⟩

/-- Where the prefix is not required, it may be added to any of the bare directives below the root,
except for elements for including that stand for themselves: the document expands to the same, in
both orders of processing. -/
theorem expandDocument_prefixed (env : Environment) (hpermissive : env.requirePrefix = false)
    (depth : Nat) (inOrder : Bool) (d : Document) (nodes : List Node)
    (hprefixed : WithPrefixes d.root.children nodes) (s : State) (hs : Reportable s) :
    (expandDocument env depth inOrder (withContent d nodes) s).1 =
      (expandDocument env depth inOrder d s).1 :=
  expandDocument_prefixing (prefixing_opened hs hs rfl rfl) depth inOrder d
    (prefixedNodes_of_withPrefixes hpermissive hprefixed)

/-- The content of the document with a macro that is called in a block, where some of the directives
have the prefix. -/
def partlyPrefixed : List Node :=
  [.element "xacro:macro" [⟨"name", "m"⟩]
      [.element "xacro:if" [⟨"value", "1"⟩] [.element "a" [] []]],
    .element "property" [⟨"name", "p"⟩] [.element "m" [] []],
    .element "xacro:insert_block" [⟨"name", "p"⟩] []]

/-- With definitions gathered first, a document whose elements are partly prefixed has the same
output as the one without prefixes. -/
theorem expandDocument_prefixed_callInBlock :
    ∃ out, (innerElements out).map Element.tag = ["a"] ∧
      (expandDocument (.ofFiles false []) 8 false callInBlock (.fresh true)).1 = .ok out ∧
      (expandDocument (.ofFiles false []) 8 false (withContent callInBlock partlyPrefixed)
        (.fresh true)).1 = .ok out := by
  have hprefixed : WithPrefixes callInBlock.root.children partlyPrefixed := by
    have hsame (e : Element) : Prefixed e e := ⟨rfl, .inl rfl⟩
    have hadded {e e' : Element} (hbare : e.tag ∈ bareTags) (hattrs : e'.attrs = e.attrs)
        (htag : e'.tag = tagPrefix ++ e.tag) : Prefixed e e' := ⟨hattrs, .inr ⟨.inl hbare, htag⟩⟩
    refine .element (hadded (by decide) rfl rfl) ?_ (.element (hsame _) ?_ ?_)
    · exact .element (hadded (by decide) rfl rfl) (.refl hsame _) .nil
    · exact .refl hsame _
    · exact .element (hadded (by decide) rfl rfl) .nil .nil
  have hsame := expandDocument_prefixed (.ofFiles false []) rfl 8 false callInBlock partlyPrefixed
    hprefixed (.fresh true) ⟨_, rfl⟩
  have htags : (expandDocument (.ofFiles false []) 8 false callInBlock (.fresh true)).1.toOption.map
      (fun out => (innerElements out).map Element.tag) = some ["a"] := by
    decide +kernel
  cases hrun : (expandDocument (.ofFiles false []) 8 false callInBlock (.fresh true)).1 with
  | error => rw [hrun] at htags; cases htags
  | ok out =>
    rw [hrun] at htags hsame
    exact ⟨out, Option.some.inj htags, rfl, hsame⟩

end

end Expansion

end XmlMacros
