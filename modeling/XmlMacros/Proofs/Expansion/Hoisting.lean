import XmlMacros.Proofs.Expansion.Basic

/-!
# Gathering first is hoisting

When definitions are gathered first, a document is expanded as if all its outermost definitions
stood at the start of the root, first the properties and then the macros (`hoisted`), and the
document were expanded in reading order (`expandDocument_hoisted`). Both do the same steps: the
definitions are expanded for what they define and leave nothing behind (`expandNodes_definitions`),
and then what is left of the root is expanded. Nothing in front of the definitions may depend on
them, and there must be no files to gather from: no includes may be left when the definitions are
taken out.

It is not enough that there are no includes before the definitions are taken out
(`not_expandDocument_hoisted`): where the prefix is not required, an element may be ordinary only
because of a definition inside of it.
-/

namespace XmlMacros.Expansion

open XmlMacros.Markup

/-! ## Hoisted documents -/

/-- Whether an element defines a property or a macro. -/
def isDefining (env : Environment) (e : Element) : Bool :=
  (meaning env e).isDefinition

/-- The outermost definitions below a root that are of one sort, in document order. -/
def definitionsOf (env : Environment) (d : Directive) (root : Element) : List Element :=
  root.findElements (meaning env · == d) (isDefining env)

/-- The outermost definitions below a root, first the properties and then the macros. -/
def outermostDefinitions (env : Environment) (root : Element) : List Element :=
  definitionsOf env .property root ++ definitionsOf env .defineMacro root

/-- The document with its outermost definitions at the start of the root. -/
def hoisted (env : Environment) (d : Document) : Document :=
  { d with
    root :=
      { d.root with
        children := (outermostDefinitions env d.root).map Element.node
          ++ (d.root.strip (isDefining env)).children } }

/-- The includes below a root. -/
def includesOf (env : Environment) (root : Element) : List Element :=
  root.findElements (meaning env · == .includeFile) (fun _ => false)

/-- Nothing in front of the children of the root has anything to evaluate. -/
structure PlainStart (d : Document) : Prop where
  attrs : ∀ a ∈ d.root.attrs, '$' ∉ a.value.toList
  before : ∀ data, .comment data ∈ d.before → '$' ∉ data.toList

section
variable {env : Environment}

/-! ## Nothing to evaluate -/

/-- Comments in which nothing is evaluated are expanded to themselves. -/
theorem expandMisc_of_plain {ms : List Misc}
    (h : ∀ data, .comment data ∈ ms → '$' ∉ data.toList) : expandMisc env ms = pure ms := by
  induction ms with
  | nil => rfl
  | cons m rest ih =>
    have hm : evalMisc env m = pure m := by
      cases m with
      | comment data => rw [evalMisc, evalText_of_not_mem (h data List.mem_cons_self), map_pure]
      | instruction => rfl
    rw [expandMisc, hm, ih fun data hd => h data (List.mem_cons_of_mem _ hd)]
    rfl

/-- Attributes without anything to evaluate stay as they are, unless one of them takes back a
declaration. -/
theorem expandAttrs_of_plain {attrs : List Attr} (h : ∀ a ∈ attrs, '$' ∉ a.value.toList) :
    expandAttrs env attrs =
      if attrs.any Attr.resetsNamespace then throw (.mismatch .declaration) else pure attrs := by
  induction attrs with
  | nil => rfl
  | cons a rest ih =>
    rw [expandAttrs, ih fun a' ha => h a' (List.mem_cons_of_mem _ ha), expandAttr,
      evalText_of_not_mem (h a List.mem_cons_self), List.any_cons]
    cases hreset : a.resetsNamespace with
    | true => rfl
    | false =>
      rw [if_neg nofun, pure_bind, ← Attr.value?_eq_some hreset]
      cases rest.any Attr.resetsNamespace <;> rfl

/-! ## Definitions leave nothing behind -/

/-- A definition leaves no nodes. -/
theorem expandNode_definition {e : Element} (h : isDefining env e) (depth : Nat) :
    Returns (· = []) (expandNode env depth e.node) := by
  cases depth with
  | zero => exact .throw _
  | succ depth =>
    intro s
    have hs : isDefinition env s e := by rwa [isDefinition_eq]
    unfold isDefinition at hs
    have hperform : Returns (· = [])
        (perform env depth (expandNode env depth) e (classify env s e)) := by
      cases hc : classify env s e with
      | property => exact defineProperty_nil env depth e
      | defineMacro => exact defineMacro_nil depth e
      | _ => rw [hc] at hs; cases hs
    exact Returns.reportFault (P := (· = [])) rfl hperform s

/-- Expanding definitions in front of other nodes is doing them for what they define. -/
theorem expandNodes_definitions {es : List Element} (h : ∀ e ∈ es, isDefining env e) (depth : Nat)
    (nodes : List Node) :
    expandNodes (expandNode env depth) (es.map Element.node ++ nodes) = (do
      performAll env depth es
      expandNodes (expandNode env depth) nodes) := by
  induction es with
  | nil => rfl
  | cons e rest ih =>
    rw [List.map_cons, List.cons_append, expandNodes, performAll,
      (expandNode_definition (h e List.mem_cons_self) depth).bind_eq,
      ih fun e' he => h e' (List.mem_cons_of_mem _ he)]
    simp only [List.nil_append, bind_assoc, bind_pure]

/-- Elements one after the other are performed one after the other. -/
theorem performAll_append (depth : Nat) (xs ys : List Element) :
    performAll env depth (xs ++ ys) = (do performAll env depth xs; performAll env depth ys) := by
  induction xs with
  | nil => rfl
  | cons x rest ih =>
    rw [List.cons_append, performAll, performAll, ih, bind_assoc]

/-- A definition of a sort means this sort. -/
theorem meaning_of_mem_definitionsOf {d : Directive} {root e : Element}
    (h : e ∈ definitionsOf env d root) : meaning env e = d := by
  have := Element.isMatch_of_mem_findElements h
  exact eq_of_beq this

/-- The outermost definitions are definitions. -/
theorem isDefining_of_mem_outermost {root e : Element} (h : e ∈ outermostDefinitions env root) :
    isDefining env e := by
  unfold isDefining
  rcases List.mem_append.1 h with h | h
  · rw [meaning_of_mem_definitionsOf h]
    rfl
  · rw [meaning_of_mem_definitionsOf h]
    rfl

/-! ## Gathering -/

/-- But for calls and ordinary elements, a directive is told by the tag and not by the state. -/
theorem classify_beq (env : Environment) {d : Directive} (hinvoke : d ≠ .invoke)
    (hordinary : d ≠ .ordinary) (s : State) : (classify env s · == d) = (meaning env · == d) := by
  funext e
  rw [Bool.eq_iff_iff, beq_iff_eq, beq_iff_eq]
  exact classify_eq_iff hinvoke hordinary

/-- Which elements are gathered does not depend on what was gathered before. -/
theorem grabDefinitions_eq (depth : Nat) (root : Element) :
    grabDefinitions env depth root = performAll env depth (outermostDefinitions env root) := by
  unfold outermostDefinitions definitionsOf isDefining
  rw [performAll_append]
  unfold grabDefinitions
  simp only [classify_beq env (d := .property) nofun nofun,
    classify_beq env (d := .defineMacro) nofun nofun, isDefinition_eq]
  funext s
  rw [get_bind_apply]
  refine congrFun (congrArg _ ?_) s
  funext _ s
  rw [get_bind_apply]

/-- Which elements are taken out does not depend on what was gathered either. -/
theorem stripDefinitions_apply (root : Element) (s : State) :
    stripDefinitions env root s = (.ok (root.strip (isDefining env)), s) := by
  unfold stripDefinitions
  rw [get_bind_apply, isDefinition_eq]
  rfl

/-- Without includes no files are collected. -/
theorem collectIncludes_nil {root : Element} (h : includesOf env root = []) (depth levels : Nat)
    (workingPath : Except Mismatch String) :
    collectIncludes env depth (levels + 1) root workingPath = pure () := by
  funext s
  rw [collectIncludes, get_bind_apply, classify_beq env (d := .includeFile) nofun nofun]
  unfold includesOf at h
  rw [h]
  rfl

/-- Without includes, gathering does the definitions and takes them out. -/
theorem gather_eq {depth : Nat} {root : Element}
    (hincludes : includesOf env (root.strip (isDefining env)) = []) :
    gather env (depth + 1) root = (do
      disableLocalProperties
      performAll env (depth + 1) (outermostDefinitions env root)
      return root.strip (isDefining env)) := by
  unfold gather
  rw [grabDefinitions_eq]
  refine congrArg _ (funext fun _ => congrArg _ (funext fun _ => ?_))
  funext s
  rw [bind_of_ok (stripDefinitions_apply root s), get_bind_apply, collectIncludes_nil hincludes]
  rfl

/-- Without local properties, nothing is said about them. -/
theorem gather_apply {depth : Nat} {root : Element} {s : State} (hlocal : s.localProperties = false)
    (hincludes : includesOf env (root.strip (isDefining env)) = []) :
    gather env (depth + 1) root s = (do
      performAll env (depth + 1) (outermostDefinitions env root)
      return root.strip (isDefining env)) s := by
  have hdisable : disableLocalProperties s = (.ok (), s) := by
    unfold disableLocalProperties
    rw [get_bind_apply, hlocal]
    rfl
  rw [gather_eq hincludes, bind_of_ok hdisable]

/-! ## Both orders of processing -/

/-- The document without its outermost definitions. -/
def withoutDefinitions (env : Environment) (d : Document) : Document :=
  { d with root := d.root.strip (isDefining env) }

/-- Where nothing is evaluated in front of the children of the root, their expansion comes first. A
root that takes back a declaration is not expanded at all. -/
theorem expandParts_of_plain {d : Document} (hplain : PlainStart d) (depth : Nat) :
    expandParts env depth d =
      if d.root.attrs.any Attr.resetsNamespace then throw (.mismatch .declaration)
      else do
        let children ← expandNodes (expandNode env depth) d.root.children
        let after ← expandMisc env d.after
        return ⟨d.before, dropPrefixDeclaration { d.root with children := children }, after⟩ := by
  unfold expandParts expandElement
  rw [expandMisc_of_plain hplain.before, expandAttrs_of_plain hplain.attrs]
  cases d.root.attrs.any Attr.resetsNamespace with
  | true => rfl
  | false => simp only [Bool.false_eq_true, if_false, pure_bind, bind_assoc]

/-- Definitions that stand in front of the other children are performed when it is their turn, and
there is nothing to evaluate before. So it makes no difference whether they are performed before the
root is expanded. -/
theorem expandParts_hoisted_of_plain {d : Document} (hplain : PlainStart d) (depth : Nat)
    (s s' : State) (out : Document) :
    (do
      performAll env depth (outermostDefinitions env d.root)
      expandParts env depth (withoutDefinitions env d)) s = (.ok out, s') ↔
      expandParts env depth (hoisted env d) s = (.ok out, s') := by
  have hwithout : PlainStart (withoutDefinitions env d) := ⟨hplain.attrs, hplain.before⟩
  have hhoisted : PlainStart (hoisted env d) := ⟨hplain.attrs, hplain.before⟩
  rw [expandParts_of_plain hwithout, expandParts_of_plain hhoisted]
  cases hreset : d.root.attrs.any Attr.resetsNamespace with
  | true =>
    have h : (withoutDefinitions env d).root.attrs.any Attr.resetsNamespace := hreset
    have h' : (hoisted env d).root.attrs.any Attr.resetsNamespace := hreset
    rw [if_pos h, if_pos h']
    refine ⟨fun hrun => ?_, nofun⟩
    obtain ⟨_, _, _, hrun⟩ := bind_ok hrun
    cases hrun
  | false =>
    have h : ¬ (withoutDefinitions env d).root.attrs.any Attr.resetsNamespace :=
      Bool.eq_false_iff.1 hreset
    have h' : ¬ (hoisted env d).root.attrs.any Attr.resetsNamespace := Bool.eq_false_iff.1 hreset
    have hdefining : ∀ e ∈ outermostDefinitions env d.root, isDefining env e :=
      fun e he => isDefining_of_mem_outermost he
    have hchildren :=
      expandNodes_definitions hdefining depth (withoutDefinitions env d).root.children
    rw [if_neg h, if_neg h', ← bind_assoc, ← hchildren]
    rfl

/-- Gathering definitions first gives the same document, in the same state, as expanding the hoisted
document in reading order. If one of them fails, so does the other. -/
theorem expandDocument_hoisted (env : Environment) (depth : Nat) (d : Document) (s : State)
    (hlocal : s.localProperties = false) (hplain : PlainStart d)
    (hincludes : includesOf env (withoutDefinitions env d).root = []) (out : Document)
    (s' : State) :
    expandDocument env (depth + 1) false d s = (.ok out, s') ↔
      expandDocument env (depth + 1) true (hoisted env d) s = (.ok out, s') := by
  unfold expandDocument isolated preparedRoot
  rw [bracket_ok_iff, bracket_ok_iff]
  refine exists_congr fun t => and_congr_left fun _ => ?_
  rw [if_neg nofun, if_pos rfl, pure_bind]
  generalize hs₁ : { s with scopes := Scopes.initial, macros := Dict.empty } = s₁
  have hlocal₁ : s₁.localProperties = false := by
    rw [← hs₁]
    exact hlocal
  rw [bind_congr_left (gather_apply hlocal₁ hincludes), bind_assoc]
  exact expandParts_hoisted_of_plain hplain (depth + 1) s₁ t out

/-- The tags of the elements directly below the root. -/
def childTags (d : Document) : List String :=
  (d.root.children.filterMap Node.element?).map Element.tag

/-- A macro that is called before it is defined, with a property from inside of an element. -/
def calledEarly : Document where
  before := []
  root := ⟨"r", [],
    [.element "xacro:m" [] [],
      .element "a" [] [.element "xacro:property" [⟨"name", "p"⟩, ⟨"value", "1"⟩] []],
      .element "xacro:macro" [⟨"name", "m"⟩]
        [.element "xacro:if" [⟨"value", "${p}"⟩] [.element "b" [] []]]]⟩
  after := []

/-- A macro that is called in front of its definition is found in both runs, and the outputs are the
same. -/
theorem expandDocument_hoisted_calledEarly :
    ∃ out s', childTags out = ["b", "a"] ∧
      expandDocument (.ofFiles true []) 8 false calledEarly (.fresh false) = (.ok out, s') ∧
      expandDocument (.ofFiles true []) 8 true (hoisted (.ofFiles true []) calledEarly)
        (.fresh false) = (.ok out, s') := by
  have htags : (expandDocument (.ofFiles true []) 8 false calledEarly (.fresh false)).1.toOption.map
      childTags = some ["b", "a"] := by
    decide +kernel
  have hplain : PlainStart calledEarly := ⟨nofun, nofun⟩
  have hincludes :
      includesOf (.ofFiles true []) (withoutDefinitions (.ofFiles true []) calledEarly).root = [] :=
    List.eq_nil_of_length_eq_zero (by decide)
  rcases hrun : expandDocument (.ofFiles true []) 8 false calledEarly (.fresh false) with
    ⟨_ | out, s'⟩
  · rw [hrun] at htags
    cases htags
  · rw [hrun] at htags
    exact ⟨out, s', Option.some.inj htags, rfl,
      (expandDocument_hoisted _ 7 _ _ rfl hplain hincludes out s').1 hrun⟩

/-- An element in a bare tag that includes a file only after the definition inside of it is taken
out. The file defines a macro. -/
def includeAroundProperty : Document where
  before := []
  root := ⟨"r", [],
    [.element "m" [] [],
      .element "include" [⟨"filename", "f"⟩]
        [.element "property" [⟨"name", "q"⟩, ⟨"value", "1"⟩] []]]⟩
  after := []

/-- Without includes before the definitions are taken out, there may be some afterwards, and the
files they name define more than the hoisted document does. -/
theorem not_expandDocument_hoisted :
    ¬ ∀ (env : Environment) (depth : Nat) (d : Document) (s : State),
      s.localProperties = false → PlainStart d → includesOf env d.root = [] →
      (expandDocument env (depth + 1) false d s).1.toOption =
        (expandDocument env (depth + 1) true (hoisted env d) s).1.toOption := by
  intro h
  let env : Environment := .ofFiles false [("f", "<d><macro name=\"m\"><b/></macro></d>")]
  have hincludes : includesOf env includeAroundProperty.root = [] :=
    List.eq_nil_of_length_eq_zero (by decide)
  have hsame := h env 7 includeAroundProperty (.fresh false) rfl ⟨nofun, nofun⟩ hincludes
  have hgathered : (expandDocument env 8 false includeAroundProperty (.fresh false)).1.toOption.map
      childTags = some ["b"] := by
    decide +kernel
  have hhoisted : (expandDocument env 8 true (hoisted env includeAroundProperty)
      (.fresh false)).1.toOption.map childTags = some ["m"] := by
    decide +kernel
  rw [hsame, hhoisted] at hgathered
  exact absurd hgathered (by decide)

end

end XmlMacros.Expansion
