import XmlMacros.Proofs.Expansion.Emission
import XmlMacros.Proofs.Expansion.Hoisting
import XmlMacros.Proofs.Expansion.Quiet

/-!
# Expanding what was expanded

Where the prefix is required, a document that an expansion gave, and in which nothing is left to
evaluate, expands to itself, in either order of processing and whatever can be read meanwhile
(`expandDocument_idempotent`). What comes out of an expansion is `Expanded`: leaves, and elements
that are no directives and whose attributes have values, nested as deeply as the expansion may go.
Such nodes expand to themselves if nothing in them is to be evaluated (`expandNode_of_expanded`),
and there is nothing to gather from them (`gather_of_expanded`).
-/

namespace XmlMacros.Expansion

open XmlMacros.Markup

/-! ## What is to be evaluated -/

mutual

/-- The texts in a node that are evaluated: the values of attributes, and the data of all leaves but
instructions. -/
def textsAt : Node → List String
  | .element _ attrs children => attrs.map Attr.value ++ textsIn children
  | .text data | .cdata data | .comment data => [data]
  | .instruction _ _ => []

/-- The texts in a list of nodes that are evaluated. -/
def textsIn : List Node → List String
  | [] => []
  | n :: rest => textsAt n ++ textsIn rest

end

/-- Whether nothing in a node is to be evaluated. -/
def Plain (n : Node) : Prop :=
  ∀ text ∈ textsAt n, '$' ∉ text.toList

/-- The texts in a list are those in its nodes. -/
theorem mem_textsIn {text : String} {nodes : List Node} :
    text ∈ textsIn nodes ↔ ∃ n ∈ nodes, text ∈ textsAt n := by
  induction nodes with
  | nil => simp [textsIn]
  | cons n rest ih => simp [textsIn, ih]

/-- If no text in a list has a dollar sign in it, every node of the list is plain. -/
theorem plain_of_textsIn {nodes : List Node} (h : ∀ text ∈ textsIn nodes, '$' ∉ text.toList)
    {n : Node} (hn : n ∈ nodes) : Plain n :=
  fun text htext => h text (mem_textsIn.2 ⟨n, hn, htext⟩)

/-- The values of a plain element's attributes are plain. -/
theorem Plain.attrs {e : Element} (h : Plain e.node) : ∀ a ∈ e.attrs, '$' ∉ a.value.toList :=
  fun a ha => h a.value (List.mem_append_left _ (List.mem_map_of_mem ha))

/-- The children of a plain element are plain. -/
theorem Plain.children {e : Element} (h : Plain e.node) : ∀ n ∈ e.children, Plain n :=
  fun _ hn => plain_of_textsIn (fun text htext => h text (List.mem_append_right _ htext)) hn

/-! ## What comes out -/

/-- A node as expansions give it: a leaf, or an element that is no directive and whose attributes
have values, around such nodes; nested less than so deeply. -/
inductive Expanded : Nat → Node → Prop
  | leaf {depth : Nat} {n : Node} (h : n.element? = none) : Expanded (depth + 1) n
  | element {depth : Nat} {e : Element} (htag : stripTag? e.tag = none)
    (hattrs : ∀ a ∈ e.attrs, a.resetsNamespace = false)
    (hchildren : ∀ n ∈ e.children, Expanded depth n) : Expanded (depth + 1) e.node

/-- The bound on how deeply a node is nested may be greater. -/
theorem Expanded.succ {depth : Nat} {n : Node} (h : Expanded depth n) : Expanded (depth + 1) n := by
  induction h with
  | leaf h => exact .leaf h
  | element htag hattrs _ ih => exact .element htag hattrs ih

/-- Every node that an expansion gives is one that `Expanded` describes. -/
theorem Expanded.emission (env : Environment) : Emission env Expanded where
  deeper h := h.succ
  leaf h := .leaf h
  element hordinary hattrs hchildren := by
    have htag := stripTag?_of_ordinary hordinary
    exact .element htag hattrs hchildren

section
variable {env : Environment}

/-- In a document that an expansion gave, the root has attributes with values and does not declare
the prefix of directives, and the nodes in it are expanded. -/
theorem expandDocument_expanded (depth : Nat) (inOrder : Bool) (d : Document) :
    Returns (fun out : Document => dropPrefixDeclaration out.root = out.root ∧
      (∀ a ∈ out.root.attrs, a.resetsNamespace = false) ∧
      ∀ n ∈ out.root.children, Expanded depth n) (expandDocument env depth inOrder d) := by
  unfold expandDocument isolated
  refine .bracket (.bind fun root => .bind fun before => ?_)
  have hnode := (Expanded.emission env).expandNode depth
  refine (expandElement_emits hnode root).bind_of fun root' h => .bind fun after => .pure ?_
  obtain ⟨-, hattrs, hchildren⟩ := h
  refine ⟨?_, fun a ha => hattrs a (List.mem_filter.1 ha).1, hchildren⟩
  simp [dropPrefixDeclaration]

/-! ## Nothing happens to it -/

/-- If nodes expand to themselves one by one, so do they together. -/
theorem expandNodes_of_pure {expand : Expand} {nodes : List Node}
    (h : ∀ n ∈ nodes, expand n = pure [n]) : expandNodes expand nodes = pure nodes := by
  induction nodes with
  | nil => rfl
  | cons n rest ih =>
    obtain ⟨hn, hrest⟩ := List.forall_mem_cons.1 h
    rw [expandNodes, hn, ih hrest]
    rfl

/-- Of an element with nothing to evaluate in the attributes, only the children change. -/
theorem expandElement_of_plain_attrs {expand : Expand} {e : Element}
    (hreset : ∀ a ∈ e.attrs, a.resetsNamespace = false)
    (hplain : ∀ a ∈ e.attrs, '$' ∉ a.value.toList) :
    expandElement env expand e = (do return ⟨e.tag, e.attrs, ← expandNodes expand e.children⟩) := by
  have hany : e.attrs.any Attr.resetsNamespace = false :=
    List.any_eq_false.2 fun a ha => by rw [hreset a ha]; exact Bool.false_ne_true
  rw [expandElement, expandAttrs_of_plain hplain, hany, if_neg Bool.false_ne_true, pure_bind]

/-- An ordinary element whose attributes are plain is expanded to itself if its children are, and
the state stays as it is. -/
theorem expandElement_of_plain {expand : Expand} {e : Element}
    (hreset : ∀ a ∈ e.attrs, a.resetsNamespace = false)
    (hplain : ∀ a ∈ e.attrs, '$' ∉ a.value.toList)
    (hchildren : ∀ n ∈ e.children, expand n = pure [n]) : expandElement env expand e = pure e := by
  rw [expandElement_of_plain_attrs hreset hplain, expandNodes_of_pure hchildren, pure_bind]

/-- A leaf with plain data is expanded to itself. -/
theorem expandLeaf_of_plain {n : Node} (hleaf : n.element? = none) (hplain : Plain n) :
    expandLeaf env n = pure n := by
  have heval : ∀ text ∈ textsAt n, evalText env text = pure text := fun text htext =>
    evalText_of_not_mem (hplain text htext)
  cases n with
  | element => cases hleaf
  | text data | cdata data | comment data =>
    rw [expandLeaf, heval data List.mem_cons_self, map_pure]
  | instruction => rfl

/-- Where the prefix is required, an expanded node without anything to evaluate expands to
itself. -/
theorem expandNode_of_expanded (hrequired : env.requirePrefix = true) {depth : Nat} {n : Node}
    (h : Expanded depth n) (hplain : Plain n) : expandNode env depth n = pure [n] := by
  induction h with
  | @leaf depth n hleaf =>
    have hn : expandLeaf env n = pure n := expandLeaf_of_plain hleaf hplain
    cases n with
    | element => cases hleaf
    | text | cdata | comment | instruction => rw [expandNode, hn, pure_bind]; nofun
  | @element depth e htag hattrs _ ih =>
    have he : expandElement env (expandNode env depth) e = pure e :=
      expandElement_of_plain hattrs hplain.attrs fun n hn => ih n hn (hplain.children n hn)
    funext s
    show reportFault (perform env depth (expandNode env depth) e (classify env s e)) s = _
    rw [classify_of_requirePrefix hrequired htag s, perform, he]
    rfl

/-! ## Nothing to gather from it -/

/-- Nothing is found in a list if nothing is found in its nodes. -/
theorem findIn_eq_nil {isMatch prune : Element → Bool} {nodes : List Node}
    (h : ∀ n ∈ nodes, findAt isMatch prune n = []) : findIn isMatch prune nodes = [] := by
  induction nodes with
  | nil => rfl
  | cons n rest ih =>
    obtain ⟨hn, hrest⟩ := List.forall_mem_cons.1 h
    rw [findIn, hn, ih hrest, List.nil_append]

/-- Nothing is stripped from a list if nothing is stripped from its nodes. -/
theorem stripNodes_eq_self {isMatch : Element → Bool} {nodes : List Node}
    (h : ∀ n ∈ nodes, stripNode isMatch n = [n]) : stripNodes isMatch nodes = nodes := by
  induction nodes with
  | nil => rfl
  | cons n rest ih =>
    obtain ⟨hn, hrest⟩ := List.forall_mem_cons.1 h
    rw [stripNodes, hn, ih hrest, List.singleton_append]

section
variable {isMatch prune : Element → Bool} (hmatch : ∀ e, stripTag? e.tag = none → isMatch e = false)

include hmatch

/-- Nothing is found in expanded nodes that no element without the prefix matches. -/
theorem findAt_of_expanded {depth : Nat} {n : Node} (h : Expanded depth n) :
    findAt isMatch prune n = [] := by
  induction h with
  | @leaf depth n hleaf =>
    cases n with
    | element => cases hleaf
    | text | cdata | comment | instruction => rfl
  | @element depth e htag _ _ ih =>
    rw [Element.node, findAt, hmatch e htag, findIn_eq_nil ih]
    cases prune e <;> rfl

/-- Nothing is stripped from an expanded node, for the elements that are looked for have tags with
the prefix. -/
theorem stripNode_of_expanded {depth : Nat} {n : Node} (h : Expanded depth n) :
    stripNode isMatch n = [n] := by
  induction h with
  | @leaf depth n hleaf =>
    cases n with
    | element => cases hleaf
    | text | cdata | comment | instruction => rfl
  | @element depth e htag _ _ ih =>
    rw [Element.node, stripNode, hmatch e htag, stripNodes_eq_self ih]
    rfl

end

/-- Where the prefix is required, an element without it means nothing. -/
theorem meaning_of_requirePrefix (hrequired : env.requirePrefix = true) {e : Element}
    (h : stripTag? e.tag = none) : meaning env e = .ordinary := by
  unfold meaning Directive.classify
  rw [h, hrequired]
  rfl

/-- From expanded nodes nothing is gathered. -/
theorem gather_of_expanded (hrequired : env.requirePrefix = true) (depth : Nat) {root : Element}
    (h : ∀ n ∈ root.children, Expanded (depth + 1) n) :
    gather env (depth + 1) root = (do disableLocalProperties; return root) := by
  have hmeans {d : Directive} (hd : d ≠ .ordinary) :
      ∀ e, stripTag? e.tag = none → (meaning env e == d) = false := by
    intro e he
    rw [meaning_of_requirePrefix hrequired he]
    exact beq_eq_false_iff_ne.2 hd.symm
  have hdefining : ∀ e, stripTag? e.tag = none → isDefining env e = false := by
    intro e he
    rw [isDefining, meaning_of_requirePrefix hrequired he]
    rfl
  have hstrip : root.strip (isDefining env) = root := by
    rw [Element.strip, stripNodes_eq_self fun n hn => stripNode_of_expanded hdefining (h n hn)]
  have hfind (d : Directive) (hd : d ≠ .ordinary) (prune : Element → Bool) :
      root.findElements (meaning env · == d) prune = [] :=
    findIn_eq_nil fun n hn => findAt_of_expanded (hmeans hd) (h n hn)
  have hincludes : includesOf env (root.strip (isDefining env)) = [] := by
    rw [hstrip]
    exact hfind .includeFile nofun _
  have hdefinitions : outermostDefinitions env root = [] := by
    unfold outermostDefinitions definitionsOf
    rw [hfind .property nofun, hfind .defineMacro nofun, List.append_nil]
  rw [gather_eq hincludes, hdefinitions, hstrip]
  rfl

/-! ## Documents -/

theorem disableLocalProperties_ok {s : State}
    (h : s.localProperties = true → ∃ x, s.console.verbosity = .level x) :
    ∃ s', disableLocalProperties s = (.ok (), s') := by
  unfold disableLocalProperties
  rw [get_bind_apply]
  cases hlocal : s.localProperties with
  | false => exact ⟨s, rfl⟩
  | true =>
    obtain ⟨x, hx⟩ := h hlocal
    obtain ⟨s', hwarn⟩ := warn_of_level hx
      ("local properties are not supported when gathering definitions first, "
        ++ "all properties are global")
    exact ⟨_, bind_of_ok hwarn⟩

/-- A root in which there is nothing to gather is expanded as it is. -/
theorem preparedRoot_of_expanded (hrequired : env.requirePrefix = true) (depth : Nat)
    (inOrder : Bool) {root : Element} (h : ∀ n ∈ root.children, Expanded (depth + 1) n) {s : State}
    (hverbosity : inOrder = false → s.localProperties = true →
      ∃ x, s.console.verbosity = .level x) :
    ∃ s', preparedRoot env (depth + 1) inOrder root s = (.ok root, s') := by
  cases inOrder with
  | true => exact ⟨s, rfl⟩
  | false =>
    obtain ⟨s', hdisable⟩ := disableLocalProperties_ok (hverbosity rfl)
    refine ⟨s', ?_⟩
    show gather env (depth + 1) root s = _
    rw [gather_of_expanded hrequired depth h, bind_of_ok hdisable]
    rfl

/-- The parts of an expanded document without anything to evaluate expand to themselves. -/
theorem expandParts_of_expanded (hrequired : env.requirePrefix = true) {depth : Nat} {d : Document}
    (hplain : ∀ text ∈ textsIn d.nodes, '$' ∉ text.toList)
    (hdeclared : dropPrefixDeclaration d.root = d.root)
    (hattrs : ∀ a ∈ d.root.attrs, a.resetsNamespace = false)
    (hchildren : ∀ n ∈ d.root.children, Expanded depth n) : expandParts env depth d = pure d := by
  have hnodes : ∀ n ∈ d.nodes, Plain n := fun n hn => plain_of_textsIn hplain hn
  have hbefore : expandMisc env d.before = pure d.before :=
    expandMisc_of_plain fun data hdata =>
      hnodes (.comment data) (List.mem_append_left _ (List.mem_map_of_mem hdata)) data
        List.mem_cons_self
  have hafter : expandMisc env d.after = pure d.after :=
    expandMisc_of_plain fun data hdata =>
      hnodes (.comment data)
        (List.mem_append_right _ (List.mem_cons_of_mem _ (List.mem_map_of_mem hdata))) data
        List.mem_cons_self
  have hrootPlain : Plain d.root.node :=
    hnodes _ (List.mem_append_right _ List.mem_cons_self)
  have hroot : expandElement env (expandNode env depth) d.root = pure d.root :=
    expandElement_of_plain hattrs hrootPlain.attrs fun n hn =>
      expandNode_of_expanded hrequired (hchildren n hn) (hrootPlain.children n hn)
  rw [expandParts, hbefore, hroot, hafter]
  simp only [pure_bind, hdeclared]

/-- A document that an expansion gave, and in which no text is left to evaluate, expands to itself
if the prefix is required: in either order of processing, with any files, commands and arguments.
Only the warning that local properties are not supported asks for a verbosity that is a number. -/
theorem expandDocument_idempotent (env env' : Environment) (depth : Nat) (inOrder inOrder' : Bool)
    (d out : Document) (s s' t : State)
    (hrun : expandDocument env (depth + 1) inOrder d s = (.ok out, s'))
    (hrequired : env'.requirePrefix = true)
    (hplain : ∀ text ∈ textsIn out.nodes, '$' ∉ text.toList)
    (hverbosity : inOrder' = false → t.localProperties = true →
      ∃ x, t.console.verbosity = .level x) :
    (expandDocument env' (depth + 1) inOrder' out t).1 = .ok out := by
  obtain ⟨hdeclared, hattrs, hchildren⟩ :=
    expandDocument_expanded (depth + 1) inOrder d s out s' hrun
  obtain ⟨t', hprepared⟩ :=
    preparedRoot_of_expanded (s := opened t) hrequired depth inOrder' hchildren hverbosity
  have hparts : expandParts env' (depth + 1) { out with root := out.root } t' = (.ok out, t') := by
    rw [expandParts_of_expanded hrequired hplain hdeclared hattrs hchildren]
    rfl
  rw [expandDocument_fst, bind_of_ok hprepared, hparts]

/-- A macro that evaluates an attribute, and a call of it. -/
def evaluatedCall : Document where
  before := []
  root := ⟨"r", [],
    [.element "xacro:macro" [⟨"name", "m"⟩] [.element "a" [⟨"x", "${1 + 1}"⟩] []],
      .element "xacro:m" [] []]⟩
  after := []

/-- The output of a document whose macro gives `2` is expanded again, with definitions gathered
first this time, and stays the same. -/
theorem expandDocument_idempotent_evaluatedCall :
    ∃ out s', expandDocument (.ofFiles true []) 8 true evaluatedCall (.fresh true) = (.ok out, s') ∧
      textsIn out.nodes = ["2"] ∧
      (expandDocument (.ofFiles true []) 8 false out (.fresh true)).1 = .ok out := by
  have htexts : (expandDocument (.ofFiles true []) 8 true evaluatedCall
      (.fresh true)).1.toOption.map (fun out => textsIn out.nodes) = some ["2"] := by
    decide +kernel
  rcases hrun : expandDocument (.ofFiles true []) 8 true evaluatedCall (.fresh true) with
    ⟨_ | out, s'⟩
  · rw [hrun] at htexts
    cases htexts
  · rw [hrun] at htexts
    have htexts : textsIn out.nodes = ["2"] := Option.some.inj htexts
    have hplain : ∀ text ∈ textsIn out.nodes, '$' ∉ text.toList := by
      rw [htexts]
      decide
    exact ⟨out, s', rfl, htexts,
      expandDocument_idempotent _ _ 7 true false _ out _ s' _ hrun rfl hplain fun _ _ => ⟨_, rfl⟩⟩

end

end XmlMacros.Expansion
