import XmlMacros.Proofs.Expansion.Emission

/-!
# No directive survives

Expansion puts other nodes in the place of every directive, or nothing at all. So except for its
root an expanded document has no elements with tags of directives (`expandDocument_no_directives`),
wherever the nodes come from: the document itself, bodies of macros, blocks, arguments of calls and
included files. What all nodes have in common that an expansion gives is `Clean`; an element only
comes out as itself when it is ordinary, and then its tag is no directive's
(`not_isDirectiveTag_of_ordinary`).
-/

namespace XmlMacros.Expansion

open XmlMacros.Markup

/-- The bare tags that stand for directives where the prefix is not required, whatever the element
holds. -/
def bareTags : List String :=
  ["property", "macro", "insert_block", "if", "unless", "element", "attribute"]

/-- A tag that ordinary elements never have. -/
def IsDirectiveTag (env : Environment) (tag : String) : Prop :=
  tagPrefix.toList <+: tag.toList ∨ env.requirePrefix = false ∧ tag ∈ bareTags

/-- All elements in a list of nodes, at any depth. -/
def elementsIn (nodes : List Node) : List Element :=
  findIn (fun _ => true) (fun _ => false) nodes

/-- Induction over nodes along their elements. -/
theorem nodes_induction {P : List Node → Prop} (nil : P [])
    (element : ∀ (e : Element) rest, P e.children → P rest → P (e.node :: rest))
    (leaf : ∀ (n : Node) rest, n.element? = none → P rest → P (n :: rest)) : ∀ nodes, P nodes
  | [] => nil
  | .element tag attrs children :: rest =>
    element ⟨tag, attrs, children⟩ rest (nodes_induction nil element leaf children)
      (nodes_induction nil element leaf rest)
  | .text _ :: rest | .cdata _ :: rest | .comment _ :: rest | .instruction _ _ :: rest =>
    leaf _ rest rfl (nodes_induction nil element leaf rest)

theorem elementsIn_cons (e : Element) (rest : List Node) :
    elementsIn (e.node :: rest) = e :: elementsIn e.children ++ elementsIn rest := by
  unfold elementsIn
  rw [findIn, Element.node, findAt]
  rfl

/-- A leaf has no elements in it. -/
theorem elementsIn_leaf {n : Node} (h : n.element? = none) (rest : List Node) :
    elementsIn (n :: rest) = elementsIn rest := by
  cases n with
  | element => cases h
  | text | cdata | comment | instruction => rfl

theorem forall_elementsIn_cons {P : Element → Prop} {e : Element} {rest : List Node} :
    (∀ e' ∈ elementsIn (e.node :: rest), P e') ↔
      P e ∧ (∀ e' ∈ elementsIn e.children, P e') ∧ ∀ e' ∈ elementsIn rest, P e' := by
  rw [elementsIn_cons, List.forall_mem_append, List.forall_mem_cons, and_assoc]

/-- The elements among some nodes are elements in them. -/
theorem filterMap_element?_subset (nodes : List Node) :
    nodes.filterMap Node.element? ⊆ elementsIn nodes := by
  induction nodes with
  | nil => exact List.nil_subset _
  | cons n rest ih =>
    cases n with
    | element tag attrs children =>
      have hcons : elementsIn (.element tag attrs children :: rest) = _ :=
        elementsIn_cons ⟨tag, attrs, children⟩ rest
      rw [hcons]
      refine List.cons_subset.2 ⟨List.mem_cons_self, ?_⟩
      exact List.subset_append_of_subset_right _ ih
    | text | cdata | comment | instruction => exact ih

/-- The elements in an element of some nodes are elements in the nodes. -/
theorem elementsIn_subset {nodes : List Node} {e : Element} (he : e ∈ elementsIn nodes) :
    elementsIn e.children ⊆ elementsIn nodes := by
  induction nodes using nodes_induction with
  | nil => cases he
  | element e' rest ihchildren ihrest =>
    rw [elementsIn_cons] at he ⊢
    rcases List.mem_append.1 he with he | he
    · refine List.subset_append_of_subset_left _ ?_
      rcases List.mem_cons.1 he with rfl | he
      · exact List.subset_cons_self _ _
      · exact List.subset_cons_of_subset _ (ihchildren he)
    · exact List.subset_append_of_subset_right _ (ihrest he)
  | leaf n rest hleaf ih =>
    rw [elementsIn_leaf hleaf] at he ⊢
    exact ih he

/-- What is found among some nodes are elements in them. -/
theorem findIn_subset_elementsIn (isMatch prune : Element → Bool) (nodes : List Node) :
    findIn isMatch prune nodes ⊆ elementsIn nodes := by
  induction nodes using nodes_induction with
  | nil => exact List.nil_subset _
  | element e rest ihchildren ihrest =>
    rw [elementsIn_cons, findIn, Element.node, findAt]
    refine List.append_subset.2 ⟨List.append_subset.2 ⟨?_, ?_⟩,
      List.subset_append_of_subset_right _ ihrest⟩
    · split
      · exact List.cons_subset.2 ⟨List.mem_cons_self, List.nil_subset _⟩
      · exact List.nil_subset _
    · split
      · exact List.nil_subset _
      · exact List.subset_append_of_subset_left _ (List.subset_cons_of_subset _ ihchildren)
  | leaf n rest hleaf ih =>
    rw [elementsIn_leaf hleaf]
    cases n with
    | element => cases hleaf
    | text | cdata | comment | instruction => exact ih

/-- The elements in nodes that some were taken out of are those that were left, without what was
taken out of them. -/
theorem mem_elementsIn_stripNodes {isMatch : Element → Bool} {nodes : List Node} {e : Element}
    (he : e ∈ elementsIn (stripNodes isMatch nodes)) :
    ∃ e' ∈ elementsIn nodes, isMatch e' = false ∧ e = e'.strip isMatch := by
  induction nodes using nodes_induction with
  | nil => cases he
  | element e' rest ihchildren ihrest =>
    rw [elementsIn_cons]
    have hrest (he : e ∈ elementsIn (stripNodes isMatch rest)) :
        ∃ e₀ ∈ e' :: elementsIn e'.children ++ elementsIn rest,
          isMatch e₀ = false ∧ e = e₀.strip isMatch :=
      (ihrest he).imp fun _ h => ⟨List.mem_append_right _ h.1, h.2⟩
    rw [stripNodes, Element.node, stripNode] at he
    split at he
    · exact hrest he
    · next hmatch =>
      have he : e ∈ elementsIn ((e'.strip isMatch).node :: stripNodes isMatch rest) := he
      rw [elementsIn_cons] at he
      rcases List.mem_append.1 he with he | he
      · rcases List.mem_cons.1 he with rfl | he
        · exact ⟨e', List.mem_append_left _ List.mem_cons_self, Bool.eq_false_iff.2 hmatch,
            rfl⟩
        · obtain ⟨e₀, hmem, h⟩ := ihchildren he
          exact ⟨e₀, List.mem_append_left _ (List.mem_cons_of_mem _ hmem), h⟩
      · exact hrest he
  | leaf n rest hleaf ih =>
    rw [elementsIn_leaf hleaf]
    cases n with
    | element => cases hleaf
    | text | cdata | comment | instruction => exact ih he

/-- All elements of a document except its root. -/
def innerElements (d : Document) : List Element :=
  elementsIn (d.before.map Misc.node ++ d.root.children ++ d.after.map Misc.node)

/-- The nodes contain no directives. -/
def Clean (env : Environment) (nodes : List Node) : Prop :=
  ∀ e ∈ elementsIn nodes, ¬ IsDirectiveTag env e.tag

section
variable {env : Environment}

theorem Clean.nil : Clean env [] := by
  intro e he
  cases he

/-- Two clean lists are clean one after the other. -/
theorem Clean.append {xs ys : List Node} (hx : Clean env xs) (hy : Clean env ys) :
    Clean env (xs ++ ys) := by
  intro e he
  unfold elementsIn at he
  rw [findIn_append, List.mem_append] at he
  rcases he with he | he
  · exact hx e he
  · exact hy e he

/-- An element with a tag that is no directive's is clean if its children are. -/
theorem Clean.element {e : Element} (htag : ¬ IsDirectiveTag env e.tag)
    (hchildren : Clean env e.children) : Clean env [e.node] := by
  intro e' he'
  rcases List.mem_cons.1 (by simpa [elementsIn, findIn, findAt, Element.node] using he') with
    rfl | he'
  · exact htag
  · exact hchildren e' he'

/-- Nodes other than elements contain none. -/
theorem Clean.leaf {n : Node} (h : n.element? = none) : Clean env [n] := by
  intro e he
  cases n with
  | element => cases h
  | text | cdata | comment | instruction => cases he

/-- A bare tag is that of a directive, which is no include. -/
theorem ofBareTag?_isSome {tag : String} (h : tag ∈ bareTags) :
    ∃ d, Directive.ofBareTag? tag = some d ∧ d ≠ .includeFile ∧ d ≠ .ordinary := by
  simp only [bareTags, List.mem_cons, List.not_mem_nil, or_false] at h
  rcases h with rfl | rfl | rfl | rfl | rfl | rfl | rfl <;> exact ⟨_, rfl, nofun, nofun⟩

/-- Around a root there are no elements. -/
theorem Clean.misc (ms : List Misc) : Clean env (ms.map Misc.node) := by
  induction ms with
  | nil => exact .nil
  | cons m rest ih =>
    refine Clean.append (.leaf (n := m.node) ?_) ih
    cases m <;> rfl

/-- The tag of an ordinary element is no directive's. -/
theorem not_isDirectiveTag_of_ordinary {s : State} {e : Element}
    (h : classify env s e = .ordinary) : ¬ IsDirectiveTag env e.tag := by
  have hnone := stripTag?_of_ordinary h
  rintro (hstart | ⟨hrequire, hbare⟩)
  · rw [stripTag?, if_pos (List.isPrefixOf_iff_prefix.2 hstart)] at hnone
    cases hnone
  · obtain ⟨d, hd, hinclude, hordinary⟩ := ofBareTag?_isSome hbare
    unfold classify Directive.classify at h
    rw [hnone, hrequire, hd] at h
    cases d with
    | includeFile => exact hinclude rfl
    | _ => exact hordinary h

/-! ## What expansion gives -/

/-- If every node is expanded to clean nodes, so is a list of them. -/
theorem expandNodes_clean {expand : Expand} (h : ∀ n, Returns (Clean env) (expand n))
    (nodes : List Node) : Returns (Clean env) (expandNodes expand nodes) := by
  induction nodes with
  | nil => exact .pure .nil
  | cons n rest ih =>
    exact (h n).bind_of fun _ hn => ih.bind_of fun _ hrest => .pure (hn.append hrest)

/-- An ordinary element keeps its tag. -/
theorem expandElement_clean {expand : Expand} (h : ∀ n, Returns (Clean env) (expand n))
    (e : Element) :
    Returns (fun e' => e'.tag = e.tag ∧ Clean env e'.children) (expandElement env expand e) :=
  .bind fun _ => (expandNodes_clean h e.children).bind_of fun _ hchildren => .pure ⟨rfl, hchildren⟩

/-- Nodes that contain no directives each contain none together. -/
theorem Clean.of_forall {nodes : List Node} (h : ∀ n ∈ nodes, Clean env [n]) : Clean env nodes := by
  induction nodes with
  | nil => exact .nil
  | cons n rest ih =>
    obtain ⟨hn, hrest⟩ := List.forall_mem_cons.1 h
    exact Clean.append hn (ih hrest)

/-- What expansions give is clean: an element that stays is an ordinary one. -/
theorem Clean.emission : Emission env fun _ n => Clean env [n] where
  deeper h := h
  leaf h := .leaf h
  element hordinary _ hchildren := by
    have htag := not_isDirectiveTag_of_ordinary hordinary
    exact .element htag (.of_forall hchildren)

/-- Whatever a node is expanded to, no directive is left in it. -/
theorem expandNode_clean (env : Environment) (depth : Nat) (n : Node) :
    Returns (Clean env) (expandNode env depth n) :=
  (Clean.emission.expandNode depth n).mono .of_forall

/-- In an expanded document no element but the root is a directive. -/
theorem expandDocument_no_directives (env : Environment) (depth : Nat) (inOrder : Bool)
    (d out : Document) (s s' : State) (h : expandDocument env depth inOrder d s = (.ok out, s')) :
    ∀ e ∈ innerElements out, ¬ IsDirectiveTag env e.tag := by
  have hclean : Returns (fun out : Document => Clean env out.root.children)
      (expandDocument env depth inOrder d) := by
    unfold expandDocument isolated
    refine .bracket (.bind fun root => .bind fun before => ?_)
    refine (expandElement_clean (expandNode_clean env depth) _).bind_of fun root' hroot => ?_
    exact .bind fun after => .pure hroot.2
  exact ((Clean.misc _).append (hclean s out s' h)).append (Clean.misc _)

/-- A macro called in a block, in bare tags. -/
def callInBlock : Document where
  before := []
  root := ⟨"r", [],
    [.element "macro" [⟨"name", "m"⟩] [.element "if" [⟨"value", "1"⟩] [.element "a" [] []]],
      .element "property" [⟨"name", "p"⟩] [.element "m" [] []],
      .element "insert_block" [⟨"name", "p"⟩] []]⟩
  after := []

/-- A document that calls a macro inside of a block, with bare tags, leaves one element, which is no
directive. -/
theorem expandDocument_no_directives_callInBlock :
    ∃ out s', expandDocument (.ofFiles false []) 8 true callInBlock (.fresh true) = (.ok out, s') ∧
      (innerElements out).map Element.tag = ["a"] ∧
      ∀ e ∈ innerElements out, ¬ IsDirectiveTag (.ofFiles false []) e.tag := by
  have htags : (expandDocument (.ofFiles false []) 8 true callInBlock (.fresh true)).1.toOption.map
      (fun out => (innerElements out).map Element.tag) = some ["a"] := by
    decide +kernel
  rcases hrun : expandDocument (.ofFiles false []) 8 true callInBlock (.fresh true) with
    ⟨_ | out, s'⟩
  · rw [hrun] at htags
    cases htags
  · rw [hrun] at htags
    exact ⟨out, s', rfl, Option.some.inj htags, expandDocument_no_directives _ _ _ _ _ _ _ hrun⟩

end

end XmlMacros.Expansion
