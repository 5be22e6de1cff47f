import XmlMacros.Proofs.Expansion.Basic

/-!
# What expansion gives

Whatever directives do, the nodes that come out are leaves with their data evaluated and ordinary
elements with their attributes evaluated, around nodes that came out before. So a property of nodes
holds of all that an expansion gives if it holds of leaves and passes from children to ordinary
elements (`Emission.expandNode`). The property may depend on how deeply nodes may be nested.
-/

namespace XmlMacros.Expansion

open XmlMacros.Markup

variable {env : Environment} {Q : Nat → Node → Prop}

/-- The property holds of every node that an expansion can give, by how deeply nodes may be nested:
of leaves, and of ordinary elements if it holds of their children. -/
structure Emission (env : Environment) (Q : Nat → Node → Prop) : Prop where
  deeper : ∀ {depth n}, Q depth n → Q (depth + 1) n
  leaf : ∀ {depth n}, n.element? = none → Q (depth + 1) n
  element : ∀ {depth s e attrs children}, classify env s e = .ordinary →
    (∀ a ∈ attrs, a.resetsNamespace = false) → (∀ n ∈ children, Q depth n) →
    Q (depth + 1) (Element.node ⟨e.tag, attrs, children⟩)

/-- Every node of a list has the property. -/
def AllNodes (Q : Nat → Node → Prop) (depth : Nat) (nodes : List Node) : Prop :=
  ∀ n ∈ nodes, Q depth n

/-! ## Parts of elements -/

/-- Attributes are evaluated to values; a declaration that takes one back is not expanded at all. -/
theorem expandAttrs_values (attrs : List Attr) :
    Returns (fun out => ∀ a ∈ out, a.resetsNamespace = false) (expandAttrs env attrs) := by
  induction attrs with
  | nil => exact .pure nofun
  | cons a rest ih =>
    have hattr : Returns (fun a' => a'.resetsNamespace = false) (expandAttr env a) := by
      unfold expandAttr
      split
      · exact .throw _
      · exact .bind fun _ => .pure rfl
    exact hattr.bind_of fun _ ha => ih.bind_of fun _ hrest =>
      .pure (List.forall_mem_cons.2 ⟨ha, hrest⟩)

theorem expandLeaf_element? (n : Node) (h : n.element? = none) :
    Returns (fun n' => n'.element? = none) (expandLeaf env n) := by
  cases n with
  | element => cases h
  | text | cdata | comment => exact .map fun _ => rfl
  | instruction => exact .pure rfl

section
variable {expand : Expand} {depth : Nat} (h : ∀ n, Returns (AllNodes Q depth) (expand n))

include h

/-- If the expansion of every node emits what has the property, so does that of a list. -/
theorem expandNodes_emits (nodes : List Node) :
    Returns (AllNodes Q depth) (expandNodes expand nodes) := by
  induction nodes with
  | nil => exact .pure nofun
  | cons n rest ih =>
    exact (h n).bind_of fun _ hn => ih.bind_of fun _ hrest =>
      .pure (List.forall_mem_append.2 ⟨hn, hrest⟩)

/-- An ordinary element keeps its tag. -/
theorem expandElement_emits (e : Element) :
    Returns (fun e' => e'.tag = e.tag ∧ (∀ a ∈ e'.attrs, a.resetsNamespace = false) ∧
      AllNodes Q depth e'.children) (expandElement env expand e) :=
  (expandAttrs_values e.attrs).bind_of fun _ hattrs =>
    (expandNodes_emits h e.children).bind_of fun _ hchildren => .pure ⟨rfl, hattrs, hchildren⟩

/-- A call emits what its body does, and the body is a list of nodes. -/
theorem callMacro_emits (naming : Naming) (e : Element) :
    Returns (AllNodes Q depth) (callMacro env expand naming e) := by
  refine .bind fun ⟨m, arguments⟩ => .bind fun children => .bind fun table => ?_
  exact (expandNodes_emits h m.body).bracket

/-- One case for each directive: those that expand nodes give what the expansion of nodes gives, one
level deeper, and the others give nothing. -/
theorem perform_emits (hQ : Emission env Q) {e : Element} {d : Directive}
    (hd : d = .ordinary → ∃ s, classify env s e = .ordinary) :
    Returns (AllNodes Q (depth + 1)) (perform env depth expand e d) := by
  have hnil : ∀ {nodes : List Node}, nodes = [] → AllNodes Q (depth + 1) nodes := by
    rintro _ rfl
    exact nofun
  have hdeeper : ∀ {nodes : List Node}, AllNodes Q depth nodes → AllNodes Q (depth + 1) nodes :=
    fun hall n hn => hQ.deeper (hall n hn)
  have hnodes (nodes : List Node) := (expandNodes_emits h nodes).mono hdeeper
  cases d with
  | property => exact (defineProperty_nil env depth e).mono hnil
  | defineMacro => exact (defineMacro_nil depth e).mono hnil
  | arg => exact (defineArg_nil env e).mono hnil
  | insertBlock => exact .bind hnodes
  | whenTrue | whenFalse => exact .bind hnodes
  | includeFile => exact .bind fun file => (hnodes file.2.children).bracket
  | call | invoke => exact (callMacro_emits h _ e).mono hdeeper
  | newElement | newAttribute => exact .throw _
  | ordinary =>
    obtain ⟨s, hs⟩ := hd rfl
    refine (expandElement_emits h e).bind_of fun e' he' => .pure fun n hn => ?_
    obtain rfl := List.mem_singleton.1 hn
    obtain ⟨htag, hattrs, hchildren⟩ := he'
    have hnode := hQ.element hs hattrs hchildren
    rw [← htag] at hnode
    exact hnode

end

/-! ## Nodes -/

/-- All nodes that the expansion of a node gives have the property. -/
theorem Emission.expandNode (hQ : Emission env Q) (depth : Nat) (n : Node) :
    Returns (AllNodes Q depth) (expandNode env depth n) := by
  induction depth generalizing n with
  | zero => exact .throw _
  | succ depth ih =>
    cases n with
    | element tag attrs children =>
      intro s
      exact (Returns.reportFault nofun (perform_emits ih hQ fun h => ⟨s, h⟩)) s
    | text | cdata | comment | instruction =>
      refine (expandLeaf_element? _ rfl).bind_of fun _ hleaf => .pure fun n hn => ?_
      obtain rfl := List.mem_singleton.1 hn
      exact hQ.leaf hleaf

end XmlMacros.Expansion
