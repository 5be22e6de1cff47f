import XmlMacros.Directive
import XmlMacros.Markup.Search
import Mathlib.Data.List.Sort

/-!
# Where elements are found and what is left without them

Elements of a tree may be alike, so what a search finds and what stripping removes is told by
places: the numbers of the children on the way down from the root. A search lists the elements at
the places that match and that no pruned element lies above (`Found`), each once and in document
order (`lists_findElements`). Stripping by a predicate removes the nodes at the outermost places
that match and nothing else (`strip_eq_without`), and if the predicate looks at tags and attributes
only, no element is left that matches (`strip_no_match`). Searches for two sorts of elements, each
pruned by both, divide the outermost matches among them (`partition_outermost`).

The places are listed by a recursion of the same shape as the search (`placesIn`, `placesAt`). Which
places it lists is an induction along a place, all else an induction along the tree.
-/

namespace XmlMacros.Markup

/-! ## Places -/

/-- A place in a tree: the numbers of the children on the way down from the root. -/
abbrev Place := List Nat

/-- Whether a place comes before another one in document order. What is above comes first. -/
def precedes : Place → Place → Bool
  | _, [] => false
  | [], _ :: _ => true
  | i :: p, j :: q => decide (i < j) || (i == j && precedes p q)

/-- The children of a node. -/
def Node.children : Node → List Node
  | .element _ _ children => children
  | _ => []

/-- The element at a place of a node, if there is one. -/
def Node.elementAt? : Node → Place → Option Element
  | n, [] => n.element?
  | n, i :: path => n.children[i]?.bind fun child => child.elementAt? path

/-- The element at a place of a tree, if there is one. -/
def Element.at? (root : Element) (path : Place) : Option Element :=
  root.node.elementAt? path

/-- At the place, below the root, stands an element that matches, and none that is pruned lies
between it and the root. -/
structure Found (root : Element) (isMatch prune : Element → Bool) (path : Place) : Prop where
  below : path ≠ []
  isMatch : ∃ e, root.at? path = some e ∧ isMatch e = true
  open_above : ∀ q, q <+: path → q ≠ path → q ≠ [] → ∀ e, root.at? q = some e → prune e = false

/-- The element at the place matches, and it is not inside of another one that does. -/
def Outermost (root : Element) (isMatch : Element → Bool) (path : Place) : Prop :=
  Found root isMatch isMatch path

/-- The elements are those at the places that have a property, each once and in document order. -/
structure Lists (root : Element) (P : Place → Prop) (paths : List Place) (found : List Element) :
    Prop where
  in_order : paths.Pairwise fun p q => precedes p q = true
  mem_iff : ∀ path, path ∈ paths ↔ P path
  elements : paths.map root.at? = found.map some

mutual

/-- A list of nodes, numbered from a first number on, without the nodes at some places. -/
def nodesWithout : (Place → Bool) → Nat → List Node → List Node
  | _, _, [] => []
  | gone, i, n :: rest =>
    if gone [i] then nodesWithout gone (i + 1) rest
    else n.without (fun path => gone (i :: path)) :: nodesWithout gone (i + 1) rest

/-- A node without the nodes at some places inside of it. -/
def Node.without : (Place → Bool) → Node → Node
  | gone, .element tag attrs children => .element tag attrs (nodesWithout gone 0 children)
  | _, n => n

end

/-- A tree without the nodes at some places below its root. All other nodes stay as they are. -/
def Element.without (root : Element) (gone : Place → Bool) : Element :=
  { root with children := nodesWithout gone 0 root.children }

mutual

/-- The places, in a list of nodes numbered from a first number on, that a search stops at. -/
def placesIn (isMatch prune : Element → Bool) : Nat → List Node → List Place
  | _, [] => []
  | i, n :: rest =>
    (placesAt isMatch prune n).map (i :: ·) ++ placesIn isMatch prune (i + 1) rest

/-- The places at or below a node that a search stops at. -/
def placesAt (isMatch prune : Element → Bool) : Node → List Place
  | .element tag attrs children =>
    (if isMatch ⟨tag, attrs, children⟩ then [[]] else [])
      ++ (if prune ⟨tag, attrs, children⟩ then [] else placesIn isMatch prune 0 children)
  | _ => []

end

/-! ## Document order -/

/-- No place comes before itself. -/
theorem precedes_irrefl (p : Place) : precedes p p = false := by
  induction p with
  | nil => rfl
  | cons i p ih => simp [precedes, ih]

/-- Document order is transitive. The induction is on the first place, and the others have to share
its start. -/
theorem precedes_trans {p q r : Place} (h₁ : precedes p q = true) (h₂ : precedes q r = true) :
    precedes p r = true := by
  induction p generalizing q r with
  | nil =>
    cases r with
    | nil => cases q <;> simp [precedes] at h₂
    | cons => rfl
  | cons i p ih =>
    cases q with
    | nil => simp [precedes] at h₁
    | cons j q =>
      cases r with
      | nil => simp [precedes] at h₂
      | cons k r =>
        simp only [precedes, Bool.or_eq_true, decide_eq_true_eq, Bool.and_eq_true, beq_iff_eq]
          at h₁ h₂ ⊢
        rcases h₁ with h₁ | ⟨rfl, h₁⟩
        · rcases h₂ with h₂ | ⟨rfl, -⟩
          · exact .inl (h₁.trans h₂)
          · exact .inl h₁
        · rcases h₂ with h₂ | ⟨rfl, h₂⟩
          · exact .inl h₂
          · exact .inr ⟨rfl, ih h₁ h₂⟩

/-- Of two places that differ one comes first. -/
theorem precedes_total {p q : Place} (h : p ≠ q) : precedes p q = true ∨ precedes q p = true := by
  induction p generalizing q with
  | nil =>
    cases q with
    | nil => exact absurd rfl h
    | cons => exact .inl rfl
  | cons i p ih =>
    cases q with
    | nil => exact .inr rfl
    | cons j q =>
      simp only [precedes, Bool.or_eq_true, decide_eq_true_eq, Bool.and_eq_true, beq_iff_eq]
      rcases Nat.lt_trichotomy i j with hlt | rfl | hlt
      · exact .inl (.inl hlt)
      · rcases ih fun hpq => h (by rw [hpq]) with hpq | hqp
        · exact .inl (.inr ⟨rfl, hpq⟩)
        · exact .inr (.inr ⟨rfl, hqp⟩)
      · exact .inr (.inl hlt)

theorem not_precedes_of_precedes {p q : Place} (h : precedes p q = true) :
    precedes q p = false := by
  cases hqp : precedes q p with
  | false => rfl
  | true =>
    have hpp := precedes_trans h hqp
    rw [precedes_irrefl] at hpp
    cases hpp

/-- Of two different places one comes before the other. -/
theorem precedes_of_not_precedes {p q : Place} (hne : p ≠ q) (h : precedes q p = false) :
    precedes p q = true :=
  (precedes_total hne).resolve_right (by rw [h]; exact Bool.false_ne_true)

/-- Not coming before is transitive as well, for document order is total. -/
theorem not_precedes_trans {p q r : Place} (hqp : precedes q p = false)
    (hrq : precedes r q = false) :
    precedes r p = false := by
  by_cases hpq : p = q
  · rw [hpq, hrq]
  · cases hrp : precedes r p with
    | false => rfl
    | true =>
      rw [precedes_trans hrp (precedes_of_not_precedes hpq hqp)] at hrq
      cases hrq

/-- Places in document order are different, since none comes before itself. -/
theorem nodup_of_in_order {ps : List Place} (h : ps.Pairwise fun p q => precedes p q = true) :
    ps.Nodup := by
  refine h.imp fun {p q} hpq heq => ?_
  rw [heq, precedes_irrefl] at hpq
  cases hpq

/-- Lists of the same places, both in document order, are the same. -/
theorem eq_of_in_order {ps qs : List Place} (hps : ps.Pairwise fun p q => precedes p q = true)
    (hqs : qs.Pairwise fun p q => precedes p q = true) (hmem : ∀ path, path ∈ ps ↔ path ∈ qs) :
    ps = qs := by
  have hantisymm : Std.Antisymm fun p q => precedes p q = true := ⟨fun p q hpq hqp => by
    rw [not_precedes_of_precedes hpq] at hqp
    cases hqp⟩
  have hirrefl : Std.Irrefl fun p q => precedes p q = true := ⟨fun p hp => by
    rw [precedes_irrefl] at hp
    cases hp⟩
  exact List.Pairwise.eq_of_mem_iff hps hqs hmem

/-- Two lists in document order that have no place in common are merged to the list in document
order of the places of both. -/
theorem merge_in_order {ds ps ms : List Place} (hds : ds.Pairwise fun p q => precedes p q = true)
    (hps : ps.Pairwise fun p q => precedes p q = true)
    (hms : ms.Pairwise fun p q => precedes p q = true)
    (hmem : ∀ path, path ∈ ds ↔ path ∈ ps ∨ path ∈ ms) (hapart : ∀ path ∈ ps, path ∉ ms) :
    ps.merge ms (fun p q => !precedes q p) = ds := by
  have hweaken {qs : List Place} (h : qs.Pairwise fun p q => precedes p q = true) :
      qs.Pairwise fun p q => (!precedes q p) = true :=
    h.imp fun hpq => by rw [not_precedes_of_precedes hpq, Bool.not_false]
  have hmerged : (ps.merge ms (fun p q => !precedes q p)).Pairwise
      fun p q => (!precedes q p) = true := by
    refine List.pairwise_merge (fun p q r hqp hrq => ?_) (fun p q => ?_) ps ms (hweaken hps)
      (hweaken hms)
    · rw [Bool.not_eq_true'] at hqp hrq ⊢
      exact not_precedes_trans hqp hrq
    · cases hqp : precedes q p with
      | false => rfl
      | true => rw [not_precedes_of_precedes hqp]; rfl
  have hnodup : (ps.merge ms (fun p q => !precedes q p)).Nodup := by
    have hperm : (ps.merge ms (fun p q => !precedes q p)).Perm (ps ++ ms) :=
      List.merge_perm_append _
    refine hperm.nodup_iff.2 (List.nodup_append.2
      ⟨nodup_of_in_order hps, nodup_of_in_order hms, ?_⟩)
    rintro p hp _ hm rfl
    exact hapart p hp hm
  have hstrict : (ps.merge ms (fun p q => !precedes q p)).Pairwise
      fun p q => precedes p q = true := by
    refine (hmerged.and hnodup).imp ?_
    rintro p q ⟨hqp, hne⟩
    rw [Bool.not_eq_true'] at hqp
    exact precedes_of_not_precedes hne hqp
  refine eq_of_in_order hstrict hds fun path => ?_
  rw [List.mem_merge, hmem]

section
variable {isMatch prune : Element → Bool}

/-! ## The places of a search -/

/-- A place among nodes that are counted from a number leads into one of that number or a
greater one. -/
theorem exists_cons_of_mem_placesIn {nodes : List Node} {i : Nat} {path : Place}
    (h : path ∈ placesIn isMatch prune i nodes) : ∃ j q, path = j :: q ∧ i ≤ j := by
  induction nodes generalizing i with
  | nil => cases h
  | cons n rest ih =>
    rcases List.mem_append.1 h with h | h
    · obtain ⟨q, -, rfl⟩ := List.mem_map.1 h
      exact ⟨i, q, rfl, Nat.le_refl i⟩
    · obtain ⟨j, q, rfl, hj⟩ := ih h
      exact ⟨j, q, rfl, by omega⟩

/-- A place among nodes is a place in one of them. -/
theorem nil_not_mem_placesIn {nodes : List Node} {i : Nat} :
    [] ∉ placesIn isMatch prune i nodes := by
  intro h
  obtain ⟨j, q, hpath, -⟩ := exists_cons_of_mem_placesIn h
  cases hpath

/-- The places that lead into the first node are those in it. -/
theorem cons_mem_placesIn_cons {n : Node} {rest : List Node} {i : Nat} {q : Place} :
    i :: q ∈ placesIn isMatch prune i (n :: rest) ↔ q ∈ placesAt isMatch prune n := by
  rw [placesIn, List.mem_append, List.mem_map]
  constructor
  · rintro (⟨q', hq, heq⟩ | h)
    · cases heq
      exact hq
    · obtain ⟨j, q', heq, hj⟩ := exists_cons_of_mem_placesIn h
      cases heq
      omega
  · exact fun hq => .inl ⟨q, hq, rfl⟩

/-- The places that lead into a later node are those among the nodes after the first. -/
theorem cons_mem_placesIn_of_lt {n : Node} {rest : List Node} {i j : Nat} {q : Place} (h : i < j) :
    j :: q ∈ placesIn isMatch prune i (n :: rest) ↔ j :: q ∈ placesIn isMatch prune (i + 1) rest := by
  rw [placesIn, List.mem_append, List.mem_map]
  refine or_iff_right ?_
  rintro ⟨q', -, heq⟩
  cases heq
  exact Nat.lt_irrefl _ h

theorem add_cons_mem_placesIn {nodes : List Node} {i k : Nat} {q : Place} :
    (i + k) :: q ∈ placesIn isMatch prune i nodes ↔
      ∃ n, nodes[k]? = some n ∧ q ∈ placesAt isMatch prune n := by
  induction nodes generalizing i k with
  | nil => simp [placesIn]
  | cons n rest ih =>
    cases k with
    | zero => simpa using cons_mem_placesIn_cons
    | succ k =>
      have hadd : i + (k + 1) = i + 1 + k := by omega
      rw [cons_mem_placesIn_of_lt (by omega), hadd, ih, List.getElem?_cons_succ]

/-- A place among nodes is one in the node that its first number tells. -/
theorem cons_mem_placesIn {nodes : List Node} {k : Nat} {q : Place} :
    k :: q ∈ placesIn isMatch prune 0 nodes ↔
      ∃ n, nodes[k]? = some n ∧ q ∈ placesAt isMatch prune n := by
  rw [← add_cons_mem_placesIn (i := 0), Nat.zero_add]

/-- What holds above a place inside of a node holds of the node and above the place in the child. -/
theorem forall_above_cons {P : Place → Prop} {k : Nat} {path : Place} :
    (∀ q, q <+: k :: path → q ≠ k :: path → P q) ↔
      P [] ∧ ∀ q, q <+: path → q ≠ path → P (k :: q) := by
  constructor
  · intro h
    refine ⟨h [] List.nil_prefix (List.cons_ne_nil _ _).symm, fun q hq hne => ?_⟩
    exact h (k :: q) (List.cons_prefix_cons.2 ⟨rfl, hq⟩) fun heq => hne (List.cons.inj heq).2
  · rintro ⟨hnil, hcons⟩ q hq hne
    rcases List.prefix_cons_iff.1 hq with rfl | ⟨q, rfl, hbelow⟩
    · exact hnil
    · exact hcons q hbelow fun heq => hne (by rw [heq])

/-- The places at or below a node that are listed are those where an element matches and none that
is pruned lies above. The induction is along the place. -/
theorem mem_placesAt_iff {n : Node} {path : Place} :
    path ∈ placesAt isMatch prune n ↔
      (∃ e, n.elementAt? path = some e ∧ isMatch e = true) ∧
        ∀ q, q <+: path → q ≠ path → ∀ e, n.elementAt? q = some e → prune e = false := by
  induction path generalizing n with
  | nil =>
    have habove : ∀ q : Place, q <+: [] → q ≠ [] → ∀ e, n.elementAt? q = some e → prune e = false :=
      fun q hq hne => absurd (List.prefix_nil.1 hq) hne
    refine Iff.trans ?_ (and_iff_left habove).symm
    cases n with
    | element tag attrs children =>
      have hinside : [] ∉ (if prune ⟨tag, attrs, children⟩ then []
          else placesIn isMatch prune 0 children) := by
        split
        · exact List.not_mem_nil
        · exact nil_not_mem_placesIn
      rw [placesAt, List.mem_append, or_iff_left hinside]
      simp [Node.elementAt?, Node.element?]
    | text | cdata | comment | instruction => simp [placesAt, Node.elementAt?, Node.element?]
  | cons k path ih =>
    rw [forall_above_cons]
    cases n with
    | element tag attrs children =>
      have hself : k :: path ∉ (if isMatch ⟨tag, attrs, children⟩ then [[]] else []) := by
        split <;> simp
      rw [placesAt, List.mem_append, or_iff_right hself]
      cases hprune : prune ⟨tag, attrs, children⟩ with
      | true => simp [Node.elementAt?, Node.element?, hprune]
      | false =>
        rw [if_neg Bool.false_ne_true, cons_mem_placesIn]
        cases hchild : children[k]? with
        | none => simp [Node.elementAt?, Node.children, hchild]
        | some child => simp [Node.elementAt?, Node.element?, Node.children, hchild, hprune, ih]
    | text | cdata | comment | instruction => simp [placesAt, Node.elementAt?, Node.children]

/-- The places below a root that are listed are those where something is found. -/
theorem mem_placesIn_iff_found {root : Element} {path : Place} :
    path ∈ placesIn isMatch prune 0 root.children ↔ Found root isMatch prune path := by
  cases path with
  | nil => exact iff_of_false nil_not_mem_placesIn fun h => h.below rfl
  | cons k path =>
    have hat (q : Place) : root.at? (k :: q) =
        root.children[k]?.bind fun child => child.elementAt? q := rfl
    have hfound : Found root isMatch prune (k :: path) ↔
        (∃ e, root.at? (k :: path) = some e ∧ isMatch e = true) ∧
          ∀ q, q <+: path → q ≠ path → ∀ e, root.at? (k :: q) = some e → prune e = false := by
      constructor
      · rintro ⟨-, hmatch, habove⟩
        exact ⟨hmatch, fun q hq hne => (forall_above_cons.1 habove).2 q hq hne
          (List.cons_ne_nil _ _)⟩
      · rintro ⟨hmatch, habove⟩
        refine ⟨List.cons_ne_nil _ _, hmatch, forall_above_cons.2 ⟨fun hne => absurd rfl hne, ?_⟩⟩
        exact fun q hq hne _ => habove q hq hne
    rw [hfound, cons_mem_placesIn]
    simp only [hat]
    cases hchild : root.children[k]? with
    | none => simp
    | some child => simp [mem_placesAt_iff]

mutual

/-- The places in a list of nodes are listed in document order. The induction is along the tree. -/
theorem pairwise_placesIn :
    ∀ (nodes : List Node) (i : Nat),
      (placesIn isMatch prune i nodes).Pairwise fun p q => precedes p q = true
  | [], _ => .nil
  | n :: rest, i => by
    refine List.pairwise_append.2 ⟨?_, pairwise_placesIn rest (i + 1), ?_⟩
    · refine List.pairwise_map.2 ((pairwise_placesAt n).imp fun h => ?_)
      simpa [precedes] using h
    · intro p hp q hq
      obtain ⟨p, -, rfl⟩ := List.mem_map.1 hp
      obtain ⟨j, q, rfl, hj⟩ := exists_cons_of_mem_placesIn hq
      simp only [precedes, Bool.or_eq_true, decide_eq_true_eq]
      exact .inl (by omega)

/-- The places in a node are listed in document order. -/
theorem pairwise_placesAt :
    ∀ n : Node, (placesAt isMatch prune n).Pairwise fun p q => precedes p q = true
  | .element tag attrs children => by
    refine List.pairwise_append.2 ⟨?_, ?_, ?_⟩
    · split
      · exact List.pairwise_singleton _ _
      · exact .nil
    · split
      · exact .nil
      · exact pairwise_placesIn children 0
    · intro p hp q hq
      split at hp
      · cases List.mem_singleton.1 hp
        split at hq
        · cases hq
        · obtain ⟨j, q, rfl, -⟩ := exists_cons_of_mem_placesIn hq
          rfl
      · cases hp
  | .text _ | .cdata _ | .comment _ | .instruction _ _ => .nil

end

mutual

/-- The elements at the places that are listed are those that are found. The nodes may be the last
ones of a longer list. -/
theorem map_placesIn :
    ∀ (nodes : List Node) (e : Element) (i : Nat), e.children.drop i = nodes →
      (placesIn isMatch prune i nodes).map e.at? = (findIn isMatch prune nodes).map some
  | [], _, _, _ => rfl
  | n :: rest, e, i, h => by
    have hn : e.children[i]? = some n := by
      rw [← List.head?_drop, h]
      rfl
    have hrest : e.children.drop (i + 1) = rest := by
      rw [← List.tail_drop, h]
      rfl
    have hat : e.at? ∘ (i :: ·) = n.elementAt? := by
      funext q
      show e.children[i]?.bind (fun child => child.elementAt? q) = _
      rw [hn]
      rfl
    rw [placesIn, findIn, List.map_append, List.map_append, List.map_map, hat, map_placesAt n,
      map_placesIn rest e (i + 1) hrest]

/-- At the places in a node stand the elements that the search in it finds. -/
theorem map_placesAt :
    ∀ n : Node, (placesAt isMatch prune n).map n.elementAt? = (findAt isMatch prune n).map some
  | .element tag attrs children => by
    have hchildren := map_placesIn children ⟨tag, attrs, children⟩ 0 rfl
    rw [placesAt, findAt, List.map_append, List.map_append]
    congr 1
    · split <;> rfl
    · split
      · rfl
      · exact hchildren
  | .text _ | .cdata _ | .comment _ | .instruction _ _ => rfl

end

/-- A search gives the elements that are found, each once and in document order. -/
theorem lists_findElements (root : Element) :
    Lists root (Found root isMatch prune) (placesIn isMatch prune 0 root.children)
      (root.findElements isMatch prune) where
  in_order := pairwise_placesIn root.children 0
  mem_iff _ := mem_placesIn_iff_found
  elements := map_placesIn root.children root 0 rfl

end

/-! ## Stripping -/

section
variable {isMatch : Element → Bool}

mutual

/-- Stripping a list leaves out the nodes at the places that are listed for it. The induction is on
the nodes, together with the one on a node's children. -/
theorem stripNodes_eq_nodesWithout :
    ∀ (nodes : List Node) (gone : Place → Bool) (i : Nat),
      (∀ j q, i ≤ j → (gone (j :: q) = true ↔ j :: q ∈ placesIn isMatch isMatch i nodes)) →
        stripNodes isMatch nodes = nodesWithout gone i nodes
  | [], _, _, _ => rfl
  | n :: rest, gone, i, h => by
    have hn (q : Place) : gone (i :: q) = true ↔ q ∈ placesAt isMatch isMatch n :=
      (h i q (Nat.le_refl i)).trans cons_mem_placesIn_cons
    have hrest (j : Nat) (q : Place) (hj : i + 1 ≤ j) :
        gone (j :: q) = true ↔ j :: q ∈ placesIn isMatch isMatch (i + 1) rest :=
      (h j q (by omega)).trans (cons_mem_placesIn_of_lt hj)
    rw [stripNodes, nodesWithout, stripNode_eq_without n _ hn,
      stripNodes_eq_nodesWithout rest gone (i + 1) hrest]
    split <;> rfl

/-- Stripping a node leaves out the node itself if it is at a listed place, and the nodes at the
listed places in it otherwise. -/
theorem stripNode_eq_without :
    ∀ (n : Node) (gone : Place → Bool),
      (∀ q, gone q = true ↔ q ∈ placesAt isMatch isMatch n) →
        stripNode isMatch n = if gone [] then [] else [n.without gone]
  | .element tag attrs children, gone, h => by
    cases hmatch : isMatch ⟨tag, attrs, children⟩ with
    | true =>
      have hgone : gone [] = true := by
        rw [h, placesAt, if_pos hmatch]
        exact List.mem_cons_self
      rw [stripNode, if_pos hmatch, if_pos hgone]
    | false =>
      have hplaces : placesAt isMatch isMatch (.element tag attrs children) =
          placesIn isMatch isMatch 0 children := by
        rw [placesAt, hmatch]
        rfl
      rw [hplaces] at h
      have hstays : ¬ gone [] = true := mt (h []).1 nil_not_mem_placesIn
      rw [stripNode, hmatch, if_neg Bool.false_ne_true, if_neg hstays, Node.without,
        stripNodes_eq_nodesWithout children gone 0 fun j q _ => h (j :: q)]
  | .text _, gone, h | .cdata _, gone, h | .comment _, gone, h | .instruction _ _, gone, h => by
    have hself : ¬ gone [] = true := mt (h []).1 List.not_mem_nil
    rw [if_neg hself]
    rfl

end

/-- Stripping removes the nodes at the outermost places that match. -/
theorem strip_eq_without (root : Element) :
    root.strip isMatch =
      root.without fun path => decide (path ∈ placesIn isMatch isMatch 0 root.children) := by
  unfold Element.strip Element.without
  rw [stripNodes_eq_nodesWithout root.children
    (fun path => decide (path ∈ placesIn isMatch isMatch 0 root.children)) 0
    fun _ _ _ => decide_eq_true_iff]

/-- What is left of a node is the node itself, or an element that does not match with what is left
of its children. -/
theorem exists_of_mem_stripNodes {nodes : List Node} {n : Node} (h : n ∈ stripNodes isMatch nodes) :
    n.element? = none ∨ ∃ tag attrs children, isMatch ⟨tag, attrs, children⟩ = false ∧
      n = .element tag attrs (stripNodes isMatch children) := by
  induction nodes with
  | nil => cases h
  | cons m rest ih =>
    rcases List.mem_append.1 h with h | h
    · cases m with
      | element tag attrs children =>
        rw [stripNode] at h
        split at h
        · cases h
        · rename_i hmatch
          cases List.mem_singleton.1 h
          exact .inr ⟨tag, attrs, children, Bool.eq_false_iff.2 hmatch, rfl⟩
      | text | cdata | comment | instruction =>
        cases List.mem_singleton.1 h
        exact .inl rfl
    · exact ih h

/-- No element is left that matches, if only its tag and its attributes matter to that. -/
theorem strip_no_match
    (hmatch : ∀ tag attrs children children',
      isMatch ⟨tag, attrs, children⟩ = isMatch ⟨tag, attrs, children'⟩)
    {root e : Element} {path : Place} (hne : path ≠ []) (h : (root.strip isMatch).at? path = some e) :
    isMatch e = false := by
  obtain ⟨k, path, rfl⟩ := List.exists_cons_of_ne_nil hne
  obtain ⟨n, hn, hpath⟩ := Option.bind_eq_some_iff.1 h
  clear h hne
  have hmem : n ∈ stripNodes isMatch root.children := List.mem_of_getElem? hn
  clear hn
  generalize root.children = nodes at hmem
  induction path generalizing n nodes with
  | nil =>
    rcases exists_of_mem_stripNodes hmem with hnone | ⟨tag, attrs, children, hout, rfl⟩
    · rw [Node.elementAt?, hnone] at hpath
      cases hpath
    · cases hpath
      rw [← hout]
      exact hmatch _ _ _ _
  | cons k path ih =>
    obtain ⟨child, hchild, hrest⟩ := Option.bind_eq_some_iff.1 hpath
    rcases exists_of_mem_stripNodes hmem with hnone | ⟨tag, attrs, children, hout, rfl⟩
    · cases n with
      | element => cases hnone
      | text | cdata | comment | instruction => cases hchild
    · exact ih child hrest children (List.mem_of_getElem? hchild)

end

/-! ## Two sorts of matches -/

/-- What is found of one sort, where searches stop at both. -/
theorem found_iff_outermost {root : Element} {isMatch isSort : Element → Bool} {path : Place}
    (hsort : ∀ e, isSort e = true → isMatch e = true) :
    Found root isSort isMatch path ↔
      Outermost root isMatch path ∧ ∃ e, root.at? path = some e ∧ isSort e = true := by
  constructor
  · rintro ⟨hne, ⟨e, hat, he⟩, habove⟩
    exact ⟨⟨hne, ⟨e, hat, hsort e he⟩, habove⟩, e, hat, he⟩
  · rintro ⟨⟨hne, -, habove⟩, hmatch⟩
    exact ⟨hne, hmatch, habove⟩

/-- Whether an element defines a property or a macro is told by its tag alone. -/
theorem isDefinition_classify_congr (requirePrefix : Bool) (isMacro : String → Bool)
    (tag : String) (attrs : List Attr) (children children' : List Node) :
    (Directive.classify requirePrefix isMacro ⟨tag, attrs, children⟩).isDefinition =
      (Directive.classify requirePrefix isMacro ⟨tag, attrs, children'⟩).isDefinition := by
  unfold Directive.classify
  cases stripTag? tag with
  | some word => rfl
  | none =>
    cases requirePrefix with
    | true => rfl
    | false =>
      rw [if_neg Bool.false_ne_true, if_neg Bool.false_ne_true]
      cases Directive.ofBareTag? tag with
      | none => rfl
      | some directive =>
        cases directive with
        | includeFile =>
          -- including is no definition, and neither is what it is an ordinary element for
          dsimp only
          split <;> split <;> rfl
        | _ => rfl

theorem isDefinition_iff (d : Directive) :
    d.isDefinition = true ↔ (d == .property) = true ∨ (d == .defineMacro) = true := by
  cases d <;> decide

/-- What an element means where tags of directives have the prefix. -/
def prefixedMeaning : Element → Directive :=
  Directive.classify true fun _ => false

def isPrefixedDefinition (e : Element) : Bool :=
  (prefixedMeaning e).isDefinition

def isPrefixedProperty (e : Element) : Bool :=
  prefixedMeaning e == .property

def isPrefixedMacro (e : Element) : Bool :=
  prefixedMeaning e == .defineMacro

/-- Properties that are alike, and one in a macro under a condition. -/
def nestedDefinitions : Element :=
  ⟨"robot", [], [.text "\n", .element "xacro:property" [⟨"name", some "x"⟩] [],
    .element "xacro:if" [⟨"value", some "1"⟩]
      [.element "xacro:macro" [⟨"name", some "m"⟩]
        [.element "xacro:property" [⟨"name", some "x"⟩] []], .comment "kept"],
    .element "xacro:property" [⟨"name", some "x"⟩] []]⟩

/-- Gathering and stripping divide a tree. If only tags and attributes matter to a predicate, a
search pruned by it finds the outermost elements that match, each once and in document order; the
tree stripped by it is the tree without just these, and no element is left in it that matches. If
the predicate is split in two, searches for either, pruned by both, list places that merge to the
outermost ones. -/
theorem partition_outermost (root : Element) {isMatch isFirst isSecond : Element → Bool}
    (hmatch : ∀ tag attrs children children',
      isMatch ⟨tag, attrs, children⟩ = isMatch ⟨tag, attrs, children'⟩)
    (hsplit : ∀ e, isMatch e = true ↔ isFirst e = true ∨ isSecond e = true)
    (hapart : ∀ e, ¬ (isFirst e = true ∧ isSecond e = true)) :
    ∃ all firsts seconds : List Place,
      Lists root (Outermost root isMatch) all (root.findElements isMatch isMatch) ∧
      Lists root (Found root isFirst isMatch) firsts (root.findElements isFirst isMatch) ∧
      Lists root (Found root isSecond isMatch) seconds (root.findElements isSecond isMatch) ∧
      firsts.merge seconds (fun p q => !precedes q p) = all ∧
      root.strip isMatch = root.without (fun path => decide (path ∈ all)) ∧
      ∀ path e, path ≠ [] → (root.strip isMatch).at? path = some e → isMatch e = false := by
  have hfirst (path : Place) : Found root isFirst isMatch path ↔
      Outermost root isMatch path ∧ ∃ e, root.at? path = some e ∧ isFirst e = true :=
    found_iff_outermost fun e he => (hsplit e).2 (.inl he)
  have hsecond (path : Place) : Found root isSecond isMatch path ↔
      Outermost root isMatch path ∧ ∃ e, root.at? path = some e ∧ isSecond e = true :=
    found_iff_outermost fun e he => (hsplit e).2 (.inr he)
  refine ⟨_, _, _, lists_findElements root, lists_findElements root, lists_findElements root, ?_,
    strip_eq_without root, fun path e hne hat => strip_no_match hmatch hne hat⟩
  refine merge_in_order (pairwise_placesIn _ _) (pairwise_placesIn _ _) (pairwise_placesIn _ _)
    (fun path => ?_) fun path hpath hother => ?_
  · simp only [mem_placesIn_iff_found]
    rw [hfirst, hsecond, ← and_or_left]
    refine (and_iff_left_of_imp fun h => ?_).symm
    obtain ⟨e, hat, he⟩ := h.isMatch
    exact ((hsplit e).1 he).imp (fun he => ⟨e, hat, he⟩) fun he => ⟨e, hat, he⟩
  · obtain ⟨e, hat, he⟩ := ((mem_placesIn_iff_found).1 hpath).isMatch
    obtain ⟨e', hat', he'⟩ := ((mem_placesIn_iff_found).1 hother).isMatch
    cases hat.symm.trans hat'
    exact hapart e ⟨he, he'⟩

/-- In a tree where definitions stand inside of others and two of them are alike, the two searches
find the outermost ones, and stripping leaves everything else. -/
theorem partition_outermost_nestedDefinitions :
    (∃ all firsts seconds : List Place,
      Lists nestedDefinitions (Outermost nestedDefinitions isPrefixedDefinition) all
        (nestedDefinitions.findElements isPrefixedDefinition isPrefixedDefinition) ∧
      Lists nestedDefinitions (Found nestedDefinitions isPrefixedProperty isPrefixedDefinition)
        firsts
        (nestedDefinitions.findElements isPrefixedProperty isPrefixedDefinition) ∧
      Lists nestedDefinitions (Found nestedDefinitions isPrefixedMacro isPrefixedDefinition) seconds
        (nestedDefinitions.findElements isPrefixedMacro isPrefixedDefinition) ∧
      firsts.merge seconds (fun p q => !precedes q p) = all ∧
      nestedDefinitions.strip isPrefixedDefinition =
        nestedDefinitions.without (fun path => decide (path ∈ all)) ∧
      ∀ path e, path ≠ [] → (nestedDefinitions.strip isPrefixedDefinition).at? path = some e →
        isPrefixedDefinition e = false) ∧
    nestedDefinitions.strip isPrefixedDefinition =
      ⟨"robot", [], [.text "\n", .element "xacro:if" [⟨"value", some "1"⟩] [.comment "kept"]]⟩ := by
  have hmatch (tag : String) (attrs : List Attr) (children children' : List Node) :
      isPrefixedDefinition ⟨tag, attrs, children⟩ = isPrefixedDefinition ⟨tag, attrs, children'⟩ :=
    isDefinition_classify_congr true (fun _ => false) tag attrs children children'
  have hsplit (e : Element) : isPrefixedDefinition e = true ↔
      isPrefixedProperty e = true ∨ isPrefixedMacro e = true := isDefinition_iff (prefixedMeaning e)
  have hapart (e : Element) : ¬ (isPrefixedProperty e = true ∧ isPrefixedMacro e = true) := by
    rintro ⟨hproperty, hmacro⟩
    cases (eq_of_beq hproperty).symm.trans (eq_of_beq hmacro)
  have hstrip : nestedDefinitions.strip isPrefixedDefinition =
      ⟨"robot", [], [.text "\n", .element "xacro:if" [⟨"value", some "1"⟩] [.comment "kept"]]⟩ := by
    rfl
  exact ⟨partition_outermost nestedDefinitions hmatch hsplit hapart, hstrip⟩

end XmlMacros.Markup
