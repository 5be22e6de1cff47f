import XmlMacros.Markup.Node

/-!
# Searching and stripping trees

`findElements` collects the elements below a root that match, in document order, and can be told
not to look inside of some. `strip` is the tree without the elements that match; what lies inside
of them goes with them. Told the same predicate twice, the first finds the outermost matches and
the second removes exactly those.
-/

namespace XmlMacros.Markup

mutual

/-- The elements in a list of nodes that match, in document order. Elements that `prune` holds of
are not searched. -/
def findIn (isMatch prune : Element → Bool) : List Node → List Element
  | [] => []
  | n :: rest => findAt isMatch prune n ++ findIn isMatch prune rest

/-- The elements at or below a node that match. -/
def findAt (isMatch prune : Element → Bool) : Node → List Element
  | .element tag attrs children =>
    let e : Element := ⟨tag, attrs, children⟩
    (if isMatch e then [e] else [])
      ++ (if prune e then [] else findIn isMatch prune children)
  | _ => []

end

/-- The elements below a root that match, in document order. Elements that `prune` holds of are not
searched. -/
def Element.findElements (root : Element) (isMatch prune : Element → Bool) : List Element :=
  findIn isMatch prune root.children

mutual

/-- A list of nodes without the elements that match. -/
def stripNodes (isMatch : Element → Bool) : List Node → List Node
  | [] => []
  | n :: rest => stripNode isMatch n ++ stripNodes isMatch rest

/-- A node without the elements that match: nothing if it matches itself. -/
def stripNode (isMatch : Element → Bool) : Node → List Node
  | .element tag attrs children =>
    if isMatch ⟨tag, attrs, children⟩ then []
    else [.element tag attrs (stripNodes isMatch children)]
  | n => [n]

end

/-- The tree without the elements below its root that match. -/
def Element.strip (root : Element) (isMatch : Element → Bool) : Element :=
  { root with children := stripNodes isMatch root.children }

/-- Matches in two lists of nodes are found in one after the other. -/
@[simp] theorem findIn_append (isMatch prune : Element → Bool) (xs ys : List Node) :
    findIn isMatch prune (xs ++ ys) = findIn isMatch prune xs ++ findIn isMatch prune ys := by
  induction xs with
  | nil => rfl
  | cons n xs ih => simp [findIn, ih]

mutual

/-- What is found matches, by recursion on the nodes. -/
theorem isMatch_of_mem_findIn {isMatch prune : Element → Bool} :
    ∀ (nodes : List Node) {e : Element}, e ∈ findIn isMatch prune nodes → isMatch e
  | [], _, h => nomatch h
  | n :: rest, _, h => (List.mem_append.1 h).elim (isMatch_of_mem_findAt n)
      (isMatch_of_mem_findIn rest)

/-- And what is found in one node matches, be it the node itself or inside of it. -/
theorem isMatch_of_mem_findAt {isMatch prune : Element → Bool} :
    ∀ (n : Node) {e : Element}, e ∈ findAt isMatch prune n → isMatch e
  | .element tag attrs children, e, h => by
    rcases List.mem_append.1 h with h | h
    · split at h
      · next hmatch => cases List.mem_singleton.1 h; exact hmatch
      · cases h
    · split at h
      · cases h
      · exact isMatch_of_mem_findIn children h
  | .text _, _, h | .cdata _, _, h | .comment _, _, h | .instruction _ _, _, h => nomatch h

end

/-- What is found matches. -/
theorem Element.isMatch_of_mem_findElements {root e : Element} {isMatch prune : Element → Bool}
    (h : e ∈ root.findElements isMatch prune) : isMatch e :=
  isMatch_of_mem_findIn root.children h

end XmlMacros.Markup
