import XmlMacros.Proofs.Expansion.Keeping
import XmlMacros.Proofs.Frame

/-!
# Calls are isolated

A macro call leaves the registry as it was, and of the scopes that were alive before it changes at
most the caller's and the global one; in the caller's scope, if that is not the global one, it
changes only what the body writes to its parent (`call_isolated`).

Which names those are is told by `ParentWrite`, along the nodes that are expanded in one and the
same scope: the children of ordinary elements, conditions and calls, blocks and included files
(`GoesOn`), but not the bodies of macros. What an expansion does to the scopes follows by induction
on how deeply directives are nested (`expandNode_frame`): within a scope only such writes reach the
parent, and since the body of a call is within a scope of its own, its writes to its parent reach
the scope of the call and no further (`Scopes.Frame.leave`).
-/

namespace XmlMacros.Expansion

open XmlMacros.Markup

variable {env : Environment}

/-! ## What is expanded in the same scope -/

/-- After its first steps the expansion of an element goes on with the expansion of nodes, in the
scope of the element. -/
inductive GoesOn (env : Environment) (s : State) (e : Element) : List Node → State → Prop
  | block {nodes : List Node} {s' : State} (hmeans : classify env s e = .insertBlock)
    (hrun : namedBlock e s = (.ok nodes, s')) : GoesOn env s e nodes s'
  | whenTrue {nodes : List Node} {s' : State} (hmeans : classify env s e = .whenTrue)
    (hrun : keptChildren env true e s = (.ok nodes, s')) : GoesOn env s e nodes s'
  | whenFalse {nodes : List Node} {s' : State} (hmeans : classify env s e = .whenFalse)
    (hrun : keptChildren env false e s = (.ok nodes, s')) : GoesOn env s e nodes s'
  | file {path : String} {root : Element} {s' : State} (hmeans : classify env s e = .includeFile)
    (hrun : namedFile env e s = (.ok (path, root), s')) :
    GoesOn env s e root.children (enterFile path s')
  | arguments {naming : Naming} {m : Macro} {arguments : Dict String} {s' : State}
    (hmeans : classify env s e = naming.directive)
    (hrun : callee env e naming s = (.ok (m, arguments), s')) : GoesOn env s e e.children s'
  | children {attrs : List Attr} {s' : State} (hmeans : classify env s e = .ordinary)
    (hrun : expandAttrs env e.attrs s = (.ok attrs, s')) : GoesOn env s e e.children s'

/-- The expansion of nodes in a state comes to a directive that writes the name to the parent of the
scope that the nodes are expanded in. -/
inductive ParentWrite (env : Environment) : Nat → State → List Node → String → Prop
  | here {depth : Nat} {s : State} {e : Element} {rest : List Node} {name : String}
    (hmeans : classify env s e = .property) (hlocal : s.localProperties = true)
    (hscope : e.attr? "scope" = some "parent") (hname : e.attr? "name" = some name) :
    ParentWrite env (depth + 1) s (e.node :: rest) name
  | inside {depth : Nat} {s s' : State} {e : Element} {nodes rest : List Node} {name : String}
    (hgoes : GoesOn env s e nodes s') (hwrite : ParentWrite env depth s' nodes name) :
    ParentWrite env (depth + 1) s (e.node :: rest) name
  | later {depth : Nat} {s s' : State} {n : Node} {out rest : List Node} {name : String}
    (hrun : expandNode env depth n s = (.ok out, s'))
    (hwrite : ParentWrite env depth s' rest name) : ParentWrite env depth s (n :: rest) name

/-- What the first node writes is written. -/
theorem ParentWrite.head {depth : Nat} {s : State} {n : Node} {rest : List Node} {name : String}
    (h : ParentWrite env depth s [n] name) : ParentWrite env depth s (n :: rest) name := by
  cases h with
  | here hmeans hlocal hscope hname => exact .here hmeans hlocal hscope hname
  | inside hgoes hwrite => exact .inside hgoes hwrite
  | later hrun hwrite => cases hwrite

/-- The names that the body of a macro writes to the scope that it is called in. -/
def BodyWrites (env : Environment) (depth : Nat) (m : Macro) (arguments : Dict String)
    (children : List Node) (s : State) (name : String) : Prop :=
  ∃ table s', bindCall env m arguments children s = (.ok table, s') ∧
    ParentWrite env depth (enterCall m table s') m.body name

/-! ## Sequences -/

section
variable {W : String → Prop} {s : State}

/-- Where tables stay as they are, nothing is written to. -/
theorem frame_of_samePlace {s' : State} (h : SamePlace s s') :
    Scopes.Frame W s.scopes s'.scopes := by
  rw [h.scopes]
  exact .refl W _

/-- A sequence writes what its steps write. -/
theorem frame_bind {α β : Type} {x : M α} {f : α → M β}
    (hx : Scopes.Frame W s.scopes (x s).2.scopes)
    (hf : ∀ a s', x s = (.ok a, s') → Scopes.Frame W s'.scopes (f a s').2.scopes) :
    Scopes.Frame W s.scopes ((x >>= f) s).2.scopes :=
  rel_bind (R := fun s s' : State => Scopes.Frame W s.scopes s'.scopes) .trans hx hf

/-- A step that changes no scope may come first. -/
theorem frame_bind_of_samePlace {α β : Type} {x : M α} {f : α → M β} (hx : Keeps SamePlace x)
    (hf : ∀ a s', x s = (.ok a, s') → Scopes.Frame W s'.scopes (f a s').2.scopes) :
    Scopes.Frame W s.scopes ((x >>= f) s).2.scopes :=
  frame_bind (frame_of_samePlace (hx s)) hf

end

/-! ## Writing properties -/

/-- What the directive of a property does to the scopes. -/
theorem defineProperty_frame (depth : Nat) (e : Element) (s : State) :
    Scopes.Frame (fun name => s.localProperties = true ∧ e.attr? "scope" = some "parent" ∧
      e.attr? "name" = some name) s.scopes (defineProperty env depth e s).2.scopes := by
  rcases defineProperty_writes env depth e s with hquiet | hwrites
  · exact frame_of_samePlace hquiet.samePlace
  · obtain ⟨name, value, placement, hname, hscope, hlocal, hquiet⟩ := hwrites
    rw [hquiet.samePlace.scopes]
    refine .define fun hparent => ⟨?_, hscope hparent, hname⟩
    refine (Bool.eq_false_or_eq_true s.localProperties).resolve_right fun hfalse => ?_
    cases hparent.symm.trans (hlocal hfalse)

/-! ## Expanding nodes -/

/-- The expansion of every node stays within its frame, with directives nested to this depth. -/
def Framed (env : Environment) (depth : Nat) : Prop :=
  ∀ n s, Scopes.Frame (ParentWrite env depth s [n]) s.scopes (expandNode env depth n s).2.scopes

section
variable {depth : Nat} (h : Framed env depth)

include h

/-- The nodes of a list write what any of them writes to a caller's scope, in the state in which it
is its turn. -/
theorem expandNodes_frame (nodes : List Node) (s : State) :
    Scopes.Frame (ParentWrite env depth s nodes) s.scopes
      (expandNodes (expandNode env depth) nodes s).2.scopes := by
  induction nodes generalizing s with
  | nil => exact .refl _ _
  | cons n rest ih =>
    refine frame_bind ((h n s).mono fun name => .head) fun out s₁ hn => ?_
    refine frame_bind ((ih s₁).mono fun name => .later hn) fun _ _ _ => .refl _ _

/-- Instantiating a macro is isolated from the scopes that are alive: what its body writes to its
parent is written to the scope of the call. -/
theorem instantiate_isolated (m : Macro) (arguments : Dict String) (children : List Node)
    (s : State) :
    Scopes.Isolated (BodyWrites env depth m arguments children s) s.scopes
      (instantiate env (expandNode env depth) m arguments children s).2.scopes := by
  have hbind := (bindCall_quiet env m arguments children s).samePlace
  unfold instantiate
  rcases hr : bindCall env m arguments children s with ⟨abort | table, s₁⟩
  · rw [hr] at hbind
    rw [bind_of_error hr, hbind.scopes]
    exact .refl _ _
  · rw [hr] at hbind
    rw [bind_of_ok hr, ← hbind.scopes]
    have hbody := expandNodes_frame h m.body (enterCall m table s₁)
    exact hbody.leave.mono fun name hw => ⟨table, s₁, hr, hw⟩

/-- The children of a call are expanded in its scope, the body of the macro is not. -/
theorem callMacro_frame {e : Element} {naming : Naming} {s : State}
    (hmeans : classify env s e = naming.directive) :
    Scopes.Frame (ParentWrite env (depth + 1) s [e.node]) s.scopes
      (callMacro env (expandNode env depth) naming e s).2.scopes := by
  refine frame_bind_of_samePlace (callee_quiet env e naming).samePlace fun callee s₁ hcallee => ?_
  refine frame_bind ((expandNodes_frame h e.children s₁).mono fun name hw =>
    .inside (.arguments hmeans hcallee) hw) fun children s₂ _ => ?_
  exact (instantiate_isolated h _ _ _ s₂).frame

/-- One case for each directive: those that expand nodes in the scope of the element go on with
them, and only properties are written there and then. -/
theorem perform_frame (e : Element) (s : State) :
    Scopes.Frame (ParentWrite env (depth + 1) s [e.node]) s.scopes
      (perform env depth (expandNode env depth) e (classify env s e) s).2.scopes := by
  have hinside {nodes : List Node} {s' : State} (hgoes : GoesOn env s e nodes s') :
      Scopes.Frame (ParentWrite env (depth + 1) s [e.node]) s'.scopes
        (expandNodes (expandNode env depth) nodes s').2.scopes :=
    (expandNodes_frame h nodes s').mono fun name => .inside hgoes
  cases hmeans : classify env s e with
  | property =>
    refine (defineProperty_frame depth e s).mono fun name => ?_
    rintro ⟨hlocal, hscope, hname⟩
    exact .here hmeans hlocal hscope hname
  | defineMacro => exact frame_of_samePlace (defineMacro_samePlace depth e s)
  | arg => exact frame_of_samePlace (defineArg_samePlace env e s)
  | insertBlock =>
    exact frame_bind_of_samePlace (namedBlock_quiet e).samePlace fun nodes s₁ hrun =>
      hinside (.block hmeans hrun)
  | whenTrue =>
    exact frame_bind_of_samePlace (keptChildren_quiet env true e).samePlace fun nodes s₁ hrun =>
      hinside (.whenTrue hmeans hrun)
  | whenFalse =>
    exact frame_bind_of_samePlace (keptChildren_quiet env false e).samePlace fun nodes s₁ hrun =>
      hinside (.whenFalse hmeans hrun)
  | includeFile =>
    exact frame_bind_of_samePlace (namedFile_samePlace env e) fun ⟨path, root⟩ s₁ hrun =>
      hinside (.file hmeans hrun)
  | call => exact callMacro_frame h hmeans
  | invoke => exact callMacro_frame h hmeans
  | newElement | newAttribute => exact .refl _ _
  | ordinary =>
    refine frame_bind ?_ fun _ _ _ => .refl _ _
    have hattrs := (expandAttrs_quiet env e.attrs).samePlace
    refine frame_bind_of_samePlace hattrs fun attrs s₁ hrun => ?_
    exact frame_bind (hinside (.children hmeans hrun)) fun _ _ _ => .refl _ _

end

/-- Within a scope, only writes to the parent leave it, and what is written to the global scope. -/
theorem expandNode_frame (env : Environment) (depth : Nat) : Framed env depth := by
  induction depth with
  | zero => exact fun n s => .refl _ _
  | succ depth ih =>
    intro n s
    cases n with
    | element tag attrs children =>
      exact (perform_frame ih ⟨tag, attrs, children⟩ s).trans
        (frame_of_samePlace (reportFault_quiet _ s).samePlace)
    | text | cdata | comment | instruction =>
      have hleaf (n : Node) : Keeps Quiet (do return [← expandLeaf env n] : M (List Node)) :=
        (expandLeaf_quiet env n).bind fun _ => .pure _
      exact frame_of_samePlace ((hleaf _).samePlace s)

/-! ## Calls -/

/-- A call gives back the macros that were defined when it began. -/
theorem instantiate_macros (expand : Expand) (m : Macro) (arguments : Dict String)
    (children : List Node) (s : State) :
    (instantiate env expand m arguments children s).2.macros = s.macros := by
  obtain ⟨console, hbind⟩ := bindCall_quiet env m arguments children s
  unfold instantiate
  rcases hr : bindCall env m arguments children s with ⟨abort | table, s₁⟩
  · rw [hr] at hbind
    rw [bind_of_error hr, hbind]
  · rw [hr] at hbind
    obtain rfl : s₁ = { s with console := console } := hbind
    rw [bind_of_ok hr]
    rfl

/-- However the call of a macro ends, compared with the state in which its children are expanded the
registry is the same, and so are all scopes besides the current and the global one. In the current
scope, if it is not the global one, only names differ that the body writes to its parent. -/
theorem call_isolated (env : Environment) (depth : Nat) (e : Element) (naming : Naming) (m : Macro)
    (arguments : Dict String) (children : List Node) (s s₀ s₁ : State)
    (hmeans : classify env s e = naming.directive)
    (hcallee : callee env e naming s = (.ok (m, arguments), s₀))
    (hchildren : expandNodes (expandNode env depth) e.children s₀ = (.ok children, s₁)) :
    let after := (expandNode env (depth + 1) e.node s).2
    after.macros = s₁.macros ∧
      after.scopes.enclosing.length = s₁.scopes.enclosing.length ∧
      after.scopes.enclosing.dropLast = s₁.scopes.enclosing.dropLast ∧
      (s₁.scopes.enclosing ≠ [] → ∀ name,
        after.scopes.current.get? name ≠ s₁.scopes.current.get? name →
        BodyWrites env depth m arguments children s₁ name) := by
  intro after
  let x := instantiate env (expandNode env depth) m arguments children
  have hcall : perform env depth (expandNode env depth) e (classify env s e) s = x s₁ := by
    have hrun : callMacro env (expandNode env depth) naming e s = x s₁ := by
      unfold callMacro
      rw [bind_of_ok hcallee]
      exact bind_of_ok hchildren
    rw [hmeans]
    cases naming <;> exact hrun
  obtain ⟨console, hafter⟩ : Quiet (x s₁).2 after := by
    rw [← hcall]
    exact reportFault_quiet _ s
  have hisolated := instantiate_isolated (expandNode_frame env depth) m arguments children s₁
  rw [hafter]
  refine ⟨instantiate_macros _ m arguments children s₁, hisolated.depth, hisolated.enclosing, ?_⟩
  intro hne name hdiffers
  exact Classical.byContradiction fun hname => hdiffers (hisolated.current hne name hname)

/-- A macro that writes a property to the scope that it is called in. -/
def parentWriter : Macro where
  name := "m"
  params := readParams ""
  body := [.element "xacro:property" [⟨"name", "p"⟩, ⟨"value", "1"⟩, ⟨"scope", "parent"⟩] []]
  history := []

/-- A state within another call. -/
def nestedState : State :=
  { State.fresh true with
    scopes := Scopes.initial.push
    macros := Dict.ofList [("m", parentWriter)] }

/-- A macro whose body writes to its parent's scope changes the caller's table, and the name is
among those that are excepted. -/
theorem call_isolated_parentWriter :
    ((expandNode (.ofFiles true []) 8 (.element "xacro:m" [] []) nestedState).2.scopes.current.get?
      "p").isSome ∧
      BodyWrites (.ofFiles true []) 7 parentWriter Dict.empty [] nestedState "p" := by
  let e : Element := ⟨"xacro:m", [], []⟩
  have hmeans : classify (.ofFiles true []) nestedState e = Naming.byTag.directive := by
    decide
  have hcallee : callee (.ofFiles true []) e .byTag nestedState =
      (.ok (parentWriter, Dict.empty), nestedState) := by
    have hname : stripTag e.tag = "m" := by decide
    unfold callee
    rw [hname]
    rfl
  have hafter : ((expandNode (.ofFiles true []) 8 e.node nestedState).2.scopes.current.get?
      "p").isSome := by
    decide +kernel
  have hbefore : (nestedState.scopes.current.get? "p").isSome = false := by
    decide
  obtain ⟨-, -, -, hcurrent⟩ := call_isolated (.ofFiles true []) 7 e .byTag parentWriter
    Dict.empty [] nestedState nestedState nestedState hmeans hcallee rfl
  refine ⟨hafter, hcurrent nofun "p" fun hsame => ?_⟩
  rw [hsame, hbefore] at hafter
  cases hafter

end XmlMacros.Expansion
