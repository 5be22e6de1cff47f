import XmlMacros.Proofs.Expansion.Preloading

/-!
# From a moment to the end of a run

A run keeps books: which substitution arguments have values, and what is known of files. Files and
calls that are left take nothing of them back. So what a relation says of the books at two points of
a run follows from what it says of single steps (`Accruing`): it relates the start of a run to each
of its moments (`Accruing.start_moment`), and each of them to its end, in whatever way the run ends
(`Accruing.moment_end`). A run is that of any task, of a document as of the nodes of a macro's body.
-/

namespace XmlMacros

open XmlMacros.Markup

namespace Expansion

/-- The state that a task ends in, in whatever way. -/
def Task.after (env : Environment) : Task → State → State
  | .nodes depth ns, s => (expandNodes (expandNode env depth) ns s).2
  | .definitions depth root, s => (grabDefinitions env depth root s).2
  | .includes depth levels root workingPath, s =>
    (collectIncludes env depth levels root workingPath s).2
  | .files depth levels workingPath fetched, s =>
    (takeFiles env depth workingPath (collectIncludes env depth levels) fetched s).2
  | .document depth inOrder d, s => (expandDocument env depth inOrder d s).2

/-! ## Runs that are known in part -/

/-- Elements are performed like nodes one after the other. -/
theorem performAll_snd (env : Environment) (depth : Nat) (es : List Element) (s : State) :
    (performAll env depth es s).2 = (Task.nodes depth (es.map Element.node)).after env s := by
  rw [Task.after]
  induction es generalizing s with
  | nil => rfl
  | cons e rest ih =>
    exact bind_snd_congr fun out s' _ => Keeps.after (fun _ => .pure _) (ih s')

/-- What a call does once its children are expanded. -/
theorem perform_calls {env : Environment} {R : State → State → Prop} {depth : Nat} {e : Element}
    {naming : Naming} {m : Macro} {arguments : Dict String} {children : List Node}
    {s s₀ s₁ t : State} (hmeans : classify env s e = naming.directive)
    (hcallee : callee env e naming s = (.ok (m, arguments), s₀))
    (hchildren : expandNodes (expandNode env depth) e.children s₀ = (.ok children, s₁))
    (hR : R t (instantiate env (expandNode env depth) m arguments children s₁).2) :
    R t (perform env depth (expandNode env depth) e (classify env s e) s).2 := by
  have hcall : R t (callMacro env (expandNode env depth) naming e s).2 := by
    rw [callMacro, bind_of_ok hcallee]
    dsimp only
    rwa [bind_of_ok hchildren]
  rw [hmeans]
  cases naming <;> exact hcall

/-! ## The books -/

/-- The same arguments have the same values, and the same is known of files. Where the expansion is,
and what was defined and reported, may differ. -/
structure SameBooks (s s' : State) : Prop where
  args : s'.args = s.args
  includes : s'.includes = s.includes
  preloaded : s'.preloaded = s.preloaded
  failed : s'.failed = s.failed
  requested : s'.requested = s.requested

/-- What only reports leaves the books as they are. -/
theorem Quiet.sameBooks {s s' : State} (h : Quiet s s') : SameBooks s s' := by
  obtain ⟨_, rfl⟩ := h
  exact ⟨rfl, rfl, rfl, rfl, rfl⟩

theorem Quiet.sameBooks_symm {s s' : State} (h : Quiet s s') : SameBooks s' s := by
  obtain ⟨_, rfl⟩ := h
  exact ⟨rfl, rfl, rfl, rfl, rfl⟩

/-- The relation is one between the books, and all that is written to them is in it. -/
structure Accruing (env : Environment) (R : State → State → Prop) : Prop where
  sameBooks : ∀ {s s'}, SameBooks s s' → R s s'
  booked : ∀ {s s'}, Booked s s' → R s s'
  arg : ∀ e, Keeps R (defineArg env e)

namespace Accruing

variable {env : Environment} {R : State → State → Prop} (h : Accruing env R)

include h

/-- A quiet computation keeps every relation that single steps of a run add up to. -/
theorem quiet {α : Type} {x : M α} (hx : Keeps Quiet x) : Keeps R x :=
  hx.mono fun hs => h.sameBooks hs.sameBooks

variable [IsTrans State R]

/-- A property that is defined keeps the relation. -/
theorem defineProperty (depth : Nat) (e : Element) : Keeps R (defineProperty env depth e) :=
  defineProperty_keeps (fun hs => h.sameBooks hs.sameBooks)
    (fun _ _ => h.sameBooks ⟨rfl, rfl, rfl, rfl, rfl⟩) env depth e

/-- A macro that is defined keeps the relation. -/
theorem defineMacro (depth : Nat) (e : Element) : Keeps R (defineMacro depth e) :=
  defineMacro_keeps (fun hs => h.sameBooks hs.sameBooks)
    (fun _ _ => h.sameBooks ⟨rfl, rfl, rfl, rfl, rfl⟩) depth e

/-- What is done elsewhere is in the relation: neither the way there nor the way back is in the
books. -/
theorem bracket {α : Type} {enter : State → State} {leave : State → State → State} {x : M α}
    (henter : ∀ s, SameBooks s (enter s)) (hleave : ∀ s s', SameBooks s' (leave s s'))
    (hx : Keeps R x) : Keeps R (bracket enter leave x) := by
  intro s
  rw [bracket_apply]
  exact IsTrans.trans _ _ _ (h.sameBooks (henter s))
    (IsTrans.trans _ _ _ (hx (enter s)) (h.sameBooks (hleave s _)))

/-- So does each step of an expansion, as `Keeping` asks for it. -/
theorem keeping : Keeping env R where
  booked := h.booked
  arg := h.arg
  defineMacro := h.defineMacro
  property := h.defineProperty
  insideFile _ hx :=
    h.bracket (fun _ => ⟨rfl, rfl, rfl, rfl, rfl⟩) (fun _ _ => ⟨rfl, rfl, rfl, rfl, rfl⟩) hx
  insideCall _ _ hx :=
    h.bracket (fun _ => ⟨rfl, rfl, rfl, rfl, rfl⟩) (fun _ _ => ⟨rfl, rfl, rfl, rfl, rfl⟩) hx
  withFile _ hx :=
    h.bracket (fun _ => ⟨rfl, rfl, rfl, rfl, rfl⟩) (fun _ _ => ⟨rfl, rfl, rfl, rfl, rfl⟩) hx

variable [Std.Refl R]

theorem disableLocalProperties : Keeps R disableLocalProperties := by
  refine .get_bind fun s => ?_
  split
  · exact (h.quiet (warn_quiet _)).bind fun _ _ => h.sameBooks ⟨rfl, rfl, rfl, rfl, rfl⟩
  · exact .pure _

/-! ## From the start to a moment -/

/-- What is reached from a state is an invariant of what is done from there. -/
theorem invariant (s₀ : State) : Invariant env R (fun _ => True) (R s₀) where
  keeping := h.keeping
  disable := h.disableLocalProperties
  kept hR hs := IsTrans.trans _ _ _ hs hR
  enterFile _ hs := IsTrans.trans _ _ _ hs (h.sameBooks ⟨rfl, rfl, rfl, rfl, rfl⟩)
  takingIn {s} path hs := by
    have hrecorded := h.booked (recordInclude_booked path s)
    exact IsTrans.trans _ _ _ hs
      (IsTrans.trans _ _ _ hrecorded (h.sameBooks ⟨rfl, rfl, rfl, rfl, rfl⟩))
  enterCall _ _ _ hbind hs := by
    have hbound := h.sameBooks ((bindCall_quiet env _ _ _).of_run hbind).sameBooks
    exact IsTrans.trans _ _ _ hs
      (IsTrans.trans _ _ _ hbound (h.sameBooks ⟨rfl, rfl, rfl, rfl, rfl⟩))

theorem start_moment {task : Task} {s t : State} (hmoment : Moment env task s t) : R s t := by
  refine hmoment.invariant (h.invariant s) (fun _ => trivial) ?_
  cases task with
  | document => exact h.sameBooks ⟨rfl, rfl, rfl, rfl, rfl⟩
  | nodes | definitions | includes | files => exact Std.Refl.refl s

/-! ## From a moment to the end -/

/-- A macro's body is expanded in a scope of its own, which is not in the books. -/
theorem instantiate (depth : Nat) (m : Macro) (arguments : Dict String) (children : List Node) :
    Keeps R (instantiate env (expandNode env depth) m arguments children) :=
  (h.quiet (bindCall_quiet env m arguments children)).bind fun table =>
    h.keeping.insideCall m table (expandNodes_keeps (h.keeping.expandNode depth) m.body)

section
variable {depth : Nat} {s s' t : State} {e : Element}

/-- What is related to the end of what a directive does is related to the end of what stands behind
the element as well: a fault is reported, and the nodes behind the element follow. -/
theorem behind {rest : List Node}
    (hR : R t (perform env depth (expandNode env depth) e (classify env s e) s).2) :
    R t ((Task.nodes (depth + 1) (e.node :: rest)).after env s) := by
  refine Keeps.after (fun _ => ?_) (IsTrans.trans _ _ _ hR ?_)
  · exact (expandNodes_keeps (h.keeping.expandNode (depth + 1)) rest).bind fun _ => .pure _
  · exact h.sameBooks (reportFault_quiet _ s).sameBooks

/-- Where an element goes on with nodes, their end is related to that of its directive. -/
theorem goesOn {nodes : List Node} (hgoes : GoesOn env s e nodes s') :
    R ((Task.nodes depth nodes).after env s')
      (Expansion.perform env depth (expandNode env depth) e (classify env s e) s).2 := by
  have refl (s : State) : R s s := Std.Refl.refl s
  cases hgoes with
  | block hmeans hrun =>
    rw [hmeans, perform, insertBlock, bind_of_ok hrun]
    exact refl _
  | whenTrue hmeans hrun | whenFalse hmeans hrun =>
    rw [hmeans, perform, expandIf, bind_of_ok hrun]
    exact refl _
  | file hmeans hrun =>
    rw [hmeans, perform, includeFile, bind_of_ok hrun]
    exact h.sameBooks ⟨rfl, rfl, rfl, rfl, rfl⟩
  | @arguments naming m arguments _ hmeans hrun =>
    have hcall : R ((Task.nodes depth e.children).after env s')
        (callMacro env (expandNode env depth) naming e s).2 := by
      rw [callMacro, bind_of_ok hrun]
      exact Keeps.after (h.instantiate depth m arguments) (refl _)
    rw [hmeans]
    cases naming <;> exact hcall
  | children hmeans hrun =>
    rw [hmeans, perform, expandElement, bind_assoc, bind_of_ok hrun]
    exact Keeps.after (fun _ => .pure _) (Keeps.after (fun _ => .pure _) (refl _))

end

section
variable {depth levels : Nat} {workingPath : Except Mismatch String} {path text : String}
  {rest : List (String × Except FetchFailure String)} {s t : State}

/-- What is related to the end of what is done within a file is related to the end of taking in this
file and those behind it. -/
theorem within (hR : R t
    (takeWithin env depth levels workingPath path text (Expansion.takingIn path s)).2) :
    R t ((Task.files depth levels workingPath ((path, .ok text) :: rest)).after env s) := by
  have hbehind := h.keeping.takeFiles depth workingPath (h.keeping.collectIncludes depth levels) rest
  rw [Task.after, takeFiles_cons]
  refine Keeps.after (fun _ => hbehind) ?_
  rw [takeFiles_singleton]
  exact IsTrans.trans _ _ _ hR (h.sameBooks ⟨rfl, rfl, rfl, rfl, rfl⟩)

end

section
variable {depth : Nat} {inOrder : Bool} {d : Document} {s s₁ t : State} {root : Element}

/-- What comes before the root, the root and what comes after it keep the relation one after the
other. -/
theorem expandParts (depth : Nat) (d : Document) : Keeps R (expandParts env depth d) :=
  h.keeping.nodes.expandParts depth d

/-- What is related to the end of the preparation of a document is related to the end of its
expansion. -/
theorem preparation (hR : R t (preparedRoot env depth inOrder d.root (opened s)).2) :
    R t ((Task.document depth inOrder d).after env s) := by
  have hparts := Keeps.after (fun root => h.expandParts depth { d with root := root }) hR
  exact IsTrans.trans _ _ _ hparts (h.sameBooks ⟨rfl, rfl, rfl, rfl, rfl⟩)

omit [Std.Refl R] in
/-- What is related to the end of the expansion of its parts is related to the end of the expansion
of a document. -/
theorem parts (hroot : preparedRoot env depth inOrder d.root (opened s) = (.ok root, s₁))
    (hR : R t (Expansion.expandParts env depth { d with root := root } s₁).2) :
    R t ((Task.document depth inOrder d).after env s) := by
  have hprepared : R t ((preparedRoot env depth inOrder d.root >>= fun root =>
      Expansion.expandParts env depth { d with root := root }) (opened s)).2 := by
    rwa [bind_of_ok hroot]
  exact IsTrans.trans _ _ _ hprepared (h.sameBooks ⟨rfl, rfl, rfl, rfl, rfl⟩)

end

/-- From the start of any task to its end the relation holds. -/
theorem start_end (task : Task) (s : State) : R s (task.after env s) := by
  cases task with
  | nodes depth ns => exact expandNodes_keeps (h.keeping.expandNode depth) ns s
  | definitions depth root => exact h.keeping.grabDefinitions depth root s
  | includes depth levels root workingPath =>
    exact h.keeping.collectIncludes depth levels root workingPath s
  | files depth levels workingPath fetched =>
    exact h.keeping.takeFiles depth workingPath (h.keeping.collectIncludes depth levels) fetched s
  | document depth inOrder d =>
    have hopened : R s (opened s) := h.sameBooks ⟨rfl, rfl, rfl, rfl, rfl⟩
    have hroot := h.keeping.preparedRoot h.disableLocalProperties depth inOrder d.root (opened s)
    exact h.preparation (IsTrans.trans _ _ _ hopened hroot)

/-- One case for each way to come to a moment. -/
theorem moment_end {task : Task} {s t : State} (hmoment : Moment env task s t) :
    R t (task.after env s) := by
  have nodes_keep (depth : Nat) (ns : List Node) : Keeps R (expandNodes (expandNode env depth) ns) :=
    expandNodes_keeps (h.keeping.expandNode depth) ns
  have trans {a b c : State} : R a b → R b c → R a c := IsTrans.trans a b c
  induction hmoment with
  | own hquiet => exact trans (h.sameBooks hquiet.sameBooks_symm) (nodes_keep _ _ _)
  | inside hgoes _ ih => exact h.behind (trans ih (h.goesOn hgoes))
  | binding hmeans hcallee hchildren hquiet =>
    refine h.behind (perform_calls hmeans hcallee hchildren ?_)
    exact trans (h.sameBooks hquiet.sameBooks_symm) (h.instantiate _ _ _ _ _)
  | body hmeans hcallee hchildren hbind _ ih =>
    refine h.behind (perform_calls hmeans hcallee hchildren ?_)
    rw [Expansion.instantiate, bind_of_ok hbind]
    exact trans ih (h.sameBooks ⟨rfl, rfl, rfl, rfl, rfl⟩)
  | later hrun _ ih =>
    rw [Task.after, expandNodes, bind_of_ok hrun]
    exact Keeps.after (fun _ => .pure _) ih
  | properties _ ih =>
    rw [← performAll_snd] at ih
    rw [Task.after, grabDefinitions, get_bind_apply]
    exact Keeps.after (fun _ => .get_bind fun _ => h.keeping.performAll _ _) ih
  | macros hrun _ ih =>
    rw [← performAll_snd] at ih
    rw [Task.after, grabDefinitions, get_bind_apply, bind_of_ok hrun]
    exact ih
  | names hquiet =>
    exact trans (h.sameBooks hquiet.sameBooks_symm) (h.keeping.collectIncludes _ _ _ _ _)
  | fetched hpaths hfiles _ ih =>
    rw [Task.after, collectIncludes, get_bind_apply, bind_of_ok hpaths, bind_of_ok hfiles]
    exact ih
  | defined hroot _ ih =>
    refine h.within ?_
    rw [takeWithin, bind_of_ok hroot]
    refine Keeps.after (fun _ => .get_bind fun s => ?_) ih
    refine Keeps.bind (h.keeping.books fun _ => ?_) fun _ => h.keeping.collectIncludes _ _ _ _
    exact ⟨⟨rfl, rfl, rfl, rfl, rfl, rfl⟩, rfl, rfl⟩
  | nested hroot hdefined _ ih =>
    refine h.within ?_
    rw [takeWithin, bind_of_ok hroot, bind_of_ok hdefined]
    exact ih
  | nextFile hrun _ ih =>
    rw [Task.after, takeFiles_cons, bind_of_ok hrun]
    exact ih
  | gathered hrun _ ih =>
    refine h.preparation ?_
    rw [preparedRoot, if_neg Bool.false_ne_true, gather, bind_of_ok hrun]
    refine Keeps.after (fun _ => .get_bind fun _ => .get_bind fun s => ?_) ih
    exact (h.keeping.collectIncludes _ _ _ _).bind fun _ => .pure _
  | @loaded _ d _ _ s₂ _ hrun hdefined _ ih =>
    have hstrip : stripDefinitions env d.root s₂ = (.ok (d.root.strip (isDefinition env s₂)), s₂) :=
      rfl
    refine h.preparation ?_
    rw [preparedRoot, if_neg Bool.false_ne_true, gather, bind_of_ok hrun, bind_of_ok hdefined,
      bind_of_ok hstrip, get_bind_apply]
    exact Keeps.after (fun _ => .pure _) ih
  | start hroot hquiet =>
    exact h.parts hroot (trans (h.sameBooks hquiet.sameBooks_symm) (h.expandParts _ _ _))
  | inRoot hroot hbefore hattrs _ ih =>
    refine h.parts hroot ?_
    rw [Expansion.expandParts, bind_of_ok hbefore]
    refine Keeps.after (fun _ => (h.quiet (expandMisc_quiet env _)).bind fun _ => .pure _) ?_
    rw [expandElement, bind_of_ok hattrs]
    exact Keeps.after (fun _ => .pure _) ih
  | finish hroot hbefore helement hquiet =>
    refine h.parts hroot ?_
    rw [Expansion.expandParts, bind_of_ok hbefore, bind_of_ok helement]
    refine trans (h.sameBooks hquiet.sameBooks_symm) ?_
    exact (h.quiet (expandMisc_quiet env _)).bind (fun _ => .pure _) _

end Accruing

end Expansion

end XmlMacros
