import XmlMacros.Proofs.Expansion.Isolation

/-!
# The moments of an expansion

The states that an expansion comes through, as far as texts are evaluated in them: those in which a
node is expanded, the arguments of a call are bound, a file is looked for, and so on (`Moment`).
They follow the recursion of the expansion, with one rule for each place where it goes on; that none
is missing is told by `expandDocument_agree`.

A property of states holds at every moment if it holds at the start, is kept by what was done before
and comes back (`Keeping`), and is carried into files and calls (`Moment.invariant`).
-/

namespace XmlMacros.Expansion

open XmlMacros.Markup

/-- What is done in the course of an expansion. -/
inductive Task
  /-- Nodes are expanded one after the other. -/
  | nodes (depth : Nat) (ns : List Node)
  /-- The definitions below a root are performed. -/
  | definitions (depth : Nat) (root : Element)
  /-- The files that are included below a root are loaded. -/
  | includes (depth levels : Nat) (root : Element) (workingPath : Except Mismatch String)
  /-- Fetched files are taken in one after the other. -/
  | files (depth levels : Nat) (workingPath : Except Mismatch String)
    (fetched : List (String × Except FetchFailure String))
  /-- A document is expanded. -/
  | document (depth : Nat) (inOrder : Bool) (d : Document)

/-- The state in which a fetched file is taken in. -/
def takingIn (path : String) (s : State) : State :=
  pushFile path { s with includes := s.includes ++ [path] }

/-- A task that begins in the first state may come to evaluate a text in the second one. Steps that
evaluate texts only report before they do so; all states are counted in that differ by reports from
one in which such a step begins. -/
inductive Moment (env : Environment) : Task → State → State → Prop
  /-- The texts of a node itself: its data, its attributes, or what its directive evaluates. -/
  | own {depth : Nat} {n : Node} {rest : List Node} {s t : State} (h : Quiet s t) :
    Moment env (.nodes (depth + 1) (n :: rest)) s t
  /-- What an element goes on with in its own scope. -/
  | inside {depth : Nat} {e : Element} {nodes rest : List Node} {s s' t : State}
    (hgoes : GoesOn env s e nodes s') (h : Moment env (.nodes depth nodes) s' t) :
    Moment env (.nodes (depth + 1) (e.node :: rest)) s t
  /-- The arguments of a call. -/
  | binding {depth : Nat} {e : Element} {naming : Naming} {m : Macro} {arguments : Dict String}
    {rest children : List Node} {s s₀ s₁ t : State}
    (hmeans : classify env s e = naming.directive)
    (hcallee : callee env e naming s = (.ok (m, arguments), s₀))
    (hchildren : expandNodes (expandNode env depth) e.children s₀ = (.ok children, s₁))
    (h : Quiet s₁ t) : Moment env (.nodes (depth + 1) (e.node :: rest)) s t
  /-- The body of a macro that is called. -/
  | body {depth : Nat} {e : Element} {naming : Naming} {m : Macro} {arguments : Dict String}
    {rest children : List Node} {table : Table} {s s₀ s₁ s₂ t : State}
    (hmeans : classify env s e = naming.directive)
    (hcallee : callee env e naming s = (.ok (m, arguments), s₀))
    (hchildren : expandNodes (expandNode env depth) e.children s₀ = (.ok children, s₁))
    (hbind : bindCall env m arguments children s₁ = (.ok table, s₂))
    (h : Moment env (.nodes depth m.body) (enterCall m table s₂) t) :
    Moment env (.nodes (depth + 1) (e.node :: rest)) s t
  /-- The nodes behind a node. -/
  | later {depth : Nat} {n : Node} {out rest : List Node} {s s' t : State}
    (hrun : expandNode env depth n s = (.ok out, s')) (h : Moment env (.nodes depth rest) s' t) :
    Moment env (.nodes depth (n :: rest)) s t
  /-- The properties below a root. -/
  | properties {depth : Nat} {root : Element} {s t : State}
    (h : Moment env (.nodes depth
      ((root.findElements (classify env s · == .property) (isDefinition env s)).map Element.node))
      s t) : Moment env (.definitions depth root) s t
  /-- The macros below a root, once the properties are defined. -/
  | macros {depth : Nat} {root : Element} {s s' t : State}
    (hrun : performAll env depth
      (root.findElements (classify env s · == .property) (isDefinition env s)) s = (.ok (), s'))
    (h : Moment env (.nodes depth
      ((root.findElements (classify env s' · == .defineMacro) (isDefinition env s')).map
        Element.node)) s' t) : Moment env (.definitions depth root) s t
  /-- The names of the files that are included. -/
  | names {depth levels : Nat} {root : Element} {workingPath : Except Mismatch String}
    {s t : State} (h : Quiet s t) : Moment env (.includes depth (levels + 1) root workingPath) s t
  /-- The files that are included. -/
  | fetched {depth levels : Nat} {root : Element} {workingPath : Except Mismatch String}
    {paths : List String} {files : List (String × Except FetchFailure String)} {s s₁ s₂ t : State}
    (hpaths : includePaths env workingPath
      (root.findElements (classify env s · == .includeFile) (fun _ => false)) [] s
        = (.ok paths, s₁))
    (hfiles : fetchAll env paths s₁ = (.ok files, s₂))
    (h : Moment env (.files depth levels workingPath files) s₂ t) :
    Moment env (.includes depth (levels + 1) root workingPath) s t
  /-- The definitions in a file. -/
  | defined {depth levels : Nat} {workingPath : Except Mismatch String} {path text : String}
    {root : Element} {rest : List (String × Except FetchFailure String)} {s s₁ t : State}
    (hroot : parseRoot text (takingIn path s) = (.ok root, s₁))
    (h : Moment env (.definitions depth root) s₁ t) :
    Moment env (.files depth levels workingPath ((path, .ok text) :: rest)) s t
  /-- The files that are included in a file. -/
  | nested {depth levels : Nat} {workingPath : Except Mismatch String} {path text : String}
    {root : Element} {rest : List (String × Except FetchFailure String)} {s s₁ s₂ t : State}
    (hroot : parseRoot text (takingIn path s) = (.ok root, s₁))
    (hdefined : grabDefinitions env depth root s₁ = (.ok (), s₂))
    (h : Moment env
      (.includes depth levels (root.strip (isDefinition env s₂)) (.ok (IncludePath.base path)))
      { s₂ with
        preloaded :=
          s₂.preloaded.insert path ⟨workingPath, root.strip (isDefinition env s₂)⟩ } t) :
    Moment env (.files depth levels workingPath ((path, .ok text) :: rest)) s t
  /-- The files behind a file. -/
  | nextFile {depth levels : Nat} {workingPath : Except Mismatch String}
    {file : String × Except FetchFailure String}
    {rest : List (String × Except FetchFailure String)} {s s' t : State}
    (hrun : takeFiles env depth workingPath (collectIncludes env depth levels) [file] s
      = (.ok (), s'))
    (h : Moment env (.files depth levels workingPath rest) s' t) :
    Moment env (.files depth levels workingPath (file :: rest)) s t
  /-- The definitions in a document. -/
  | gathered {depth : Nat} {d : Document} {s s₁ t : State}
    (hrun : disableLocalProperties (opened s) = (.ok (), s₁))
    (h : Moment env (.definitions depth d.root) s₁ t) : Moment env (.document depth false d) s t
  /-- The files that a document includes, where definitions are gathered first. -/
  | loaded {depth : Nat} {d : Document} {s s₁ s₂ t : State}
    (hrun : disableLocalProperties (opened s) = (.ok (), s₁))
    (hdefined : grabDefinitions env depth d.root s₁ = (.ok (), s₂))
    (h : Moment env (.includes depth depth (d.root.strip (isDefinition env s₂)) s₂.workingPath)
      s₂ t) : Moment env (.document depth false d) s t
  /-- What stands before the root, and the attributes of the root. -/
  | start {depth : Nat} {inOrder : Bool} {d : Document} {root : Element} {s s₁ t : State}
    (hroot : preparedRoot env depth inOrder d.root (opened s) = (.ok root, s₁)) (h : Quiet s₁ t) :
    Moment env (.document depth inOrder d) s t
  /-- The nodes in the root. -/
  | inRoot {depth : Nat} {inOrder : Bool} {d : Document} {root : Element} {before : List Misc}
    {attrs : List Attr} {s s₁ s₂ s₃ t : State}
    (hroot : preparedRoot env depth inOrder d.root (opened s) = (.ok root, s₁))
    (hbefore : expandMisc env d.before s₁ = (.ok before, s₂))
    (hattrs : expandAttrs env root.attrs s₂ = (.ok attrs, s₃))
    (h : Moment env (.nodes depth root.children) s₃ t) : Moment env (.document depth inOrder d) s t
  /-- What stands behind the root. -/
  | finish {depth : Nat} {inOrder : Bool} {d : Document} {root root' : Element}
    {before : List Misc} {s s₁ s₂ s₃ t : State}
    (hroot : preparedRoot env depth inOrder d.root (opened s) = (.ok root, s₁))
    (hbefore : expandMisc env d.before s₁ = (.ok before, s₂))
    (helement : expandElement env (expandNode env depth) root s₂ = (.ok root', s₃))
    (h : Quiet s₃ t) : Moment env (.document depth inOrder d) s t

/-! ## Invariants -/

/-- The state in which a task begins its work: a document is expanded with scopes of its own. -/
def Task.enter : Task → State → State
  | .document .., s => opened s
  | _, s => s

/-- A property of states that a relation keeps and that is carried into files and calls. A call is
made in a state that was reached, and its macro was registered in one that the property held of. -/
structure Invariant (env : Environment) (R : State → State → Prop) (Reached : State → Prop)
    (P : State → Prop) : Prop where
  keeping : Keeping env R
  disable : Keeps R disableLocalProperties
  kept : ∀ {s s'}, R s s' → P s → P s'
  enterFile : ∀ {s} path, P s → P (enterFile path s)
  takingIn : ∀ {s} path, P s → P (takingIn path s)
  enterCall : ∀ {name m arguments children table r s s'}, P r → r.macros.get? name = some m →
    Reached s →
    bindCall env m arguments children s = (.ok table, s') → P s → P (enterCall m table s')

section
variable {env : Environment} {R : State → State → Prop} {Reached P : State → Prop}
  (hP : Invariant env R Reached P)

include hP

namespace Invariant

/-- What a step does that is in the relation keeps the invariant. -/
theorem run {α : Type} {x : M α} {s s' : State} {r : Except Abort α} (hx : Keeps R x)
    (hrun : x s = (r, s')) (hs : P s) : P s' :=
  hP.kept (hx.of_run hrun) hs

/-- Reports keep it. -/
theorem quiet {s s' : State} (h : Quiet s s') (hs : P s) : P s' :=
  hP.kept (hP.keeping.booked h.booked) hs

/-- From the state of a directive to that of the nodes expanded in it, the invariant stays. -/
theorem goesOn {s s' : State} {e : Element} {nodes : List Node} (h : GoesOn env s e nodes s')
    (hs : P s) : P s' := by
  cases h with
  | block _ hrun => exact hP.quiet ((namedBlock_quiet e).of_run hrun) hs
  | whenTrue _ hrun | whenFalse _ hrun =>
    exact hP.quiet ((keptChildren_quiet env _ e).of_run hrun) hs
  | file _ hrun =>
    exact hP.enterFile _ (hP.run (hP.keeping.books (namedFile_booked env e)) hrun hs)
  | arguments _ hrun => exact hP.quiet ((callee_quiet env e _).of_run hrun) hs
  | children _ hrun => exact hP.quiet ((expandAttrs_quiet env e.attrs).of_run hrun) hs

variable [Std.Refl R]

/-- It holds where a file has been read that is being taken in. -/
theorem taken {path text : String} {root : Element} {s s₁ : State}
    (hroot : parseRoot text (Expansion.takingIn path s) = (.ok root, s₁)) (hs : P s) : P s₁ :=
  hP.run (parseRoot_keeps text) hroot (hP.takingIn path hs)

variable [IsTrans State R]

/-- Before the arguments of a call are evaluated, its children were expanded. -/
theorem caller {depth : Nat} {e : Element} {naming : Naming} {m : Macro}
    {arguments : Dict String} {children : List Node} {s s₀ s₁ : State}
    (hcallee : callee env e naming s = (.ok (m, arguments), s₀))
    (hchildren : expandNodes (expandNode env depth) e.children s₀ = (.ok children, s₁))
    (hs : P s) : P s₁ :=
  hP.run (expandNodes_keeps (hP.keeping.expandNode depth) e.children) hchildren
    (hP.quiet ((callee_quiet env e naming).of_run hcallee) hs)

/-- And where the root of a document has been prepared. -/
theorem prepared {depth : Nat} {inOrder : Bool} {root root' : Element} {s s₁ : State}
    (hroot : preparedRoot env depth inOrder root s = (.ok root', s₁)) (hs : P s) : P s₁ :=
  hP.run (hP.keeping.preparedRoot hP.disable depth inOrder root) hroot hs

end Invariant

variable [Std.Refl R] [IsTrans State R]

/-- An invariant holds at every moment of a task that it holds at the start of. All callers count
that are moments of the task themselves. -/
theorem Moment.invariant {task : Task} {s t : State} (h : Moment env task s t)
    (hreached : ∀ {t}, Moment env task s t → Reached t) (hs : P (task.enter s)) : P t := by
  have refl (s : State) : Quiet s s := Std.Refl.refl s
  induction h with
  | own h => exact hP.quiet h hs
  | inside hgoes _ ih => exact ih (fun h => hreached (.inside hgoes h)) (hP.goesOn hgoes hs)
  | binding _ hcallee hchildren h => exact hP.quiet h (hP.caller hcallee hchildren hs)
  | body hmeans hcallee hchildren hbind _ ih =>
    have hcaller := hreached (.binding hmeans hcallee hchildren (refl _))
    refine ih (fun h => hreached (.body hmeans hcallee hchildren hbind h)) ?_
    obtain ⟨name, hregistered⟩ := callee_registered hcallee
    exact hP.enterCall hs hregistered hcaller hbind (hP.caller hcallee hchildren hs)
  | later hrun _ ih =>
    exact ih (fun h => hreached (.later hrun h)) (hP.run (hP.keeping.expandNode _ _) hrun hs)
  | properties _ ih => exact ih (fun h => hreached (.properties h)) hs
  | macros hrun _ ih =>
    exact ih (fun h => hreached (.macros hrun h)) (hP.run (hP.keeping.performAll _ _) hrun hs)
  | names h => exact hP.quiet h hs
  | fetched hpaths hfiles _ ih =>
    have hnamed := hP.quiet ((includePaths_quiet env _ _ _).of_run hpaths) hs
    refine ih (fun h => hreached (.fetched hpaths hfiles h)) ?_
    exact hP.run (hP.keeping.books (fetchAll_booked env _)) hfiles hnamed
  | defined hroot _ ih => exact ih (fun h => hreached (.defined hroot h)) (hP.taken hroot hs)
  | nested hroot hdefined _ ih =>
    have hgrabbed := hP.run (hP.keeping.grabDefinitions _ _) hdefined (hP.taken hroot hs)
    refine ih (fun h => hreached (.nested hroot hdefined h)) (hP.kept ?_ hgrabbed)
    exact hP.keeping.booked ⟨⟨rfl, rfl, rfl, rfl, rfl, rfl⟩, rfl, rfl⟩
  | nextFile hrun _ ih =>
    refine ih (fun h => hreached (.nextFile hrun h)) (hP.run ?_ hrun hs)
    exact hP.keeping.takeFiles _ _ (hP.keeping.collectIncludes _ _) _
  | gathered hrun _ ih =>
    exact ih (fun h => hreached (.gathered hrun h)) (hP.run hP.disable hrun hs)
  | loaded hrun hdefined _ ih =>
    have hstart := hP.run hP.disable hrun hs
    refine ih (fun h => hreached (.loaded hrun hdefined h)) ?_
    exact hP.run (hP.keeping.grabDefinitions _ _) hdefined hstart
  | start hroot h => exact hP.quiet h (hP.prepared hroot hs)
  | inRoot hroot hbefore hattrs _ ih =>
    have hmisc := hP.quiet ((expandMisc_quiet env _).of_run hbefore) (hP.prepared hroot hs)
    refine ih (fun h => hreached (.inRoot hroot hbefore hattrs h)) ?_
    exact hP.quiet ((expandAttrs_quiet env _).of_run hattrs) hmisc
  | finish hroot hbefore helement h =>
    have hmisc := hP.quiet ((expandMisc_quiet env _).of_run hbefore) (hP.prepared hroot hs)
    exact hP.quiet h (hP.run (hP.keeping.expandElement _ _) helement hmisc)

end

end XmlMacros.Expansion
