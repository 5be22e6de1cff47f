import XmlMacros.Proofs.Expansion.Quiet

/-!
# What a whole expansion keeps

A relation between the states before and after, reflexive and transitive, holds of a whole expansion
if it holds of its steps. For the expansion of nodes these are the steps that only report, the
directives that define something, looking for a file, and what is done inside of a file or of a call
if it holds of what is done there (`NodeKeeping`). Where all that changes nothing but the books is
in the relation (`Keeping`), it holds of the gathering of definitions too. The induction over the
nesting of directives is done here once, for nodes (`NodeKeeping.expandNode`) and for files
(`Keeping.collectIncludes`); a document is prepared by a step of its own besides
(`Keeping.preparedRoot`).
-/

namespace XmlMacros

open XmlMacros.Markup

namespace Expansion

/-- The steps of the expansion of nodes are in the relation. -/
structure NodeKeeping (env : Environment) (R : State → State → Prop) : Prop where
  quiet : ∀ {s s'}, Quiet s s' → R s s'
  namedFile : ∀ e, Keeps R (namedFile env e)
  arg : ∀ e, Keeps R (defineArg env e)
  defineMacro : ∀ depth e, Keeps R (defineMacro depth e)
  property : ∀ depth e, Keeps R (defineProperty env depth e)
  insideFile : ∀ {x : M (List Node)} path, Keeps R x → Keeps R (insideFile path x)
  insideCall : ∀ {x : M (List Node)} m table, Keeps R x → Keeps R (insideCall m table x)

/-- The steps of an expansion are in the relation. -/
structure Keeping (env : Environment) (R : State → State → Prop) : Prop where
  booked : ∀ {s s'}, Booked s s' → R s s'
  arg : ∀ e, Keeps R (defineArg env e)
  defineMacro : ∀ depth e, Keeps R (defineMacro depth e)
  property : ∀ depth e, Keeps R (defineProperty env depth e)
  insideFile : ∀ {x : M (List Node)} path, Keeps R x → Keeps R (insideFile path x)
  insideCall : ∀ {x : M (List Node)} m table, Keeps R x → Keeps R (insideCall m table x)
  withFile : ∀ {x : M Unit} path, Keeps R x → Keeps R (withFile path x)

end Expansion

/-- What is kept in a narrower sense is kept in a wider one. -/
theorem Keeps.mono {σ ε α : Type} {R R' : σ → σ → Prop} {x : ExceptT ε (StateM σ) α}
    (h : Keeps R x) (hR : ∀ {s s'}, R s s' → R' s s') : Keeps R' x :=
  fun s => hR (h s)

namespace Expansion

/-! ## Sequences of nodes -/

section
variable {R : State → State → Prop} [Std.Refl R] [IsTrans State R]

/-- Nodes in a row keep what each of them keeps. -/
theorem expandNodes_keeps {expand : Expand} (h : ∀ n, Keeps R (expand n)) (nodes : List Node) :
    Keeps R (expandNodes expand nodes) := by
  induction nodes with
  | nil => exact .pure _
  | cons n rest ih => exact (h n).bind fun _ => ih.bind fun _ => .pure _

end

/-- A fault is written on the console, and nothing that is read later changes. -/
theorem reportFault_quiet (x : M (List Node)) (s : State) : Quiet (x s).2 (reportFault x s).2 := by
  unfold reportFault
  rw [tryCatch_apply]
  rcases x s with ⟨(f | _ | _ | _) | out, s'⟩
  · exact ((warn_quiet f.message).bind fun _ => .pure _) s'
  · exact Std.Refl.refl s'
  · exact Std.Refl.refl s'
  · exact Std.Refl.refl s'
  · exact Std.Refl.refl s'

namespace NodeKeeping

variable {env : Environment} {R : State → State → Prop} (h : NodeKeeping env R)

include h

/-- Steps that only report keep it. -/
theorem quietly {α : Type} {x : M α} (hx : Keeps Quiet x) : Keeps R x :=
  hx.mono h.quiet

variable [Std.Refl R] [IsTrans State R]

/-! ## Expanding nodes -/

/-- A call finds its macro, expands its children and binds the parameters before its body
is entered. -/
theorem callMacro {expand : Expand} (hexpand : ∀ n, Keeps R (expand n)) (naming : Naming)
    (e : Element) : Keeps R (callMacro env expand naming e) := by
  refine (h.quietly (callee_quiet env e naming)).bind fun ⟨m, arguments⟩ => ?_
  refine (expandNodes_keeps hexpand e.children).bind fun children => ?_
  refine (h.quietly (bindCall_quiet env m arguments children)).bind fun table => ?_
  exact h.insideCall m table (expandNodes_keeps hexpand m.body)

/-- One case for each directive. -/
theorem perform {expand : Expand} (hexpand : ∀ n, Keeps R (expand n)) (depth : Nat) (e : Element)
    (d : Directive) : Keeps R (perform env depth expand e d) := by
  have hnodes := expandNodes_keeps hexpand
  cases d with
  | property => exact h.property depth e
  | defineMacro => exact h.defineMacro depth e
  | arg => exact h.arg e
  | insertBlock => exact (h.quietly (namedBlock_quiet e)).bind hnodes
  | whenTrue | whenFalse => exact (h.quietly (keptChildren_quiet env _ e)).bind hnodes
  | includeFile =>
    exact (h.namedFile e).bind fun ⟨path, root⟩ => h.insideFile path (hnodes root.children)
  | call | invoke => exact h.callMacro hexpand _ e
  | newElement | newAttribute => exact .throw _
  | ordinary =>
    refine Keeps.bind ?_ fun _ => .pure _
    exact (h.quietly (expandAttrs_quiet env e.attrs)).bind fun _ =>
      (hnodes e.children).bind fun _ => .pure _

/-- However the expansion of a node ends, the relation holds. -/
theorem expandNode (depth : Nat) (n : Node) : Keeps R (expandNode env depth n) := by
  induction depth generalizing n with
  | zero => exact .throw _
  | succ depth ih =>
    cases n with
    | element tag attrs children =>
      intro s
      let e : Element := ⟨tag, attrs, children⟩
      exact IsTrans.trans _ _ _ (h.perform ih depth e (classify env s e) s)
        (h.quiet (reportFault_quiet _ s))
    | text | cdata | comment | instruction =>
      exact h.quietly ((expandLeaf_quiet env _).bind fun _ => .pure _)

/-- An element that is no directive expands its attributes, which only reports, and its children. -/
theorem expandElement (depth : Nat) (e : Element) :
    Keeps R (expandElement env (Expansion.expandNode env depth) e) :=
  (h.quietly (expandAttrs_quiet env e.attrs)).bind fun _ =>
    (expandNodes_keeps (h.expandNode depth) e.children).bind fun _ => .pure _

/-- So does the expansion of the parts of a document. -/
theorem expandParts (depth : Nat) (d : Document) : Keeps R (expandParts env depth d) :=
  (h.quietly (expandMisc_quiet env _)).bind fun _ => (h.expandElement depth _).bind fun _ =>
    (h.quietly (expandMisc_quiet env _)).bind fun _ => .pure _

/-! ## Performing definitions -/

/-- Directives that are gathered are performed one after the other. -/
theorem performAll (depth : Nat) (es : List Element) : Keeps R (performAll env depth es) := by
  induction es with
  | nil => exact .pure _
  | cons e rest ih => exact (h.expandNode depth e.node).bind fun _ => ih

/-- Definitions are gathered from the outermost directives of a root. -/
theorem grabDefinitions (depth : Nat) (root : Element) :
    Keeps R (grabDefinitions env depth root) :=
  .get_bind fun _ => (h.performAll depth _).bind fun _ =>
    .get_bind fun _ => h.performAll depth _

end NodeKeeping

namespace Keeping

variable {env : Environment} {R : State → State → Prop} (h : Keeping env R)

include h

theorem quiet {α : Type} {x : M α} (hx : Keeps Quiet x) : Keeps R x :=
  hx.mono fun hs => h.booked hs.booked

/-- What changes nothing but the books keeps it. -/
theorem books {α : Type} {x : M α} (hx : Keeps Booked x) : Keeps R x :=
  hx.mono h.booked

/-- What all steps of an expansion keep, those that expand nodes do. -/
theorem nodes : NodeKeeping env R where
  quiet hs := h.booked hs.booked
  namedFile e := h.books (namedFile_booked env e)
  arg := h.arg
  defineMacro := h.defineMacro
  property := h.property
  insideFile := h.insideFile
  insideCall := h.insideCall

variable [Std.Refl R] [IsTrans State R]

theorem perform {expand : Expand} (hexpand : ∀ n, Keeps R (expand n)) (depth : Nat) (e : Element)
    (d : Directive) : Keeps R (perform env depth expand e d) :=
  h.nodes.perform hexpand depth e d

/-- By induction on how deep directives may be nested, which is done once for all relations. -/
theorem expandNode (depth : Nat) (n : Node) : Keeps R (expandNode env depth n) :=
  h.nodes.expandNode depth n

theorem expandElement (depth : Nat) (e : Element) :
    Keeps R (expandElement env (Expansion.expandNode env depth) e) :=
  h.nodes.expandElement depth e

theorem performAll (depth : Nat) (es : List Element) : Keeps R (performAll env depth es) :=
  h.nodes.performAll depth es

theorem grabDefinitions (depth : Nat) (root : Element) :
    Keeps R (grabDefinitions env depth root) :=
  h.nodes.grabDefinitions depth root

/-! ## Gathering definitions -/

/-- Each file is taken in inside of itself, with the files that it includes. -/
theorem takeFiles (depth : Nat) (workingPath : Except Mismatch String)
    {nested : Element → Except Mismatch String → M Unit}
    (hnested : ∀ root path, Keeps R (nested root path))
    (files : List (String × Except FetchFailure String)) :
    Keeps R (takeFiles env depth workingPath nested files) := by
  induction files with
  | nil => exact .pure _
  | cons file rest ih =>
    obtain ⟨path, failure | text⟩ := file
    · refine Keeps.bind (h.books fun _ => ?_) fun _ => ih
      exact ⟨⟨rfl, rfl, rfl, rfl, rfl, rfl⟩, rfl, rfl⟩
    · refine (h.books (recordInclude_booked path)).bind fun _ => Keeps.bind ?_ fun _ => ih
      refine h.withFile path ((parseRoot_keeps text).bind fun root => ?_)
      refine (h.grabDefinitions depth root).bind fun _ => .get_bind fun s => ?_
      refine Keeps.bind (h.books fun _ => ?_) fun _ => hnested _ _
      exact ⟨⟨rfl, rfl, rfl, rfl, rfl, rfl⟩, rfl, rfl⟩

/-- However the gathering of definitions from included files ends, the relation holds. -/
theorem collectIncludes (depth levels : Nat) (root : Element)
    (workingPath : Except Mismatch String) :
    Keeps R (collectIncludes env depth levels root workingPath) := by
  induction levels generalizing root workingPath with
  | zero => exact .throw _
  | succ levels ih =>
    refine .get_bind fun s => (h.quiet (includePaths_quiet env _ _ _)).bind fun paths => ?_
    exact (h.books (fetchAll_booked env paths)).bind fun _ => h.takeFiles depth _ ih _

/-! ## Documents -/

/-- To gather is to turn off local properties, take in the files and perform the definitions. -/
theorem gather (hdisable : Keeps R disableLocalProperties) (depth : Nat) (root : Element) :
    Keeps R (gather env depth root) := by
  refine hdisable.bind fun _ => (h.grabDefinitions depth root).bind fun _ => .get_bind fun s => ?_
  exact .get_bind fun s => (h.collectIncludes depth depth _ _).bind fun _ => .pure _

/-- A root is left alone or gathered from before it is expanded. -/
theorem preparedRoot (hdisable : Keeps R disableLocalProperties) (depth : Nat) (inOrder : Bool)
    (root : Element) : Keeps R (preparedRoot env depth inOrder root) := by
  cases inOrder with
  | true => exact .pure root
  | false => exact h.gather hdisable depth root

end Keeping

end Expansion

end XmlMacros
