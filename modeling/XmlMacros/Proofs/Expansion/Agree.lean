import XmlMacros.Proofs.Expansion.Moment

/-!
# Texts are evaluated at the moments of an expansion

What commands give, and what they see of their surroundings, matters to an expansion only where it
evaluates a text, and it does so at its moments (`Moment`) and nowhere else: with other commands and
surroundings under which all texts evaluate as before at these moments, an expansion runs as before
(`expandDocument_agree`). The lemmas below prove the same for its parts, each for the moments of its
own.
-/

namespace XmlMacros.Expansion

open XmlMacros.Markup

/-- In this state two computations run alike. -/
def RunAlike {α : Type} (s : State) (x y : M α) : Prop :=
  x s = y s

namespace RunAlike

variable {α β : Type} {s : State} {x y : M α}

theorem refl (s : State) (x : M α) : RunAlike s x x := rfl

/-- The second steps have to do the same only for what the first ones give. -/
theorem bind {f g : α → M β} (h : RunAlike s x y)
    (hfg : ∀ a s', x s = (.ok a, s') → RunAlike s' (f a) (g a)) :
    RunAlike s (x >>= f) (y >>= g) := by
  have h : x s = y s := h
  unfold RunAlike
  rw [bind_apply, bind_apply, ← h]
  rcases hx : x s with ⟨_ | a, s'⟩
  · rfl
  · exact hfg a s' hx

/-- What follows may be the same step altogether. -/
theorem bind_left (h : RunAlike s x y) (f : α → M β) : RunAlike s (x >>= f) (y >>= f) :=
  h.bind fun _ _ _ => rfl

/-- Where both begin with a look at the state they see the same. -/
theorem get_bind {f g : State → M α} (h : RunAlike s (f s) (g s)) :
    RunAlike s (get >>= f) (get >>= g) := h

/-- What is made of the same results is the same. -/
theorem map (h : RunAlike s x y) (g : α → β) : RunAlike s (g <$> x) (g <$> y) := by
  rw [← bind_pure_comp, ← bind_pure_comp]
  exact h.bind_left _

/-- What is done around two steps that do the same has no bearing on them, if it is the same. -/
theorem bracket {enter : State → State} {leave : State → State → State}
    (h : RunAlike (enter s) x y) : RunAlike s (bracket enter leave x) (bracket enter leave y) := by
  have h : x (enter s) = y (enter s) := h
  unfold RunAlike
  rw [bracket_apply, bracket_apply, h]

/-- The same fault is reported in the same words. -/
theorem reportFault {x y : M (List Node)} (h : RunAlike s x y) :
    RunAlike s (reportFault x) (reportFault y) := by
  have h : x s = y s := h
  unfold RunAlike Expansion.reportFault
  rw [tryCatch_apply, tryCatch_apply, h]

end RunAlike

/-- The environment with other commands, which see other surroundings. -/
def Environment.commanded (env : Environment) (commands : Commands) (surroundings : Surroundings) :
    Environment :=
  { env with commands := commands, surroundings := surroundings }

/-- With other commands all texts evaluate alike. -/
def EvaluatesAlike (env : Environment) (commands : Commands) (surroundings : Surroundings)
    (s : State) : Prop :=
  ∀ text, evalText env text s = evalText (env.commanded commands surroundings) text s

/-- With other commands all texts evaluate alike, here and wherever nothing but reports was
added. -/
def Agree (env : Environment) (commands : Commands) (surroundings : Surroundings) (s : State) :
    Prop :=
  ∀ t, Quiet s t → EvaluatesAlike env commands surroundings t

section
variable {env : Environment} {c : Commands} {u : Surroundings} {s : State}

/-- Reports are not seen by commands, so answers agree as before. -/
theorem Agree.quiet {t : State} (h : Agree env c u s) (hq : Quiet s t) : Agree env c u t :=
  fun t' ht' => h t' (IsTrans.trans _ _ _ hq ht')

/-- Commands that give the same answers for a state evaluate each text to the same. -/
theorem Agree.evalText (h : Agree env c u s) (text : String) :
    RunAlike s (evalText env text) (evalText (env.commanded c u) text) :=
  h s (Std.Refl.refl s) text

/-- After a step that only reports, texts still evaluate alike. -/
theorem Agree.bind {α β : Type} {x y : M α} {f g : α → M β} (h : Agree env c u s)
    (hx : Keeps Quiet x) (hxy : RunAlike s x y)
    (hfg : ∀ a s', Agree env c u s' → RunAlike s' (f a) (g a)) :
    RunAlike s (x >>= f) (y >>= g) :=
  hxy.bind fun a s' hr => hfg a s' (h.quiet (hx.of_run hr))

/-! ## Directives -/

theorem expandLeaf_agree (h : Agree env c u s) (n : Node) :
    RunAlike s (expandLeaf env n) (expandLeaf (env.commanded c u) n) := by
  cases n with
  | text data | cdata data | comment data => exact (h.evalText data).map _
  | element | instruction => exact .refl s _

/-- Attributes are evaluated in turn, and the reports in between do not matter. -/
theorem expandAttrs_agree (h : Agree env c u s) (attrs : List Attr) :
    RunAlike s (expandAttrs env attrs) (expandAttrs (env.commanded c u) attrs) := by
  induction attrs generalizing s with
  | nil => exact .refl s _
  | cons a rest ih =>
    have hattr : RunAlike s (expandAttr env a) (expandAttr (env.commanded c u) a) := by
      unfold expandAttr
      split
      · exact .refl s _
      · exact (h.evalText a.value).bind_left _
    exact h.bind (expandAttr_quiet env a) hattr fun first s' h' => (ih h').bind_left _

theorem expandMisc_agree (h : Agree env c u s) (ms : List Misc) :
    RunAlike s (expandMisc env ms) (expandMisc (env.commanded c u) ms) := by
  induction ms generalizing s with
  | nil => exact .refl s _
  | cons m rest ih =>
    have hmisc : RunAlike s (evalMisc env m) (evalMisc (env.commanded c u) m) := by
      cases m with
      | comment data => exact (h.evalText data).map _
      | instruction => exact .refl s _
    exact h.bind (evalMisc_quiet env m) hmisc fun first s' h' => (ih h').bind_left _

/-- A property is written with the same value, evaluated or not. -/
theorem writtenProperty_agree (h : Agree env c u s) (value : Property) (placement : Placement) :
    RunAlike s (writtenProperty env value placement)
      (writtenProperty (env.commanded c u) value placement) := by
  unfold writtenProperty
  split
  · exact (h.evalText _).map _
  · exact (h.evalText _).map _
  · exact .refl s _

/-- A definition evaluates one text at most. -/
theorem defineProperty_agree (h : Agree env c u s) (depth : Nat) (e : Element) :
    RunAlike s (defineProperty env depth e) (defineProperty (env.commanded c u) depth e) := by
  refine h.bind (requireAttr_quiet _ _) rfl fun name s₁ h₁ => ?_
  refine h₁.bind (warnExtraAttrs_quiet _ _) rfl fun _ s₂ h₂ => ?_
  refine h₂.bind (warnUnreferable_quiet _) rfl fun _ s₃ h₃ => ?_
  refine h₃.bind (givenProperty_quiet _ _) rfl fun given s₄ h₄ => ?_
  refine h₄.bind (placementFor_quiet _ _) rfl fun placement s₅ h₅ => ?_
  exact (writtenProperty_agree h₅ given placement).bind_left _

/-- The default of an argument is evaluated even where it is not needed. -/
theorem defineArg_agree (h : Agree env c u s) (e : Element) :
    RunAlike s (defineArg env e) (defineArg (env.commanded c u) e) := by
  refine h.bind (requireAttr_quiet _ _) rfl fun name s₁ h₁ => ?_
  refine h₁.bind (requireAttr_quiet _ _) rfl fun fallback s₂ h₂ => ?_
  refine h₂.bind (warnExtraAttrs_quiet _ _) rfl fun _ s₃ h₃ => .bind_left ?_ _
  refine .get_bind ?_
  split
  · exact .refl s₃ _
  · exact (h₃.evalText fallback).bind_left _

/-- A condition holds with the one commands if it does with the others. -/
theorem keptChildren_agree (h : Agree env c u s) (wanted : Bool) (e : Element) :
    RunAlike s (keptChildren env wanted e) (keptChildren (env.commanded c u) wanted e) := by
  refine h.bind (requireAttr_quiet _ _) rfl fun condition s₁ h₁ => ?_
  refine h₁.bind (warnExtraAttrs_quiet _ _) rfl fun _ s₂ h₂ => ?_
  exact (h₂.evalText condition).bind_left _

/-- The name of a file is evaluated where its directive stands. -/
theorem namedFile_agree (h : Agree env c u s) (e : Element) :
    RunAlike s (namedFile env e) (namedFile (env.commanded c u) e) := by
  refine h.bind (requireAttr_quiet _ _) rfl fun filename s₁ h₁ => ?_
  refine h₁.bind (warnExtraAttrs_quiet _ _) rfl fun _ s₂ h₂ => ?_
  refine h₂.bind (warnNameSpace_quiet _) rfl fun _ s₃ h₃ => ?_
  exact (h₃.evalText filename).bind_left _

/-- Names of files are evaluated all in one state, before any of them is taken in. -/
theorem includePaths_agree (h : Agree env c u s) (workingPath : Except Mismatch String)
    (es : List Element) (paths : List String) :
    RunAlike s (includePaths env workingPath es paths)
      (includePaths (env.commanded c u) workingPath es paths) := by
  induction es generalizing paths s with
  | nil => exact .refl s _
  | cons e rest ih =>
    unfold includePaths
    split
    · exact ih h paths
    · refine h.bind (evalText_quiet env _) (h.evalText _) fun name s₁ h₁ => ?_
      refine h₁.bind (includePath_keeps _ _) rfl fun path s₂ h₂ => .get_bind ?_
      split
      · exact ih h₂ paths
      · exact ih h₂ _

/-! ## Calls -/

/-- Of what a parameter falls back to only a default is evaluated. -/
theorem fallbackValue_agree (h : Agree env c u s) (m : Macro) (name : String) (param : Param) :
    RunAlike s (fallbackValue env m name param)
      (fallbackValue (env.commanded c u) m name param) := by
  refine .get_bind ?_
  dsimp only
  split
  · exact (h.evalText _).map _
  · exact .refl s _
  · exact (h.evalText _).map _
  · exact .refl s _

/-- Parameters are bound in order, so what is reported for one of them comes before the next. -/
theorem bindParams_agree (h : Agree env c u s) (m : Macro) (claimed : Dict (List Node))
    (params : List (String × Param)) (attrs : Dict String) (pool : List Element) (table : Table) :
    RunAlike s (bindParams env m claimed params attrs pool table)
      (bindParams (env.commanded c u) m claimed params attrs pool table) := by
  induction params generalizing attrs pool table s with
  | nil => exact .refl s _
  | cons entry rest ih =>
    unfold bindParams
    split
    · refine h.bind (evalText_quiet env _) (h.evalText _) fun value s₁ h₁ => ?_
      exact h₁.bind (bindParam_quiet _ _ _) rfl fun table s₂ h₂ => ih h₂ _ _ _
    · exact h.bind (bindParam_quiet _ _ _) rfl fun table s₁ h₁ => ih h₁ _ _ _
    · exact h.bind (bindParam_quiet _ _ _) rfl fun table s₁ h₁ => ih h₁ _ _ _
    · split
      · have hfallback := fallbackValue_agree h m entry.1 entry.2
        refine h.bind (fallbackValue_quiet _ _ _ _) hfallback fun value s₁ h₁ => ?_
        exact h₁.bind (bindParam_quiet _ _ _) rfl fun table s₂ h₂ => ih h₂ _ _ _
      · exact .refl s _

/-- A call binds its parameters in the state that its children left. -/
theorem bindCall_agree (h : Agree env c u s) (m : Macro) (arguments : Dict String)
    (children : List Node) :
    RunAlike s (bindCall env m arguments children)
      (bindCall (env.commanded c u) m arguments children) :=
  .get_bind ((bindParams_agree h m _ _ _ _ _).bind_left _)

/-- The name of a macro and its arguments are evaluated in the state of the caller. -/
theorem callee_agree (h : Agree env c u s) (e : Element) (naming : Naming) :
    RunAlike s (callee env e naming) (callee (env.commanded c u) e naming) := by
  cases naming with
  | byTag => exact .refl s _
  | byAttr =>
    refine h.bind (requireAttr_quiet _ _) rfl fun name s₁ h₁ => ?_
    exact (h₁.evalText name).bind_left _

end

/-! ## Expanding nodes -/

/-- What is a moment of the expansion of a node is one of all nodes that it is the first of. -/
theorem Moment.head {env : Environment} {depth : Nat} {n : Node} {rest : List Node} {s t : State}
    (h : Moment env (.nodes depth [n]) s t) : Moment env (.nodes depth (n :: rest)) s t := by
  cases h with
  | own h => exact .own h
  | inside hgoes h => exact .inside hgoes h
  | binding hmeans hcallee hchildren h => exact .binding hmeans hcallee hchildren h
  | body hmeans hcallee hchildren hbind h => exact .body hmeans hcallee hchildren hbind h
  | later _ h => cases h

/-- With other commands all texts evaluate alike at the moments of a task. -/
def AgreeDuring (env : Environment) (c : Commands) (u : Surroundings) (task : Task) (s : State) :
    Prop :=
  ∀ t, Moment env task s t → EvaluatesAlike env c u t

section
variable {env : Environment} {c : Commands} {u : Surroundings} {s : State} {depth : Nat}

/-- What agrees during the expansion of nodes agrees at its start. -/
theorem AgreeDuring.own {n : Node} {rest : List Node}
    (h : AgreeDuring env c u (.nodes (depth + 1) (n :: rest)) s) : Agree env c u s :=
  fun t ht => h t (.own ht)

section
variable {expand expand' : Expand} (hexpand : expandNode env depth = expand)

include hexpand

/-- Nodes run alike where each of them does. -/
theorem expandNodes_agree
    (hnode : ∀ n s, AgreeDuring env c u (.nodes depth [n]) s → RunAlike s (expand n) (expand' n))
    {nodes : List Node} (h : AgreeDuring env c u (.nodes depth nodes) s) :
    RunAlike s (expandNodes expand nodes) (expandNodes expand' nodes) := by
  induction nodes generalizing s with
  | nil => exact .refl s _
  | cons n rest ih =>
    refine (hnode n s fun t ht => h t ht.head).bind fun out s' hrun => ?_
    rw [← hexpand] at hrun
    exact (ih fun t ht => h t (.later hrun ht)).bind_left _

variable {e : Element}
  (hnodes : ∀ {nodes s}, AgreeDuring env c u (.nodes depth nodes) s →
    RunAlike s (expandNodes expand nodes) (expandNodes expand' nodes))
  (h : AgreeDuring env c u (.nodes (depth + 1) [e.node]) s)

include hnodes h

/-- A call agrees if its children do, its arguments, and its body in the state that is entered
for it. -/
theorem callMacro_agree {naming : Naming} (hmeans : classify env s e = naming.directive) :
    RunAlike s (callMacro env expand naming e)
      (callMacro (env.commanded c u) expand' naming e) := by
  refine (callee_agree h.own e naming).bind fun ⟨m, arguments⟩ s₀ hcallee => ?_
  have hinside := hnodes fun t ht => h t (.inside (.arguments hmeans hcallee) ht)
  refine hinside.bind fun children s₁ hchildren => ?_
  rw [← hexpand] at hchildren
  have hcaller : Agree env c u s₁ := fun t ht => h t (.binding hmeans hcallee hchildren ht)
  refine (bindCall_agree hcaller m arguments children).bind fun table s₂ hbind => .bracket ?_
  exact hnodes fun t ht => h t (.body hmeans hcallee hchildren hbind ht)

/-- One case for each directive. -/
theorem perform_agree :
    RunAlike s (perform env depth expand e (classify env s e))
      (perform (env.commanded c u) depth expand' e (classify env s e)) := by
  have hinside {nodes : List Node} {s' : State} (hgoes : GoesOn env s e nodes s') :
      RunAlike s' (expandNodes expand nodes) (expandNodes expand' nodes) :=
    hnodes fun t ht => h t (.inside hgoes ht)
  cases hmeans : classify env s e with
  | property => exact defineProperty_agree h.own depth e
  | defineMacro => exact .refl s _
  | arg => exact defineArg_agree h.own e
  | insertBlock =>
    exact (RunAlike.refl s (namedBlock e)).bind fun nodes s₁ hrun => hinside (.block hmeans hrun)
  | whenTrue =>
    exact (keptChildren_agree h.own true e).bind fun nodes s₁ hrun =>
      hinside (.whenTrue hmeans hrun)
  | whenFalse =>
    exact (keptChildren_agree h.own false e).bind fun nodes s₁ hrun =>
      hinside (.whenFalse hmeans hrun)
  | includeFile =>
    exact (namedFile_agree h.own e).bind fun ⟨path, root⟩ s₁ hrun =>
      .bracket (hinside (.file hmeans hrun))
  | call => exact callMacro_agree hexpand hnodes h hmeans
  | invoke => exact callMacro_agree hexpand hnodes h hmeans
  | newElement | newAttribute => exact .refl s _
  | ordinary =>
    refine .bind_left ?_ _
    refine (expandAttrs_agree h.own e.attrs).bind fun attrs s₁ hrun => ?_
    exact (hinside (.children hmeans hrun)).bind_left _

end

/-- With other commands a node expands as before, if texts evaluate alike at its moments. -/
theorem expandNode_agree {n : Node} (h : AgreeDuring env c u (.nodes depth [n]) s) :
    RunAlike s (expandNode env depth n) (expandNode (env.commanded c u) depth n) := by
  induction depth generalizing n s with
  | zero => exact .refl s _
  | succ depth ih =>
    cases n with
    | element tag attrs children =>
      refine .get_bind (.reportFault ?_)
      exact perform_agree (e := ⟨tag, attrs, children⟩) rfl
        (expandNodes_agree rfl fun _ _ => ih) h
    | text | cdata | comment | instruction =>
      exact (expandLeaf_agree h.own _).bind_left _

/-! ## Gathering definitions -/

/-- Directives that are gathered are nodes one after the other. -/
theorem performAll_agree {es : List Element}
    (h : AgreeDuring env c u (.nodes depth (es.map Element.node)) s) :
    RunAlike s (performAll env depth es) (performAll (env.commanded c u) depth es) := by
  induction es generalizing s with
  | nil => exact .refl s _
  | cons e rest ih =>
    refine (expandNode_agree fun t ht => h t ht.head).bind fun out s' hrun => ?_
    exact ih fun t ht => h t (.later hrun ht)

/-- Definitions are gathered in two turns, which agree each on its own. -/
theorem grabDefinitions_agree {root : Element}
    (h : AgreeDuring env c u (.definitions depth root) s) :
    RunAlike s (grabDefinitions env depth root)
      (grabDefinitions (env.commanded c u) depth root) := by
  refine .get_bind ?_
  refine (performAll_agree fun t ht => h t (.properties ht)).bind fun _ s' hrun => .get_bind ?_
  exact performAll_agree fun t ht => h t (.macros hrun ht)

/-- Taking in files is taking in the first one and then the others. -/
theorem takeFiles_cons (env : Environment) (depth : Nat) (workingPath : Except Mismatch String)
    (nest : Element → Except Mismatch String → M Unit)
    (file : String × Except FetchFailure String)
    (rest : List (String × Except FetchFailure String)) :
    takeFiles env depth workingPath nest (file :: rest) =
      takeFiles env depth workingPath nest [file] >>= fun _ =>
        takeFiles env depth workingPath nest rest := by
  obtain ⟨path, failure | text⟩ := file <;> simp only [takeFiles, bind_assoc, pure_bind]

section
variable {levels : Nat} {workingPath : Except Mismatch String}
  {nest nest' : Element → Except Mismatch String → M Unit}
  (hnest : collectIncludes env depth levels = nest)
  (hagree : ∀ {root workingPath s},
    AgreeDuring env c u (.includes depth levels root workingPath) s →
      RunAlike s (nest root workingPath) (nest' root workingPath))

include hagree

/-- A file is taken in inside of itself, where its own includes are taken in first. -/
theorem takeFile_agree {path text : String}
    (h : AgreeDuring env c u (.files depth levels workingPath [(path, .ok text)]) s) :
    RunAlike s (takeFiles env depth workingPath nest [(path, .ok text)])
      (takeFiles (env.commanded c u) depth workingPath nest' [(path, .ok text)]) := by
  refine (RunAlike.refl s (recordInclude path)).bind fun _ s₀ hrecord => .bind_left (.bracket ?_) _
  cases hrecord
  refine (RunAlike.refl _ (parseRoot text)).bind fun root s₁ hroot => ?_
  have hdefined := grabDefinitions_agree fun t ht => h t (.defined hroot ht)
  refine hdefined.bind fun _ s₂ hgrab => .get_bind ?_
  exact hagree fun t ht => h t (.nested hroot hgrab ht)

include hnest

/-- Files agree one by one, each in the state that those before it left. -/
theorem takeFiles_agree {files : List (String × Except FetchFailure String)}
    (h : AgreeDuring env c u (.files depth levels workingPath files) s) :
    RunAlike s (takeFiles env depth workingPath nest files)
      (takeFiles (env.commanded c u) depth workingPath nest' files) := by
  induction files generalizing s with
  | nil => exact .refl s _
  | cons file rest ih =>
    rw [takeFiles_cons, takeFiles_cons (env.commanded c u)]
    refine RunAlike.bind ?_ fun _ s' hrun => ?_
    · obtain ⟨path, failure | text⟩ := file
      · exact .refl s _
      · refine takeFile_agree hagree fun t ht => h t ?_
        cases ht with
        | defined hroot ht => exact .defined hroot ht
        | nested hroot hgrab ht => exact .nested hroot hgrab ht
        | nextFile _ ht => cases ht
    · rw [← hnest] at hrun
      exact ih fun t ht => h t (.nextFile hrun ht)

end

omit s depth in
/-- Files are fetched without commands. -/
theorem fetchAll_commanded (paths : List String) :
    fetchAll (env.commanded c u) paths = fetchAll env paths := by
  induction paths with
  | nil => rfl
  | cons path rest ih =>
    rw [fetchAll, ih]
    rfl

/-- With other commands included files are loaded as before. -/
theorem collectIncludes_agree {levels : Nat} {root : Element} {workingPath : Except Mismatch String}
    (h : AgreeDuring env c u (.includes depth levels root workingPath) s) :
    RunAlike s (collectIncludes env depth levels root workingPath)
      (collectIncludes (env.commanded c u) depth levels root workingPath) := by
  induction levels generalizing root workingPath s with
  | zero => exact .refl s _
  | succ levels ih =>
    refine .get_bind ?_
    have hnames : Agree env c u s := fun t ht => h t (.names ht)
    refine (includePaths_agree hnames _ _ _).bind fun paths s₁ hpaths => ?_
    rw [fetchAll_commanded]
    refine (RunAlike.refl s₁ (fetchAll env paths)).bind fun files s₂ hfiles => ?_
    exact takeFiles_agree rfl ih fun t ht => h t (.fetched hpaths hfiles ht)

/-! ## Documents -/

/-- Before a document is expanded in two steps, its files and definitions are gathered in the opened
state. -/
theorem gather_agree {d : Document} (h : AgreeDuring env c u (.document depth false d) s) :
    RunAlike (opened s) (gather env depth d.root) (gather (env.commanded c u) depth d.root) := by
  unfold gather
  refine (RunAlike.refl _ disableLocalProperties).bind fun _ s₁ hrun => ?_
  have hdefined := grabDefinitions_agree fun t ht => h t (.gathered hrun ht)
  refine hdefined.bind fun _ s₂ hgrab => ?_
  have hstrip : RunAlike s₂ (stripDefinitions env d.root)
      (stripDefinitions (env.commanded c u) d.root) := rfl
  refine hstrip.bind fun root s₃ hroot => .get_bind ?_
  obtain ⟨rfl, rfl⟩ : d.root.strip (isDefinition env s₂) = root ∧ s₂ = s₃ := by
    cases hroot
    exact ⟨rfl, rfl⟩
  have hcollect := collectIncludes_agree fun t ht => h t (.loaded hrun hgrab ht)
  exact hcollect.bind_left _

theorem preparedRoot_agree {inOrder : Bool} {d : Document}
    (h : AgreeDuring env c u (.document depth inOrder d) s) :
    RunAlike (opened s) (preparedRoot env depth inOrder d.root)
      (preparedRoot (env.commanded c u) depth inOrder d.root) := by
  unfold preparedRoot
  cases inOrder with
  | true =>
    rw [if_pos rfl, if_pos rfl]
    exact .refl _ _
  | false =>
    rw [if_neg Bool.false_ne_true, if_neg Bool.false_ne_true]
    exact gather_agree h

/-- With other commands, which see other surroundings, a document expands as before if all texts
evaluate as before at the moments of its expansion. -/
theorem expandDocument_agree {inOrder : Bool} {d : Document}
    (h : AgreeDuring env c u (.document depth inOrder d) s) :
    RunAlike s (expandDocument env depth inOrder d)
      (expandDocument (env.commanded c u) depth inOrder d) := by
  unfold expandDocument isolated
  refine .bracket ?_
  refine (preparedRoot_agree h).bind fun root s₁ hroot => ?_
  have hstart : Agree env c u s₁ := fun t ht => h t (.start hroot ht)
  refine (expandMisc_agree hstart d.before).bind fun before s₂ hbefore => ?_
  have hopen : Agree env c u s₂ := hstart.quiet ((expandMisc_quiet env _).of_run hbefore)
  have helement : RunAlike s₂ (expandElement env (expandNode env depth) root)
      (expandElement (env.commanded c u) (expandNode (env.commanded c u) depth) root) := by
    refine (expandAttrs_agree hopen root.attrs).bind fun attrs s₃ hattrs => .bind_left ?_ _
    exact expandNodes_agree rfl (fun _ _ => expandNode_agree) fun t ht =>
      h t (.inRoot hroot hbefore hattrs ht)
  refine helement.bind fun root' s₃ hrun => .bind_left ?_ _
  exact expandMisc_agree (fun t ht => h t (.finish hroot hbefore hrun ht)) d.after

end

end XmlMacros.Expansion
