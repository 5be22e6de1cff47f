import Mathlib.Data.Finset.Card
import Mathlib.Order.Filter.AtTopBot.Basic
import Mathlib.Order.Filter.Finite
import XmlMacros.Proofs.Expansion.Context
import XmlMacros.Proofs.Expansion.Phase
import XmlMacros.Proofs.Expansion.Preloading
import XmlMacros.Proofs.Expansion.Termination

/-!
# Gathering comes to an end

Where definitions are gathered first, files are loaded with the files that they include, and nothing
keeps files from including each other in a circle. But a file that is taken in is known, and is not
asked for again by those that it includes; so with each level fewer of the files that can be fetched
are left unknown (`card_unknown_lt`). Gathering goes at most one level deeper than there are such
files, and ends there (`gather_settles`).

A file that waits at a level may have been taken in by one in front of it when it is its turn, and
is then taken in once more. Therefore what gets fewer is not the files that are unknown when it is a
file's turn, but those that were so when the level began (`takeFiles_endsAlike`).

Bounds are compared by running with two of them at once: the runs are one and the same, and end in
one of the ways that are allowed (`EndsAlike`).
-/

namespace XmlMacros.Expansion

open XmlMacros.Markup

/-! ## Runs that end alike -/

/-- Reports do not fail, or a setting of the wrong sort may end a run. -/
def Tolerable (A : Abort → Prop) (s : State) : Prop :=
  Reportable s ∨ ∀ m, A (.mismatch m)

/-- Two computations run alike in a state, and so that what follows can report. If they end early,
then in an allowed way. -/
structure EndsAlike {α : Type} (A : Abort → Prop) (s : State) (x y : M α) : Prop where
  alike : y s = x s
  ends : ∀ abort, (x s).1 = .error abort → A abort
  tolerable : Tolerable A (x s).2

namespace EndsAlike

variable {α β : Type} {A : Abort → Prop} {s : State} {x y : M α}

/-- A run that is known to succeed. -/
theorem of_run {a : α} {s' : State} (hrun : x s = (.ok a, s')) (hs : Tolerable A s') :
    EndsAlike A s x x := by
  refine ⟨rfl, fun abort h => ?_, ?_⟩
  · rw [hrun] at h
    cases h
  · rwa [hrun]

/-- A step that does nothing but report, if that does not fail. -/
theorem report (hs : Tolerable A s) (hends : (∀ m, A (.mismatch m)) → EndsIn A x) {a : α}
    (hreports : Reportable s → ReportsAt s x a) : EndsAlike A s x x := by
  rcases hs with hs | hA
  · obtain ⟨s', hrun, hs'⟩ := hreports hs
    exact .of_run hrun (.inl (hs'.reportable hs))
  · exact ⟨rfl, hends hA s, .inr hA⟩

/-- A result ends both runs alike if what follows can report. -/
theorem pure (hs : Tolerable A s) (a : α) : EndsAlike A s (Pure.pure a) (Pure.pure a) :=
  of_run rfl hs

/-- Reading the state leaves a comparison of what is done with it. -/
theorem get_bind {f g : State → M α} (h : EndsAlike A s (f s) (g s)) :
    EndsAlike A s (get >>= f) (get >>= g) :=
  ⟨h.alike, h.ends, h.tolerable⟩

/-- A change of the state is the same in both runs. -/
theorem change {f : State → State} (hs : Tolerable A (f s)) :
    EndsAlike A s (modify f : M Unit) (modify f) :=
  of_run rfl hs

/-- Both runs end early in an allowed way. -/
theorem throw (hs : Tolerable A s) {abort : Abort} (h : A abort) :
    EndsAlike A s (MonadExcept.throw abort : M α) (MonadExcept.throw abort) := by
  refine ⟨rfl, fun abort' h' => ?_, hs⟩
  cases h'
  exact h

/-- What follows is compared only where the first steps have a result. -/
theorem bind {f g : α → M β} (hxy : EndsAlike A s x y)
    (hfg : ∀ a s', x s = (.ok a, s') → Tolerable A s' → EndsAlike A s' (f a) (g a)) :
    EndsAlike A s (x >>= f) (y >>= g) := by
  obtain ⟨halike, hends, hs'⟩ := hxy
  rcases hx : x s with ⟨abort | a, s'⟩
  · rw [hx] at halike hends hs'
    have hrun := bind_of_error (f := f) hx
    refine ⟨(bind_of_error halike).trans hrun.symm, ?_, ?_⟩
    · rw [hrun]
      intro abort' h
      cases h
      exact hends abort rfl
    · rwa [hrun]
  · rw [hx] at halike hs'
    have hrun := bind_of_ok (f := f) hx
    have hnext := hfg a s' hx hs'
    refine ⟨(bind_of_ok halike).trans (hnext.alike.trans hrun.symm), ?_, ?_⟩
    · rw [hrun]
      exact hnext.ends
    · rw [hrun]
      exact hnext.tolerable

/-- A fault is reported, and ends nothing. -/
theorem reportFault {x : M (List Node)}
    (h : EndsAlike (fun abort => (∀ f, abort ≠ .fault f) → A abort) s x x) :
    EndsAlike A s (reportFault x) (reportFault x) := by
  have htolerable : Tolerable A (x s).2 :=
    h.tolerable.imp_right fun hm m => hm m (ne_fault_of_mismatch m)
  have hrun : Expansion.reportFault x s = _ := tryCatch_apply x _ s
  rcases hx : x s with ⟨abort | out, s'⟩
  · rw [hx] at hrun htolerable
    cases abort with
    | fault f =>
      have hwarn : EndsAlike A s' (do warn f.message; return [] : M (List Node))
          (do warn f.message; return []) :=
        (report htolerable (warn_endsIn · _) (warn_reporting _ s')).bind
          fun _ _ _ hs => .pure hs []
      exact ⟨rfl, hrun ▸ hwarn.ends, hrun ▸ hwarn.tolerable⟩
    | unreadable | overflow | mismatch =>
      refine ⟨rfl, fun abort' h' => ?_, hrun ▸ htolerable⟩
      rw [hrun] at h'
      cases h'
      refine h.ends _ (by rw [hx]) ?_
      rintro _ ⟨⟩
  · rw [hx] at hrun htolerable
    exact .of_run hrun htolerable

/-- What goes on with a file on top of the file stack. -/
theorem within {t : State} {x' y' : M α} {files : FileStack} (h : EndsAlike A t x' y')
    (hx : x s = ((x' t).1, restoreFiles files (x' t).2))
    (hy : y s = ((y' t).1, restoreFiles files (y' t).2)) : EndsAlike A s x y := by
  refine ⟨?_, ?_, ?_⟩
  · rw [hx, hy, h.alike]
  · rw [hx]
    exact h.ends
  · rw [hx]
    exact h.tolerable

end EndsAlike

/-! ## Definitions -/

/-- The definitions that are gathered below a root have no deeper nodes in them than the expansion
may go. -/
def Room (env : Environment) (depth : Nat) (root : Element) : Prop :=
  ∀ e ∈ outermostDefinitions env root, heightOfNodes e.children < depth

/-- From some depth on there is room for the definitions. -/
theorem eventually_room (env : Environment) (root : Element) :
    ∀ᶠ depth in Filter.atTop, Room env depth root :=
  (Filter.eventually_all_finite (List.finite_toSet _)).2 fun _ _ => Filter.eventually_gt_atTop _

section
variable {env : Environment} {depth depth' : Nat} {e : Element}

/-- With room for what it holds, the expansion of a definition does not depend on the depth. -/
theorem expandNode_of_room (hdefining : isDefining env e) (h : heightOfNodes e.children < depth)
    (h' : heightOfNodes e.children < depth') :
    expandNode env depth' e.node = expandNode env depth e.node := by
  obtain ⟨depth, rfl⟩ := Nat.exists_eq_add_one_of_ne_zero (Nat.ne_zero_of_lt h)
  obtain ⟨depth', rfl⟩ := Nat.exists_eq_add_one_of_ne_zero (Nat.ne_zero_of_lt h')
  have hcapture := capture_of_le (Nat.le_of_lt_succ h)
  have hcapture' := capture_of_le (Nat.le_of_lt_succ h')
  have hproperty : defineProperty env depth' e = defineProperty env depth e := by
    unfold defineProperty givenProperty
    rw [hcapture, hcapture']
  have hmacro : defineMacro depth' e = defineMacro depth e := by
    unfold defineMacro
    rw [hcapture, hcapture']
  funext s
  have hs : isDefinition env s e := by rwa [isDefinition_eq]
  unfold isDefinition at hs
  show reportFault (perform env depth' _ e (classify env s e)) s =
    reportFault (perform env depth _ e (classify env s e)) s
  cases hc : classify env s e with
  | property => exact congrArg (reportFault · s) hproperty
  | defineMacro => exact congrArg (reportFault · s) hmacro
  | _ => rw [hc] at hs; cases hs

variable {A : Abort → Prop} {s : State}

section
variable (hfault : ∀ f, A (.fault f))

include hfault

/-- A missing attribute is a fault, and the same one in both runs. -/
theorem requireAttr_endsAlike (hs : Tolerable A s) (e : Element) (name : String) :
    EndsAlike A s (requireAttr e name) (requireAttr e name) := by
  unfold requireAttr
  cases e.requireAttr name with
  | ok value => exact .pure hs value
  | error f => exact .throw hs (hfault f)

/-- A property ends in an allowed way if there is room for its children. -/
theorem defineProperty_endsAlike (hs : Tolerable A s) (h : heightOfNodes e.children ≤ depth) :
    EndsAlike A s (defineProperty env depth e) (defineProperty env depth e) := by
  have hgiven : ∃ given, givenProperty depth e = pure given := by
    unfold givenProperty
    rw [capture_of_le h]
    split
    · exact ⟨_, rfl⟩
    · exact ⟨_, rfl⟩
  obtain ⟨given, hgiven⟩ := hgiven
  have hwritten {s : State} (hs : Tolerable A s) (placement : Placement) :
      EndsAlike A s (writtenProperty env given placement) (writtenProperty env given placement) := by
    cases given with
    | text text =>
      exact .report hs (writtenProperty_endsIn · env _ placement)
        fun hs => writtenProperty_reportsAt hs env text placement
    | block nodes => exact .pure hs _
  unfold defineProperty
  refine (requireAttr_endsAlike hfault hs e "name").bind fun name s₁ _ hs₁ => ?_
  refine (EndsAlike.report hs₁ (warnExtraAttrs_endsIn · e _)
    (warnExtraAttrs_reporting e _ s₁)).bind fun _ s₂ _ hs₂ => ?_
  refine (EndsAlike.report hs₂ (warnUnreferable_endsIn · name)
    (warnUnreferable_reporting name s₂)).bind fun _ s₃ _ hs₃ => ?_
  rw [hgiven, pure_bind]
  refine (EndsAlike.report hs₃ (placementFor_endsIn · name _)
    (placementFor_reportsAt · name _)).bind fun placement s₄ _ hs₄ => ?_
  refine (hwritten hs₄ placement).bind fun value s₅ _ hs₅ => ?_
  have hdefine : EndsAlike A s₅ (define name value placement) (define name value placement) :=
    .get_bind ((EndsAlike.change hs₅).bind fun _ s₆ _ hs₆ =>
      .report hs₆ (logProperty_endsIn · _ _ _ _) (logProperty_reporting _ _ _ _ s₆))
  exact hdefine.bind fun _ _ _ hs₆ => .pure hs₆ []

/-- A macro is defined in an allowed way if there is room for its body. -/
theorem defineMacro_endsAlike (hs : Tolerable A s) (h : heightOfNodes e.children ≤ depth) :
    EndsAlike A s (defineMacro depth e) (defineMacro depth e) := by
  have hname : EndsAlike A s (stripTag <$> requireAttr e "name")
      (stripTag <$> requireAttr e "name") := by
    rw [← bind_pure_comp]
    exact (requireAttr_endsAlike hfault hs e "name").bind fun _ _ _ hs => .pure hs _
  unfold defineMacro
  refine hname.bind fun name s₁ _ hs₁ => ?_
  refine (EndsAlike.report hs₁ (warnExtraAttrs_endsIn · e _)
    (warnExtraAttrs_reporting e _ s₁)).bind fun _ s₂ _ hs₂ => ?_
  refine (EndsAlike.report hs₂ (warnKeyword_endsIn · name)
    (warnKeyword_reporting name s₂)).bind fun _ s₃ _ hs₃ => ?_
  rw [capture_of_le h, pure_bind]
  exact (EndsAlike.change hs₃).bind fun _ _ _ hs₄ => .pure hs₄ []

end

/-- Two depths at which there is room for a definition make no difference to it. -/
theorem expandNode_endsAlike (hs : Tolerable A s) (hdefining : isDefining env e)
    (h : heightOfNodes e.children < depth) (h' : heightOfNodes e.children < depth') :
    EndsAlike A s (expandNode env depth e.node) (expandNode env depth' e.node) := by
  rw [expandNode_of_room hdefining h h']
  obtain ⟨depth, rfl⟩ := Nat.exists_eq_add_one_of_ne_zero (Nat.ne_zero_of_lt h)
  have hle := Nat.le_of_lt_succ h
  have hdefinition : isDefinition env s e := by rwa [isDefinition_eq]
  unfold isDefinition at hdefinition
  have hperform : EndsAlike (fun abort => (∀ f, abort ≠ .fault f) → A abort) s
      (perform env depth (expandNode env depth) e (classify env s e))
      (perform env depth (expandNode env depth) e (classify env s e)) := by
    have hs' : Tolerable (fun abort => (∀ f, abort ≠ .fault f) → A abort) s :=
      hs.imp_right fun hA m _ => hA m
    have hfault (f : Fault) (h : ∀ f', Abort.fault f ≠ .fault f') : A (.fault f) :=
      absurd rfl (h f)
    cases hc : classify env s e with
    | property => exact defineProperty_endsAlike hfault hs' hle
    | defineMacro => exact defineMacro_endsAlike hfault hs' hle
    | _ => rw [hc] at hdefinition; cases hdefinition
  exact .get_bind hperform.reportFault

/-- With room for the definitions, gathering them does not depend on the depth. -/
theorem grabDefinitions_endsAlike (hs : Tolerable A s) {root : Element} (h : Room env depth root)
    (h' : Room env depth' root) :
    EndsAlike A s (grabDefinitions env depth root) (grabDefinitions env depth' root) := by
  rw [grabDefinitions_eq, grabDefinitions_eq]
  have hperformAll {es : List Element} (hes : ∀ e ∈ es, e ∈ outermostDefinitions env root)
      {s : State} (hs : Tolerable A s) :
      EndsAlike A s (performAll env depth es) (performAll env depth' es) := by
    induction es generalizing s with
    | nil => exact .pure hs ()
    | cons e rest ih =>
      obtain ⟨he, hrest⟩ := List.forall_mem_cons.1 hes
      exact (expandNode_endsAlike hs (isDefining_of_mem_outermost he) (h e he) (h' e he)).bind
        fun _ _ _ hs' => ih hrest hs'
  exact hperformAll (fun _ he => he) hs

end

/-! ## Files that are left -/

instance (s : State) : DecidablePred (Known s) :=
  fun _ => inferInstanceAs (Decidable (_ ∨ _))

/-- The files that are not known, of those that can be fetched. -/
def unknown (served : Finset String) (s : State) : Finset String :=
  served.filter (¬ Known s ·)

/-- When another file that can be fetched is known, fewer are left. -/
theorem card_unknown_lt {served : Finset String} {s s' : State} {path : String}
    (hserved : path ∈ served) (hgrown : ∀ p, Known s p → Known s' p) (hfresh : ¬ Known s path)
    (hknown : Known s' path) : (unknown served s').card < (unknown served s).card := by
  have hsubset : unknown served s' ⊆ unknown served s :=
    Finset.monotone_filter_right served fun p _ hp h => hp (hgrown p h)
  refine Finset.card_lt_card ((Finset.ssubset_iff_of_subset hsubset).2 ⟨path, ?_, ?_⟩)
  · exact Finset.mem_filter.2 ⟨hserved, hfresh⟩
  · exact fun h => (Finset.mem_filter.1 h).2 hknown

/-- There is room for the definitions in all files that can be fetched. -/
def RoomForFiles (env : Environment) (depth : Nat) : Prop :=
  ∀ path text d, env.fetch path = .ok text → Markup.read text = .ok d → Room env depth d.root

/-- If finitely many files can be fetched, from some depth on there is room for all of them. -/
theorem eventually_roomForFiles {env : Environment} {served : Finset String}
    (hserved : ∀ path text, env.fetch path = .ok text → path ∈ served) :
    ∀ᶠ depth in Filter.atTop, RoomForFiles env depth := by
  have hfile (path : String) : ∀ᶠ depth in Filter.atTop, ∀ text d, env.fetch path = .ok text →
      Markup.read text = .ok d → Room env depth d.root := by
    cases env.fetch path with
    | error failure => exact .of_forall nofun
    | ok text =>
      cases hread : Markup.read text with
      | error e =>
        refine .of_forall fun _ text' d htext hd => ?_
        cases htext
        cases hread.symm.trans hd
      | ok d =>
        refine (eventually_room env d.root).mono fun _ hroom text' d' htext hd => ?_
        cases htext
        cases hread.symm.trans hd
        exact hroom
  refine ((Filter.eventually_all_finset served).2 fun path _ => hfile path).mono ?_
  exact fun _ hroom path text d hfetch => hroom path (hserved path text hfetch) text d hfetch

/-! ## Files that include each other -/

section
variable {env : Environment} {A : Abort → Prop} {s : State} {workingPath : Except Mismatch String}

/-- A path is found in an allowed way if the working path is one, or if settings of the wrong sort
are allowed to end a run. -/
theorem includePath_endsAlike (hs : Tolerable A s)
    (hpath : (∃ path, workingPath = .ok path) ∨ ∀ m, A (.mismatch m)) (filename : String) :
    EndsAlike A s (includePath filename workingPath) (includePath filename workingPath) := by
  unfold includePath
  split
  · exact .pure hs _
  · cases workingPath with
    | ok path => exact .pure hs _
    | error m =>
      obtain ⟨_, hok⟩ | hA := hpath
      · cases hok
      · exact (EndsAlike.throw hs (hA m)).bind fun _ _ _ hs => .pure hs _

theorem includePaths_endsAlike (hs : Tolerable A s)
    (hpath : (∃ path, workingPath = .ok path) ∨ ∀ m, A (.mismatch m)) (es : List Element)
    (found : List String) :
    EndsAlike A s (includePaths env workingPath es found)
      (includePaths env workingPath es found) := by
  induction es generalizing s found with
  | nil => exact .pure hs found
  | cons e rest ih =>
    unfold includePaths
    split
    · exact ih hs found
    · refine (EndsAlike.report hs (evalText_endsIn · env _)
        (evalText_reportsAt · env _)).bind fun name s₁ _ hs₁ => ?_
      refine (includePath_endsAlike hs₁ hpath name).bind fun path s₂ _ hs₂ => .get_bind ?_
      split
      · exact ih hs₂ found
      · exact ih hs₂ (found ++ [path])

variable {served : Finset String} {depth depth' levels levels' : Nat}
  (hserved : ∀ path text, env.fetch path = .ok text → path ∈ served)
  (hunreadable : ∀ path text e, env.fetch path = .ok text → Markup.read text = .error e →
    A (.unreadable e))
  (hroom : RoomForFiles env depth) (hroom' : RoomForFiles env depth')

section
variable (start : State)
  (hcollect : ∀ root path s, Tolerable A s → (unknown served s).card < (unknown served start).card →
    EndsAlike A s (collectIncludes env depth levels root (.ok path))
      (collectIncludes env depth' levels' root (.ok path)))

include hserved hunreadable hroom hroom' hcollect

/-- When a file is taken in, it is known before those are asked for that it includes. -/
theorem takeWithin_endsAlike (hs : Tolerable A s) {path text : String}
    (hfetch : env.fetch path = .ok text) (hfresh : ¬ Known start path)
    (hgrown : ∀ p, Known start p → Known s p) :
    EndsAlike A s (takeWithin env depth levels workingPath path text)
      (takeWithin env depth' levels' workingPath path text) := by
  unfold takeWithin parseRoot
  cases hread : Markup.read text with
  | error e =>
    have hended : EndsAlike A s (throw (.unreadable e) : M Element) (throw (.unreadable e)) :=
      .throw hs (hunreadable path text e hfetch hread)
    refine hended.bind fun _ _ hrun => ?_
    cases hrun
  | ok d =>
    refine (EndsAlike.pure hs d.root).bind fun root s₁ hroot hs₁ => ?_
    cases hroot
    refine (grabDefinitions_endsAlike hs₁ (hroom path text d hfetch hread)
      (hroom' path text d hfetch hread)).bind fun _ s₂ hgrab hs₂ => ?_
    have hsame := (grabDefinitions_sameFiles depth d.root).of_run hgrab
    refine (EndsAlike.of_run (stripDefinitions_apply d.root s₂) hs₂).bind
      fun root s₃ hstrip hs₃ => ?_
    cases hstrip
    refine EndsAlike.bind (.change hs₃) fun _ s₄ hpreload hs₄ => ?_
    cases hpreload
    refine hcollect _ _ _ hs₄ (card_unknown_lt (hserved path text hfetch) (fun p hp => ?_) hfresh ?_)
    · exact ((hsame.known_iff p).2 (hgrown p hp)).imp_left
        fun hp => (Dict.contains_insert _ _ _ _).2 (.inr hp)
    · exact .inl ((Dict.contains_insert _ _ _ _).2 (.inl rfl))

/-- The files of a level, none of which was known when it began. -/
theorem takeFiles_endsAlike (hs : Tolerable A s) {paths : List String}
    (hfresh : ∀ path ∈ paths, ¬ Known start path) (hgrown : ∀ p, Known start p → Known s p) :
    EndsAlike A s
      (takeFiles env depth workingPath (collectIncludes env depth levels)
        (paths.map fun path => (path, env.fetch path)))
      (takeFiles env depth' workingPath (collectIncludes env depth' levels')
        (paths.map fun path => (path, env.fetch path))) := by
  induction paths generalizing s with
  | nil => exact .pure hs ()
  | cons path rest ih =>
    obtain ⟨hpath, hrest⟩ := List.forall_mem_cons.1 hfresh
    have hfirst : EndsAlike A s
        (takeFiles env depth workingPath (collectIncludes env depth levels)
          [(path, env.fetch path)])
        (takeFiles env depth' workingPath (collectIncludes env depth' levels')
          [(path, env.fetch path)]) := by
      cases hfetch : env.fetch path with
      | error failure => exact (EndsAlike.change hs).bind fun _ _ _ hs => .pure hs ()
      | ok text =>
        have htaking : Tolerable A (takingIn path s) := hs
        exact (takeWithin_endsAlike hserved hunreadable hroom hroom' start hcollect htaking hfetch hpath
          hgrown).within (takeFiles_singleton path text s) (takeFiles_singleton path text s)
    rw [List.map_cons, takeFiles_cons, takeFiles_cons env depth']
    refine hfirst.bind fun _ s₁ hrun hs₁ => ih hs₁ hrest fun p hp => ?_
    have hasks : Asks (takeFiles env depth workingPath (collectIncludes env depth levels)
        [(path, env.fetch path)]) s [path] _ := takeFile_asks workingPath collectIncludes_asks _ s
    have hknown := hasks.known p (hgrown p hp)
    rwa [hrun] at hknown

end

include hserved hunreadable hroom hroom'

/-- The files that a tree includes are collected alike with all bounds on the levels that are
greater than the number of files that are left. -/
theorem collectIncludes_endsAlike (hs : Tolerable A s)
    (hpath : (∃ path, workingPath = .ok path) ∨ ∀ m, A (.mismatch m)) (root : Element)
    (hlevels : (unknown served s).card < levels) (hlevels' : (unknown served s).card < levels') :
    EndsAlike A s (collectIncludes env depth levels root workingPath)
      (collectIncludes env depth' levels' root workingPath) := by
  induction levels generalizing levels' root workingPath s with
  | zero => cases hlevels
  | succ levels ih =>
    obtain ⟨levels', rfl⟩ := Nat.exists_eq_add_one_of_ne_zero (Nat.ne_zero_of_lt hlevels')
    refine .get_bind ((includePaths_endsAlike hs hpath _ []).bind fun paths s₁ hpaths hs₁ => ?_)
    have hsame := ((includePaths_quiet env _ _ _).of_run hpaths).sameFiles
    obtain ⟨-, hfresh⟩ := includePaths_ok hpaths ⟨List.nodup_nil, nofun⟩
    have hrun : fetchAll env paths s₁ = _ := fetchAll_apply paths s₁
    refine (EndsAlike.of_run hrun hs₁).bind fun files s₂ hfiles hs₂ => ?_
    cases hrun.symm.trans hfiles
    refine takeFiles_endsAlike hserved hunreadable hroom hroom' s
      (fun root path s' hs' hcard => ?_) hs₂ hfresh fun p hp => ?_
    · exact ih hs' (.inl ⟨path, rfl⟩) root (by omega) (by omega)
    · exact (hsame.known_iff p).2 hp

end

/-! ## Gathering -/

/-- Gathering with two bounds: how deeply elements may be nested, and how many levels of files that
include each other are gone through. -/
def gatherWithin (env : Environment) (depth levels : Nat) (root : Element) : M Element := do
  disableLocalProperties
  grabDefinitions env depth root
  let root ← stripDefinitions env root
  collectIncludes env depth levels root (← get).workingPath
  return root

theorem gather_eq_gatherWithin (env : Environment) (depth : Nat) (root : Element) :
    gather env depth root = gatherWithin env depth depth root :=
  rfl

/-- How gathering ends: with the root that is left, or early because a file that was fetched is no
document, or because a setting is of the wrong sort. -/
inductive Gathered (env : Environment) (s : State) : Except Abort Element → Prop
  | root (root : Element) : Gathered env s (.ok root)
  | unreadable {path text : String} {e : Markup.ReadError} (hfetch : env.fetch path = .ok text)
    (hread : Markup.read text = .error e) : Gathered env s (.error (.unreadable e))
  | mismatch {m : Mismatch} (hsettings : ¬ (Reportable s ∧ ∃ path, s.workingPath = .ok path)) :
    Gathered env s (.error (.mismatch m))

/-- Gathering comes to an end wherever only finitely many files can be fetched, whatever they
include. There is one run that it does at every depth from some limit on, with any number of levels
that is greater than the number of files that can be fetched; and this run gives what is left of the
root, unless a file is no document or a setting is of the wrong sort. -/
theorem gather_settles (env : Environment) (served : Finset String)
    (hserved : ∀ path text, env.fetch path = .ok text → path ∈ served) (root : Element)
    (s : State) :
    ∃ limit r, Gathered env s r.1 ∧
      (∀ depth levels, limit ≤ depth → served.card < levels → gatherWithin env depth levels root s = r) ∧
      ∀ depth, limit ≤ depth → served.card < depth → gather env depth root s = r := by
  let A : Abort → Prop := fun abort => Gathered env s (.error abort)
  have hsettings : (Reportable s ∧ ∃ path, s.workingPath = .ok path) ∨ ∀ m, A (.mismatch m) := by
    by_cases h : Reportable s ∧ ∃ path, s.workingPath = .ok path
    · exact .inl h
    · exact .inr fun m => .mismatch h
  have hunreadable (path text : String) (e : Markup.ReadError) (hfetch : env.fetch path = .ok text)
      (hread : Markup.read text = .error e) : A (.unreadable e) :=
    .unreadable hfetch hread
  obtain ⟨limit, hlimit⟩ := Filter.eventually_atTop.1
    ((eventually_room env root).and (eventually_roomForFiles hserved))
  obtain ⟨hroom, hfiles⟩ := hlimit limit le_rfl
  have hgathers {depth levels : Nat} (hdepth : limit ≤ depth) (hlevels : served.card < levels) :
      EndsAlike A s (gatherWithin env limit (served.card + 1) root)
        (gatherWithin env depth levels root) := by
    obtain ⟨hroom', hfiles'⟩ := hlimit depth hdepth
    have hs : Tolerable A s := hsettings.imp_left And.left
    have hdisable : EndsAlike A s disableLocalProperties disableLocalProperties := by
      refine .get_bind ?_
      split
      · exact (EndsAlike.report hs (warn_endsIn · _) (warn_reporting _ s)).bind
          fun _ _ _ hs₁ => .change hs₁
      · exact .pure hs ()
    refine hdisable.bind fun _ s₁ hrun hs₁ => ?_
    have hrestored := disableLocalProperties_restored.of_run hrun
    refine (grabDefinitions_endsAlike hs₁ hroom hroom').bind fun _ s₂ hgrab hs₂ => ?_
    have hpath := (((Restored.keeping env).grabDefinitions _ _).of_run hgrab).workingPath.trans
      hrestored.workingPath
    refine (EndsAlike.of_run (stripDefinitions_apply root s₂) hs₂).bind
      fun root' s₃ hstrip hs₃ => ?_
    cases hstrip
    refine .get_bind (EndsAlike.bind ?_ fun _ _ _ hs₄ => .pure hs₄ _)
    have hleft := Finset.card_filter_le served (¬ Known s₂ ·)
    refine collectIncludes_endsAlike hserved hunreadable hfiles hfiles' hs₃ ?_ _
      (Nat.lt_succ_of_le hleft) (hleft.trans_lt hlevels)
    rw [hpath]
    exact hsettings.imp_left And.right
  refine ⟨limit, gatherWithin env limit (served.card + 1) root s, ?_, ?_, ?_⟩
  · have hends := (hgathers le_rfl (Nat.lt_succ_self _)).ends
    generalize (gatherWithin env limit (served.card + 1) root s).1 = result at hends
    cases result with
    | ok root' => exact .root root'
    | error abort => exact hends abort rfl
  · exact fun depth levels hdepth hlevels => (hgathers hdepth hlevels).alike
  · intro depth hdepth hlevels
    rw [gather_eq_gatherWithin]
    exact (hgathers hdepth hlevels).alike

/-- Two files that include each other. -/
def circularFiles : Environment :=
  .ofFiles false
    [("/a", "<a><include filename=\"/b\"/></a>"), ("/b", "<b><include filename=\"/a\"/></b>")]

/-- A root that includes one of them. -/
def circularRoot : Element :=
  ⟨"r", [], [.element "include" [⟨"filename", "/a"⟩] []]⟩

/-- Two files that include each other are gathered, and from some depth on always with the same
result. -/
theorem gather_settles_circular :
    (∀ path text, circularFiles.fetch path = .ok text → path ∈ ({"/a", "/b"} : Finset String)) ∧
      ∃ limit r, Gathered circularFiles (.fresh true) r.1 ∧
        (∀ depth levels, limit ≤ depth → 2 < levels →
          gatherWithin circularFiles depth levels circularRoot (.fresh true) = r) ∧
        ∀ depth, limit ≤ depth → 2 < depth →
          gather circularFiles depth circularRoot (.fresh true) = r := by
  have hserved (path text : String) (hfetch : circularFiles.fetch path = .ok text) :
      path ∈ ({"/a", "/b"} : Finset String) := by
    simpa using mem_keys_of_fetch_ofFiles hfetch
  exact ⟨hserved, gather_settles circularFiles {"/a", "/b"} hserved circularRoot (.fresh true)⟩

/-- One level more than there are files may be needed. -/
example :
    (gatherWithin circularFiles 9 3 circularRoot (.fresh true)).1.toOption.isSome ∧
      ¬ (gatherWithin circularFiles 9 2 circularRoot (.fresh true)).1.toOption.isSome := by
  decide +kernel

end XmlMacros.Expansion
