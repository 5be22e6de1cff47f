import Mathlib.Data.List.Nodup
import XmlMacros.Proofs.Expansion.Agree
import XmlMacros.Proofs.Expansion.Hoisting

/-!
# Which files are asked for before an expansion

Where definitions are gathered first, the files that a tree includes are loaded level by level. The
files of a level are asked for together and then taken in one after the other, each with the files
that it includes in turn. A file that was taken in, or that could not be fetched, is known and not
asked for again (`Asks.fresh`, `Asks.settled`), so files may include each other as they like. A file
that still waits to be taken in is not known yet. It is asked for a second time if one that is taken
in before it includes it, and so is overtaken (`Overtaken`); in no other case is a file asked for
twice (`nodup_asked_gather_iff`).
-/

namespace XmlMacros.Expansion

open XmlMacros.Markup

/-- The files that a run asks for, in order. -/
def asked {α : Type} (x : M α) (s : State) : List String :=
  (x s).2.requested.drop s.requested.length

/-- The file was taken in, or could not be fetched. -/
def Known (s : State) (path : String) : Prop :=
  s.preloaded.contains path ∨ s.failed.contains path

/-- The state in which a file is taken in. -/
def preload (path : String) (record : Preloaded) (s : State) : State :=
  { s with preloaded := s.preloaded.insert path record }

/-- While files are gathered one that waits is asked for again, because one that is taken in before
it includes it. -/
inductive Overtaken (env : Environment) : Task → State → Prop
  /-- A file that is taken in asks for one of those behind it. -/
  | waiting {depth levels : Nat} {workingPath : Except Mismatch String}
    {file : String × Except FetchFailure String}
    {rest : List (String × Except FetchFailure String)} {path : String} {s : State}
    (hwaits : path ∈ rest.map Prod.fst)
    (hasked : path ∈
      asked (takeFiles env depth workingPath (collectIncludes env depth levels) [file]) s) :
    Overtaken env (.files depth levels workingPath (file :: rest)) s
  /-- Among the files that a file includes. -/
  | nested {depth levels : Nat} {workingPath : Except Mismatch String} {path text : String}
    {root : Element} {rest : List (String × Except FetchFailure String)} {s s₁ s₂ : State}
    (hroot : parseRoot text (takingIn path s) = (.ok root, s₁))
    (hdefined : grabDefinitions env depth root s₁ = (.ok (), s₂))
    (h : Overtaken env
      (.includes depth levels (root.strip (isDefinition env s₂)) (.ok (IncludePath.base path)))
      (preload path ⟨workingPath, root.strip (isDefinition env s₂)⟩ s₂)) :
    Overtaken env (.files depth levels workingPath ((path, .ok text) :: rest)) s
  /-- Among the files behind a file. -/
  | nextFile {depth levels : Nat} {workingPath : Except Mismatch String}
    {file : String × Except FetchFailure String}
    {rest : List (String × Except FetchFailure String)} {s s' : State}
    (hrun : takeFiles env depth workingPath (collectIncludes env depth levels) [file] s
      = (.ok (), s'))
    (h : Overtaken env (.files depth levels workingPath rest) s') :
    Overtaken env (.files depth levels workingPath (file :: rest)) s
  /-- Among the files that a tree includes. -/
  | fetched {depth levels : Nat} {root : Element} {workingPath : Except Mismatch String}
    {paths : List String} {files : List (String × Except FetchFailure String)} {s s₁ s₂ : State}
    (hpaths : includePaths env workingPath
      (root.findElements (classify env s · == .includeFile) (fun _ => false)) [] s
        = (.ok paths, s₁))
    (hfiles : fetchAll env paths s₁ = (.ok files, s₂))
    (h : Overtaken env (.files depth levels workingPath files) s₂) :
    Overtaken env (.includes depth (levels + 1) root workingPath) s
  /-- Among the files that a document includes, where definitions are gathered first. -/
  | loaded {depth : Nat} {d : Document} {s s₁ s₂ : State}
    (hrun : disableLocalProperties (opened s) = (.ok (), s₁))
    (hdefined : grabDefinitions env depth d.root s₁ = (.ok (), s₂))
    (h : Overtaken env
      (.includes depth depth (d.root.strip (isDefinition env s₂)) s₂.workingPath) s₂) :
    Overtaken env (.document depth false d) s

/-! ## Steps that ask for no files -/

/-- The same files were asked for, and the same are known. -/
structure SameFiles (s s' : State) : Prop where
  requested : s'.requested = s.requested
  preloaded : s'.preloaded = s.preloaded
  failed : s'.failed = s.failed

instance : Std.Refl SameFiles := ⟨fun _ => ⟨rfl, rfl, rfl⟩⟩

instance : IsTrans State SameFiles where
  trans _ _ _ h h' :=
    ⟨h'.requested.trans h.requested, h'.preloaded.trans h.preloaded, h'.failed.trans h.failed⟩

/-- What only reports learns nothing of files. -/
theorem Quiet.sameFiles {s s' : State} (h : Quiet s s') : SameFiles s s' := by
  obtain ⟨_, rfl⟩ := h
  exact ⟨rfl, rfl, rfl⟩

/-- Where the same is known of files, the same files are known. -/
theorem SameFiles.known_iff {s s' : State} (h : SameFiles s s') (path : String) :
    Known s' path ↔ Known s path := by
  unfold Known
  rw [h.preloaded, h.failed]

section
variable {env : Environment}

/-- A property that is defined asks for no file. -/
theorem defineProperty_sameFiles (depth : Nat) (e : Element) :
    Keeps SameFiles (defineProperty env depth e) :=
  defineProperty_keeps Quiet.sameFiles (fun _ _ => ⟨rfl, rfl, rfl⟩) env depth e

/-- A macro that is defined asks for no file, since its body is not expanded yet. -/
theorem defineMacro_sameFiles (depth : Nat) (e : Element) :
    Keeps SameFiles (defineMacro depth e) :=
  defineMacro_keeps Quiet.sameFiles (fun _ _ => ⟨rfl, rfl, rfl⟩) depth e

/-- No definition asks for a file. -/
theorem expandNode_sameFiles {e : Element} (h : isDefining env e) (depth : Nat) :
    Keeps SameFiles (expandNode env depth e.node) := by
  cases depth with
  | zero => exact .throw _
  | succ depth =>
    intro s
    have hs : isDefinition env s e := by rwa [isDefinition_eq]
    unfold isDefinition at hs
    have hperform : Keeps SameFiles
        (perform env depth (expandNode env depth) e (classify env s e)) := by
      cases hc : classify env s e with
      | property => exact defineProperty_sameFiles depth e
      | defineMacro => exact defineMacro_sameFiles depth e
      | _ => rw [hc] at hs; cases hs
    exact IsTrans.trans _ _ _ (hperform s) (reportFault_quiet _ s).sameFiles

/-- Gathering definitions asks for no files. -/
theorem grabDefinitions_sameFiles (depth : Nat) (root : Element) :
    Keeps SameFiles (grabDefinitions env depth root) := by
  rw [grabDefinitions_eq]
  have hperformAll {es : List Element} (h : ∀ e ∈ es, isDefining env e) :
      Keeps SameFiles (performAll env depth es) := by
    induction es with
    | nil => exact .pure _
    | cons e rest ih =>
      exact (expandNode_sameFiles (h e List.mem_cons_self) depth).bind fun _ =>
        ih fun e' he => h e' (List.mem_cons_of_mem _ he)
  exact hperformAll fun e he => isDefining_of_mem_outermost he

/-- Making properties global asks for no file. -/
theorem disableLocalProperties_sameFiles : Keeps SameFiles disableLocalProperties := by
  refine .get_bind fun s => ?_
  split
  · exact ((warn_quiet _).mono Quiet.sameFiles).bind fun _ _ => ⟨rfl, rfl, rfl⟩
  · exact .pure _

/-- The files of a level are distinct, and none of them is known. -/
theorem includePaths_ok {workingPath : Except Mismatch String} {es : List Element}
    {found paths : List String} {s s' : State}
    (hrun : includePaths env workingPath es found s = (.ok paths, s'))
    (hfound : found.Nodup ∧ ∀ path ∈ found, ¬ Known s path) :
    paths.Nodup ∧ ∀ path ∈ paths, ¬ Known s path := by
  induction es generalizing found s with
  | nil =>
    cases hrun
    exact hfound
  | cons e rest ih =>
    unfold includePaths at hrun
    cases hattr : e.attr? "filename" with
    | none =>
      rw [hattr] at hrun
      exact ih hrun hfound
    | some written =>
      rw [hattr] at hrun
      obtain ⟨filename, s₁, hname, hrun⟩ := bind_ok hrun
      obtain ⟨path, s₂, hpath, hrun⟩ := bind_ok hrun
      have hsame : SameFiles s s₂ := IsTrans.trans _ _ _
        ((evalText_quiet env _).of_run hname).sameFiles ((includePath_keeps _ _).of_run hpath)
      simp only [← hsame.known_iff] at hfound ⊢
      rw [get_bind_apply] at hrun
      split at hrun
      · exact ih hrun hfound
      · rename_i hnew
        simp only [Bool.or_eq_true, not_or, List.contains_iff_mem] at hnew
        refine ih hrun ⟨List.concat_eq_append ▸ hfound.1.concat hnew.1.1, fun p hp => ?_⟩
        rcases List.mem_append.1 hp with hp | hp
        · exact hfound.2 p hp
        · rw [List.mem_singleton.1 hp]
          exact fun hknown => hknown.elim hnew.1.2 hnew.2

/-- All files of a level are asked for. -/
theorem fetchAll_apply (paths : List String) (s : State) :
    fetchAll env paths s = (.ok (paths.map fun path => (path, env.fetch path)),
      { s with requested := s.requested ++ paths }) := by
  induction paths generalizing s with
  | nil =>
    rw [List.append_nil]
    rfl
  | cons path rest ih =>
    have hfetch : fetch env path s =
        (.ok (env.fetch path), { s with requested := s.requested ++ [path] }) := rfl
    rw [fetchAll, bind_of_ok hfetch, bind_of_ok (ih _), List.append_assoc]
    rfl

/-! ## What a run asks for -/

/-- What is asked for by a run that takes in the waiting files, however it ends: files that are not
known, so that all are known in the end. They are distinct, and none of them waits, unless one is
overtaken. -/
structure Asks (x : M Unit) (s : State) (waiting : List String) (overtaken : Prop) : Prop where
  grows : (x s).2.requested = s.requested ++ asked x s
  known : ∀ path, Known s path → Known (x s).2 path
  fresh : ∀ path ∈ asked x s, ¬ Known s path
  settled : (x s).1 = .ok () → ∀ path ∈ waiting ++ asked x s, Known (x s).2 path
  nodup : (waiting ++ asked x s).Nodup ↔ ¬ overtaken

/-- What a run adds to the requests is what it asks for. -/
theorem asked_of_eq {α : Type} {x : M α} {s : State} {new : List String}
    (h : (x s).2.requested = s.requested ++ new) : asked x s = new := by
  unfold asked
  rw [h, List.drop_left]

namespace Asks

variable {s : State} {waiting : List String} {overtaken : Prop}

/-- A run that asks for no files and takes in none. -/
theorem of_sameFiles {x : M Unit} (h : SameFiles s (x s).2)
    (hsettled : (x s).1 = .ok () → waiting = []) (hnodup : waiting.Nodup)
    (hovertaken : ¬ overtaken) : Asks x s waiting overtaken := by
  have hasked : asked x s = [] := asked_of_eq (by rw [h.requested, List.append_nil])
  refine ⟨?_, fun path => (h.known_iff path).2, ?_, fun hok => ?_, ?_⟩
  · rw [hasked, h.requested, List.append_nil]
  · rw [hasked]
    nofun
  · rw [hasked, hsettled hok]
    nofun
  · rw [hasked, List.append_nil]
    exact iff_of_true hnodup hovertaken

/-- Only the files matter that a run finds and leaves. -/
theorem congr {x y : M Unit} {t : State} (h : Asks y t waiting overtaken) (hstart : SameFiles s t)
    (hend : SameFiles (y t).2 (x s).2) (hok : (x s).1 = .ok () → (y t).1 = .ok ()) :
    Asks x s waiting overtaken := by
  have hasked : asked x s = asked y t := asked_of_eq (by
    rw [hend.requested, h.grows, hstart.requested])
  refine ⟨?_, fun path hpath => ?_, fun path hpath => ?_, fun hx path hpath => ?_, ?_⟩
  · rw [hasked, hend.requested, h.grows, hstart.requested]
  · exact (hend.known_iff path).2 (h.known path ((hstart.known_iff path).2 hpath))
  · rw [← hstart.known_iff]
    exact h.fresh path (hasked ▸ hpath)
  · exact (hend.known_iff path).2 (h.settled (hok hx) path (hasked ▸ hpath))
  · rw [hasked]
    exact h.nodup

/-- A step that asks for no files may come first. -/
theorem bind {α : Type} {x : M α} {f : α → M Unit} (hx : Keeps SameFiles x)
    (hnodup : waiting.Nodup) (herror : ∀ e s', x s = (.error e, s') → ¬ overtaken)
    (hok : ∀ a s', x s = (.ok a, s') → Asks (f a) s' waiting overtaken) :
    Asks (x >>= f) s waiting overtaken := by
  rcases hr : x s with ⟨e | a, s'⟩
  · have hrun := bind_of_error (f := f) hr
    refine .of_sameFiles ?_ ?_ hnodup (herror e s' hr)
    · rw [hrun]
      exact hx.of_run hr
    · rw [hrun]
      nofun
  · have hrun := bind_of_ok (f := f) hr
    exact (hok a s' hr).congr (hx.of_run hr) (hrun ▸ Std.Refl.refl _) (hrun ▸ id)

end Asks

section
variable {depth levels : Nat} {workingPath : Except Mismatch String}

variable (env depth levels) in
/-- What is done within a file that is taken in. -/
def takeWithin (workingPath : Except Mismatch String) (path text : String) : M Unit := do
  let root ← parseRoot text
  grabDefinitions env depth root
  let root ← stripDefinitions env root
  modify (preload path ⟨workingPath, root⟩)
  collectIncludes env depth levels root (.ok (IncludePath.base path))

theorem takeFiles_singleton (path text : String) (s : State) :
    takeFiles env depth workingPath (collectIncludes env depth levels) [(path, .ok text)] s =
      ((takeWithin env depth levels workingPath path text (takingIn path s)).1,
        restoreFiles s.files
          (takeWithin env depth levels workingPath path text (takingIn path s)).2) := by
  have hfile : takeFiles env depth workingPath (collectIncludes env depth levels)
      [(path, .ok text)] = (do
        recordInclude path
        withFile path (takeWithin env depth levels workingPath path text)) := by
    simp only [takeFiles, bind_pure_unit]
    rfl
  rw [hfile]
  rfl

/-- Only what a single file includes can be overtaken within it. -/
theorem Overtaken.within {path text : String} {s : State}
    (h : Overtaken env (.files depth levels workingPath [(path, .ok text)]) s) :
    ∃ root s₁ s₂, parseRoot text (takingIn path s) = (.ok root, s₁) ∧
      grabDefinitions env depth root s₁ = (.ok (), s₂) ∧
      Overtaken env
        (.includes depth levels (root.strip (isDefinition env s₂)) (.ok (IncludePath.base path)))
        (preload path ⟨workingPath, root.strip (isDefinition env s₂)⟩ s₂) := by
  cases h with
  | waiting hwaits => cases hwaits
  | nested hroot hdefined h => exact ⟨_, _, _, hroot, hdefined, h⟩
  | nextFile _ h => cases h

/-- What is overtaken within the first file is overtaken. -/
theorem Overtaken.head {file : String × Except FetchFailure String}
    {rest : List (String × Except FetchFailure String)} {s : State}
    (h : Overtaken env (.files depth levels workingPath [file]) s) :
    Overtaken env (.files depth levels workingPath (file :: rest)) s := by
  cases h with
  | waiting hwaits => cases hwaits
  | nested hroot hdefined h => exact .nested hroot hdefined h
  | nextFile _ h => cases h

/-- A file that could not be fetched is known from then on, and nothing is asked for. -/
theorem takeFailed_asks (path : String) (failure : FetchFailure) (s : State) :
    Asks (takeFiles env depth workingPath (collectIncludes env depth levels)
      [(path, .error failure)]) s [path]
      (Overtaken env (.files depth levels workingPath [(path, .error failure)]) s) := by
  have hrun : takeFiles env depth workingPath (collectIncludes env depth levels)
      [(path, .error failure)] s =
        (.ok (), { s with failed := s.failed.insert path failure }) := rfl
  have hasked : asked (takeFiles env depth workingPath (collectIncludes env depth levels)
      [(path, .error failure)]) s = [] := asked_of_eq (by rw [hrun, List.append_nil])
  refine ⟨?_, ?_, ?_, ?_, ?_⟩
  · rw [hasked, hrun, List.append_nil]
  · rw [hrun]
    exact fun p hp => hp.imp_right fun hp => (Dict.contains_insert _ _ _ _).2 (.inr hp)
  · rw [hasked]
    nofun
  · rw [hasked, hrun]
    rintro - p hp
    rw [List.append_nil, List.mem_singleton] at hp
    exact .inr ((Dict.contains_insert _ _ _ _).2 (.inl hp))
  · rw [hasked]
    refine iff_of_true (List.nodup_singleton _) fun h => ?_
    cases h with
    | waiting hwaits => cases hwaits
    | nextFile _ h => cases h

/-- Once a file is taken in, it is not asked for again. -/
theorem Asks.of_preload {x : M Unit} {s : State} {overtaken : Prop} (path : String)
    (record : Preloaded)
    (h : Asks x (preload path record s) [] overtaken) :
    Asks (modify (preload path record) >>= fun _ => x) s [path] overtaken := by
  generalize hs' : preload path record s = s' at h
  have hrun : (modify (preload path record) >>= fun _ => x : M Unit) s = x s' := by
    rw [← hs']
    rfl
  have hrequested : s'.requested = s.requested := by
    rw [← hs']
    rfl
  have hknown (p : String) : Known s p → Known s' p := by
    rw [← hs']
    exact fun hp => hp.imp_left fun hp => (Dict.contains_insert _ _ _ _).2 (.inr hp)
  have hpath : Known s' path := by
    rw [← hs']
    exact .inl ((Dict.contains_insert _ _ _ _).2 (.inl rfl))
  have hasked : asked (modify (preload path record) >>= fun _ => x : M Unit) s = asked x s' :=
    asked_of_eq (by rw [hrun, h.grows, hrequested])
  refine ⟨?_, ?_, ?_, ?_, ?_⟩
  · rw [hasked, hrun, h.grows, hrequested]
  · rw [hrun]
    exact fun p hp => h.known p (hknown p hp)
  · rw [hasked]
    exact fun p hp hfresh => h.fresh p hp (hknown p hfresh)
  · rw [hasked, hrun]
    intro hok p hp
    rcases List.mem_cons.1 hp with rfl | hp
    · exact h.known p hpath
    · exact h.settled hok p hp
  · rw [hasked, ← h.nodup]
    exact List.nodup_cons.trans (and_iff_right fun hp => h.fresh path hp hpath)

omit depth levels workingPath in
/-- The files that wait and those that are asked for are distinct if they are so for the first file
and for the others, and no other file is asked for with the first one. -/
theorem nodup_append_asked {path : String} {rest first later : List String} (hpath : path ∉ rest)
    (hlater : ∀ p ∈ later, p ≠ path ∧ p ∉ first) :
    (path :: rest ++ (first ++ later)).Nodup ↔
      (∀ p ∈ rest, p ∉ first) ∧ ([path] ++ first).Nodup ∧ (rest ++ later).Nodup := by
  simp only [List.nodup_append, List.nodup_cons, List.mem_append, List.mem_cons]
  grind

/-- Files are taken in one after the other. What the first one asks for is known when it is the turn
of the others, so that these do not ask for it again. -/
theorem Asks.seq {x y : M Unit} {s : State} {path : String} {rest : List String}
    {first : Prop} {later : State → Prop} (hwaiting : (path :: rest).Nodup)
    (hx : Asks x s [path] first) (hy : ∀ s', x s = (.ok (), s') → Asks y s' rest (later s')) :
    Asks (x >>= fun _ => y) s (path :: rest)
      ((∃ p ∈ rest, p ∈ asked x s) ∨ first ∨ ∃ s', x s = (.ok (), s') ∧ later s') := by
  obtain ⟨hpath, hrest⟩ := List.nodup_cons.1 hwaiting
  rcases hr : x s with ⟨e | ⟨⟩, s'⟩
  · have hrun := bind_of_error (f := fun _ => y) hr
    have hgrows := hx.grows
    have hknown := hx.known
    rw [hr] at hgrows hknown
    have hasked : asked (x >>= fun _ => y) s = asked x s := asked_of_eq (by rw [hrun, hgrows])
    refine ⟨?_, ?_, ?_, ?_, ?_⟩
    · rw [hasked, hrun, hgrows]
    · rw [hrun]
      exact hknown
    · rw [hasked]
      exact hx.fresh
    · rw [hrun]
      nofun
    · have hsplit : (path :: rest ++ (asked x s ++ [])).Nodup ↔ _ := nodup_append_asked hpath nofun
      rw [List.append_nil, List.append_nil] at hsplit
      have hended : ¬ ∃ s₁, (Except.error e, s') = (Except.ok (), s₁) ∧ later s₁ := nofun
      rw [hasked, hsplit, hx.nodup]
      simp only [not_or, hended, not_false_eq_true, hrest, and_true, not_exists, not_and]
  · have hrun := bind_of_ok (f := fun _ => y) hr
    have hy := hy s' hr
    have hgrows := hx.grows
    have hknown := hx.known
    have hsettled := hx.settled
    rw [hr] at hgrows hknown hsettled
    have hasked : asked (x >>= fun _ => y) s = asked x s ++ asked y s' :=
      asked_of_eq (by rw [hrun, hy.grows, hgrows, List.append_assoc])
    have hlater : ∀ p ∈ asked y s', p ≠ path ∧ p ∉ asked x s := fun p hp =>
      ⟨fun h => hy.fresh p hp (hsettled rfl p (h ▸ List.mem_cons_self)),
        fun h => hy.fresh p hp (hsettled rfl p (List.mem_cons_of_mem _ h))⟩
    refine ⟨?_, ?_, ?_, ?_, ?_⟩
    · rw [hasked, hrun, hy.grows, hgrows, List.append_assoc]
    · rw [hrun]
      exact fun p hp => hy.known p (hknown p hp)
    · rw [hasked]
      intro p hp
      rcases List.mem_append.1 hp with hp | hp
      · exact hx.fresh p hp
      · exact fun h => hy.fresh p hp (hknown p h)
    · rw [hasked, hrun]
      intro hok p hp
      by_cases hfirst : p ∈ path :: asked x s
      · exact hy.known p (hsettled rfl p hfirst)
      · refine hy.settled hok p ?_
        simp only [List.mem_append, List.mem_cons] at hp hfirst ⊢
        tauto
    · have hended : (∃ s₁, (Except.ok (), s') = (Except.ok (ε := Abort) (), s₁) ∧ later s₁) ↔
          later s' := ⟨fun ⟨_, h, hs₁⟩ => (Prod.mk.inj h).2 ▸ hs₁, fun h => ⟨s', rfl, h⟩⟩
      rw [hasked, nodup_append_asked hpath hlater, hx.nodup, hy.nodup, hended]
      simp only [not_or, not_exists, not_and]

variable (hcollect : ∀ root workingPath s,
  Asks (collectIncludes env depth levels root workingPath) s []
    (Overtaken env (.includes depth levels root workingPath) s))

include hcollect

variable (workingPath) in
/-- Taking in a file asks for files that it includes, and not for the file itself. -/
theorem takeFile_asks (file : String × Except FetchFailure String) (s : State) :
    Asks (takeFiles env depth workingPath (collectIncludes env depth levels) [file]) s [file.1]
      (Overtaken env (.files depth levels workingPath [file]) s) := by
  obtain ⟨path, failure | text⟩ := file
  · exact takeFailed_asks path failure s
  have hrun : takeFiles env depth workingPath (collectIncludes env depth levels)
      [(path, .ok text)] s = _ := takeFiles_singleton path text s
  have hwithin : Asks (takeWithin env depth levels workingPath path text) (takingIn path s) [path]
      (Overtaken env (.files depth levels workingPath [(path, .ok text)]) s) := by
    have hnodup := List.nodup_singleton path
    refine .bind (parseRoot_keeps text) hnodup (fun e s₁ hroot h => ?_) fun root s₁ hroot => ?_
    · obtain ⟨_, _, _, hroot', -⟩ := h.within
      cases hroot.symm.trans hroot'
    refine .bind (grabDefinitions_sameFiles depth root) hnodup (fun e s₂ hgrab h => ?_)
      fun _ s₂ hgrab => ?_
    · obtain ⟨_, _, _, hroot', hgrab', -⟩ := h.within
      cases hroot.symm.trans hroot'
      cases hgrab.symm.trans hgrab'
    have hiff : Overtaken env (.files depth levels workingPath [(path, .ok text)]) s ↔
        Overtaken env (.includes depth levels (root.strip (isDefinition env s₂))
          (.ok (IncludePath.base path)))
          (preload path ⟨workingPath, root.strip (isDefinition env s₂)⟩ s₂) := by
      refine ⟨fun h => ?_, .nested hroot hgrab⟩
      obtain ⟨_, _, _, hroot', hgrab', h⟩ := h.within
      cases hroot.symm.trans hroot'
      cases hgrab.symm.trans hgrab'
      exact h
    have hstrip : stripDefinitions env root s₂ = (.ok (root.strip (isDefinition env s₂)), s₂) := rfl
    rw [hiff]
    exact ((hcollect _ _ _).of_preload path _).congr (Std.Refl.refl s₂)
      (by rw [bind_of_ok hstrip]; exact Std.Refl.refl _) (by rw [bind_of_ok hstrip]; exact id)
  refine hwithin.congr ⟨rfl, rfl, rfl⟩ ?_ ?_
  · rw [hrun]
    exact ⟨rfl, rfl, rfl⟩
  · rw [hrun]
    exact id

variable (workingPath) in
/-- Taking in files one after the other: what an earlier one asks for is known when it is the turn
of the others, so that these do not ask for it again. -/
theorem takeFiles_asks {files : List (String × Except FetchFailure String)}
    (hnodup : (files.map Prod.fst).Nodup) (s : State) :
    Asks (takeFiles env depth workingPath (collectIncludes env depth levels) files) s
      (files.map Prod.fst) (Overtaken env (.files depth levels workingPath files) s) := by
  induction files generalizing s with
  | nil => exact .of_sameFiles (Std.Refl.refl s) (fun _ => rfl) hnodup nofun
  | cons file rest ih =>
    obtain ⟨hfile, hrest⟩ := List.nodup_cons.1 hnodup
    have hseq : Asks _ s (file.1 :: rest.map Prod.fst) _ :=
      .seq hnodup (takeFile_asks workingPath hcollect file s) fun s' _ => ih hrest s'
    rw [takeFiles_cons]
    refine (congrArg (Asks _ _ _) (propext ⟨fun h => ?_, fun h => ?_⟩)).mp hseq
    · rcases h with ⟨p, hwaits, hasked⟩ | hnested | ⟨s', hrun, hlater⟩
      · exact .waiting hwaits hasked
      · exact hnested.head
      · exact .nextFile hrun hlater
    · cases h with
      | waiting hwaits hasked => exact .inl ⟨_, hwaits, hasked⟩
      | nested hroot hdefined h => exact .inr (.inl (.nested hroot hdefined h))
      | nextFile hrun h => exact .inr (.inr ⟨_, hrun, h⟩)

omit hcollect in
/-- The files of a level are asked for together, before any of them is known. -/
theorem Asks.of_fetchAll {f : List (String × Except FetchFailure String) → M Unit} {s : State}
    {paths : List String} {overtaken : Prop} (hfresh : ∀ path ∈ paths, ¬ Known s path)
    (h : Asks (f (paths.map fun path => (path, env.fetch path)))
      { s with requested := s.requested ++ paths } paths overtaken) :
    Asks (fetchAll env paths >>= f) s [] overtaken := by
  generalize hy : f (paths.map fun path => (path, env.fetch path)) = y at h
  generalize hs' : { s with requested := s.requested ++ paths } = s' at h
  have hrun : (fetchAll env paths >>= f) s = y s' := by
    rw [bind_of_ok (fetchAll_apply paths s), hy, hs']
  have hrequested : s'.requested = s.requested ++ paths := by rw [← hs']
  have hknown (p : String) : Known s' p ↔ Known s p := by
    rw [← hs']
    rfl
  have hasked : asked (fetchAll env paths >>= f) s = paths ++ asked y s' :=
    asked_of_eq (by rw [hrun, h.grows, hrequested, List.append_assoc])
  refine ⟨?_, ?_, ?_, ?_, ?_⟩
  · rw [hasked, hrun, h.grows, hrequested, List.append_assoc]
  · rw [hrun]
    exact fun p hp => h.known p ((hknown p).2 hp)
  · rw [hasked]
    intro p hp
    rcases List.mem_append.1 hp with hp | hp
    · exact hfresh p hp
    · exact fun hs => h.fresh p hp ((hknown p).2 hs)
  · rw [hasked, hrun]
    exact h.settled
  · rw [hasked]
    exact h.nodup

omit hcollect in
/-- Loading the files that a tree includes, and those that they include. -/
theorem collectIncludes_asks (root : Element) (workingPath : Except Mismatch String) (s : State) :
    Asks (collectIncludes env depth levels root workingPath) s []
      (Overtaken env (.includes depth levels root workingPath) s) := by
  induction levels generalizing root workingPath s with
  | zero => exact .of_sameFiles (Std.Refl.refl s) (fun _ => rfl) List.nodup_nil nofun
  | succ levels ih =>
    have hlevel : Asks (do
        let paths ← includePaths env workingPath
          (root.findElements (classify env s · == .includeFile) (fun _ => false)) []
        let fetched ← fetchAll env paths
        takeFiles env depth workingPath (collectIncludes env depth levels) fetched) s []
        (Overtaken env (.includes depth (levels + 1) root workingPath) s) := by
      refine .bind ((includePaths_quiet env _ _ _).mono Quiet.sameFiles) List.nodup_nil
        (fun e s₁ hpaths h => ?_) fun paths s₁ hpaths => ?_
      · cases h with
        | fetched hpaths' => cases hpaths.symm.trans hpaths'
      have hquiet := ((includePaths_quiet env _ _ _).of_run hpaths).sameFiles
      obtain ⟨hnodup, hfresh⟩ := includePaths_ok hpaths ⟨List.nodup_nil, nofun⟩
      simp only [← hquiet.known_iff] at hfresh
      have hiff : Overtaken env (.includes depth (levels + 1) root workingPath) s ↔
          Overtaken env (.files depth levels workingPath
            (paths.map fun path => (path, env.fetch path)))
            { s₁ with requested := s₁.requested ++ paths } := by
        refine ⟨fun h => ?_, .fetched hpaths (fetchAll_apply paths s₁)⟩
        cases h with
        | fetched hpaths' hfiles h =>
          cases hpaths.symm.trans hpaths'
          cases (fetchAll_apply paths s₁).symm.trans hfiles
          exact h
      have hmap : (paths.map fun path => (path, env.fetch path)).map Prod.fst = paths := by
        rw [List.map_map]
        exact List.map_id _
      rw [hiff]
      refine .of_fetchAll hfresh ?_
      have hfiles := takeFiles_asks workingPath ih (hmap.symm ▸ hnodup)
        { s₁ with requested := s₁.requested ++ paths }
      rwa [hmap] at hfiles
    exact hlevel.congr (Std.Refl.refl s) (Std.Refl.refl _) id

end

/-- Where definitions are gathered first, no file is asked for twice unless one that waits to be
taken in is overtaken. -/
theorem nodup_asked_gather_iff (env : Environment) (depth : Nat) (d : Document) (s : State) :
    (asked (gather env depth d.root) (opened s)).Nodup ↔
      ¬ Overtaken env (.document depth false d) s := by
  let collect : M Unit := do
    disableLocalProperties
    grabDefinitions env depth d.root
    let root ← stripDefinitions env d.root
    collectIncludes env depth depth root (← get).workingPath
  have hasks : Asks collect (opened s) [] (Overtaken env (.document depth false d) s) := by
    refine .bind disableLocalProperties_sameFiles List.nodup_nil (fun e s₁ hrun h => ?_)
      fun _ s₁ hrun => ?_
    · cases h with
      | loaded hrun' => cases hrun.symm.trans hrun'
    refine .bind (grabDefinitions_sameFiles depth d.root) List.nodup_nil (fun e s₂ hgrab h => ?_)
      fun _ s₂ hgrab => ?_
    · cases h with
      | loaded hrun' hgrab' =>
        cases hrun.symm.trans hrun'
        cases hgrab.symm.trans hgrab'
    have hiff : Overtaken env (.document depth false d) s ↔
        Overtaken env
          (.includes depth depth (d.root.strip (isDefinition env s₂)) s₂.workingPath) s₂ := by
      refine ⟨fun h => ?_, .loaded hrun hgrab⟩
      cases h with
      | loaded hrun' hgrab' h =>
        cases hrun.symm.trans hrun'
        cases hgrab.symm.trans hgrab'
        exact h
    rw [hiff]
    exact (collectIncludes_asks _ _ _).congr (Std.Refl.refl s₂) (Std.Refl.refl _) id
  have hgather : (gather env depth d.root (opened s)).2 = (collect (opened s)).2 := by
    refine bind_snd_congr fun _ s₁ _ => bind_snd_congr fun _ s₂ _ => ?_
    exact bind_pure_snd (collectIncludes env depth depth _ _) _ s₂
  have hasked : asked (gather env depth d.root) (opened s) = asked collect (opened s) := by
    unfold asked
    rw [hgather]
  rw [hasked]
  exact hasks.nodup

/-- A document that includes two files, the first of which includes the second. -/
def siblingInclude : Document where
  before := []
  root := ⟨"r", [],
    [.element "xacro:include" [⟨"filename", "/a"⟩] [],
      .element "xacro:include" [⟨"filename", "/b"⟩] []]⟩
  after := []

def siblingFiles : Environment :=
  .ofFiles true [("/a", "<a><xacro:include xmlns:xacro=\"x\" filename=\"/b\"/></a>"),
    ("/b", "<b/>")]

/-- A file may be asked for twice. -/
theorem not_nodup_asked_siblingInclude :
    ¬ ∀ (env : Environment) (depth : Nat) (d : Document) (s : State),
      (asked (gather env depth d.root) (opened s)).Nodup := by
  intro h
  have htwice : asked (gather siblingFiles 8 siblingInclude.root) (opened (.fresh false)) =
      ["/a", "/b", "/b"] := by
    decide +kernel
  have hnodup := h siblingFiles 8 siblingInclude (.fresh false)
  rw [htwice] at hnodup
  exact absurd hnodup (by decide)

end

end XmlMacros.Expansion
