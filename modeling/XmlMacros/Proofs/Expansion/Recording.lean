import Mathlib.Data.List.Induction
import XmlMacros.Program
import XmlMacros.Proofs.Expansion.Output
import XmlMacros.Proofs.Expansion.Preloading

/-!
# Which files are recorded

A file is asked for in two places: where an include is expanded, and, for all files of a level at
once, where definitions are gathered first. It is recorded in the same step in the first place. In
the second one it waits until it is its turn to be taken in, and meanwhile others are asked for, the
same file perhaps among them. So what a run keeps is told with the files that wait (`Accounted`):
together with those that are recorded they are the files that were asked for, as far as these can be
fetched. The expansion of nodes keeps this however it ends (`accounted_nodes`). The gathering keeps
it where it comes to its end (`collectIncludes_accounted`); where it ends early, files of a level
are left waiting.
-/

namespace XmlMacros

open XmlMacros.Markup

/-! ## A list with only the first of equal items kept -/

namespace Program

/-- One more item comes last among the distinct ones, unless it is there already. -/
theorem distinct_concat (items : List String) (item : String) :
    distinct (items ++ [item]) =
      if item ∈ distinct items then distinct items else distinct items ++ [item] := by
  unfold distinct
  rw [List.foldl_append]
  simp only [List.foldl_cons, List.foldl_nil, List.contains_iff_mem]

/-- The distinct items are the items. -/
theorem mem_distinct {items : List String} {item : String} :
    item ∈ distinct items ↔ item ∈ items := by
  induction items using List.reverseRecOn with
  | nil => rfl
  | append_singleton items last ih =>
    rw [distinct_concat, List.mem_append, List.mem_singleton]
    split
    · next hlast =>
      rw [ih]
      refine ⟨.inl, fun h => h.elim id ?_⟩
      rintro rfl
      exact ih.1 hlast
    · rw [List.mem_append, List.mem_singleton, ih]

/-- No item is there twice. -/
theorem nodup_distinct (items : List String) : (distinct items).Nodup := by
  induction items using List.reverseRecOn with
  | nil => exact List.nodup_nil
  | append_singleton items last ih =>
    rw [distinct_concat]
    split
    · exact ih
    · next hlast => exact List.concat_eq_append ▸ ih.concat hlast

/-- The items that are kept stand in the order in which they come up for the first time. -/
theorem distinct_ordered (items : List String) :
    (distinct items).Pairwise fun a b => items.idxOf a < items.idxOf b := by
  induction items using List.reverseRecOn with
  | nil => exact List.Pairwise.nil
  | append_singleton items last ih =>
    have hidx {a : String} (ha : a ∈ distinct items) :
        (items ++ [last]).idxOf a = items.idxOf a :=
      List.idxOf_append_of_mem (mem_distinct.1 ha)
    have hkept : (distinct items).Pairwise fun a b =>
        (items ++ [last]).idxOf a < (items ++ [last]).idxOf b :=
      ih.imp_of_mem fun ha hb hlt => by rwa [hidx ha, hidx hb]
    rw [distinct_concat]
    split
    · exact hkept
    · next hlast =>
      refine List.pairwise_append.2 ⟨hkept, List.pairwise_singleton _ _, fun a ha b hb => ?_⟩
      rw [List.mem_singleton.1 hb, hidx ha,
        List.idxOf_append_of_notMem fun h => hlast (mem_distinct.2 h)]
      exact Nat.lt_add_right _ (List.idxOf_lt_length_of_mem (mem_distinct.1 ha))

end Program

namespace Expansion

/-- The file can be fetched. -/
def Environment.Serves (env : Environment) (path : String) : Prop :=
  ∃ text, env.fetch path = .ok text

/-- Of the files that were asked for, those that can be fetched are recorded or wait to be. -/
def Accounted (env : Environment) (waiting : List String) (s : State) : Prop :=
  ∀ path, path ∈ s.includes ∨ path ∈ waiting ∧ env.Serves path ↔
    path ∈ s.requested ∧ env.Serves path

/-- Whatever waits, the files that were asked for stay accounted. -/
def StaysAccounted (env : Environment) (s s' : State) : Prop :=
  ∀ waiting, Accounted env waiting s → Accounted env waiting s'

instance (env : Environment) : Std.Refl (StaysAccounted env) := ⟨fun _ _ => id⟩

instance (env : Environment) : IsTrans State (StaysAccounted env) :=
  ⟨fun _ _ _ h h' waiting hs => h' waiting (h waiting hs)⟩

section
variable {env : Environment} {waiting : List String} {s s' : State}

/-- Accounts depend only on what is recorded and what was asked for. -/
theorem Accounted.congr (h : Accounted env waiting s) (hincludes : s'.includes = s.includes)
    (hrequested : s'.requested = s.requested) : Accounted env waiting s' := by
  intro path
  rw [hincludes, hrequested]
  exact h path

/-- Where nothing is recorded and nothing asked for, everything stays accounted. -/
theorem staysAccounted_of_eq (hincludes : s'.includes = s.includes)
    (hrequested : s'.requested = s.requested) : StaysAccounted env s s' :=
  fun _ h => h.congr hincludes hrequested

theorem Quiet.staysAccounted (h : Quiet s s') : StaysAccounted env s s' := by
  obtain ⟨_, rfl⟩ := h
  exact staysAccounted_of_eq rfl rfl

/-- Files that are asked for wait. -/
theorem Accounted.requests (h : Accounted env waiting s) (paths : List String) :
    Accounted env (paths ++ waiting) { s with requested := s.requested ++ paths } := by
  intro path
  have hpath := h path
  simp only [List.mem_append]
  tauto

/-- A file that waits and can be fetched is recorded. -/
theorem Accounted.records {path : String} (h : Accounted env (path :: waiting) s)
    (hserves : env.Serves path) :
    Accounted env waiting { s with includes := s.includes ++ [path] } := by
  intro p
  have hp := h p
  simp only [List.mem_append, List.mem_cons, List.not_mem_nil, or_false] at hp ⊢
  by_cases hne : p = path
  · subst hne
    tauto
  · tauto

/-- A file that waits and cannot be fetched is left out. -/
theorem Accounted.leaves {path : String} (h : Accounted env (path :: waiting) s)
    (hserves : ¬ env.Serves path) : Accounted env waiting s := by
  intro p
  have hp := h p
  simp only [List.mem_cons] at hp
  by_cases hne : p = path
  · subst hne
    tauto
  · tauto

end

section
variable (env : Environment)

/-! ## Expanding nodes -/

/-- A file that is asked for where it is included is recorded at once. -/
theorem loadInclude_accounted (path : String) :
    Keeps (StaysAccounted env) (loadInclude env path) := by
  intro s waiting h
  have hasked : Accounted env (path :: waiting) { s with requested := s.requested ++ [path] } :=
    h.requests [path]
  have hfetch : fetch env path s =
      (.ok (env.fetch path), { s with requested := s.requested ++ [path] }) := rfl
  rw [loadInclude, bind_of_ok hfetch]
  cases htext : env.fetch path with
  | error failure =>
    refine hasked.leaves fun ⟨text, hserves⟩ => ?_
    cases htext.symm.trans hserves
  | ok text =>
    have hread := parseRoot_keeps (R := StaysAccounted env) text
    exact hread _ waiting (hasked.records ⟨text, htext⟩)

/-- The file that an element names is asked for and, if it is fetched, recorded. -/
theorem namedFile_accounted (e : Element) : Keeps (StaysAccounted env) (namedFile env e) := by
  have quietly {α : Type} {x : M α} (hx : Keeps Quiet x) : Keeps (StaysAccounted env) x :=
    hx.mono Quiet.staysAccounted
  refine (quietly (requireAttr_quiet _ _)).bind fun filename => ?_
  refine (quietly (warnExtraAttrs_quiet _ _)).bind fun _ => ?_
  refine (quietly (warnNameSpace_quiet _)).bind fun _ => ?_
  refine (quietly (evalText_quiet env _)).bind fun filename => .get_bind fun s => ?_
  refine (includePath_keeps _ _).bind fun path => Keeps.bind ?_ fun _ => .pure _
  refine .get_bind fun s => ?_
  split
  · exact .throw _
  · exact .pure _
  · exact loadInclude_accounted env path

variable {env} in
/-- A computation in brackets keeps accounts if the one inside does and the brackets leave them. -/
theorem bracket_accounted {α : Type} {enter : State → State} {leave : State → State → State}
    {x : M α} (henter : ∀ s, StaysAccounted env s (enter s))
    (hleave : ∀ s s', StaysAccounted env s' (leave s s')) (hx : Keeps (StaysAccounted env) x) :
    Keeps (StaysAccounted env) (bracket enter leave x) :=
  fun s => IsTrans.trans _ _ _ (henter s) (IsTrans.trans _ _ _ (hx (enter s)) (hleave s _))

/-- However the expansion of nodes ends, the files that were asked for stay accounted. -/
theorem accounted_nodes : NodeKeeping env (StaysAccounted env) where
  quiet := Quiet.staysAccounted
  namedFile := namedFile_accounted env
  arg := defineArg_keeps Quiet.staysAccounted (fun _ _ => staysAccounted_of_eq rfl rfl) env
  defineMacro := defineMacro_keeps Quiet.staysAccounted fun _ _ => staysAccounted_of_eq rfl rfl
  property :=
    defineProperty_keeps Quiet.staysAccounted (fun _ _ => staysAccounted_of_eq rfl rfl) env
  insideFile _ :=
    bracket_accounted (fun _ => staysAccounted_of_eq rfl rfl) fun _ _ => staysAccounted_of_eq rfl rfl
  insideCall _ _ :=
    bracket_accounted (fun _ => staysAccounted_of_eq rfl rfl) fun _ _ => staysAccounted_of_eq rfl rfl

end

/-! ## Gathering definitions -/

section
variable {env : Environment} {depth : Nat} {workingPath : Except Mismatch String}
  {nested : Element → Except Mismatch String → M Unit}
  (hnested : ∀ {root path s s' waiting}, nested root path s = (.ok (), s') →
    Accounted env waiting s → Accounted env waiting s')

include hnested

/-- When all files are taken in that wait, those behind them wait still. -/
theorem takeFiles_accounted {paths waiting : List String} {s s' : State}
    (hrun : takeFiles env depth workingPath nested
      (paths.map fun path => (path, env.fetch path)) s = (.ok (), s'))
    (h : Accounted env (paths ++ waiting) s) : Accounted env waiting s' := by
  induction paths generalizing s with
  | nil =>
    cases hrun
    exact h
  | cons path rest ih =>
    rw [List.map_cons] at hrun
    cases htext : env.fetch path with
    | error failure =>
      rw [htext, takeFiles] at hrun
      have hserves : ¬ env.Serves path := fun hserves => by
        obtain ⟨text, hserves⟩ := hserves
        cases htext.symm.trans hserves
      exact ih hrun ((h.leaves hserves).congr rfl rfl)
    | ok text =>
      rw [htext, takeFiles] at hrun
      obtain ⟨_, s₁, hrecord, hrun⟩ := bind_ok hrun
      obtain ⟨_, s₂, hfile, hrun⟩ := bind_ok hrun
      cases hrecord
      unfold withFile at hfile
      obtain ⟨s₃, hwithin, rfl⟩ := bracket_ok_iff.1 hfile
      obtain ⟨root, s₄, hroot, hwithin⟩ := bind_ok hwithin
      obtain ⟨_, s₅, hgrab, hwithin⟩ := bind_ok hwithin
      have hrecorded := h.records ⟨text, htext⟩
      have hread := (parseRoot_keeps (R := StaysAccounted env) text).of_run hroot
      have hdefined := ((accounted_nodes env).grabDefinitions depth root).of_run hgrab
      have hbefore : Accounted env (rest ++ waiting) s₅ :=
        hdefined _ (hread _ (hrecorded.congr rfl rfl))
      have hafter : Accounted env (rest ++ waiting) s₃ :=
        hnested hwithin (hbefore.congr rfl rfl)
      exact ih hrun (hafter.congr rfl rfl)

end

section
variable {env : Environment} {depth : Nat}

/-- The files that a tree includes are recorded, with all that they include, whatever waits
meanwhile. -/
theorem collectIncludes_accounted {levels : Nat} {root : Element}
    {workingPath : Except Mismatch String} {waiting : List String} {s s' : State}
    (hrun : collectIncludes env depth levels root workingPath s = (.ok (), s'))
    (h : Accounted env waiting s) : Accounted env waiting s' := by
  induction levels generalizing root workingPath waiting s s' with
  | zero => cases hrun
  | succ levels ih =>
    rw [collectIncludes, get_bind_apply] at hrun
    obtain ⟨paths, s₁, hpaths, hrun⟩ := bind_ok hrun
    rw [bind_of_ok (fetchAll_apply paths s₁)] at hrun
    have hlooked : Accounted env waiting s₁ :=
      ((includePaths_quiet env _ _ _).of_run hpaths).staysAccounted _ h
    exact takeFiles_accounted ih hrun (hlooked.requests paths)

/-- Making properties global asks for no file. -/
theorem disableLocalProperties_accounted (env : Environment) :
    Keeps (StaysAccounted env) disableLocalProperties := by
  refine .get_bind fun s => ?_
  split
  · exact ((warn_quiet _).mono Quiet.staysAccounted).bind fun _ _ => staysAccounted_of_eq rfl rfl
  · exact .pure _

/-- Preparing the root keeps accounts, in both orders. -/
theorem preparedRoot_accounted {inOrder : Bool} {root root' : Element} {waiting : List String}
    {s s' : State} (hrun : preparedRoot env depth inOrder root s = (.ok root', s'))
    (h : Accounted env waiting s) : Accounted env waiting s' := by
  cases inOrder with
  | true =>
    cases hrun
    exact h
  | false =>
    obtain ⟨_, s₁, hdisable, hrun⟩ := bind_ok hrun
    obtain ⟨_, s₂, hgrab, hrun⟩ := bind_ok hrun
    obtain ⟨_, _, hstrip, hrun⟩ := bind_ok hrun
    cases hstrip
    rw [get_bind_apply] at hrun
    obtain ⟨_, _, hcollect, hrun⟩ := bind_ok hrun
    cases hrun
    have hdisabled := (disableLocalProperties_accounted env).of_run hdisable
    have hdefined := ((accounted_nodes env).grabDefinitions depth root).of_run hgrab
    exact collectIncludes_accounted hcollect (hdefined _ (hdisabled _ h))

/-- Once a document is expanded, the files that were asked for are accounted as before. -/
theorem expandDocument_accounted {inOrder : Bool} {d d' : Document} {waiting : List String}
    {s s' : State} (hrun : expandDocument env depth inOrder d s = (.ok d', s'))
    (h : Accounted env waiting s) : Accounted env waiting s' := by
  unfold expandDocument isolated at hrun
  obtain ⟨t, hwithin, rfl⟩ := bracket_ok_iff.1 hrun
  obtain ⟨root, s₁, hprepared, hparts⟩ := bind_ok hwithin
  have hopened : Accounted env waiting (opened s) := h.congr rfl rfl
  have hexpanded := ((accounted_nodes env).expandParts depth { d with root := root }).of_run hparts
  exact (hexpanded _ (preparedRoot_accounted hprepared hopened)).congr rfl rfl

end

/-! ## Documents -/

/-- Where a document is expanded, in reading order or with definitions gathered first, the files
that are recorded are those that were asked for and could be fetched; and where only the files are
printed that the document depends on, the line has each of them once, in the order in which they
were recorded for the first time. -/
theorem dependencies_exact [Limits] (c : Config) (custom : Commands) (surroundings : Surroundings)
    (fetch : String → Except FetchFailure String) (filename : Option String) (console : Console)
    (depth : Nat) {d d' : Document} {s : State}
    (hrun : expandDocument (c.environment custom surroundings fetch) depth c.inOrder.isTruthy d
      (c.start filename console) = (.ok d', s)) :
    (∀ path, path ∈ s.includes ↔ path ∈ s.requested ∧ ∃ text, fetch path = .ok text) ∧
      ∀ (o : Options) (input : String), o.justDeps = true → ∃ line : List String,
        Program.render o input s d' = .ok (" ".intercalate line ++ "\n") ∧
          (∀ path, path ∈ line ↔ path ∈ s.includes) ∧ line.Nodup ∧
          line.Pairwise fun a b => s.includes.idxOf a < s.includes.idxOf b := by
  have hstart : Accounted (c.environment custom surroundings fetch) []
    (c.start filename console) := by
    intro path
    simp [Config.start]
  refine ⟨fun path => ?_, fun o input hdeps => ?_⟩
  · have haccounted := expandDocument_accounted hrun hstart path
    simp only [List.not_mem_nil, false_and, or_false] at haccounted
    exact haccounted
  · refine ⟨Program.distinct s.includes, ?_, fun path => Program.mem_distinct,
      Program.nodup_distinct _, Program.distinct_ordered _⟩
    rw [Program.render, if_pos hdeps]

/-- A file that includes one that is asked for twice, and one that cannot be fetched. -/
def scatteredFiles : String → Except FetchFailure String :=
  (Environment.ofFiles true
    [("/a", "<a xmlns:xacro='x'><xacro:include filename='/b'/><xacro:include filename='/c'/></a>"),
      ("/b", "<b/>")]).fetch

/-- One file is included twice, and another cannot be fetched: both are asked for, and only the
first is recorded. -/
theorem dependencies_exact_siblingInclude :
    letI := Limits.usual
    let c := { Config.standard with inOrder := .bool false }
    ∃ d s, expandDocument (c.environment ∅ ⟨∅, ∅, "/"⟩ scatteredFiles) 8 c.inOrder.isTruthy
        siblingInclude (c.start none .fresh) = (.ok d, s) ∧
      s.requested = ["/a", "/b", "/b", "/c"] ∧
      (∀ path, path ∈ s.includes ↔ path ∈ s.requested ∧ ∃ text, scatteredFiles path = .ok text) ∧
      ∀ (o : Options) (input : String), o.justDeps = true → ∃ line : List String,
        Program.render o input s d = .ok (" ".intercalate line ++ "\n") ∧
          (∀ path, path ∈ line ↔ path ∈ s.includes) ∧ line.Nodup ∧
          line.Pairwise fun a b => s.includes.idxOf a < s.includes.idxOf b := by
  let _ := Limits.usual
  intro c
  obtain ⟨d, hrun⟩ := exists_ok (x := expandDocument (c.environment ∅ ⟨∅, ∅, "/"⟩ scatteredFiles) 8
    c.inOrder.isTruthy siblingInclude) (s := c.start none .fresh) (by decide +kernel)
  exact ⟨d, _, hrun, by decide +kernel, dependencies_exact c ∅ _ _ none .fresh 8 hrun⟩

end Expansion

end XmlMacros
