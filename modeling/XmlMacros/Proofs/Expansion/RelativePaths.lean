import XmlMacros.Proofs.Expansion.Context
import XmlMacros.Proofs.Expansion.Preloading
import XmlMacros.Proofs.IncludePath

/-!
# Relative names of included files

Files are looked for in two ways. Where an include is expanded, its name starts from the directory
in the state, which is that of the file around it; where definitions are gathered first, the
directory is handed down with the tree of the file. `Seeks` says what is looked for in the course of
a task, with one rule for each place where it goes on, and with the names of the files that are gone
through on the way. Both ways come to the same path (`Seeks.path_eq`), and no file is asked for that
is not looked for (`expandDocument_asksOnly`). Names of one file that come behind an include start
from the directory of this file again, since the directory in the state is restored, and the one
that is handed down never changes.
-/

namespace XmlMacros.Expansion

open XmlMacros.Markup

/-- The element names a file: its text for the name is evaluated, and the path is that of the name,
seen from the working path. -/
def Names (env : Environment) (workingPath : Except Mismatch String) (s : State) (e : Element)
    (name path : String) : Prop :=
  ∃ text t t', e.attr? "filename" = some text ∧ Quiet s t ∧ evalText env text t = (.ok name, t') ∧
    includePath name workingPath t' = (.ok path, t')

/-- The elements that include files below a root. -/
def includesBelow (env : Environment) (s : State) (root : Element) : List Element :=
  root.findElements (classify env s · == .includeFile) (fun _ => false)

/-- A task that begins in a state comes to look for a file. The names are those of the files that it
goes through on the way, the outermost first, and the name and the path of the file itself. -/
inductive Seeks (env : Environment) : Task → State → List String → String → String → Prop
  /-- The file that an element includes. -/
  | here {depth : Nat} {e : Element} {rest : List Node} {name path : String} {s : State}
    (hmeans : classify env s e = .includeFile) (h : Names env s.workingPath s e name path) :
    Seeks env (.nodes (depth + 1) (e.node :: rest)) s [] name path
  /-- In the content of a file that an element includes. -/
  | file {depth : Nat} {e : Element} {rest : List Node} {first name first' path : String}
    {chain : List String} {root : Element} {s s' : State}
    (hmeans : classify env s e = .includeFile) (hfirst : Names env s.workingPath s e first first')
    (hrun : namedFile env e s = (.ok (first', root), s'))
    (h : Seeks env (.nodes depth root.children) (enterFile first' s') chain name path) :
    Seeks env (.nodes (depth + 1) (e.node :: rest)) s (first :: chain) name path
  /-- In what any other element goes on with. -/
  | inside {depth : Nat} {e : Element} {nodes rest : List Node} {name path : String}
    {chain : List String} {s s' : State} (hmeans : classify env s e ≠ .includeFile)
    (hgoes : GoesOn env s e nodes s') (h : Seeks env (.nodes depth nodes) s' chain name path) :
    Seeks env (.nodes (depth + 1) (e.node :: rest)) s chain name path
  /-- In the body of a macro that is called. -/
  | body {depth : Nat} {e : Element} {naming : Naming} {m : Macro} {arguments : Dict String}
    {rest children : List Node} {table : Table} {name path : String} {chain : List String}
    {s s₀ s₁ s₂ : State} (hmeans : classify env s e = naming.directive)
    (hcallee : callee env e naming s = (.ok (m, arguments), s₀))
    (hchildren : expandNodes (expandNode env depth) e.children s₀ = (.ok children, s₁))
    (hbind : bindCall env m arguments children s₁ = (.ok table, s₂))
    (h : Seeks env (.nodes depth m.body) (enterCall m table s₂) chain name path) :
    Seeks env (.nodes (depth + 1) (e.node :: rest)) s chain name path
  /-- In the nodes behind a node. -/
  | later {depth : Nat} {n : Node} {out rest : List Node} {name path : String}
    {chain : List String} {s s' : State} (hrun : expandNode env depth n s = (.ok out, s'))
    (h : Seeks env (.nodes depth rest) s' chain name path) :
    Seeks env (.nodes depth (n :: rest)) s chain name path
  /-- The files that are included below a root. -/
  | level {depth levels : Nat} {root e : Element} {workingPath : Except Mismatch String}
    {name path : String} {s : State} (he : e ∈ includesBelow env s root)
    (h : Names env workingPath s e name path) :
    Seeks env (.includes depth (levels + 1) root workingPath) s [] name path
  /-- Below the root of a file that is included there, and taken in behind others. -/
  | nested {depth levels : Nat} {root e inner : Element} {workingPath : Except Mismatch String}
    {first first' text name path : String} {chain paths : List String}
    {before behind : List (String × Except FetchFailure String)} {s s₁ s₂ s₃ s₄ s₅ : State}
    (he : e ∈ includesBelow env s root) (hfirst : Names env workingPath s e first first')
    (hpaths : includePaths env workingPath (includesBelow env s root) [] s = (.ok paths, s₁))
    (hfiles : fetchAll env paths s₁ = (.ok (before ++ (first', .ok text) :: behind), s₂))
    (hbefore : takeFiles env depth workingPath (collectIncludes env depth levels) before s₂
      = (.ok (), s₃))
    (hroot : parseRoot text (takingIn first' s₃) = (.ok inner, s₄))
    (hdefined : grabDefinitions env depth inner s₄ = (.ok (), s₅))
    (h : Seeks env
      (.includes depth levels (inner.strip (isDefinition env s₅)) (.ok (IncludePath.base first')))
      (preload first' ⟨workingPath, inner.strip (isDefinition env s₅)⟩ s₅) chain name path) :
    Seeks env (.includes depth (levels + 1) root workingPath) s (first :: chain) name path
  /-- Before a document is expanded, where definitions are gathered first. -/
  | gathered {depth : Nat} {d : Document} {name path : String} {chain : List String}
    {s s₁ s₂ : State} (hrun : disableLocalProperties (opened s) = (.ok (), s₁))
    (hdefined : grabDefinitions env depth d.root s₁ = (.ok (), s₂))
    (h : Seeks env (.includes depth depth (d.root.strip (isDefinition env s₂)) s₂.workingPath)
      s₂ chain name path) : Seeks env (.document depth false d) s chain name path
  /-- In the root of a document. -/
  | inRoot {depth : Nat} {inOrder : Bool} {d : Document} {root : Element} {before : List Misc}
    {attrs : List Attr} {name path : String} {chain : List String} {s s₁ s₂ s₃ : State}
    (hroot : preparedRoot env depth inOrder d.root (opened s) = (.ok root, s₁))
    (hbefore : expandMisc env d.before s₁ = (.ok before, s₂))
    (hattrs : expandAttrs env root.attrs s₂ = (.ok attrs, s₃))
    (h : Seeks env (.nodes depth root.children) s₃ chain name path) :
    Seeks env (.document depth inOrder d) s chain name path

/-- Where relative names start in a task that begins in a state. -/
def Task.workingPath : Task → State → Except Mismatch String
  | .includes _ _ _ workingPath, _ => workingPath
  | .files _ _ workingPath _, _ => workingPath
  | _, s => s.workingPath

section
variable {env : Environment}

/-! ## The paths that are looked for -/

/-- A name leads to the file that it resolves to where includes start. -/
theorem Names.path_eq {W name path : String} {s : State} {e : Element}
    (h : Names env (.ok W) s e name path) : path = IncludePath.resolve name W := by
  obtain ⟨text, t, t', -, -, -, hpath⟩ := h
  unfold includePath at hpath
  split at hpath
  · next habsolute =>
    cases hpath
    rw [IncludePath.resolve, if_pos habsolute]
  · cases hpath
    rfl

/-- Reports do not lead anywhere else. -/
theorem workingPath_of_quiet {s s' : State} (h : Quiet s s') : s'.workingPath = s.workingPath :=
  h.samePlace.workingPath

/-- Whatever was expanded, relative names start where they did before. -/
theorem workingPath_of_nodes {depth : Nat} {nodes : List Node} {r : Except Abort (List Node)}
    {s s' : State} (h : expandNodes (expandNode env depth) nodes s = (r, s')) :
    s'.workingPath = s.workingPath :=
  ((expandNodes_keeps (Restored.keeping env |>.expandNode depth) nodes).of_run h).workingPath

/-- An element goes on where relative names start as before, unless it includes a file. -/
theorem GoesOn.workingPath {s s' : State} {e : Element} {nodes : List Node}
    (hmeans : classify env s e ≠ .includeFile) (h : GoesOn env s e nodes s') :
    s'.workingPath = s.workingPath := by
  cases h with
  | block _ hrun => exact workingPath_of_quiet ((namedBlock_quiet e).of_run hrun)
  | whenTrue _ hrun | whenFalse _ hrun =>
    exact workingPath_of_quiet ((keptChildren_quiet env _ e).of_run hrun)
  | file hfile _ => exact absurd hfile hmeans
  | arguments _ hrun => exact workingPath_of_quiet ((callee_quiet env e _).of_run hrun)
  | children _ hrun => exact workingPath_of_quiet ((expandAttrs_quiet env e.attrs).of_run hrun)

/-- Whatever is looked for is found on the path that the names lead to. The induction is on the way
there: files change where relative names start, for what is in them, and nothing else does. -/
theorem Seeks.path_eq {task : Task} {s : State} {chain : List String} {name path W : String}
    (h : Seeks env task s chain name path) (hW : task.workingPath s = .ok W) :
    path = IncludePath.pathFrom W chain name := by
  induction h generalizing W with
  | @here _ _ _ _ _ s _ h =>
    have hstart : s.workingPath = .ok W := hW
    rw [hstart] at h
    exact h.path_eq
  | @file _ _ _ _ _ _ _ _ _ s _ _ hfirst _ _ ih =>
    have hstart : s.workingPath = .ok W := hW
    rw [hstart] at hfirst
    rw [hfirst.path_eq] at ih
    exact ih rfl
  | inside hmeans hgoes _ ih => exact ih ((hgoes.workingPath hmeans).trans hW)
  | body _ hcallee hchildren hbind _ ih =>
    have hcalled := workingPath_of_quiet ((callee_quiet env _ _).of_run hcallee)
    have hbound := workingPath_of_quiet ((bindCall_quiet env _ _ _).of_run hbind)
    exact ih (hbound.trans ((workingPath_of_nodes hchildren).trans (hcalled.trans hW)))
  | later hrun _ ih =>
    exact ih ((((Restored.keeping env).expandNode _ _).of_run hrun).workingPath.trans hW)
  | level _ h =>
    cases hW
    exact h.path_eq
  | nested _ hfirst _ _ _ _ _ _ ih =>
    cases hW
    rw [hfirst.path_eq] at ih
    exact ih rfl
  | gathered hrun hdefined _ ih =>
    have hstart := (disableLocalProperties_restored.of_run hrun).workingPath
    have hgrabbed := (((Restored.keeping env).grabDefinitions _ _).of_run hdefined).workingPath
    exact ih (hgrabbed.trans (hstart.trans hW))
  | inRoot hroot hbefore hattrs _ ih =>
    have hprepared := (((Restored.keeping env).preparedRoot disableLocalProperties_restored _ _
      _).of_run hroot).workingPath
    have hmisc := workingPath_of_quiet ((expandMisc_quiet env _).of_run hbefore)
    have hattrs := workingPath_of_quiet ((expandAttrs_quiet env _).of_run hattrs)
    exact ih (hattrs.trans (hmisc.trans (hprepared.trans hW)))

/-! ## Only what is looked for is asked for -/

/-- All files that a run asks for, however it ends, have the property. -/
def AsksOnly {α : Type} (P : String → Prop) (x : M α) (s : State) : Prop :=
  ∃ new, (x s).2.requested = s.requested ++ new ∧ ∀ path ∈ new, P path

namespace AsksOnly

variable {α β : Type} {P Q : String → Prop} {s : State}

/-- What a step asks for besides has the property. -/
theorem asked {x : M α} (h : AsksOnly P x s) : ∀ path ∈ Expansion.asked x s, P path := by
  obtain ⟨new, hrequested, hnew⟩ := h
  rwa [asked_of_eq hrequested]

/-- It has every property that follows. -/
theorem mono {x : M α} (h : AsksOnly P x s) (hPQ : ∀ path, P path → Q path) : AsksOnly Q x s := by
  obtain ⟨new, hrequested, hnew⟩ := h
  exact ⟨new, hrequested, fun path hpath => hPQ path (hnew path hpath)⟩

/-- A step that asks for nothing may have any property. -/
theorem of_sameFiles {x : M α} (h : Keeps SameFiles x) (s : State) : AsksOnly P x s :=
  ⟨[], by rw [(h s).requested, List.append_nil], List.forall_mem_nil _⟩

/-- And so may one that only reports. -/
theorem quiet {x : M α} (h : Keeps Quiet x) (s : State) : AsksOnly P x s :=
  .of_sameFiles (h.mono Quiet.sameFiles) s

/-- Two steps in a row ask for what each of them asks for, the second where the first one
leaves off. -/
theorem bind {x : M α} {f : α → M β} (hx : AsksOnly P x s)
    (hf : ∀ a s', x s = (.ok a, s') → AsksOnly P (f a) s') : AsksOnly P (x >>= f) s := by
  obtain ⟨new, hrequested, hnew⟩ := hx
  rcases hr : x s with ⟨e | a, s'⟩
  · rw [hr] at hrequested
    refine ⟨new, ?_, hnew⟩
    rw [bind_of_error hr]
    exact hrequested
  · obtain ⟨later, hlater, hmem⟩ := hf a s' hr
    rw [hr] at hrequested
    refine ⟨new ++ later, ?_, fun path hpath => (List.mem_append.1 hpath).elim (hnew path)
      (hmem path)⟩
    rw [bind_of_ok hr, hlater, hrequested, List.append_assoc]

theorem get_bind {f : State → M α} (h : AsksOnly P (f s) s) : AsksOnly P (get >>= f) s := h

/-- What is done around a step asks for nothing. -/
theorem bracket {x : M α} {enter : State → State} {leave : State → State → State}
    (henter : (enter s).requested = s.requested)
    (hleave : ∀ s', (leave s s').requested = s'.requested) (hx : AsksOnly P x (enter s)) :
    AsksOnly P (bracket enter leave x) s := by
  obtain ⟨new, hrequested, hnew⟩ := hx
  refine ⟨new, ?_, hnew⟩
  rw [bracket_apply, hleave, hrequested, henter]

end AsksOnly

/-- A task comes to look for the path. -/
def Sought (env : Environment) (task : Task) (s : State) (path : String) : Prop :=
  ∃ chain name, Seeks env task s chain name path

/-- Nor does the report of a fault. -/
theorem AsksOnly.reportFault {P : String → Prop} {x : M (List Node)} {s : State}
    (h : AsksOnly P x s) : AsksOnly P (reportFault x) s := by
  obtain ⟨new, hrequested, hnew⟩ := h
  refine ⟨new, ?_, hnew⟩
  rw [(reportFault_quiet x s).sameFiles.requested, hrequested]

/-- A directive names a file if its attribute evaluates to the name, after nothing but reports. -/
theorem Names.of_run {e : Element} {text name path : String} {s t t' t'' : State}
    (htext : requireAttr e "filename" s = (.ok text, t)) (hquiet : Quiet s t')
    (hname : evalText env text t' = (.ok name, t''))
    (hpath : includePath name t''.workingPath t'' = (.ok path, t'')) :
    Names env s.workingPath s e name path := by
  have hplace := IsTrans.trans _ _ _ hquiet ((evalText_quiet env text).of_run hname)
  rw [workingPath_of_quiet hplace] at hpath
  exact ⟨text, t', t'', attr?_of_requireAttr htext, hquiet, hname, hpath⟩

/-- Finding a path changes nothing. -/
theorem eq_of_includePath {name : String} {workingPath : Except Mismatch String}
    {r : Except Abort String} {s s' : State} (h : includePath name workingPath s = (r, s')) :
    s' = s :=
  ((includePath_keeps (R := Eq) name workingPath).of_run h).symm

/-- A file is asked for by its path. -/
theorem loadInclude_asks (path : String) (s : State) :
    AsksOnly (· = path) (loadInclude env path) s := by
  have hfetch : AsksOnly (· = path) (fetch env path) s :=
    ⟨[path], rfl, List.forall_mem_singleton.2 rfl⟩
  refine hfetch.bind fun text s' _ => ?_
  cases text with
  | error failure => exact .of_sameFiles (.throw _) s'
  | ok text =>
    have hrecord : Keeps SameFiles (recordInclude path) := fun _ => ⟨rfl, rfl, rfl⟩
    exact .of_sameFiles (hrecord.bind fun _ => parseRoot_keeps text) s'

/-- Or it was taken in before, and is not asked for. -/
theorem fileRoot_asks (path : String) (s : State) :
    AsksOnly (· = path) (fileRoot env path) s := by
  refine .get_bind ?_
  split
  · exact .of_sameFiles (.throw _) s
  · exact .of_sameFiles (.pure _) s
  · exact loadInclude_asks path s

/-- Where a file is included, only its path is asked for. -/
theorem namedFile_asks (e : Element) (s : State) :
    AsksOnly (fun path => ∃ name, Names env s.workingPath s e name path) (namedFile env e) s := by
  refine .bind (.quiet (requireAttr_quiet e _) s) fun text s₁ h₁ => ?_
  refine .bind (.quiet (warnExtraAttrs_quiet e _) s₁) fun _ s₂ h₂ => ?_
  refine .bind (.quiet (warnNameSpace_quiet _) s₂) fun _ s₃ h₃ => ?_
  refine .bind (.quiet (evalText_quiet env _) s₃) fun name s₄ h₄ => .get_bind ?_
  refine .bind (.quiet (includePath_keeps _ _) s₄) fun path s₅ h₅ => ?_
  cases eq_of_includePath h₅
  have hquiet : Quiet s s₃ := IsTrans.trans _ _ _ ((requireAttr_quiet e _).of_run h₁)
    (IsTrans.trans _ _ _ ((warnExtraAttrs_quiet e _).of_run h₂)
      ((warnNameSpace_quiet _).of_run h₃))
  have hnames : Names env s.workingPath s e name path := .of_run h₁ hquiet h₄ h₅
  refine .bind ((fileRoot_asks path s₄).mono ?_) fun _ s' _ => .of_sameFiles (.pure _) s'
  rintro _ rfl
  exact ⟨name, hnames⟩

/-- A directive whose file is found names it. -/
theorem Names.of_namedFile {e : Element} {path : String} {root : Element} {s s' : State}
    (h : namedFile env e s = (.ok (path, root), s')) :
    ∃ name, Names env s.workingPath s e name path := by
  obtain ⟨text, s₁, h₁, h⟩ := bind_ok h
  obtain ⟨_, s₂, h₂, h⟩ := bind_ok h
  obtain ⟨_, s₃, h₃, h⟩ := bind_ok h
  obtain ⟨name, s₄, h₄, h⟩ := bind_ok h
  rw [get_bind_apply] at h
  obtain ⟨path, s₅, h₅, h⟩ := bind_ok h
  obtain ⟨_, _, -, h⟩ := bind_ok h
  cases h
  cases eq_of_includePath h₅
  refine ⟨name, .of_run h₁ ?_ h₄ h₅⟩
  exact IsTrans.trans _ _ _ ((requireAttr_quiet e _).of_run h₁)
    (IsTrans.trans _ _ _ ((warnExtraAttrs_quiet e _).of_run h₂)
      ((warnNameSpace_quiet _).of_run h₃))

/-! ## Nodes -/

section
variable {depth : Nat}
  (hnodes : ∀ ns s, AsksOnly (Sought env (.nodes depth ns) s)
    (expandNodes (expandNode env depth) ns) s)

include hnodes

/-- A call asks for what its children ask for, and then its body. -/
theorem callMacro_asks (naming : Naming) {e : Element} {rest : List Node} {s : State}
    (hmeans : classify env s e = naming.directive) :
    AsksOnly (Sought env (.nodes (depth + 1) (e.node :: rest)) s)
      (callMacro env (expandNode env depth) naming e) s := by
  have hother : classify env s e ≠ .includeFile := by
    rw [hmeans]
    cases naming <;> nofun
  refine .bind (.quiet (callee_quiet env e naming) s) fun ⟨m, arguments⟩ s₀ hcallee => ?_
  refine .bind ((hnodes e.children s₀).mono ?_) fun children s₁ hchildren => ?_
  · rintro path ⟨chain, name, h⟩
    exact ⟨chain, name, .inside hother (.arguments hmeans hcallee) h⟩
  refine .bind (.quiet (bindCall_quiet env m arguments children) s₁) fun table s₂ hbind => ?_
  refine .bracket rfl (fun _ => rfl) ((hnodes m.body (enterCall m table s₂)).mono ?_)
  rintro path ⟨chain, name, h⟩
  exact ⟨chain, name, .body hmeans hcallee hchildren hbind h⟩

/-- One case for each directive. -/
theorem perform_asks {e : Element} {rest : List Node} {s : State} :
    AsksOnly (Sought env (.nodes (depth + 1) (e.node :: rest)) s)
      (perform env depth (expandNode env depth) e (classify env s e)) s := by
  have hinside {nodes : List Node} {s' : State} (hother : classify env s e ≠ .includeFile)
      (hgoes : GoesOn env s e nodes s') :
      AsksOnly (Sought env (.nodes (depth + 1) (e.node :: rest)) s)
        (expandNodes (expandNode env depth) nodes) s' := by
    refine (hnodes nodes s').mono ?_
    rintro path ⟨chain, name, h⟩
    exact ⟨chain, name, .inside hother hgoes h⟩
  cases hmeans : classify env s e with
  | property => exact .of_sameFiles (defineProperty_sameFiles depth e) s
  | defineMacro => exact .of_sameFiles (defineMacro_sameFiles depth e) s
  | arg =>
    exact .of_sameFiles (defineArg_keeps Quiet.sameFiles (fun _ _ => ⟨rfl, rfl, rfl⟩) env e) s
  | insertBlock =>
    refine .bind (.quiet (namedBlock_quiet e) s) fun nodes s' hrun => ?_
    exact hinside (hmeans ▸ nofun) (.block hmeans hrun)
  | whenTrue =>
    refine .bind (.quiet (keptChildren_quiet env _ e) s) fun nodes s' hrun => ?_
    exact hinside (hmeans ▸ nofun) (.whenTrue hmeans hrun)
  | whenFalse =>
    refine .bind (.quiet (keptChildren_quiet env _ e) s) fun nodes s' hrun => ?_
    exact hinside (hmeans ▸ nofun) (.whenFalse hmeans hrun)
  | includeFile =>
    refine .bind ((namedFile_asks e s).mono ?_) fun ⟨path, root⟩ s' hrun => ?_
    · rintro path ⟨name, hnames⟩
      exact ⟨[], name, .here hmeans hnames⟩
    · obtain ⟨first, hfirst⟩ := Names.of_namedFile hrun
      refine .bracket rfl (fun _ => rfl) ((hnodes root.children (enterFile path s')).mono ?_)
      rintro p ⟨chain, name, h⟩
      exact ⟨first :: chain, name, .file hmeans hfirst hrun h⟩
  | call => exact callMacro_asks hnodes .byAttr hmeans
  | invoke => exact callMacro_asks hnodes .byTag hmeans
  | newElement | newAttribute => exact .of_sameFiles (.throw _) s
  | ordinary =>
    refine .bind ?_ fun _ s' _ => .of_sameFiles (.pure _) s'
    refine .bind (.quiet (expandAttrs_quiet env e.attrs) s) fun attrs s' hrun => ?_
    refine .bind (hinside (hmeans ▸ nofun) (.children hmeans hrun)) fun _ s' _ => ?_
    exact .of_sameFiles (.pure _) s'

end

/-- However the expansion of nodes ends, it asks only for files that they look for. -/
theorem expandNodes_asks (depth : Nat) (ns : List Node) (s : State) :
    AsksOnly (Sought env (.nodes depth ns) s) (expandNodes (expandNode env depth) ns) s := by
  induction depth generalizing ns s with
  | zero =>
    cases ns with
    | nil => exact .of_sameFiles (.pure _) s
    | cons n rest => exact .bind (.of_sameFiles (.throw _) s) fun _ _ h => nomatch h
  | succ depth ih =>
    induction ns generalizing s with
    | nil => exact .of_sameFiles (.pure _) s
    | cons n rest ihrest =>
      have hfirst : AsksOnly (Sought env (.nodes (depth + 1) (n :: rest)) s)
          (expandNode env (depth + 1) n) s := by
        cases n with
        | element tag attrs children =>
          exact .get_bind (.reportFault (perform_asks (e := ⟨tag, attrs, children⟩) ih))
        | text | cdata | comment | instruction =>
          exact .quiet ((expandLeaf_quiet env _).bind fun _ => .pure _) s
      refine hfirst.bind fun out s' hrun => .bind ((ihrest s').mono ?_) fun _ s'' _ => ?_
      · rintro path ⟨chain, name, h⟩
        exact ⟨chain, name, .later hrun h⟩
      · exact .of_sameFiles (.pure _) s''

/-! ## Gathering definitions -/

/-- The paths of a level are those of names that elements of it give. -/
theorem includePaths_names {workingPath : Except Mismatch String} {es : List Element}
    {found paths : List String} {s t t' : State}
    (hrun : includePaths env workingPath es found t = (.ok paths, t')) (hquiet : Quiet s t) :
    ∀ path ∈ paths, path ∈ found ∨ ∃ e ∈ es, ∃ name, Names env workingPath s e name path := by
  induction es generalizing found t with
  | nil =>
    cases hrun
    exact fun path hpath => .inl hpath
  | cons e rest ih =>
    have hlater {found' : List String} {t₁ : State}
        (hrest : includePaths env workingPath rest found' t₁ = (.ok paths, t'))
        (hquiet : Quiet s t₁) (hfound : ∀ path ∈ found', path ∈ found ∨
          ∃ name, Names env workingPath s e name path) :
        ∀ path ∈ paths, path ∈ found ∨
          ∃ e' ∈ e :: rest, ∃ name, Names env workingPath s e' name path := by
      intro path hpath
      rcases ih hrest hquiet path hpath with h | ⟨e', he', h⟩
      · exact (hfound path h).imp_right fun h => ⟨e, List.mem_cons_self, h⟩
      · exact .inr ⟨e', List.mem_cons_of_mem _ he', h⟩
    unfold includePaths at hrun
    cases hattr : e.attr? "filename" with
    | none =>
      rw [hattr] at hrun
      exact hlater hrun hquiet fun _ => .inl
    | some text =>
      rw [hattr] at hrun
      obtain ⟨name, t₁, hname, hrun⟩ := bind_ok hrun
      obtain ⟨path, t₂, hpath, hrun⟩ := bind_ok hrun
      cases eq_of_includePath hpath
      have hlooked := IsTrans.trans _ _ _ hquiet ((evalText_quiet env text).of_run hname)
      rw [get_bind_apply] at hrun
      split at hrun
      · exact hlater hrun hlooked fun _ => .inl
      · refine hlater hrun hlooked fun p hp => (List.mem_append.1 hp).imp_right fun hp => ?_
        cases List.mem_singleton.1 hp
        exact ⟨name, text, t, t₁, hattr, hquiet, hname, hpath⟩

/-- Files are taken in up to any of them, and then those behind it. -/
theorem takeFiles_append (depth : Nat) (workingPath : Except Mismatch String)
    (nested : Element → Except Mismatch String → M Unit)
    (before behind : List (String × Except FetchFailure String)) :
    takeFiles env depth workingPath nested (before ++ behind) =
      takeFiles env depth workingPath nested before >>= fun _ =>
        takeFiles env depth workingPath nested behind := by
  induction before with
  | nil => rfl
  | cons file rest ih =>
    rw [List.cons_append, takeFiles_cons, ih, takeFiles_cons env depth workingPath nested file rest,
      bind_assoc]

section
variable {depth levels : Nat}
  (hcollect : ∀ root workingPath s,
    AsksOnly (Sought env (.includes depth levels root workingPath) s)
      (collectIncludes env depth levels root workingPath) s)

include hcollect

/-- Taking in a file that an include of a level names asks for those that are looked for below its
root. -/
theorem takeWithin_asksOnly {root e : Element} {workingPath : Except Mismatch String}
    {first path text : String} {paths : List String}
    {before rest : List (String × Except FetchFailure String)} {s s₁ s₂ s₃ : State}
    (he : e ∈ includesBelow env s root) (hfirst : Names env workingPath s e first path)
    (hpaths : includePaths env workingPath (includesBelow env s root) [] s = (.ok paths, s₁))
    (hfiles : fetchAll env paths s₁ = (.ok (before ++ (path, .ok text) :: rest), s₂))
    (hbefore : takeFiles env depth workingPath (collectIncludes env depth levels) before s₂
      = (.ok (), s₃)) :
    AsksOnly (Sought env (.includes depth (levels + 1) root workingPath) s)
      (takeWithin env depth levels workingPath path text) (takingIn path s₃) := by
  refine .bind (.of_sameFiles (parseRoot_keeps text) _) fun inner s₄ hroot => ?_
  refine .bind (.of_sameFiles (grabDefinitions_sameFiles depth inner) s₄) fun _ s₅ hgrab => ?_
  refine .get_bind (.bind ⟨[], (List.append_nil _).symm, List.forall_mem_nil _⟩ fun _ _ h => ?_)
  cases h
  refine (hcollect _ _ _).mono ?_
  rintro p ⟨chain, name, h⟩
  exact ⟨first :: chain, name, .nested he hfirst hpaths hfiles hbefore hroot hgrab h⟩

/-- Taking in the files of a level asks for those that are looked for below their roots. -/
theorem takeFiles_asksOnly {root : Element} {workingPath : Except Mismatch String}
    {paths : List String} (before : List (String × Except FetchFailure String))
    {files : List (String × Except FetchFailure String)} {s s₁ s₂ s₃ : State}
    (hpaths : includePaths env workingPath (includesBelow env s root) [] s = (.ok paths, s₁))
    (hfiles : fetchAll env paths s₁ = (.ok (before ++ files), s₂))
    (hbefore : takeFiles env depth workingPath (collectIncludes env depth levels) before s₂
      = (.ok (), s₃)) :
    AsksOnly (Sought env (.includes depth (levels + 1) root workingPath) s)
      (takeFiles env depth workingPath (collectIncludes env depth levels) files) s₃ := by
  induction files generalizing before s₃ with
  | nil => exact .of_sameFiles (.pure _) s₃
  | cons file rest ih =>
    rw [takeFiles_cons]
    refine .bind ?_ fun _ s₄ htaken => ?_
    · obtain ⟨path, failure | text⟩ := file
      · refine ⟨[], ?_, List.forall_mem_nil _⟩
        rw [List.append_nil]
        rfl
      have hpath : path ∈ paths := by
        rw [fetchAll_apply] at hfiles
        have hmap := Except.ok.inj (Prod.mk.inj hfiles).1
        obtain ⟨p, hp, heq⟩ := List.mem_map.1 (hmap ▸ List.mem_append_right _ List.mem_cons_self)
        rwa [← (Prod.mk.inj heq).1]
      obtain ⟨e, he, first, hfirst⟩ : ∃ e ∈ includesBelow env s root, ∃ name,
          Names env workingPath s e name path :=
        (includePaths_names hpaths (Std.Refl.refl s) path hpath).resolve_left nofun
      obtain ⟨new, hrequested, hnew⟩ :=
        takeWithin_asksOnly hcollect he hfirst hpaths hfiles hbefore
      refine ⟨new, ?_, hnew⟩
      rw [takeFiles_singleton]
      exact hrequested
    · refine ih (before ++ [file]) ?_ ?_
      · rwa [List.append_assoc]
      · rw [takeFiles_append, bind_of_ok hbefore]
        exact htaken

end

/-- By induction on how deep files may include each other. -/
theorem collectIncludes_asksOnly (depth levels : Nat) (root : Element)
    (workingPath : Except Mismatch String) (s : State) :
    AsksOnly (Sought env (.includes depth levels root workingPath) s)
      (collectIncludes env depth levels root workingPath) s := by
  induction levels generalizing root workingPath s with
  | zero => exact .of_sameFiles (.throw _) s
  | succ levels ih =>
    refine .get_bind (.bind (.quiet (includePaths_quiet env _ _ _) s) fun paths s₁ hpaths => ?_)
    refine .bind ⟨paths, ?_, fun path hpath => ?_⟩ fun files s₂ hfiles => ?_
    · rw [fetchAll_apply]
    · rcases includePaths_names hpaths (Std.Refl.refl s) path hpath with h | ⟨e, he, name, h⟩
      · cases h
      · exact ⟨[], name, .level he h⟩
    · exact takeFiles_asksOnly ih [] hpaths hfiles rfl

/-! ## Documents -/

/-- However the expansion of a document ends, it asks only for files that it looks for. -/
theorem expandDocument_asksOnly (env : Environment) (depth : Nat) (inOrder : Bool) (d : Document)
    (s : State) :
    AsksOnly (Sought env (.document depth inOrder d) s) (expandDocument env depth inOrder d) s := by
  refine .bracket rfl (fun _ => rfl) (.bind (s := opened s) ?_ fun root s₁ hroot => ?_)
  · cases inOrder with
    | true => exact .of_sameFiles (.pure _) _
    | false =>
      refine .bind (.of_sameFiles disableLocalProperties_sameFiles _) fun _ s₁ hrun => ?_
      refine .bind (.of_sameFiles (grabDefinitions_sameFiles depth d.root) s₁) fun _ s₂ hgrab => ?_
      refine .get_bind (.get_bind (.bind ((collectIncludes_asksOnly depth depth _ _ s₂).mono ?_)
        fun _ s₃ _ => .of_sameFiles (.pure _) s₃))
      rintro path ⟨chain, name, h⟩
      exact ⟨chain, name, .gathered hrun hgrab h⟩
  · refine .bind (.quiet (expandMisc_quiet env _) s₁) fun before s₂ hbefore => ?_
    refine .bind ?_ fun _ s' _ => .bind (.quiet (expandMisc_quiet env _) s') fun _ s'' _ =>
      .of_sameFiles (.pure _) s''
    refine .bind (.quiet (expandAttrs_quiet env root.attrs) s₂) fun attrs s₃ hattrs => ?_
    refine .bind ((expandNodes_asks depth root.children s₃).mono ?_) fun _ s' _ =>
      .of_sameFiles (.pure _) s'
    rintro path ⟨chain, name, h⟩
    exact ⟨chain, name, .inRoot hroot hbefore hattrs h⟩

/-- Where the working path is a directory, the path of a file that is looked for in the course of an
expansion, in reading order or with definitions gathered first, is made of the directories of the
files that it is reached through, in order, and its own name, if all these names are relative. No
other files are asked for; and behind every node, an include among them, relative names start where
they did before it. -/
theorem include_paths (env : Environment) (depth : Nat) (inOrder : Bool) (d : Document) {s : State}
    {W : String} (hW : s.workingPath = .ok W) (hdirectory : IncludePath.IsDirectory W) :
    (∀ chain name path, Seeks env (.document depth inOrder d) s chain name path →
      (∀ r ∈ chain, IncludePath.isAbsolute r = false) → IncludePath.isAbsolute name = false →
      path = W ++ String.join (chain.map IncludePath.directory) ++ name) ∧
    (∀ path ∈ asked (expandDocument env depth inOrder d) s,
      ∃ chain name, Seeks env (.document depth inOrder d) s chain name path) ∧
    ∀ depth n t, (expandNode env depth n t).2.workingPath = t.workingPath := by
  refine ⟨fun chain name path h hchain hname => ?_, ?_, fun depth n t => ?_⟩
  · rw [h.path_eq hW, IncludePath.pathFrom_eq hdirectory hchain hname]
  · exact (expandDocument_asksOnly env depth inOrder d s).asked
  · exact ((Restored.keeping env).expandNode depth n t).workingPath

/-- A document that includes a file in a directory, and then one beside it. -/
def directoryInclude : Document where
  before := []
  root := ⟨"r", [],
    [.element "xacro:include" [⟨"filename", "a\\b"⟩] [],
      .element "xacro:include" [⟨"filename", "e"⟩] []]⟩
  after := []

/-- The first file includes one that is in a directory of its own. -/
def directoryFiles : Environment :=
  .ofFiles true
    [("/w/a\\b", "<b><xacro:include xmlns:xacro='x' filename='c/d'/></b>"), ("/w/a/c/d", "<d/>"),
      ("/w/e", "<e/>")]

/-- A file in a directory includes one by a relative name, which is looked for in this directory. -/
theorem include_paths_directoryInclude :
    let s := { State.fresh true with workingPath := .ok "/w/" }
    s.workingPath = .ok "/w/" ∧ IncludePath.IsDirectory "/w/" ∧
      (∀ inOrder, asked (expandDocument directoryFiles 8 inOrder directoryInclude) s =
        if inOrder then ["/w/a\\b", "/w/a/c/d", "/w/e"] else ["/w/a\\b", "/w/e", "/w/a/c/d"]) ∧
      ∀ inOrder, (∀ chain name path,
          Seeks directoryFiles (.document 8 inOrder directoryInclude) s chain name path →
          (∀ r ∈ chain, IncludePath.isAbsolute r = false) → IncludePath.isAbsolute name = false →
          path = "/w/" ++ String.join (chain.map IncludePath.directory) ++ name) ∧
        (∀ path ∈ asked (expandDocument directoryFiles 8 inOrder directoryInclude) s,
          ∃ chain name,
            Seeks directoryFiles (.document 8 inOrder directoryInclude) s chain name path) ∧
        ∀ depth n t, (expandNode directoryFiles depth n t).2.workingPath = t.workingPath := by
  intro s
  have hdirectory : IncludePath.IsDirectory "/w/" := ⟨by decide, by decide⟩
  have hasked : ∀ inOrder, asked (expandDocument directoryFiles 8 inOrder directoryInclude) s =
      if inOrder then ["/w/a\\b", "/w/a/c/d", "/w/e"] else ["/w/a\\b", "/w/e", "/w/a/c/d"] := by
    decide +kernel
  exact ⟨rfl, hdirectory, hasked, fun inOrder =>
    include_paths directoryFiles 8 inOrder directoryInclude rfl hdirectory⟩

end

end XmlMacros.Expansion
