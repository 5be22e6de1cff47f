import XmlMacros.Config
import XmlMacros.Proofs.Expansion.Moment

/-!
# The context of an expansion is restored

Four parts of the state say where an expansion is: the directory that relative names start from, the
stack of files, the file that commands are told about, and the macros being instantiated. Includes
and calls change them while they go on with other nodes, and put them back however these end
(`Restored.keeping`). So whatever is expanded or gathered leaves them as they were
(`context_restored`).

Commands are told about the file on top of the stack (`State.Synced`). This holds at the start of a
run (`synced_start`) and at every moment of it (`Moment.synced`).
-/

namespace XmlMacros

open XmlMacros.Markup

namespace Expansion

/-- The file that commands are told about is the one on top of the file stack. -/
def State.Synced (s : State) : Prop :=
  s.filename = s.files.head?.join

/-- The expansion is where it was before. The file that commands are told about is read off the
stack on the way back, so it is the same if it was right before. -/
structure Restored (s s' : State) : Prop where
  workingPath : s'.workingPath = s.workingPath
  files : s'.files = s.files
  calls : s'.calls = s.calls
  filename : s.Synced → s'.filename = s.filename

namespace Restored

variable {s s' s'' : State}

/-- Where the expansion is back, the file that commands are told about is the one on top again. -/
theorem synced (h : Restored s s') (hs : s.Synced) : s'.Synced := by
  rw [State.Synced, h.filename hs, h.files]
  exact hs

/-- Nothing has changed. -/
theorem refl (s : State) : Restored s s :=
  ⟨rfl, rfl, rfl, fun _ => rfl⟩

/-- Back from two steps in a row it is where it was before the first one. -/
theorem trans (h : Restored s s') (h' : Restored s' s'') : Restored s s'' where
  workingPath := h'.workingPath.trans h.workingPath
  files := h'.files.trans h.files
  calls := h'.calls.trans h.calls
  filename hs := (h'.filename (h.synced hs)).trans (h.filename hs)

end Restored

instance : Std.Refl Restored := ⟨.refl⟩

instance : IsTrans State Restored := ⟨fun _ _ _ => .trans⟩

/-- What stays in its place is back at once. -/
theorem SamePlace.restored {s s' : State} (h : SamePlace s s') : Restored s s' :=
  ⟨h.workingPath, h.files, h.calls, fun _ => h.filename⟩

end Expansion

/-- And so is a step that never leaves it. -/
theorem Keeps.restored {α : Type} {x : Expansion.M α} (h : Keeps Expansion.SamePlace x) :
    Keeps Expansion.Restored x :=
  fun s => (h s).restored

namespace Expansion

/-! ## What goes on elsewhere and comes back -/

/-- Properties are defined in place: only scopes change. -/
theorem defineProperty_restored (env : Environment) (depth : Nat) (e : Element) :
    Keeps Restored (defineProperty env depth e) :=
  defineProperty_keeps (fun h => h.samePlace.restored) (fun _ _ => ⟨rfl, rfl, rfl, fun _ => rfl⟩) env
    depth e

/-- Files and calls are left on the way back: what was put on top of a stack is taken off. -/
theorem Restored.keeping (env : Environment) : Keeping env Restored where
  booked h := h.toSamePlace.restored
  arg e := (defineArg_samePlace env e).restored
  defineMacro depth e := (defineMacro_samePlace depth e).restored
  property := defineProperty_restored env
  insideFile path hx s := ⟨rfl, rfl, (hx (enterFile path s)).calls, fun hs => hs.symm⟩
  insideCall m table hx s :=
    have hbody := hx (enterCall m table s)
    ⟨hbody.workingPath, hbody.files, congrArg List.tail hbody.calls, hbody.filename⟩
  withFile path hx s :=
    ⟨(hx (pushFile path s)).workingPath, rfl, (hx (pushFile path s)).calls, fun hs => hs.symm⟩

/-- Turning off local properties does not lead anywhere else. -/
theorem disableLocalProperties_restored : Keeps Restored disableLocalProperties := by
  refine .get_bind fun s => ?_
  split
  · exact (warn_quiet _).samePlace.restored.bind fun _ _ => ⟨rfl, rfl, rfl, fun _ => rfl⟩
  · exact .pure _

/-! ## The file that commands are told about -/

/-- What comes back leaves the right file, and so do the ways into files and calls. -/
theorem synced_invariant (env : Environment) :
    Invariant env Restored (fun _ => True) State.Synced where
  keeping := Restored.keeping env
  disable := disableLocalProperties_restored
  kept := Restored.synced
  enterFile _ _ := rfl
  takingIn _ _ := rfl
  enterCall _ _ _ hbind hs := ((bindCall_quiet env _ _ _).of_run hbind).samePlace.restored.synced hs

/-- Wherever a text is evaluated, commands are told about the file on top of the stack. -/
theorem Moment.synced {env : Environment} {task : Task} {s t : State} (h : Moment env task s t)
    (hs : s.Synced) : t.Synced := by
  refine h.invariant (synced_invariant env) (fun _ => trivial) ?_
  cases task <;> exact hs

/-- At the start of a run commands are told about the document. -/
theorem synced_start (c : Config) (filename : Option String) (console : Console) :
    (c.start filename console).Synced :=
  rfl

/-! ## The context -/

/-- The expansion is where it was before. -/
structure SameContext (s s' : State) : Prop where
  workingPath : s'.workingPath = s.workingPath
  files : s'.files = s.files
  filename : s'.filename = s.filename
  calls : s'.calls = s.calls

/-- Where the file was right before, it is so afterwards, and all of the context is the same. -/
theorem Restored.sameContext {s s' : State} (h : Restored s s') (hs : s.Synced) :
    SameContext s s' :=
  ⟨h.workingPath, h.files, h.filename hs, h.calls⟩

/-- However the expansion of a node ends, and however the files that are included below a root are
taken in, the context is as it was before; and wherever a text is evaluated in between, commands are
told about the file on top of the stack. -/
theorem context_restored (env : Environment) {s : State} (hs : s.Synced) :
    (∀ depth n, SameContext s (expandNode env depth n s).2) ∧
      (∀ depth levels root workingPath,
        SameContext s (collectIncludes env depth levels root workingPath s).2) ∧
      ∀ task t, Moment env task s t → t.filename = t.files.head?.join :=
  ⟨fun depth n => ((Restored.keeping env).expandNode depth n s).sameContext hs,
    fun depth levels root workingPath =>
      ((Restored.keeping env).collectIncludes depth levels root workingPath s).sameContext hs,
    fun _ _ h => h.synced hs⟩

/-- An include of a file that is not a document. -/
def brokenInclude : Element :=
  ⟨"xacro:include", [⟨"filename", "a.xml"⟩], []⟩

/-- Whether a run ended because a file is not a document. -/
def Abort.isUnreadable : Abort → Bool
  | .unreadable _ => true
  | _ => false

/-- The file that is included cannot be read, and the expansion is back where it was. -/
theorem context_restored_brokenInclude :
    let env := Environment.ofFiles true [("a.xml", "<")]
    let s := State.fresh true
    s.Synced ∧
      (expandNode env 8 brokenInclude.node s).1.mapError Abort.isUnreadable = .error true ∧
      SameContext s (expandNode env 8 brokenInclude.node s).2 := by
  intro env s
  have hsynced : s.Synced := rfl
  have hrun : (expandNode env 8 brokenInclude.node s).1.mapError Abort.isUnreadable
      = .error true := by
    rfl
  exact ⟨hsynced, hrun, (context_restored env hsynced).1 8 brokenInclude.node⟩

end Expansion

end XmlMacros
