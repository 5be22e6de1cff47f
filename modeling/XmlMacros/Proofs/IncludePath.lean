import Mathlib.Data.List.DropRight
import XmlMacros.IncludePath

/-!
# Paths are joined from directories

The directory of a path is the part of it up to the last separator, with slashes for all separators
(`base_eq`). So the directory of a file that was found relative to another directory is made of the
two one behind the other (`base_append`), and the path of a file that is reached through others is
made of their directories, in order, and its own name (`pathFrom_eq`). A file name that does not
depend on where it is given starts over.
-/

namespace XmlMacros.IncludePath

/-- A file name up to its last separator, with slashes for all separators; nothing, if it
has none. -/
def directory (filename : String) : String :=
  String.ofList ((filename.toList.rdropWhile (!isSeparator ·)).map fun c =>
    if c == '\\' then '/' else c)

/-- The path of a file name in a file that is reached through others: each of their names is given
in the file before it, and the first one where the working path is in force. -/
def pathFrom (workingPath : String) : List String → String → String
  | [], filename => resolve filename workingPath
  | first :: rest, filename => pathFrom (base (resolve first workingPath)) rest filename

/-! ## Directories of paths -/

/-- What is dropped from the end of two lists is dropped from the second, and from the first only if
nothing of the second is left. -/
theorem rdropWhile_append {α : Type} (p : α → Bool) (xs ys : List α) :
    (xs ++ ys).rdropWhile p =
      if ys.rdropWhile p = [] then xs.rdropWhile p else xs ++ ys.rdropWhile p := by
  unfold List.rdropWhile
  rw [List.reverse_append, List.dropWhile_append]
  cases ys.reverse.dropWhile p <;> simp

/-- Cutting gives at least one piece. -/
theorem splitAtP_ne_nil {α : Type} (p : α → Bool) (xs : List α) : Text.splitAtP p xs ≠ [] := by
  cases xs with
  | nil => nofun
  | cons a rest =>
    unfold Text.splitAtP
    split
    · nofun
    · split <;> nofun

/-- All pieces but the last one, each with a slash behind it, are the list up to its last separator,
with slashes for separators. -/
theorem flatten_dropLast_splitAtP (p : Char → Bool) (cs : List Char) :
    ((Text.splitAtP p cs).dropLast.map (· ++ ['/'])).flatten =
      (cs.rdropWhile (!p ·)).map fun c => if p c then '/' else c := by
  induction cs with
  | nil => rfl
  | cons c rest ih =>
    rw [← List.singleton_append (x := c) (l := rest), rdropWhile_append, List.singleton_append,
      List.rdropWhile_singleton]
    unfold Text.splitAtP
    cases hc : p c with
    | true =>
      rw [if_pos rfl, List.dropLast_cons_of_ne_nil (splitAtP_ne_nil p rest), List.map_cons,
        List.flatten_cons, ih]
      split
      · next hnil => simp [hnil, hc]
      · simp [hc]
    | false =>
      rw [if_neg Bool.false_ne_true]
      split
      · next hsplit => exact absurd hsplit (splitAtP_ne_nil p rest)
      · next piece pieces hsplit =>
        rw [hsplit] at ih
        cases pieces with
        | nil =>
          have hnil : rest.rdropWhile (!p ·) = [] := List.map_eq_nil_iff.1 ih.symm
          simp [hnil]
        | cons next pieces =>
          have hne : rest.rdropWhile (!p ·) ≠ [] := by
            intro hnil
            rw [hnil] at ih
            simp at ih
          rw [if_neg hne, List.map_append, ← ih]
          simp [hc]

/-- The directory of a path that has one. -/
theorem base_eq {path : String} (h : directory path ≠ "") : base path = directory path := by
  have hslashes : ∀ c, (if isSeparator c then '/' else c) = if c == '\\' then '/' else c := by
    intro c
    unfold isSeparator
    by_cases hc : c = '/'
    · subst hc
      rfl
    · simp [hc]
  have hsteps := flatten_dropLast_splitAtP isSeparator path.toList
  simp only [hslashes] at hsteps
  unfold base
  split
  · next hnil =>
    rw [hnil] at hsteps
    refine absurd ?_ h
    rw [directory, ← hsteps]
    rfl
  · rw [directory, ← hsteps]

/-! ## Joined paths -/

/-- A text that paths are joined to: it ends in a slash, and all its separators are slashes. -/
structure IsDirectory (workingPath : String) : Prop where
  ends : workingPath.toList.getLast? = some '/'
  plain : '\\' ∉ workingPath.toList

/-- The directory of a file is what stands up to its last separator, with slashes for
all separators. -/
theorem toList_directory (filename : String) :
    (directory filename).toList = (filename.toList.rdropWhile (!isSeparator ·)).map fun c =>
      if c == '\\' then '/' else c :=
  String.toList_ofList

/-- In a directory, that of a relative name goes on where the directory ends. -/
theorem directory_append {workingPath : String} (h : IsDirectory workingPath) (filename : String) :
    directory (workingPath ++ filename) = workingPath ++ directory filename := by
  have hkept : (workingPath.toList.map fun c => if c == '\\' then '/' else c) =
      workingPath.toList := by
    refine (List.map_congr_left fun c hc => if_neg fun hslash => ?_).trans (List.map_id _)
    exact h.plain (eq_of_beq hslash ▸ hc)
  have hends : workingPath.toList.rdropWhile (!isSeparator ·) = workingPath.toList := by
    refine List.rdropWhile_eq_self_iff.2 fun hne => ?_
    obtain ⟨_, hlast⟩ := List.mem_getLast?_eq_getLast h.ends
    rw [← hlast]
    decide
  refine String.toList_injective ?_
  rw [toList_directory, String.toList_append, String.toList_append, toList_directory,
    rdropWhile_append]
  split
  · next hnil => rw [hends, hkept, hnil, List.map_nil, List.append_nil]
  · rw [List.map_append, hkept]

/-- And it is a directory, too. -/
theorem IsDirectory.append {workingPath : String} (h : IsDirectory workingPath)
    (filename : String) : IsDirectory (workingPath ++ directory filename) := by
  constructor
  · rw [String.toList_append, List.getLast?_append, toList_directory, List.getLast?_map]
    cases hlast : (filename.toList.rdropWhile (!isSeparator ·)).getLast? with
    | none => exact h.ends
    | some c =>
      obtain ⟨hne, rfl⟩ := List.mem_getLast?_eq_getLast hlast
      have hseparator := List.rdropWhile_last_not _ _ hne
      generalize List.getLast _ hne = c at hseparator
      have hc : c = '/' ∨ c = '\\' := by
        simpa [isSeparator, or_iff_not_imp_left] using hseparator
      rcases hc with rfl | rfl <;> rfl
  · rw [String.toList_append, List.mem_append, toList_directory]
    rintro (hmem | hmem)
    · exact h.plain hmem
    · obtain ⟨c, -, hc⟩ := List.mem_map.1 hmem
      split at hc
      · cases hc
      · next hne => simp [hc] at hne

/-- So relative names start there. -/
theorem base_append {workingPath : String} (h : IsDirectory workingPath) (filename : String) :
    base (workingPath ++ filename) = workingPath ++ directory filename := by
  have happend := directory_append h filename
  rw [← happend]
  refine base_eq fun hnil => ?_
  obtain ⟨hempty, -⟩ := String.append_eq_empty_iff.1 (happend.symm.trans hnil)
  have hends := h.ends
  rw [hempty] at hends
  cases hends

/-- The path of a file that is reached through others, where all names are relative: the directories
that they name, one behind the other, and its own name. -/
theorem pathFrom_eq {workingPath : String} (h : IsDirectory workingPath) {chain : List String}
    {filename : String} (hchain : ∀ name ∈ chain, isAbsolute name = false)
    (hname : isAbsolute filename = false) :
    pathFrom workingPath chain filename =
      workingPath ++ String.join (chain.map directory) ++ filename := by
  have hresolve {name workingPath : String} (hname : isAbsolute name = false) :
      resolve name workingPath = workingPath ++ name := by
    rw [resolve, hname, if_neg Bool.false_ne_true]
  induction chain generalizing workingPath with
  | nil => rw [pathFrom, hresolve hname, List.map_nil, String.join_nil, String.append_empty]
  | cons first rest ih =>
    obtain ⟨hfirst, hrest⟩ := List.forall_mem_cons.1 hchain
    rw [pathFrom, hresolve hfirst, base_append h, ih (h.append first) hrest, List.map_cons,
      String.join_cons]
    simp only [String.append_assoc]

end XmlMacros.IncludePath
