import XmlMacros.IncludePath
import XmlMacros.Param
import XmlMacros.Text.Blank
import XmlMacros.Text.Path

/-!
# Which characters texts are made of

Cutting a text into pieces and joining pieces brings in no characters but those that are put between
the pieces. So the words of a text are made of its characters, and so are the defaults of the
parameters that it declares; and the paths that are made of file names are made of their characters,
of slashes and of points.
-/

namespace XmlMacros.Text

/-! ## Cutting and joining -/

/-- What is cut into pieces has nothing in its pieces that it did not have. -/
theorem mem_splitAtP {α : Type} {p : α → Bool} {xs piece : List α} {x : α}
    (hpiece : piece ∈ splitAtP p xs) (h : x ∈ piece) : x ∈ xs := by
  induction xs generalizing piece with
  | nil =>
    cases List.mem_singleton.1 hpiece
    cases h
  | cons y ys ih =>
    rw [splitAtP] at hpiece
    split at hpiece
    · obtain rfl | hpiece := List.mem_cons.1 hpiece
      · cases h
      · exact List.mem_cons_of_mem _ (ih hpiece h)
    · split at hpiece
      · cases List.mem_singleton.1 hpiece
        exact List.mem_cons.2 (.inl (List.mem_singleton.1 h))
      · next first pieces hsplit =>
        obtain rfl | hpiece := List.mem_cons.1 hpiece
        · obtain rfl | h := List.mem_cons.1 h
          · exact List.mem_cons_self
          · exact List.mem_cons_of_mem _ (ih (hsplit ▸ List.mem_cons_self) h)
        · exact List.mem_cons_of_mem _ (ih (hsplit ▸ List.mem_cons_of_mem _ hpiece) h)

/-- What is joined has its pieces and what stands between them. -/
theorem mem_intercalate {α : Type} {sep : List α} {pieces : List (List α)} {x : α}
    (h : x ∈ sep.intercalate pieces) : x ∈ sep ∨ ∃ piece ∈ pieces, x ∈ piece := by
  induction pieces with
  | nil => cases h
  | cons piece rest ih =>
    cases rest with
    | nil =>
      rw [show sep.intercalate [piece] = piece ++ [] from rfl, List.append_nil] at h
      exact .inr ⟨piece, List.mem_cons_self, h⟩
    | cons next rest =>
      have hcons : sep.intercalate (piece :: next :: rest)
          = piece ++ (sep ++ sep.intercalate (next :: rest)) := rfl
      rw [hcons, List.mem_append, List.mem_append] at h
      obtain h | h | h := h
      · exact .inr ⟨piece, List.mem_cons_self, h⟩
      · exact .inl h
      · exact (ih h).imp_right fun ⟨found, hfound, hx⟩ =>
          ⟨found, List.mem_cons_of_mem _ hfound, hx⟩

/-- The words of a text are made of its characters. -/
theorem mem_wordsOf {cs word : List Char} {c : Char} (hword : word ∈ wordsOf cs) (h : c ∈ word) :
    c ∈ cs := by
  cases hfirst : firstWord? cs with
  | none =>
    rw [wordsOf_of_blank hfirst] at hword
    cases hword
  | some found =>
    obtain ⟨w, rest⟩ := found
    rw [wordsOf_of_firstWord? hfirst] at hword
    have hlength := length_lt_of_firstWord? hfirst
    unfold firstWord? at hfirst
    split at hfirst
    · cases hfirst
    · next d tail hdrop =>
      cases hfirst
      have hsuffix : d :: tail <:+ cs := hdrop ▸ List.dropWhile_suffix _
      refine hsuffix.subset ?_
      obtain rfl | hword := List.mem_cons.1 hword
      · exact List.cons_subset_cons d (List.takeWhile_subset _) h
      · refine List.mem_cons_of_mem _ ?_
        exact ((List.dropWhile_suffix _).trans (List.dropWhile_suffix _)).subset
          (mem_wordsOf hword h)
termination_by cs.length

/-- Words are cut out and no character is changed. -/
theorem mem_words {s word : String} {c : Char} (hword : word ∈ words s) (h : c ∈ word.toList) :
    c ∈ s.toList := by
  obtain ⟨cs, hcs, rfl⟩ := List.mem_map.1 hword
  rw [String.toList_ofList] at h
  exact mem_wordsOf hcs h

/-! ## Paths -/

/-- The directory of a path is its beginning. -/
theorem mem_directoryOf {path : String} {c : Char} (h : c ∈ (directoryOf path).toList) :
    c ∈ path.toList := by
  have hhead : ∀ {d}, d ∈ (path.toList.reverse.dropWhile (· != '/')).reverse → d ∈ path.toList :=
    fun hd => List.mem_reverse.1 ((List.dropWhile_suffix _).subset (List.mem_reverse.1 hd))
  unfold directoryOf at h
  dsimp only at h
  split at h
  · rw [String.toList_ofList] at h
    exact hhead h
  · rw [String.toList_ofList, List.mem_reverse] at h
    exact hhead (List.mem_reverse.1 ((List.dropWhile_suffix _).subset h))

/-- The steps that are left of a path are some of its steps. -/
theorem resolveSteps_subset (absolute : Bool) (steps : List (List Char)) :
    resolveSteps absolute steps ⊆ steps := by
  have hfold {f : List (List Char) → List Char → List (List Char)}
      (hf : ∀ done step, f done step ⊆ step :: done) : ∀ (steps done : List (List Char))
      {all : List (List Char)}, steps ⊆ all → done ⊆ all → steps.foldl f done ⊆ all := by
    intro steps
    induction steps with
    | nil => exact fun done all _ hdone => hdone
    | cons step steps ih =>
      intro done all hsteps hdone
      obtain ⟨hstep, hsteps⟩ := List.cons_subset.1 hsteps
      exact ih _ hsteps (List.Subset.trans (hf done step) (List.cons_subset.2 ⟨hstep, hdone⟩))
  intro step hstep
  refine hfold (fun done step => ?_) steps [] (fun _ h => h) (List.nil_subset _)
    (List.mem_reverse.1 hstep)
  cases done with
  | nil => grind
  | cons last rest => grind

/-- A normalised path has the parts of the path, or a dot where nothing is left. -/
theorem mem_normalizePath {path : String} {c : Char} (h : c ∈ (normalizePath path).toList) :
    c = '/' ∨ c = '.' ∨ c ∈ path.toList := by
  have hjoined : ∀ {start : List Char} {steps : List (List Char)}, (∀ d ∈ start, d = '/') →
      steps ⊆ splitAtP (· == '/') path.toList →
      c ∈ (if (start ++ ['/'].intercalate steps).isEmpty then "."
        else String.ofList (start ++ ['/'].intercalate steps)).toList →
      c = '/' ∨ c = '.' ∨ c ∈ path.toList := by
    intro start steps hstart hsteps hc
    split at hc
    · exact .inr (.inl (List.mem_singleton.1 hc))
    · rw [String.toList_ofList, List.mem_append] at hc
      obtain hc | hc := hc
      · exact .inl (hstart c hc)
      · obtain hc | ⟨step, hstep, hc⟩ := mem_intercalate hc
        · exact .inl (List.mem_singleton.1 hc)
        · exact .inr (.inr (mem_splitAtP (hsteps hstep) hc))
  refine hjoined ?_ (resolveSteps_subset _ _) h
  split <;> simp

/-- A relative path is joined to a directory with a slash. -/
theorem mem_absolutePath {directory path : String} {c : Char}
    (h : c ∈ (absolutePath directory path).toList) :
    c = '/' ∨ c = '.' ∨ c ∈ directory.toList ∨ c ∈ path.toList := by
  have hslash : "/".toList = ['/'] := rfl
  unfold absolutePath at h
  split at h
  · exact (mem_normalizePath h).imp_right (Or.imp_right .inr)
  · obtain h | h | h := mem_normalizePath h
    · exact .inl h
    · exact .inr (.inl h)
    · rw [String.toList_append, hslash, List.mem_append, List.mem_singleton] at h
      exact h.elim (.inr ∘ .inr ∘ .inl) .inl
  · obtain h | h | h := mem_normalizePath h
    · exact .inl h
    · exact .inr (.inl h)
    · rw [String.toList_append, String.toList_append, hslash, List.mem_append, List.mem_append,
        List.mem_singleton] at h
      obtain (h | h) | h := h
      · exact .inr (.inr (.inl h))
      · exact .inl h
      · exact .inr (.inr (.inr h))

end XmlMacros.Text

namespace XmlMacros

/-- Where relative names start is the directory of a path, normalised. -/
theorem IncludePath.mem_base {path : String} {c : Char} (h : c ∈ (base path).toList) :
    c = '/' ∨ c = '.' ∨ c ∈ path.toList := by
  unfold base at h
  split at h
  · rw [show "./".toList = ['.', '/'] from rfl, List.mem_cons, List.mem_singleton] at h
    exact h.elim (.inr ∘ .inl) .inl
  · next steps _ =>
    rw [String.toList_ofList, List.mem_flatten] at h
    obtain ⟨piece, hpiece, hc⟩ := h
    obtain ⟨step, hstep, rfl⟩ := List.mem_map.1 hpiece
    obtain hc | hc := List.mem_append.1 hc
    · exact .inr (.inr (Text.mem_splitAtP (List.dropLast_subset _ hstep) hc))
    · exact .inl (List.mem_singleton.1 hc)

/-! ## Parameters -/

namespace Param

open XmlMacros.Text

/-- A default is scanned from the beginning of what is left, and quotes are part of it. -/
theorem eq_append_of_scanDefault? {inside : Bool} {cs d rest : List Char}
    (h : scanDefault? inside cs = some (d, rest)) : cs = d ++ rest := by
  induction cs generalizing inside d rest with
  | nil =>
    cases inside with
    | true => cases h
    | false =>
      cases h
      rfl
  | cons c cs ih =>
    have hstep {inside' : Bool} (h : (scanDefault? inside' cs).map
        (fun p => (c :: p.1, p.2)) = some (d, rest)) : c :: cs = d ++ rest := by
      obtain ⟨⟨d', rest'⟩, hd, heq⟩ := Option.map_eq_some_iff.1 h
      cases heq
      rw [ih hd]
      rfl
    cases inside with
    | true => exact hstep h
    | false =>
      rw [scanDefault?] at h
      split at h
      · cases h
        rfl
      · split at h
        · cases h
        · exact hstep h

theorem scanForward_suffix (cs : List Char) : (scanForward cs).2 <:+ cs := by
  fun_cases scanForward cs with
  | case1 cs => exact List.suffix_append ['^', '|'] cs
  | case2 cs => exact List.suffix_append ['^'] cs
  | case3 => exact List.suffix_rfl

/-- Nothing but the sign and white space is passed over. -/
theorem suffix_of_scanAssign? {cs rest : List Char} (h : scanAssign? cs = some rest) :
    rest <:+ cs := by
  unfold scanAssign? at h
  split at h
  · cases h
    exact List.suffix_append [':', '='] _
  · cases h
    exact List.suffix_append ['='] _
  · cases h

/-- The default of a parameter, if it has one. -/
def Spec.default? (spec : Spec) : Option (List Char) :=
  spec.source.bind Prod.snd

/-- The default that is read and what is left of the list are parts of it. -/
theorem Spec.subset_of_read? {cs : List Char} {spec : Spec} (h : Spec.read? cs = some spec) :
    (∀ d ∈ spec.default?, d ⊆ cs) ∧ spec.rest ⊆ cs := by
  unfold Spec.read? at h
  split at h
  · next hread =>
    cases h
    unfold Spec.readAssigned? at hread
    dsimp only at hread
    split at hread
    · cases hread
    · obtain ⟨afterSign, hsign, hread⟩ := Option.bind_eq_some_iff.1 hread
      obtain ⟨⟨fallback, left⟩, hdefault, hread⟩ := Option.bind_eq_some_iff.1 hread
      cases hread
      have hsubset : fallback ++ left ⊆ cs := by
        rw [← eq_append_of_scanDefault? hdefault]
        exact ((scanForward_suffix afterSign).trans ((suffix_of_scanAssign? hsign).trans
          ((List.dropWhile_suffix _).trans (List.dropWhile_suffix _)))).subset
      obtain ⟨hfallback, hleft⟩ := List.append_subset.1 hsubset
      refine ⟨fun d hd => ?_, List.Subset.trans (List.dropWhile_suffix _).subset hleft⟩
      simp only [Spec.default?, Option.bind_some, Option.mem_def] at hd
      split at hd
      · cases hd
      · cases hd
        exact hfallback
  · obtain ⟨⟨word, rest⟩, hword, heq⟩ := Option.map_eq_some_iff.1 h
    cases heq
    refine ⟨nofun, ?_⟩
    unfold firstWord? at hword
    split at hword
    · cases hword
    · next c tail hdrop =>
      cases hword
      have hsuffix : c :: tail <:+ cs := hdrop ▸ List.dropWhile_suffix _
      have htail : tail ⊆ cs := List.subset_of_cons_subset hsuffix.subset
      exact List.Subset.trans
        ((List.dropWhile_suffix _).trans (List.dropWhile_suffix _)).subset htail

/-- A default is made of characters of the text that parameters are written in. -/
theorem default?_subset_of_mem_specs {cs : List Char} {spec : Spec} (h : spec ∈ specs cs) :
    ∀ d ∈ spec.default?, d ⊆ cs := by
  rw [specs] at h
  split at h
  · cases h
  · next first hread =>
    have hlength := Spec.length_rest_lt hread
    obtain ⟨hfirst, hrest⟩ := Spec.subset_of_read? hread
    obtain rfl | h := List.mem_cons.1 h
    · exact hfirst
    · exact fun d hd => List.Subset.trans (default?_subset_of_mem_specs h d hd) hrest
termination_by cs.length

/-- A default without its quotes has no other characters. -/
theorem unquote_subset (cs : List Char) : unquote cs ⊆ cs := by
  unfold unquote
  split
  · exact ((List.dropLast_sublist _).trans (List.tail_sublist _)).subset
  · exact List.Subset.refl _

/-- The default of a parameter is made of characters of the text that declares it. -/
theorem mem_of_mem_fallback {cs : List Char} {spec : Spec} (h : spec ∈ specs cs) {fallback : String}
    (hfallback : (ofSpec spec).2.fallback = some fallback) {c : Char} (hc : c ∈ fallback.toList) :
    c ∈ cs := by
  have hdefault : (ofSpec spec).2.fallback
      = spec.default?.map fun d => String.ofList (unquote d) := by
    unfold ofSpec Spec.default?
    cases spec.source <;> rfl
  obtain ⟨d, hd, rfl⟩ := Option.map_eq_some_iff.1 (hdefault.symm.trans hfallback)
  rw [String.toList_ofList] at hc
  exact default?_subset_of_mem_specs h d hd (unquote_subset d hc)

end Param

end XmlMacros
