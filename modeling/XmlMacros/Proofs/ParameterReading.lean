import XmlMacros.Proofs.Parameters
import XmlMacros.Proofs.Text.Characters

/-!
# Reading parameter lists to the end

Every text is a list of parameters to the reader, also one that nobody would write
(`readParams_total`): wherever something other than white space is left, a parameter is read, so
that reading ends with white space and never for want of a parameter. What is taken off the list at
once is the name, which is not empty and has no white space, and perhaps an assignment, in which
white space stands in single quotes only, with white space around it all (`Taken`). Quotes are
paired in the assignment; a quote in a name is a character like others.

The default is read with a quote open or not, and the two cases are proved together
(`blanksQuoted_of_scanDefault?`).
-/

namespace XmlMacros.Param

open Text

variable {cs rest : List Char}

/-! ## What is taken off a list -/

/-- White space stands only in single quotes, and every quote is closed. -/
inductive BlanksQuoted : List Char → Prop
  | nil : BlanksQuoted []
  | bare {c : Char} {cs : List Char} (hblank : isBlank c = false) (hquote : c ≠ '\'')
    (h : BlanksQuoted cs) : BlanksQuoted (c :: cs)
  | quoted {inside cs : List Char} (hinside : '\'' ∉ inside) (h : BlanksQuoted cs) :
    BlanksQuoted ('\'' :: (inside ++ '\'' :: cs))

/-- A name without white space and what is assigned to it, with white space around. -/
inductive Taken (name : List Char) : List Char → Prop
  | intro {front assignment back : List Char} (hfront : ∀ c ∈ front, isBlank c = true)
    (hname : ∀ c ∈ name, isBlank c = false) (hassignment : BlanksQuoted assignment)
    (hback : ∀ c ∈ back, isBlank c = true) :
    Taken name (front ++ (name ++ (assignment ++ back)))

/-- The reader takes one parameter after the other off a list for as long as there is something
other than white space. -/
inductive ReadsParams : List Char → List Spec → Prop
  | stop {cs : List Char} (h : ∀ c ∈ cs, isBlank c = true) : ReadsParams cs []
  | step {cs : List Char} {spec : Spec} {specs : List Spec} (hcs : ∃ c ∈ cs, isBlank c = false)
    (h : Spec.read? cs = some spec) (hrest : ReadsParams spec.rest specs) :
    ReadsParams cs (spec :: specs)

/-- Characters that are neither white space nor quotes may stand in front. -/
theorem BlanksQuoted.append {run : List Char} (hrun : ∀ c ∈ run, isBlank c = false ∧ c ≠ '\'')
    (h : BlanksQuoted cs) : BlanksQuoted (run ++ cs) := by
  induction run with
  | nil => exact h
  | cons c run ih =>
    obtain ⟨⟨hblank, hquote⟩, hrun⟩ := List.forall_mem_cons.1 hrun
    exact .bare hblank hquote (ih hrun)

/-- A sign has no white space in it and no quotes. -/
theorem bare_of_writtenSign {sign : List Char} (h : WrittenSign sign) :
    ∀ c ∈ sign, isBlank c = false ∧ c ≠ '\'' := by
  cases h <;> exact @of_decide_eq_true _ (List.decidableBAll _ _) rfl

/-- Nor has the mark of a forwarded parameter. -/
theorem bare_of_writtenMark {forward : Bool} {mark : List Char} (h : WrittenMark forward mark) :
    ∀ c ∈ mark, isBlank c = false ∧ c ≠ '\'' := by
  cases h <;> exact @of_decide_eq_true _ (List.decidableBAll _ _) rfl

/-! ## Reading an assignment -/

/-- What is scanned as a sign was written as one. -/
theorem exists_writtenSign (h : scanAssign? cs = some rest) :
    ∃ sign, WrittenSign sign ∧ cs = sign ++ rest := by
  unfold scanAssign? at h
  split at h
  · cases h
    exact ⟨_, .colon, rfl⟩
  · cases h
    exact ⟨_, .short, rfl⟩
  · cases h

/-- And what is scanned as a mark, be it that there is none. -/
theorem exists_writtenMark (cs : List Char) :
    ∃ mark, WrittenMark (scanForward cs).1 mark ∧ cs = mark ++ (scanForward cs).2 := by
  fun_cases scanForward cs with
  | case1 => exact ⟨_, .bar, rfl⟩
  | case2 => exact ⟨_, .caret, rfl⟩
  | case3 => exact ⟨_, .none, rfl⟩

/-- What is read as a default has white space in quotes only; with a quote open at its start, from
the quote on that closes it. -/
theorem blanksQuoted_of_scanDefault? {d : List Char} :
    (scanDefault? false cs = some (d, rest) → BlanksQuoted d) ∧
      (scanDefault? true cs = some (d, rest) →
        ∃ inside d', d = inside ++ '\'' :: d' ∧ '\'' ∉ inside ∧ BlanksQuoted d') := by
  induction cs generalizing d with
  | nil =>
    refine ⟨fun h => ?_, fun h => ?_⟩
    · cases h
      exact .nil
    · cases h
  | cons c cs ih =>
    constructor
    · intro h
      rw [scanDefault?] at h
      split at h
      · cases h
        exact .nil
      · rename_i hblank
        split at h
        · cases h
        · obtain ⟨⟨d, rest⟩, hd, heq⟩ := Option.map_eq_some_iff.1 h
          cases heq
          by_cases hc : c = '\''
          · subst hc
            obtain ⟨inside, d', rfl, hinside, hd'⟩ := ih.2 hd
            exact .quoted hinside hd'
          · rw [beq_eq_false_iff_ne.2 hc] at hd
            exact .bare (by simpa using hblank) hc (ih.1 hd)
    · intro h
      rw [scanDefault?] at h
      obtain ⟨⟨d, rest⟩, hd, heq⟩ := Option.map_eq_some_iff.1 h
      cases heq
      by_cases hc : c = '\''
      · subst hc
        exact ⟨[], d, rfl, List.not_mem_nil, ih.1 hd⟩
      · rw [bne_iff_ne.2 hc] at hd
        obtain ⟨inside, d', rfl, hinside, hd'⟩ := ih.2 hd
        exact ⟨c :: inside, d', rfl, by simp [Ne.symm hc, hinside], hd'⟩

/-! ## Reading a parameter -/

/-- The reader drops the white space in front of a name and behind what is assigned to it. -/
theorem exists_taken {name assignment left : List Char}
    (hcut : dropBlanks cs = name ++ (assignment ++ left)) (hname : ∀ c ∈ name, isBlank c = false)
    (hassignment : BlanksQuoted assignment) :
    ∃ taken, cs = taken ++ dropBlanks left ∧ Taken name taken := by
  refine ⟨cs.takeWhile isBlank ++ (name ++ (assignment ++ left.takeWhile isBlank)), ?_,
    .intro (fun c hc => List.mem_takeWhile_imp hc) hname hassignment
      (fun c hc => List.mem_takeWhile_imp hc)⟩
  calc cs
      = cs.takeWhile isBlank ++ dropBlanks cs := List.takeWhile_append_dropWhile.symm
    _ = cs.takeWhile isBlank ++ (name ++ (assignment ++ (left.takeWhile isBlank ++ dropBlanks left))) := by
        rw [hcut, dropBlanks, List.takeWhile_append_dropWhile]
    _ = _ := by simp only [List.append_assoc]

/-- A parameter with a default takes what its name, sign, mark and default are written with. -/
theorem Spec.taken_of_readAssigned? {spec : Spec} (h : Spec.readAssigned? cs = some spec) :
    spec.name ≠ [] ∧ ∃ taken, cs = taken ++ spec.rest ∧ Taken spec.name taken := by
  unfold Spec.readAssigned? at h
  dsimp only at h
  split at h
  · cases h
  rename_i hne
  obtain ⟨afterSign, hsign, h⟩ := Option.bind_eq_some_iff.1 h
  obtain ⟨⟨fallback, left⟩, hdefault, h⟩ := Option.bind_eq_some_iff.1 h
  cases h
  obtain ⟨sign, hwritten, hafter⟩ := exists_writtenSign hsign
  obtain ⟨mark, hmark, hmarked⟩ := exists_writtenMark afterSign
  have hleft := eq_append_of_scanDefault? hdefault
  have hquoted : BlanksQuoted (sign ++ (mark ++ fallback)) :=
    ((blanksQuoted_of_scanDefault?.1 hdefault).append (bare_of_writtenMark hmark)).append
      (bare_of_writtenSign hwritten)
  refine ⟨by simpa using hne, exists_taken ?_ ?_ hquoted⟩
  · calc dropBlanks cs
        = (dropBlanks cs).takeWhile isSpecName ++ (dropBlanks cs).dropWhile isSpecName :=
          List.takeWhile_append_dropWhile.symm
      _ = (dropBlanks cs).takeWhile isSpecName ++ (sign ++ (mark ++ (fallback ++ left))) := by
          rw [hafter, ← hleft, ← hmarked]
      _ = _ := by simp only [List.append_assoc]
  · exact fun c hc => isBlank_eq_false_of_isSpecName (List.mem_takeWhile_imp hc)

/-- Any other word is taken up to the next white space. -/
theorem taken_of_firstWord? {word : List Char} (h : firstWord? cs = some (word, rest)) :
    word ≠ [] ∧ ∃ taken, cs = taken ++ rest ∧ Taken word taken := by
  unfold firstWord? at h
  split at h
  · cases h
  rename_i c tail hdrop
  cases h
  have hc : isBlank c = false := by
    have hhead := head_dropWhile isBlank cs
    rw [← dropBlanks, hdrop] at hhead
    exact hhead c rfl
  refine ⟨List.cons_ne_nil _ _, exists_taken ?_ ?_ .nil⟩
  · rw [hdrop, List.nil_append, List.cons_append, List.takeWhile_append_dropWhile]
  · refine List.forall_mem_cons.2 ⟨hc, fun d hd => ?_⟩
    simpa using List.mem_takeWhile_imp hd

/-- What is taken off a list with a parameter. -/
theorem Spec.taken_of_read? {spec : Spec} (h : Spec.read? cs = some spec) :
    spec.name ≠ [] ∧ ∃ taken, cs = taken ++ spec.rest ∧ Taken spec.name taken := by
  unfold Spec.read? at h
  split at h
  · rename_i hread
    cases h
    exact Spec.taken_of_readAssigned? hread
  · obtain ⟨⟨word, rest⟩, hword, heq⟩ := Option.map_eq_some_iff.1 h
    cases heq
    exact taken_of_firstWord? hword

/-- There is a parameter to read wherever there is something other than white space. -/
theorem exists_read? (h : ∃ c ∈ cs, isBlank c = false) : ∃ spec, Spec.read? cs = some spec := by
  unfold Spec.read?
  split
  · exact ⟨_, rfl⟩
  · have hdrop : dropBlanks cs ≠ [] := by
      obtain ⟨c, hc, hblank⟩ := h
      intro hnil
      rw [List.dropWhile_eq_nil_iff.1 hnil c hc] at hblank
      cases hblank
    obtain ⟨c, tail, hcons⟩ := List.exists_cons_of_ne_nil hdrop
    rw [firstWord?, hcons]
    exact ⟨_, rfl⟩

/-! ## Reading a list -/

/-- By recursion on what is left, every text is read to its end. -/
theorem readsParams_specs (cs : List Char) : ReadsParams cs (specs cs) := by
  by_cases hblank : ∀ c ∈ cs, isBlank c = true
  · rw [specs_of_blank hblank]
    exact .stop hblank
  · have hcs : ∃ c ∈ cs, isBlank c = false := by simpa using hblank
    obtain ⟨spec, hread⟩ := exists_read? hcs
    have hshorter := Spec.length_rest_lt hread
    rw [specs_of_read? hread]
    exact .step hcs hread (readsParams_specs spec.rest)
termination_by cs.length

/-- Reading parameters does not fail, whatever the text is. It comes to an end where nothing but
white space is left. Until then a parameter is read, with a name that is not empty; what is left is
a proper end of the text, and what is taken off has white space at its ends and in single quotes
only. -/
theorem readParams_total :
    (∀ text : String, ∃ read, ReadsParams text.toList read ∧
      readParams text = Dict.ofList (read.map ofSpec)) ∧
    ∀ cs : List Char, (∃ c ∈ cs, isBlank c = false) →
      ∃ spec, Spec.read? cs = some spec ∧ spec.name ≠ [] ∧
        (spec.rest <:+ cs ∧ spec.rest ≠ cs) ∧
        ∃ taken, cs = taken ++ spec.rest ∧ Taken spec.name taken := by
  refine ⟨fun text => ⟨_, readsParams_specs _, rfl⟩, fun cs hcs => ?_⟩
  obtain ⟨spec, hread⟩ := exists_read? hcs
  obtain ⟨hname, taken, hcs, htaken⟩ := Spec.taken_of_read? hread
  have hshorter := Spec.length_rest_lt hread
  refine ⟨spec, hread, hname, ⟨⟨taken, hcs.symm⟩, ?_⟩, taken, hcs, htaken⟩
  intro heq
  rw [heq] at hshorter
  exact Nat.lt_irrefl _ hshorter

/-- A quote in a name, one that closes nothing, and white space that is not plain. -/
def strayQuotes : List Char :=
  "\n a'b:='x y' 'c\u00a0\" ".toList

/-- Quotes that are never closed are read as part of a word. -/
theorem readParams_total_strayQuotes :
    (∃ c ∈ strayQuotes, isBlank c = false) ∧
      ∃ spec, Spec.read? strayQuotes = some spec ∧ spec.name ≠ [] ∧
        (spec.rest <:+ strayQuotes ∧ spec.rest ≠ strayQuotes) ∧
        ∃ taken, strayQuotes = taken ++ spec.rest ∧ Taken spec.name taken := by
  have hsome : ∃ c ∈ strayQuotes, isBlank c = false := ⟨'a', by decide, by decide⟩
  exact ⟨hsome, readParams_total.2 strayQuotes hsome⟩

end XmlMacros.Param
