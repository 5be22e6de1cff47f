import XmlMacros.Proofs.Expr.Replacement

/-!
# Names that expressions can refer to

An expression refers to a name where one of its lexemes is that name. The names that this can happen
to are those that are read, standing alone, as one name with nothing left over
(`lexemes_eq_name_iff`, `mentioned_iff`).

`isReferable`, which the names of properties are checked with, lets all of these pass and one more
for each: the name with a line feed behind it (`isReferable_iff`). No expression refers to that one,
as the line feed ends the name and is white space (`not_isReferable_iff`).
-/

namespace XmlMacros.Expr

variable {cs : List Char}

/-! ## Reading a name -/

/-- A name is all that is read from it. -/
theorem lexemes_name (h : Referable cs) : lexemes cs = ([.name cs], []) := by
  have hscan : Lexeme.scan? (cs ++ []) = some (.name cs, []) :=
    Lexeme.scan?_name h (by rintro _ ⟨⟩)
  rw [List.append_nil] at hscan
  rw [lexemes_of_scan?_eq_some hscan, lexemes_of_scan?_eq_none rfl]

/-- Only names are found among the lexemes of an expression. -/
theorem referable_of_mem_lexemes {text : List Char} (h : .name cs ∈ (lexemes text).1) :
    Referable cs := by
  obtain ⟨cs', rest, hscan⟩ := exists_scan?_of_mem h
  exact referable_of_scan? hscan

theorem lexemes_eq_name_iff : lexemes cs = ([.name cs], []) ↔ Referable cs := by
  refine ⟨fun h => ?_, lexemes_name⟩
  have hmem : .name cs ∈ (lexemes cs).1 := by
    rw [h]
    exact List.mem_singleton_self _
  exact referable_of_mem_lexemes hmem

/-- An expression that refers to a name is that name alone. -/
theorem mentioned_iff : (∃ text, .name cs ∈ (lexemes text).1) ↔ Referable cs := by
  constructor
  · rintro ⟨_, h⟩
    exact referable_of_mem_lexemes h
  · intro h
    refine ⟨cs, ?_⟩
    rw [lexemes_name h]
    exact List.mem_singleton_self _

/-! ## Checking a name -/

theorem isNameRest_lineFeed : isNameRest '\n' = false := by
  decide +kernel

/-- What goes on as a name up to a line feed at its end. -/
theorem dropWhile_eq_lineFeed_iff :
    cs.dropWhile isNameRest = ['\n'] ↔
      ∃ run, (∀ c ∈ run, isNameRest c = true) ∧ cs = run ++ ['\n'] := by
  constructor
  · intro h
    refine ⟨cs.takeWhile isNameRest, fun c hc => List.mem_takeWhile_imp hc, ?_⟩
    rw [← h, List.takeWhile_append_dropWhile]
  · rintro ⟨run, hrun, rfl⟩
    refine Text.dropWhile_append_of_boundary hrun ?_
    rintro _ ⟨⟩
    exact isNameRest_lineFeed

/-- The check lets a name pass, and a name with a line feed behind it. -/
theorem isReferable_eq_true_iff {name : String} :
    isReferable name = true ↔
      ∃ cs, Referable cs ∧ (name.toList = cs ∨ name.toList = cs ++ ['\n']) := by
  unfold isReferable
  constructor
  · split
    · intro h
      cases h
    · rename_i c cs hname
      intro h
      rw [Bool.and_eq_true, Bool.or_eq_true, beq_iff_eq, beq_iff_eq, dropWhile_eq_lineFeed_iff] at h
      obtain ⟨hstart, hall | ⟨run, hrun, rfl⟩⟩ := h
      · exact ⟨c :: cs, ⟨c, cs, rfl, hstart, List.dropWhile_eq_nil_iff.1 hall⟩, .inl hname⟩
      · exact ⟨c :: run, ⟨c, run, rfl, hstart, hrun⟩, .inr hname⟩
  · rintro ⟨_, ⟨c, cs, rfl, hstart, hrest⟩, hname | hname⟩
    · rw [hname]
      simp [hstart, List.dropWhile_eq_nil_iff.2 hrest]
    · rw [hname]
      simp [hstart, dropWhile_eq_lineFeed_iff.2 ⟨cs, hrest, rfl⟩]

/-- The names that pass the check are those that the lexer reads as one name with nothing left over,
and these with a line feed behind them. The first are the names that expressions can refer to. -/
theorem isReferable_iff (name : String) :
    (isReferable name = true ↔
      ∃ cs, lexemes cs = ([.name cs], []) ∧ (name.toList = cs ∨ name.toList = cs ++ ['\n'])) ∧
    (lexemes name.toList = ([.name name.toList], []) ↔
      ∃ text, .name name.toList ∈ (lexemes text).1) := by
  refine ⟨?_, lexemes_eq_name_iff.trans mentioned_iff.symm⟩
  simp only [isReferable_eq_true_iff, lexemes_eq_name_iff]

/-- A name with a line feed behind it passes the check, and it is not read as one name. -/
theorem not_isReferable_iff :
    ¬ ∀ name : String, isReferable name = true ↔
      lexemes name.toList = ([.name name.toList], []) := by
  intro h
  have hpasses : isReferable "a\n" = true := by decide +kernel
  obtain ⟨c, cs, hname, -, hrest⟩ := lexemes_eq_name_iff.1 ((h "a\n").1 hpasses)
  obtain ⟨rfl, rfl⟩ : 'a' = c ∧ ['\n'] = cs := List.cons.inj hname
  have hfeed := hrest '\n' (List.mem_singleton_self _)
  rw [isNameRest_lineFeed] at hfeed
  cases hfeed

end XmlMacros.Expr
