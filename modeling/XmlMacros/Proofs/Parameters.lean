import XmlMacros.Param
import XmlMacros.Proofs.Decimal.Numeral
import Mathlib.Data.List.DropRight

/-!
# Reading parameter lists back

A list of parameters can be written down in many ways: a default in quotes or bare, two signs of an
assignment, two marks for forwarding, and any white space between. `WrittenParams` says which texts
these are, and whichever of them is read gives the parameters that were written
(`readParams_written`). No way is missing: the parameters of every list whose names can be told from
what stands around them, and whose defaults have no single quote, can be written
(`exists_writtenParams`).

The reader takes one parameter after the other off a text. What it needs of the rest is that it is
empty or starts with white space; the default ends there, and a parameter without an assignment
does.
-/

namespace XmlMacros

open Text

/-! ## How parameters are written -/

/-- The stars in front of a name. -/
def ParamKind.stars : ParamKind → List Char
  | .scalar => []
  | .block => ['*']
  | .multiBlock => ['*', '*']

/-- Whether a name can be told from what stands around it. -/
structure IsParamName (name : String) : Prop where
  ne_empty : name ≠ ""
  isSpecName : ∀ c ∈ name.toList, Param.isSpecName c
  head_ne : name.toList.head? ≠ some '*'

/-- The sign of an assignment. -/
inductive WrittenSign : List Char → Prop
  | colon : WrittenSign [':', '=']
  | short : WrittenSign ['=']

/-- The mark of a parameter that forwards. -/
inductive WrittenMark : Bool → List Char → Prop
  | none : WrittenMark false []
  | caret : WrittenMark true ['^']
  | bar : WrittenMark true ['^', '|']

/-- A default stands in single quotes, or bare if it cannot be mistaken then. -/
inductive WrittenDefault : Option String → List Char → Prop
  | none : WrittenDefault none []
  | quoted {d : String} (h : '\'' ∉ d.toList) : WrittenDefault (some d)
    ('\'' :: (d.toList ++ ['\'']))
  | bare {d : String} (hne : d ≠ "")
    (hchars : ∀ c ∈ d.toList, isBlank c = false ∧ c ≠ '\'' ∧ c ≠ '"')
    (hhead : ∀ c ∈ d.toList.head?, c ≠ '^' ∧ c ≠ '|') : WrittenDefault (some d) d.toList

/-- The assignment may be left out where there is nothing to assign. -/
inductive WrittenParam : String × Param → List Char → Prop
  | plain (kind : ParamKind) {name : String} (hname : IsParamName name) :
    WrittenParam (name, ⟨kind, none, false⟩) (kind.stars ++ name.toList)
  | assigned (kind : ParamKind) {name : String} {fallback : Option String} {forward : Bool}
    {sign mark cs : List Char} (hname : IsParamName name) (hsign : WrittenSign sign)
    (hmark : WrittenMark forward mark) (hdefault : WrittenDefault fallback cs) :
    WrittenParam (name, ⟨kind, fallback, forward⟩)
      (kind.stars ++ name.toList ++ (sign ++ (mark ++ cs)))

/-- White space stands between parameters, and may stand around them. -/
inductive WrittenParams : List (String × Param) → List Char → Prop
  | nil {blanks : List Char} (h : ∀ c ∈ blanks, isBlank c) : WrittenParams [] blanks
  | cons {p : String × Param} {ps : List (String × Param)} {blanks cs rest : List Char}
    (hblanks : ∀ c ∈ blanks, isBlank c) (hp : WrittenParam p cs)
    (hgap : ∀ c ∈ rest.head?, isBlank c) (hps : WrittenParams ps rest) :
    WrittenParams (p :: ps) (blanks ++ (cs ++ rest))

namespace Param

variable {rest : List Char}

/-! ## Reading one parameter -/

/-- Names of parameters have no white space in them. -/
theorem isBlank_eq_false_of_isSpecName {c : Char} (h : isSpecName c) : isBlank c = false := by
  simp only [isSpecName, Bool.not_eq_true', Bool.or_eq_false_iff] at h
  exact h.1.1

/-- So white space ends them. -/
theorem isSpecName_eq_false_of_isBlank {c : Char} (h : isBlank c) : isSpecName c = false := by
  simp [isSpecName, h]

/-- A sign that was written is scanned, with whatever stands behind it. -/
theorem scanAssign?_append {sign : List Char} (h : WrittenSign sign) (cs : List Char) :
    scanAssign? (sign ++ cs) = some cs := by
  cases h <;> rfl

/-- And so is the mark of a forwarded parameter. -/
theorem scanForward_append {forward : Bool} {mark : List Char} (h : WrittenMark forward mark)
    {cs : List Char} (hhead : ∀ c ∈ cs.head?, c ≠ '^' ∧ c ≠ '|') :
    scanForward (mark ++ cs) = (forward, cs) := by
  cases cs with
  | nil => cases h <;> rfl
  | cons c cs =>
    obtain ⟨hcaret, hbar⟩ := hhead c rfl
    cases h <;> simp [scanForward, hcaret, hbar]

/-- Between quotes a default goes on, up to the quote that ends them. -/
theorem scanDefault?_quoted {d : List Char} (h : '\'' ∉ d) (cs : List Char) :
    scanDefault? true (d ++ '\'' :: cs) =
      (scanDefault? false cs).map fun (d', rest) => (d ++ '\'' :: d', rest) := by
  induction d with
  | nil => rfl
  | cons c d ih =>
    obtain ⟨hc, hd⟩ := not_or.1 (mt List.mem_cons.2 h)
    have hc : (c != '\'') = true := by simpa using Ne.symm hc
    rw [List.cons_append, scanDefault?, hc, ih hd, Option.map_map]
    rfl

/-- Outside of quotes it ends at white space. -/
theorem scanDefault?_of_gap (hgap : ∀ c ∈ rest.head?, isBlank c) :
    scanDefault? false rest = some ([], rest) := by
  cases rest with
  | nil => rfl
  | cons c rest => rw [scanDefault?, if_pos (hgap c rfl)]

/-- A default without quotes goes on to the next white space. -/
theorem scanDefault?_bare {d : List Char}
    (h : ∀ c ∈ d, isBlank c = false ∧ c ≠ '\'' ∧ c ≠ '"') (hgap : ∀ c ∈ rest.head?, isBlank c) :
    scanDefault? false (d ++ rest) = some (d, rest) := by
  induction d with
  | nil => exact scanDefault?_of_gap hgap
  | cons c d ih =>
    obtain ⟨⟨hblank, hquote, hdouble⟩, hd⟩ := List.forall_mem_cons.1 h
    rw [List.cons_append, scanDefault?, if_neg (by simp [hblank]), if_neg (by simpa using hdouble),
      beq_eq_false_iff_ne.2 hquote, ih hd]
    rfl

/-- A default is read up to the white space behind it. -/
theorem scanDefault?_append {fallback : Option String} {cs : List Char}
    (h : WrittenDefault fallback cs) (hgap : ∀ c ∈ rest.head?, isBlank c) :
    scanDefault? false (cs ++ rest) = some (cs, rest) := by
  cases h with
  | none => exact scanDefault?_of_gap hgap
  | quoted h =>
    have hopen (cs : List Char) : scanDefault? false ('\'' :: cs) =
        (scanDefault? true cs).map fun (d, rest) => ('\'' :: d, rest) := rfl
    rw [List.cons_append, List.append_assoc, List.singleton_append, hopen, scanDefault?_quoted h,
      scanDefault?_of_gap hgap]
    rfl
  | bare _ hchars => exact scanDefault?_bare hchars hgap

/-- No default starts with a mark for forwarding, and white space does not. -/
theorem head_ne_mark {fallback : Option String} {cs : List Char} (h : WrittenDefault fallback cs)
    (hgap : ∀ c ∈ rest.head?, isBlank c) : ∀ c ∈ (cs ++ rest).head?, c ≠ '^' ∧ c ≠ '|' := by
  have hmarks : isBlank '^' = false ∧ isBlank '|' = false := by decide
  cases h with
  | none =>
    intro c hc
    have hblank := hgap c hc
    constructor <;> rintro rfl <;> simp_all
  | quoted h =>
    rintro _ ⟨⟩
    decide
  | @bare d hne _ hhead =>
    obtain ⟨c, cs, hcs⟩ := List.exists_cons_of_ne_nil (mt String.toList_eq_nil_iff.1 hne)
    rw [hcs] at hhead ⊢
    exact hhead

/-- What a default stands for is read off it. -/
theorem unquote_of_written {fallback : Option String} {cs : List Char}
    (h : WrittenDefault fallback cs) :
    (if cs.isEmpty then none else some cs).map (fun d => String.ofList (unquote d)) = fallback := by
  cases h with
  | none => rfl
  | @quoted d h => simp [unquote, List.getLast?_cons]
  | @bare d hne hchars =>
    have hnil := mt String.toList_eq_nil_iff.1 hne
    have hhead : d.toList.head? ≠ some '\'' := fun h =>
      (hchars '\'' (List.mem_of_mem_head? h)).2.1 rfl
    simp [unquote, hnil, hhead]

/-! ## Names with stars -/

/-- A name has at least one character. -/
theorem ne_nil_of_isParamName {name : String} (h : IsParamName name) : name.toList ≠ [] :=
  mt String.toList_eq_nil_iff.1 h.ne_empty

/-- Stars before a name are scanned with it. -/
theorem isSpecName_of_starred (kind : ParamKind) {name : String} (h : IsParamName name) :
    ∀ c ∈ kind.stars ++ name.toList, isSpecName c := by
  have hstar : isSpecName '*' = true := by decide
  have hstars : ∀ c ∈ kind.stars, isSpecName c := by
    cases kind <;> simp [ParamKind.stars, hstar]
  exact List.forall_mem_append.2 ⟨hstars, h.isSpecName⟩

/-- The stars in front of a name are told from it. -/
theorem ofSpec_starred (kind : ParamKind) {name : String} (h : IsParamName name)
    (source : Option (Bool × Option (List Char))) :
    ofSpec ⟨kind.stars ++ name.toList, source, rest⟩ =
      (name, ⟨kind, (source.getD (false, none)).2.map fun d => String.ofList (unquote d),
        (source.getD (false, none)).1⟩) := by
  obtain ⟨c, cs, hcs⟩ := List.exists_cons_of_ne_nil (ne_nil_of_isParamName h)
  have hc : c ≠ '*' := by
    rintro rfl
    exact h.head_ne (by rw [hcs]; rfl)
  have hname : String.ofList (c :: cs) = name := by rw [← hcs, String.ofList_toList]
  cases kind <;> simp [ofSpec, ParamKind.stars, hcs, hc, hname]

/-! ## Reading a list -/

/-- White space in front of a word is dropped. -/
theorem dropBlanks_append {blanks word : List Char} (hblanks : ∀ c ∈ blanks, isBlank c)
    (hne : word ≠ []) (hword : ∀ c ∈ word, isSpecName c) :
    dropBlanks (blanks ++ (word ++ rest)) = word ++ rest := by
  obtain ⟨c, word, rfl⟩ := List.exists_cons_of_ne_nil hne
  refine dropWhile_append_of_boundary hblanks ?_
  rintro _ ⟨⟩
  exact isBlank_eq_false_of_isSpecName (hword c List.mem_cons_self)

/-- A word with white space behind it is a parameter without default. -/
theorem read?_plain {blanks word : List Char} (hblanks : ∀ c ∈ blanks, isBlank c)
    (hne : word ≠ []) (hword : ∀ c ∈ word, isSpecName c) (hgap : ∀ c ∈ rest.head?, isBlank c) :
    Spec.read? (blanks ++ (word ++ rest)) = some ⟨word, none, dropBlanks rest⟩ := by
  have hend : ∀ c ∈ rest.head?, isSpecName c = false :=
    fun c hc => isSpecName_eq_false_of_isBlank (hgap c hc)
  have hassign : scanAssign? rest = none := by
    cases rest with
    | nil => rfl
    | cons c rest =>
      have hc := hgap c rfl
      have hsigns : isBlank ':' = false ∧ isBlank '=' = false := by decide
      unfold scanAssign?
      split <;> simp_all
  have hassigned : Spec.readAssigned? (blanks ++ (word ++ rest)) = none := by
    simp [Spec.readAssigned?, dropBlanks_append hblanks hne hword,
      takeWhile_append_of_boundary hword hend, dropWhile_append_of_boundary hword hend, hassign]
  rw [Spec.read?, hassigned]
  simp only [firstWord?, dropBlanks_append hblanks hne hword]
  obtain ⟨c, word, rfl⟩ := List.exists_cons_of_ne_nil hne
  have hrun : ∀ c ∈ word, (!isBlank c) = true := by
    intro c hc
    rw [isBlank_eq_false_of_isSpecName (hword c (List.mem_cons_of_mem _ hc))]
    rfl
  have hrunEnd : ∀ c ∈ rest.head?, (!isBlank c) = false := by
    intro c hc
    rw [hgap c hc]
    rfl
  rw [List.cons_append]
  simp only [takeWhile_append_of_boundary hrun hrunEnd, dropWhile_append_of_boundary hrun hrunEnd,
    Option.map_some]

/-- A word with a sign, a mark and a default is a parameter with all of these. -/
theorem read?_assigned {blanks word sign mark cs : List Char} {forward : Bool}
    {fallback : Option String} (hblanks : ∀ c ∈ blanks, isBlank c) (hne : word ≠ [])
    (hword : ∀ c ∈ word, isSpecName c) (hsign : WrittenSign sign) (hmark : WrittenMark forward mark)
    (hdefault : WrittenDefault fallback cs) (hgap : ∀ c ∈ rest.head?, isBlank c) :
    Spec.read? (blanks ++ (word ++ (sign ++ (mark ++ (cs ++ rest))))) =
      some ⟨word, some (forward, if cs.isEmpty then none else some cs), dropBlanks rest⟩ := by
  have hend : ∀ c ∈ (sign ++ (mark ++ (cs ++ rest))).head?, isSpecName c = false := by
    cases hsign <;> rintro _ ⟨⟩ <;> decide
  simp [Spec.read?, Spec.readAssigned?, dropBlanks_append hblanks hne hword,
    takeWhile_append_of_boundary hword hend, dropWhile_append_of_boundary hword hend, hne,
    scanAssign?_append hsign, scanForward_append hmark (head_ne_mark hdefault hgap),
    scanDefault?_append hdefault hgap]

/-- A parameter is read up to the white space behind it, whatever white space stands in front. -/
theorem read?_written {p : String × Param} {blanks cs : List Char}
    (hblanks : ∀ c ∈ blanks, isBlank c)
    (hp : WrittenParam p cs) (hgap : ∀ c ∈ rest.head?, isBlank c) :
    ∃ spec, Spec.read? (blanks ++ (cs ++ rest)) = some spec ∧ ofSpec spec = p ∧
      spec.rest = dropBlanks rest := by
  have hstarred {kind : ParamKind} {name : String} (h : IsParamName name) :
      kind.stars ++ name.toList ≠ [] :=
    List.append_ne_nil_of_right_ne_nil _ (ne_nil_of_isParamName h)
  cases hp with
  | plain kind hname =>
    exact ⟨_, read?_plain hblanks (hstarred hname) (isSpecName_of_starred kind hname) hgap,
      ofSpec_starred kind hname none, rfl⟩
  | assigned kind hname hsign hmark hdefault =>
    have hread := read?_assigned hblanks (hstarred hname) (isSpecName_of_starred kind hname)
      hsign hmark hdefault hgap
    refine ⟨_, by simpa only [List.append_assoc] using hread, ?_, rfl⟩
    rw [ofSpec_starred kind hname]
    simp only [Option.getD_some, unquote_of_written hdefault]

/-- White space before a parameter does not matter. -/
theorem read?_dropBlanks (cs : List Char) : Spec.read? (dropBlanks cs) = Spec.read? cs := by
  have h : dropBlanks (dropBlanks cs) = dropBlanks cs := List.dropWhile_idempotent isBlank cs
  simp only [Spec.read?, Spec.readAssigned?, firstWord?, h]

/-- Parameters are read one after the other, each from what the one before it left. -/
theorem specs_of_read? {cs : List Char} {spec : Spec} (h : Spec.read? cs = some spec) :
    specs cs = spec :: specs spec.rest := by
  rw [specs]
  split <;> simp_all

/-- Where none is read there are none. -/
theorem specs_of_none {cs : List Char} (h : Spec.read? cs = none) : specs cs = [] := by
  rw [specs]
  split <;> simp_all

/-- White space holds no parameters. -/
theorem specs_of_blank {cs : List Char} (h : ∀ c ∈ cs, isBlank c) : specs cs = [] := by
  have hdrop : dropBlanks cs = [] := List.dropWhile_eq_nil_iff.2 h
  have hread : Spec.read? cs = none := by
    rw [← read?_dropBlanks, hdrop]
    rfl
  exact specs_of_none hread

theorem specs_dropBlanks (cs : List Char) : specs (dropBlanks cs) = specs cs := by
  cases h : Spec.read? cs with
  | none => rw [specs_of_none h, specs_of_none (by rw [read?_dropBlanks, h])]
  | some spec => rw [specs_of_read? h, specs_of_read? (by rw [read?_dropBlanks, h])]

/-- Every way to write a list of parameters is read as that list. -/
theorem specs_written {ps : List (String × Param)} {cs : List Char} (h : WrittenParams ps cs) :
    (specs cs).map ofSpec = ps := by
  induction h with
  | nil h => rw [specs_of_blank h, List.map_nil]
  | cons hblanks hp hgap _ ih =>
    obtain ⟨spec, hread, hspec, hrest⟩ := read?_written hblanks hp hgap
    rw [specs_of_read? hread, List.map_cons, hspec, hrest, specs_dropBlanks, ih]

end Param

/-! ## Tables -/

/-- A new name is written behind all that are there. -/
theorem Dict.entries_insert_of_not_mem {α : Type} {d : Dict α} {key : String} (h : key ∉ d.keys)
    (value : α) : (d.insert key value).entries = d.entries ++ [(key, value)] := by
  rw [Dict.insert, dif_neg h]

/-- Entries whose names are new and distinct are put at the end of a table, in order. -/
theorem Dict.entries_foldl_insert {α : Type} {entries : List (String × α)} (d : Dict α)
    (h : (d.keys ++ entries.map Prod.fst).Nodup) :
    (entries.foldl (fun d entry => d.insert entry.1 entry.2) d).entries = d.entries ++ entries := by
  induction entries generalizing d with
  | nil => simp
  | cons entry entries ih =>
    rw [List.map_cons] at h
    have hkey : entry.1 ∉ d.keys := fun hmem =>
      (List.nodup_append.1 h).2.2 entry.1 hmem entry.1 List.mem_cons_self rfl
    have hentries := Dict.entries_insert_of_not_mem hkey entry.2
    have hkeys : (d.insert entry.1 entry.2).keys = d.keys ++ [entry.1] := by
      rw [Dict.keys, hentries, List.map_append]
      rfl
    rw [List.foldl_cons, ih _ (by rwa [hkeys, List.append_assoc]), hentries, List.append_assoc]
    rfl

/-- Entries with distinct names are the entries of their table. -/
theorem Dict.entries_ofList {α : Type} {entries : List (String × α)}
    (h : (entries.map Prod.fst).Nodup) : (Dict.ofList entries).entries = entries :=
  Dict.entries_foldl_insert Dict.empty h

/-- Parameter lists are read back. Whichever way a list of parameters with distinct names is
written, the names are read in order, each with its kind, its default and whether it forwards. -/
theorem readParams_written {ps : List (String × Param)} {text : String}
    (hnames : (ps.map Prod.fst).Nodup) (h : WrittenParams ps text.toList) :
    (readParams text).entries = ps := by
  rw [readParams, Param.specs_written h, Dict.entries_ofList hnames]

/-- Parameters of every kind, one with a default that looks like an assignment. -/
def mixedParams : List (String × Param) :=
  [("a", ⟨.block, none, false⟩), ("b", ⟨.scalar, some "x := \"y\"", false⟩),
    ("c", ⟨.scalar, some "d", true⟩), ("e", ⟨.multiBlock, none, true⟩)]

/-- One parameter of each sort, with different signs, quotes and white space. -/
theorem readParams_written_mixed :
    (mixedParams.map Prod.fst).Nodup ∧
      WrittenParams mixedParams "*a b:='x := \"y\"'\n c=^|d **e=^ ".toList ∧
      (readParams "*a b:='x := \"y\"'\n c=^|d **e=^ ").entries = mixedParams := by
  have hnames : (mixedParams.map Prod.fst).Nodup := by decide
  have hname (c : Char) (h : (c != '*' && Param.isSpecName c) = true) :
      IsParamName (String.ofList [c]) := by
    rw [Bool.and_eq_true] at h
    exact ⟨by simp, by simpa using h.2, by simpa using h.1⟩
  have hspace : ∀ c ∈ [' '], isBlank c := List.forall_mem_singleton.2 rfl
  have hlines : ∀ c ∈ ['\n', ' '], isBlank c :=
    List.forall_mem_cons.2 ⟨rfl, List.forall_mem_singleton.2 rfl⟩
  have hgap {c : Char} {cs : List Char} (h : isBlank c) : ∀ d ∈ (c :: cs).head?, isBlank d := by
    rintro _ ⟨⟩
    exact h
  have hbare : ∀ c ∈ "d".toList.head?, c ≠ '^' ∧ c ≠ '|' := by
    rintro _ ⟨⟩
    decide
  have hwritten : WrittenParams mixedParams "*a b:='x := \"y\"'\n c=^|d **e=^ ".toList :=
    .cons (List.forall_mem_nil _) (.plain .block (hname 'a' rfl)) (hgap rfl) <|
    .cons hspace (.assigned .scalar (hname 'b' rfl) .colon .none (.quoted (by decide)))
      (hgap rfl) <|
    .cons hlines (.assigned .scalar (hname 'c' rfl) .short .bar
      (.bare (by decide) (List.forall_mem_singleton.2 (by decide)) hbare)) (hgap rfl) <|
    .cons hspace (.assigned .multiBlock (hname 'e' rfl) .short .caret .none) (hgap rfl) <|
    .nil hspace
  exact ⟨hnames, hwritten, readParams_written hnames hwritten⟩

/-! ## What can be written -/

/-- A parameter can be written if its default has no quotes of the sort that are put around it. -/
theorem exists_writtenParam {p : String × Param} (hname : IsParamName p.1)
    (hquote : ∀ d, p.2.fallback = some d → '\'' ∉ d.toList) : ∃ cs, WrittenParam p cs := by
  obtain ⟨name, kind, fallback, forward⟩ := p
  obtain ⟨mark, hmark⟩ : ∃ mark, WrittenMark forward mark := by
    cases forward
    · exact ⟨_, .none⟩
    · exact ⟨_, .caret⟩
  obtain ⟨cs, hdefault⟩ : ∃ cs, WrittenDefault fallback cs := by
    cases fallback with
    | none => exact ⟨_, .none⟩
    | some d => exact ⟨_, .quoted (hquote d rfl)⟩
  exact ⟨_, .assigned kind hname .short hmark hdefault⟩

/-- White space may stand before parameters. -/
theorem WrittenParams.append_blanks {ps : List (String × Param)} {blanks cs : List Char}
    (hblanks : ∀ c ∈ blanks, isBlank c) (h : WrittenParams ps cs) :
    WrittenParams ps (blanks ++ cs) := by
  cases h with
  | nil h => exact .nil (List.forall_mem_append.2 ⟨hblanks, h⟩)
  | cons hblanks' hp hgap hps =>
    rw [← List.append_assoc]
    exact .cons (List.forall_mem_append.2 ⟨hblanks, hblanks'⟩) hp hgap hps

/-- Names that can be told and defaults without a single quote are all it takes to be written. -/
theorem exists_writtenParams {ps : List (String × Param)}
    (h : ∀ p ∈ ps, IsParamName p.1 ∧ ∀ d, p.2.fallback = some d → '\'' ∉ d.toList) :
    ∃ text : String, WrittenParams ps text.toList := by
  have hspace : ∀ c ∈ [' '], isBlank c := List.forall_mem_singleton.2 rfl
  induction ps with
  | nil => exact ⟨"", .nil (List.forall_mem_nil _)⟩
  | cons p ps ih =>
    obtain ⟨⟨hname, hquote⟩, hps⟩ := List.forall_mem_cons.1 h
    obtain ⟨cs, hp⟩ := exists_writtenParam hname hquote
    obtain ⟨rest, hrest⟩ := ih hps
    refine ⟨String.ofList ([] ++ (cs ++ ([' '] ++ rest.toList))), ?_⟩
    rw [String.toList_ofList]
    refine .cons (List.forall_mem_nil _) hp ?_ (hrest.append_blanks hspace)
    rintro _ ⟨⟩
    rfl

end XmlMacros
