import Mathlib.Logic.Basic
import XmlMacros.Config

/-!
# How the loading of a configuration fails

A configuration that cannot be made of a loaded text is a fault, with words for whoever wrote the
text: where the text cannot be read, is no table, or has keys that are no options
(`Config.Reported`). Two things are not looked at. Keys are handed over as names, so one that is no
text ends the loading in another way, and so does `self`, which names the configuration itself; and
the value for substitution arguments is taken for a table whose parts can be written.
`Config.Spoiled` says when a text fails in such a way, and `Config.ofYaml_reported_iff` that there
is no other, however texts are loaded: all that is asked of a loader is that it refuses a text only
as malformed.
-/

namespace XmlMacros

open XmlMacros.Text

/-! ## Entries under texts -/

namespace Datum

/-- What has characters of small codes only and is the text of a value is the value. -/
theorem eq_text_of_text? {d : Datum} {name : String}
    (hname : ∀ c ∈ name.toList, 0 < c.toNat ∧ c.toNat < 0xFFFD) (h : d.text? = some name) :
    d = .text name := by
  cases d with
  | text s =>
    cases h
    rfl
  | halves t =>
    cases h
    obtain ⟨n, hn, hmem⟩ := Glyph.exists_mem_joined t.chars?_glyphs
    have hcode := hname (Char.ofNat n) (by rwa [String.toList_ofList])
    by_cases hvalid : n.isValidChar
    · rw [Char.ofNat, dif_pos hvalid] at hcode
      have : (Char.ofNatAux n hvalid).toNat = n := rfl
      omega
    · rw [Char.ofNat, dif_neg hvalid] at hcode
      exact absurd hcode.1 (by decide)
  | null | bool | int | float | bytes | moment | list | pair | set | table | cycle => cases h

/-- Only the text itself is the same key as a text. -/
theorem sameKey_text {k : Datum} {name : String} : k.sameKey (.text name) ↔ k = .text name := by
  cases k <;> simp [sameKey, keyNumber?]

/-- All keys of a table have a property after an entry is put in exactly if the key of the entry has
it and so have all others. -/
theorem forall_insertEntry {P : Datum → Prop} {name : String} {value : Datum}
    {entries : List (Datum × Datum)} :
    (∀ e ∈ insertEntry (.text name) value entries, P e.1) ↔
      P (.text name) ∧ ∀ e ∈ entries, P e.1 := by
  induction entries with
  | nil => simp [insertEntry]
  | cons e rest ih =>
    unfold insertEntry
    split
    · next h =>
      rw [sameKey_text] at h
      simp [h]
    · rw [List.forall_mem_cons, ih, List.forall_mem_cons, and_left_comm]

/-- The first entry is found if its key is the one that is looked for. -/
theorem lookupEntry?_cons (key : String) (e : Datum × Datum) (rest : List (Datum × Datum)) :
    lookupEntry? key (e :: rest) =
      if e.1.sameKey (.text key) then some e.2 else lookupEntry? key rest := by
  obtain ⟨k, v⟩ := e
  unfold lookupEntry?
  rw [List.find?_cons]
  dsimp only
  cases k.sameKey (.text key) <;> rfl

/-- An entry under another name does not change what is found. -/
theorem lookupEntry?_insertEntry {key name : String} (h : name ≠ key) (value : Datum)
    (entries : List (Datum × Datum)) :
    lookupEntry? key (insertEntry (.text name) value entries) = lookupEntry? key entries := by
  have hne : ¬ Datum.sameKey (.text name) (.text key) := by simpa [sameKey_text] using h
  induction entries with
  | nil => rw [insertEntry, lookupEntry?_cons, if_neg hne]
  | cons e rest ih =>
    unfold insertEntry
    split
    · next hsame =>
      rw [lookupEntry?_cons, lookupEntry?_cons, sameKey_text.1 hsame, if_neg hne, if_neg hne]
    · rw [lookupEntry?_cons, lookupEntry?_cons, ih]

end Datum

namespace Config

/-! ## What fails -/

/-- The loading ends with a configuration, or with a fault that is reported. -/
def Reported (x : Except ConfigError Config) : Prop :=
  (∃ c, x = .ok c) ∨ ∃ f, x = .error (.fault f)

/-- Whether a failure is a fault. -/
def isFault : ConfigError → Bool
  | .fault _ => true
  | _ => false

theorem reported_error_iff {e : ConfigError} : Reported (.error e) ↔ isFault e = true := by
  cases e <;> simp [Reported, isFault]

instance : DecidablePred Reported
  | .ok c => isTrue (.inl ⟨c, rfl⟩)
  | .error _ => decidable_of_iff _ reported_error_iff.symm

/-- What can be given besides a loaded text. -/
def givenNames : List String :=
  ["in_order", "local_properties", "require_prefix", "working_path", "verbosity"]

/-- A value can be handed over under the key: it is a text, and not the name of the configuration
itself. -/
def IsName (key : Datum) : Prop :=
  ∃ name, key.text? = some name ∧ name ≠ "self"

/-- The key is the name of an option. -/
def IsOption (key : Datum) : Prop :=
  ∃ name, key.text? = some name ∧ (defaults.lookup name).isSome

/-- No substitution arguments can be made of the value: it counts as true, and is no table or one
with an integer that is too long to be written. -/
def Unusable (value : Datum) : Prop :=
  value.isTruthy ∧
    ∀ entries, value = .table entries → ∃ e ∈ entries, ¬ (e.1.isShowable ∧ e.2.isShowable)

/-- The entries of a loaded table fail, and not with a fault: not all of their keys are names, or
all are options and no substitution arguments can be made of the value for them. -/
def Spoiled (entries : List (Datum × Datum)) : Prop :=
  (¬ ∀ e ∈ entries, IsName e.1) ∨
    (∀ e ∈ entries, IsOption e.1) ∧
      ∃ value, Datum.lookupEntry? "mappings" entries = some value ∧ Unusable value

/-! ## Substitution arguments -/

/-- Substitution arguments are made of every value that is usable. -/
theorem mappingsOf_of_not_unusable {value : Datum} (h : ¬ Unusable value) :
    ∃ mappings, mappingsOf value = .ok mappings := by
  unfold mappingsOf
  unfold Unusable at h
  cases htruthy : value.isTruthy with
  | false => exact ⟨_, rfl⟩
  | true =>
    simp only [htruthy, true_and, not_forall, not_exists, not_and, not_not, exists_prop] at h
    obtain ⟨entries, rfl, hall⟩ := h
    rw [if_neg (by decide)]
    dsimp only
    rw [if_pos (by simpa using hall)]
    exact ⟨_, rfl⟩

/-- Where no substitution arguments can be made of a value, this is no fault. -/
theorem mappingsOf_of_unusable {value : Datum} (h : Unusable value) :
    ∃ e, mappingsOf value = .error e ∧ ¬ isFault e := by
  obtain ⟨htruthy, hentries⟩ := h
  unfold mappingsOf
  rw [htruthy, if_neg (by decide)]
  cases value with
  | table entries =>
    obtain ⟨e, he, hlong⟩ := hentries entries rfl
    dsimp only
    rw [if_neg (by simpa using ⟨e.1, e.2, he, by simpa using hlong⟩)]
    exact ⟨_, rfl, nofun⟩
  | _ => exact ⟨_, rfl, nofun⟩

/-! ## Options -/

/-- Entries are handed over as options under the texts that their keys are. -/
def named (entries : List (Datum × Datum)) : List (String × Datum) :=
  entries.map fun e => (e.1.text?.getD "", e.2)

theorem named_cons (e : Datum × Datum) (rest : List (Datum × Datum)) :
    named (e :: rest) = (e.1.text?.getD "", e.2) :: named rest := rfl

/-- An entry whose key is a text is an option in front of the others. -/
theorem optionsOf_cons {k v : Datum} {name : String} (h : k.text? = some name)
    (rest : List (Datum × Datum)) :
    optionsOf ((k, v) :: rest) = (optionsOf rest).map ((name, v) :: ·) := by
  rw [optionsOf, List.mapM_cons, ← optionsOf]
  dsimp only
  rw [h]
  cases optionsOf rest <;> rfl

/-- Entries are handed over as options if their keys are texts. -/
theorem optionsOf_of_text {entries : List (Datum × Datum)}
    (h : ∀ e ∈ entries, ∃ name, e.1.text? = some name) :
    optionsOf entries = .ok (named entries) := by
  induction entries with
  | nil => rfl
  | cons e rest ih =>
    obtain ⟨⟨name, hname⟩, hrest⟩ := List.forall_mem_cons.1 h
    rw [optionsOf_cons hname, ih hrest, named_cons, hname]
    rfl

theorem optionsOf_of_not_text {entries : List (Datum × Datum)} {e : Datum × Datum}
    (he : e ∈ entries) (h : e.1.text? = none) : optionsOf entries = .error .wrongType := by
  induction entries with
  | nil => cases he
  | cons first rest ih =>
    cases hfirst : first.1.text? with
    | none =>
      unfold optionsOf
      rw [List.mapM_cons]
      dsimp only
      rw [hfirst]
      rfl
    | some name =>
      rw [optionsOf_cons hfirst]
      rcases List.mem_cons.1 he with rfl | he
      · cases h.symm.trans hfirst
      · rw [ih he]
        rfl

/-- The value of an option is that of the entry under its name. -/
theorem lookup_optionsOf {entries : List (Datum × Datum)} {name : String}
    (htexts : ∀ e ∈ entries, ∃ n, e.1.text? = some n)
    (hname : name.toList.all fun c => 0 < c.toNat && c.toNat < 0xFFFD) :
    (named entries).lookup name = Datum.lookupEntry? name entries := by
  have hplain : ∀ c ∈ name.toList, 0 < c.toNat ∧ c.toNat < 0xFFFD := by simpa using hname
  induction entries with
  | nil => rfl
  | cons e rest ih =>
    obtain ⟨⟨n, hn⟩, htexts⟩ := List.forall_mem_cons.1 htexts
    rw [named_cons, List.lookup_cons, hn, Option.getD_some, Datum.lookupEntry?_cons, ih htexts]
    by_cases hne : name = n
    · subst hne
      rw [Datum.eq_text_of_text? hplain hn, if_pos (Datum.sameKey_text.2 rfl)]
      simp
    · have hdiffers : ¬ e.1.sameKey (.text name) := by
        rw [Datum.sameKey_text]
        intro h
        rw [h] at hn
        exact hne (Option.some.inj hn)
      rw [if_neg hdiffers, beq_false_of_ne hne]

/-! ## The configuration with some options given -/

/-- No name is refused if no option has one that is taken. -/
theorem refuseNames_eq_ok {taken : List String} {options : List (String × Datum)}
    (h : ∀ o ∈ options, o.1 ∉ taken) : refuseNames taken options = .ok () := by
  unfold refuseNames
  rw [if_neg]
  rw [List.any_eq_true]
  rintro ⟨o, ho, hcontains⟩
  exact h o ho (List.contains_iff_mem.1 hcontains)

/-- A name that is taken is refused, and not with a fault. -/
theorem refuseNames_eq_error {taken : List String} {options : List (String × Datum)}
    {o : String × Datum} (ho : o ∈ options) (h : o.1 ∈ taken) :
    refuseNames taken options = .error .wrongType := by
  unfold refuseNames
  rw [if_pos]
  rw [List.any_eq_true]
  exact ⟨o, ho, by rwa [← List.contains_iff_mem] at h⟩

/-- No option is unknown exactly if all of them have defaults. -/
theorem unknownOptions_eq_nil_iff {options : List (String × Datum)} :
    unknownOptions options = [] ↔ ∀ o ∈ options, (defaults.lookup o.1).isSome := by
  unfold unknownOptions
  rw [← List.length_eq_zero_iff, List.length_mergeSort, List.length_eq_zero_iff,
    List.filter_eq_nil_iff, List.forall_mem_map]
  simp

/-- A value is handed over as the configuration itself. -/
theorem ofOptions_of_self {options : List (String × Datum)} {o : String × Datum}
    (ho : o ∈ options) (h : o.1 = "self") : ofOptions options = .error .wrongType := by
  rw [ofOptions, refuseNames_eq_error ho (h ▸ List.mem_singleton_self _)]
  rfl

/-- There are options of which there are none. -/
theorem ofOptions_of_unknown {options : List (String × Datum)}
    (hself : ∀ o ∈ options, o.1 ∉ ["self"]) (h : unknownOptions options ≠ []) :
    ∃ f, ofOptions options = .error (.fault f) := by
  have hsome : (!(unknownOptions options).isEmpty) = true := by simpa using h
  unfold ofOptions
  rw [refuseNames_eq_ok hself]
  dsimp only [bind, Except.bind]
  rw [if_pos hsome]
  exact ⟨_, rfl⟩

/-- All options are known, and no commands are among them. -/
theorem ofOptions_reported_iff {options : List (String × Datum)}
    (hoptions : ∀ o ∈ options, (defaults.lookup o.1).isSome)
    (hcommands : options.lookup "rospack_commands" = none) :
    Reported (ofOptions options) ↔ ¬ Unusable ((options.lookup "mappings").getD .null) := by
  have hself : ∀ o ∈ options, o.1 ∉ ["self"] := by
    intro o ho h
    have hknown := hoptions o ho
    rw [List.mem_singleton.1 h] at hknown
    cases hknown
  have hnone : ¬ (!(unknownOptions options).isEmpty) = true := by
    rw [unknownOptions_eq_nil_iff.2 hoptions]
    nofun
  have hcommandsOf : commandsOf
      (((options.lookup "rospack_commands").or (defaults.lookup "rospack_commands")).getD .null) =
        .ok (.table []) := by
    rw [hcommands]
    rfl
  have hmappings : ((options.lookup "mappings").or (defaults.lookup "mappings")).getD .null =
      (options.lookup "mappings").getD .null := by
    cases options.lookup "mappings" <;> rfl
  unfold ofOptions
  rw [refuseNames_eq_ok hself]
  dsimp only [bind, Except.bind]
  rw [if_neg hnone, hcommandsOf, hmappings]
  by_cases hvalue : Unusable ((options.lookup "mappings").getD .null)
  · obtain ⟨e, he, hfault⟩ := mappingsOf_of_unusable hvalue
    rw [he]
    exact iff_of_false (reported_error_iff.not.2 hfault) (not_not_intro hvalue)
  · obtain ⟨mappings, hok⟩ := mappingsOf_of_not_unusable hvalue
    rw [hok]
    exact iff_of_true (.inl ⟨_, rfl⟩) hvalue

/-! ## Entries -/

section
variable {overrides : List (String × Datum)} {entries : List (Datum × Datum)}

/-- The entries with what is given besides them. -/
def withGiven (overrides : List (String × Datum)) (entries : List (Datum × Datum)) :
    List (Datum × Datum) :=
  overrides.foldl (fun es (name, value) => Datum.insertEntry (.text name) value es) entries

/-- What is given besides a table changes nothing about a property of keys that the given
names have. -/
theorem forall_withGiven {P : Datum → Prop} (h : ∀ o ∈ overrides, P (.text o.1)) :
    (∀ e ∈ withGiven overrides entries, P e.1) ↔ ∀ e ∈ entries, P e.1 := by
  unfold withGiven
  induction overrides generalizing entries with
  | nil => rfl
  | cons o rest ih =>
    obtain ⟨hfirst, hrest⟩ := List.forall_mem_cons.1 h
    rw [List.foldl_cons, ih hrest, Datum.forall_insertEntry, and_iff_right hfirst]

/-- A name under which nothing is given is looked up in the table alone. -/
theorem lookup_withGiven {key : String} (h : ∀ o ∈ overrides, o.1 ≠ key) :
    Datum.lookupEntry? key (withGiven overrides entries) = Datum.lookupEntry? key entries := by
  unfold withGiven
  induction overrides generalizing entries with
  | nil => rfl
  | cons o rest ih =>
    obtain ⟨hfirst, hrest⟩ := List.forall_mem_cons.1 h
    rw [List.foldl_cons, ih hrest, Datum.lookupEntry?_insertEntry hfirst]

/-- What can be given besides a table neither spoils it nor mends it. -/
theorem spoiled_withGiven (h : ∀ o ∈ overrides, o.1 ∈ givenNames) :
    Spoiled (withGiven overrides entries) ↔ Spoiled entries := by
  have hnames : (∀ e ∈ withGiven overrides entries, IsName e.1) ↔ ∀ e ∈ entries, IsName e.1 := by
    exact forall_withGiven fun o ho => ⟨o.1, rfl, ne_of_mem_of_not_mem (h o ho) (by decide)⟩
  have hoptions :
      (∀ e ∈ withGiven overrides entries, IsOption e.1) ↔ ∀ e ∈ entries, IsOption e.1 := by
    have hdefaults : ∀ name ∈ givenNames, (defaults.lookup name).isSome := by decide
    exact forall_withGiven fun o ho => ⟨o.1, rfl, hdefaults o.1 (h o ho)⟩
  have hmappings : Datum.lookupEntry? "mappings" (withGiven overrides entries) =
      Datum.lookupEntry? "mappings" entries :=
    lookup_withGiven fun o ho => ne_of_mem_of_not_mem (h o ho) (by decide)
  rw [Spoiled, Spoiled, hnames, hoptions, hmappings]

end

section
variable {entries : List (Datum × Datum)}

theorem named_known_iff (hnames : ∀ e ∈ entries, IsName e.1) :
    (∀ o ∈ named entries, (defaults.lookup o.1).isSome) ↔ ∀ e ∈ entries, IsOption e.1 := by
  unfold named
  rw [List.forall_mem_map]
  refine forall₂_congr fun e he => ?_
  obtain ⟨name, hname, -⟩ := hnames e he
  simp [IsOption, hname]

/-- A key that is no name ends the loading, and not with a fault. -/
theorem optionsOf_bind_of_not_isName {e : Datum × Datum} (he : e ∈ entries) (h : ¬ IsName e.1) :
    optionsOf entries >>= ofOptions = .error .wrongType := by
  by_cases htexts : ∀ e ∈ entries, ∃ name, e.1.text? = some name
  · obtain ⟨name, hname⟩ := htexts e he
    have hself : name = "self" := by_contra fun hne => h ⟨name, hname, hne⟩
    have hmem : ("self", e.2) ∈ named entries := by
      refine List.mem_map.2 ⟨e, he, ?_⟩
      rw [hname, hself, Option.getD_some]
    rw [optionsOf_of_text htexts]
    exact ofOptions_of_self hmem rfl
  · simp only [not_forall, not_exists, ← Option.eq_none_iff_forall_ne_some] at htexts
    obtain ⟨e, he, hnone⟩ := htexts
    rw [optionsOf_of_not_text he hnone]
    rfl

/-- Where all keys are options, all depends on the value for substitution arguments. -/
theorem spoiled_iff_of_isOption (hnames : ∀ e ∈ entries, IsName e.1)
    (hoptions : ∀ e ∈ entries, IsOption e.1) :
    Spoiled entries ↔ Unusable ((Datum.lookupEntry? "mappings" entries).getD .null) := by
  rw [Spoiled, or_iff_right (not_not_intro hnames), and_iff_right hoptions]
  cases Datum.lookupEntry? "mappings" entries with
  | none => exact iff_of_false (fun ⟨_, h, _⟩ => nomatch h) fun h => nomatch h.1
  | some value => simp

/-- Entries with no commands among them are made into a configuration, or refused with a fault,
unless they are spoiled. -/
theorem options_reported_iff
    (hcommands : Datum.lookupEntry? "rospack_commands" entries = none) :
    Reported (optionsOf entries >>= ofOptions) ↔ ¬ Spoiled entries := by
  by_cases hnames : ∀ e ∈ entries, IsName e.1
  · have htexts : ∀ e ∈ entries, ∃ name, e.1.text? = some name := fun e he =>
      (hnames e he).imp fun _ h => h.1
    have hrun : optionsOf entries >>= ofOptions = ofOptions (named entries) := by
      rw [optionsOf_of_text htexts]
      rfl
    rw [hrun]
    by_cases hoptions : ∀ e ∈ entries, IsOption e.1
    · rw [spoiled_iff_of_isOption hnames hoptions, ← lookup_optionsOf htexts (by decide)]
      refine ofOptions_reported_iff ((named_known_iff hnames).2 hoptions) ?_
      exact (lookup_optionsOf htexts (by decide)).trans hcommands
    · have hself : ∀ o ∈ named entries, o.1 ∉ ["self"] := by
        refine List.forall_mem_map.2 fun e he h => ?_
        obtain ⟨name, hname, hne⟩ := hnames e he
        rw [hname] at h
        exact hne (List.mem_singleton.1 h)
      have hunknown : unknownOptions (named entries) ≠ [] := fun h =>
        hoptions ((named_known_iff hnames).1 (unknownOptions_eq_nil_iff.1 h))
      obtain ⟨f, hf⟩ := ofOptions_of_unknown hself hunknown
      rw [hf]
      exact iff_of_true (.inr ⟨f, rfl⟩) fun h => h.elim (· hnames) fun h => hoptions h.1
  · have hspoiled : Spoiled entries := .inl hnames
    simp only [not_forall] at hnames
    obtain ⟨e, he, hname⟩ := hnames
    rw [optionsOf_bind_of_not_isName he hname]
    exact iff_of_false (reported_error_iff.not.2 nofun) (not_not_intro hspoiled)

end

/-! ## Loaded texts -/

/-- A loaded value that is no table is a fault, if it does not count as false. -/
theorem exists_fault_of_loadedEntries {g : Yaml.Graph} {e : ConfigError}
    (h : loadedEntries g = .error e) : ∃ f, e = .fault f := by
  unfold loadedEntries at h
  split at h
  · cases h
  · split at h
    · cases h
    · split at h <;> cases h
      exact ⟨_, rfl⟩

/-- Loaded values are made into a configuration, or refused with a fault, unless they are a table
that is spoiled and has no commands. -/
theorem ofGraph_reported_iff {g : Yaml.Graph} {overrides : List (String × Datum)}
    (hgiven : ∀ o ∈ overrides, o.1 ∈ givenNames) :
    Reported (ofGraph g overrides) ↔ ∀ entries, loadedEntries g = .ok entries →
      Datum.lookupEntry? "rospack_commands" entries = none → ¬ Spoiled entries := by
  unfold ofGraph
  cases hentries : loadedEntries g with
  | error e =>
    obtain ⟨f, rfl⟩ := exists_fault_of_loadedEntries hentries
    exact iff_of_true (.inr ⟨f, rfl⟩) fun _ h => nomatch h
  | ok entries =>
    dsimp only [bind, Except.bind]
    cases hcommands : Datum.lookupEntry? "rospack_commands" entries with
    | some commands =>
      refine iff_of_true (.inr ⟨_, rfl⟩) fun _ h hnone => ?_
      cases h
      cases hcommands.symm.trans hnone
    | none =>
      have hnone : Datum.lookupEntry? "rospack_commands" (withGiven overrides entries) = none := by
        refine (lookup_withGiven fun o ho => ?_).trans hcommands
        exact ne_of_mem_of_not_mem (hgiven o ho) (by decide)
      have hoptions := options_reported_iff hnone
      rw [spoiled_withGiven hgiven] at hoptions
      refine hoptions.trans ⟨fun h _ hok _ => ?_, fun h => h entries rfl hcommands⟩
      cases hok
      exact h

/-- A text that stands for values, or that the loader refuses as malformed, is loaded as a
configuration or refused with a fault, whatever is given besides, unless it is a table that is
spoiled and has no commands. -/
theorem ofYaml_reported_iff [Yaml.Loader] {text : String} {overrides : List (String × Datum)}
    (hload : ∀ e, Yaml.safeLoad text = .error e → e = .malformed)
    (hgiven : ∀ o ∈ overrides, o.1 ∈ givenNames) :
    Reported (ofYaml text overrides) ↔
      ∀ g entries, Yaml.safeLoad text = .ok g → loadedEntries g = .ok entries →
        Datum.lookupEntry? "rospack_commands" entries = none → ¬ Spoiled entries := by
  have hnames : ∀ o ∈ overrides, o.1 ∉ loadNames := by
    have hother : ∀ name ∈ givenNames, name ∉ loadNames := by decide
    exact fun o ho => hother o.1 (hgiven o ho)
  unfold ofYaml
  rw [refuseNames_eq_ok hnames]
  dsimp only [bind, Except.bind]
  cases hg : Yaml.safeLoad text with
  | error e =>
    rw [hload e hg]
    exact iff_of_true (.inr ⟨_, rfl⟩) fun _ _ h => nomatch h
  | ok g =>
    refine (ofGraph_reported_iff hgiven).trans ⟨fun h g' entries hok => ?_, fun h entries => ?_⟩
    · cases hok
      exact h entries
    · exact h g entries rfl

/-- A loader that knows a single text. -/
abbrev loaderOf (text : String) (g : Yaml.Graph) : Yaml.Loader :=
  ⟨fun other => if other = text then .ok g else .error .malformed⟩

/-- Whatever it loads or refuses, it refuses as malformed. -/
theorem eq_malformed_of_loaderOf {text other : String} {g : Yaml.Graph} {e : Yaml.ReadError}
    (h : (loaderOf text g).safeLoad other = .error e) : e = .malformed := by
  change (if other = text then Except.ok g else Except.error Yaml.ReadError.malformed) = .error e at h
  split at h <;> cases h
  rfl

/-- A table for substitution arguments whose only value is a list, and a level of verbosity. -/
def loadedMappings : Yaml.Graph where
  values := #[.table [(⟨.text "mappings", some 1⟩, 2), (⟨.text "verbosity", some 7⟩, 8)],
    .scalar ⟨.text "mappings", some 1⟩, .table [(⟨.text "a", some 3⟩, 4)],
    .scalar ⟨.text "a", some 3⟩, .list [5, 6], .scalar ⟨.int 1, some 5⟩,
    .scalar ⟨.text "b", some 6⟩, .scalar ⟨.text "verbosity", some 7⟩, .scalar ⟨.int 0, some 8⟩]
  root := some 0

/-- The level of verbosity is given besides. -/
theorem ofYaml_reported_of_override :
    let text := "mappings: \x7ba: [1, b]\x7d\nverbosity: 0\n"
    let overrides : List (String × Datum) := [("verbosity", .int 2)]
    letI := loaderOf text loadedMappings
    (∀ e, Yaml.safeLoad text = .error e → e = .malformed) ∧
      (∀ o ∈ overrides, o.1 ∈ givenNames) ∧ Reported (ofYaml text overrides) ∧
      ∀ g entries, Yaml.safeLoad text = .ok g → loadedEntries g = .ok entries →
        Datum.lookupEntry? "rospack_commands" entries = none → ¬ Spoiled entries := by
  intro text overrides
  let _ := loaderOf text loadedMappings
  have hload : ∀ e, Yaml.safeLoad text = .error e → e = .malformed :=
    fun _ => eq_malformed_of_loaderOf
  have hgiven : ∀ o ∈ overrides, o.1 ∈ givenNames := by decide
  have hreported : Reported (ofYaml text overrides) := by decide +kernel
  exact ⟨hload, hgiven, hreported, (ofYaml_reported_iff hload hgiven).1 hreported⟩

/-- A table with a number for its only key. -/
def loadedNumbers : Yaml.Graph where
  values := #[.table [(⟨.int 1, some 1⟩, 2)], .scalar ⟨.int 1, some 1⟩, .scalar ⟨.int 2, some 2⟩]
  root := some 0

/-- Not every text is loaded or refused with a fault: a key may be a number. -/
theorem not_ofYaml_reported :
    letI := loaderOf "1: 2\n" loadedNumbers
    ¬ ∀ (text : String) (overrides : List (String × Datum)),
      (∀ e, Yaml.safeLoad text = .error e → e = .malformed) →
        (∀ o ∈ overrides, o.1 ∈ givenNames) → Reported (ofYaml text overrides) := by
  let _ := loaderOf "1: 2\n" loadedNumbers
  intro h
  exact absurd (h "1: 2\n" [] (fun _ => eq_malformed_of_loaderOf) (List.forall_mem_nil _))
    (by decide)

end Config

end XmlMacros
