/-!
# Tables in order of insertion

A table of names with values. A name that is written again keeps its place. `get?_insert` says
what a write does to look-ups.
-/

namespace XmlMacros

/-- A table of names with values, in the order in which the names were first written. -/
structure Dict (α : Type) where
  entries : List (String × α)
  nodup : (entries.map Prod.fst).Nodup := by simp

namespace Dict

variable {α β : Type}

/-- The table without entries. -/
def empty : Dict α := { entries := [] }

instance : EmptyCollection (Dict α) := ⟨Dict.empty⟩
instance : Inhabited (Dict α) := ⟨Dict.empty⟩

/-- The names of a table in order. -/
def keys (d : Dict α) : List String :=
  d.entries.map Prod.fst

/-- The value of a name. -/
def get? (d : Dict α) (key : String) : Option α :=
  d.entries.lookup key

/-- Whether a name has a value. -/
def contains (d : Dict α) (key : String) : Bool :=
  (d.get? key).isSome

/-- The entries with the value of a name replaced. -/
def replaceIn (key : String) (value : α) : List (String × α) → List (String × α)
  | [] => []
  | (k, v) :: rest =>
    if k == key then (k, value) :: rest else (k, v) :: replaceIn key value rest

/-- What is written for a name that is there leaves all names in their places. -/
theorem keys_replaceIn (key : String) (value : α) (l : List (String × α)) :
    (replaceIn key value l).map Prod.fst = l.map Prod.fst := by
  induction l with
  | nil => rfl
  | cons e l ih => obtain ⟨k, v⟩ := e; rw [replaceIn]; split <;> simp [ih]

/-- The first entry is looked at first. -/
theorem lookup_cons_eq (key k : String) (v : α) (l : List (String × α)) :
    ((k, v) :: l).lookup key = if key = k then some v else l.lookup key := by
  by_cases h : key = k
  · simp [h]
  · simp [List.lookup_cons, beq_eq_false_iff_ne.2 h, h]

/-- A new value for a name is seen under this name alone. -/
theorem lookup_replaceIn (key k : String) (value : α) (l : List (String × α)) :
    (replaceIn key value l).lookup k
      = if k == key then (l.lookup k).map fun _ => value else l.lookup k := by
  induction l with
  | nil => simp [replaceIn]
  | cons e l ih =>
    obtain ⟨k', v⟩ := e
    rw [replaceIn]
    by_cases h' : k' = key
    · subst h'
      by_cases h : k = k' <;> simp [lookup_cons_eq, h]
    · by_cases h : k = k'
      · subst h; simp [h']
      · simp [lookup_cons_eq, h, h', ih]

/-- The table with a value written for a name. A new name comes last. -/
def insert (d : Dict α) (key : String) (value : α) : Dict α :=
  if h : key ∈ d.keys then
    { entries := replaceIn key value d.entries
      nodup := by rw [keys_replaceIn]; exact d.nodup }
  else
    { entries := d.entries ++ [(key, value)]
      nodup := by
        have := d.nodup
        simp only [keys] at h
        rw [List.map_append, List.nodup_append]
        refine ⟨this, by simp, ?_⟩
        intro a ha b hb hab
        simp at hb
        subst hb hab
        exact h ha }

/-- The table without a name. -/
def erase (d : Dict α) (key : String) : Dict α :=
  { entries := d.entries.filter (·.1 != key)
    nodup := (List.Sublist.map _ List.filter_sublist).nodup d.nodup }

/-- The table that results from writing the entries of a list one after the other. -/
def ofList (entries : List (String × α)) : Dict α :=
  entries.foldl (fun d (key, value) => d.insert key value) empty

/-- The table with a function applied to all values. -/
def map (f : α → β) (d : Dict α) : Dict β where
  entries := d.entries.map fun (key, value) => (key, f value)
  nodup := by
    rw [List.map_map]
    exact d.nodup

/-- The table with all entries of another written over it. -/
def update (d other : Dict α) : Dict α :=
  other.entries.foldl (fun d (key, value) => d.insert key value) d

/-- A name is found if it is among the names of the entries. -/
theorem lookup_isSome_iff (key : String) (l : List (String × α)) :
    (l.lookup key).isSome ↔ key ∈ l.map Prod.fst := by
  induction l with
  | nil => simp
  | cons e l ih =>
    obtain ⟨k, v⟩ := e
    by_cases h : key = k
    · simp [h]
    · simp [lookup_cons_eq, h, ih]

theorem contains_iff_mem_keys (d : Dict α) (key : String) : d.contains key ↔ key ∈ d.keys :=
  lookup_isSome_iff key d.entries

/-- A value that is found stands in an entry with its name. -/
theorem mem_of_get? {d : Dict α} {key : String} {value : α} (h : d.get? key = some value) :
    (key, value) ∈ d.entries := by
  obtain ⟨l₁, l₂, hl, -⟩ := List.lookup_eq_some_iff.1 h
  rw [hl]
  exact List.mem_append_right _ List.mem_cons_self

/-- A value that is changed throughout is found changed. -/
theorem get?_map (f : α → β) (d : Dict α) (key : String) :
    (d.map f).get? key = (d.get? key).map f := by
  show (d.entries.map fun (key, value) => (key, f value)).lookup key = (d.entries.lookup key).map f
  induction d.entries with
  | nil => rfl
  | cons entry rest ih =>
    obtain ⟨k, v⟩ := entry
    rw [List.map_cons, lookup_cons_eq, lookup_cons_eq, ih]
    split <;> rfl

/-- A look-up after a write. -/
theorem get?_insert (d : Dict α) (key k : String) (value : α) :
    (d.insert key value).get? k = if k = key then some value else d.get? k := by
  unfold insert
  split
  · rename_i h
    have hmem := (lookup_isSome_iff key d.entries).2 h
    simp only [get?, lookup_replaceIn, beq_iff_eq]
    split
    · rename_i hk
      subst hk
      obtain ⟨v, hv⟩ := Option.isSome_iff_exists.1 hmem
      simp [hv]
    · rfl
  · rename_i h
    have hnone : d.entries.lookup key = none :=
      Option.not_isSome_iff_eq_none.1 (mt (lookup_isSome_iff key d.entries).1 h)
    simp only [get?, List.lookup_append]
    by_cases hk : k = key
    · subst hk; simp [hnone]
    · simp [lookup_cons_eq, hk]

/-- Whether a name has a value after a write. -/
theorem contains_insert (d : Dict α) (key name : String) (value : α) :
    (d.insert key value).contains name ↔ name = key ∨ d.contains name := by
  unfold contains
  rw [get?_insert]
  split <;> simp [*]

end Dict

end XmlMacros
