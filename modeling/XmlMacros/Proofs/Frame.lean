import XmlMacros.Scope

/-!
# What stays in the scopes

Two relations between the scopes before and after something was done. `Scopes.Frame` is about what
is done inside of the current scope: it may write to that scope and to the global one as it likes,
to the parent only under some names, and to no other. `Scopes.Isolated` is about what is done by
calling a macro: of the scopes that were alive before, only the caller's and the global one may
differ, and the caller's only under some names. Leaving the scope of a call leads from the first to
the second (`Frame.leave`), and what is isolated is within every frame (`Isolated.frame`).

Looking up a name consults the scope of the innermost call, if there is one, and then the global one
(`lookup?_eq`); writing to the global scope changes none of the scopes of calls
(`inner_define_global`).
-/

namespace XmlMacros.Scopes

/-- Besides the current scope and the global one, only the parent differs, and if it is not the
global one only under names that `W` holds of. -/
structure Frame (W : String → Prop) (a b : Scopes) : Prop where
  depth : b.depth = a.depth
  /-- The scopes between the parent and the global one. -/
  outer : b.enclosing.tail.dropLast = a.enclosing.tail.dropLast
  parent : 2 ≤ a.depth → ∀ name, ¬ W name → b.parent.get? name = a.parent.get? name

/-- Besides the global scope only the current one differs, and if it is not the global one only
under names that `W` holds of. -/
structure Isolated (W : String → Prop) (a b : Scopes) : Prop where
  depth : b.depth = a.depth
  /-- The scopes between the current and the global one. -/
  enclosing : b.enclosing.dropLast = a.enclosing.dropLast
  current : a.enclosing ≠ [] → ∀ name, ¬ W name → b.current.get? name = a.current.get? name

variable {W W' : String → Prop} {a b c : Scopes}

/-- Nothing has changed. -/
theorem Frame.refl (W : String → Prop) (a : Scopes) : Frame W a a :=
  ⟨rfl, rfl, fun _ _ _ => rfl⟩

/-- What two steps in a row do not write is not written by both of them. -/
theorem Frame.trans (h : Frame W a b) (h' : Frame W b c) : Frame W a c where
  depth := h'.depth.trans h.depth
  outer := h'.outer.trans h.outer
  parent hd name hW := by
    rw [h'.parent (by rw [h.depth]; exact hd) name hW, h.parent hd name hW]

/-- More names may be written than are. -/
theorem Frame.mono (h : Frame W a b) (hW : ∀ name, W name → W' name) : Frame W' a b :=
  ⟨h.depth, h.outer, fun hd name hn => h.parent hd name (mt (hW name) hn)⟩

/-- Nothing has changed, not even in the current scope. -/
theorem Isolated.refl (W : String → Prop) (a : Scopes) : Isolated W a a :=
  ⟨rfl, rfl, fun _ _ _ => rfl⟩

/-- More names may be written than are, also here. -/
theorem Isolated.mono (h : Isolated W a b) (hW : ∀ name, W name → W' name) : Isolated W' a b :=
  ⟨h.depth, h.enclosing, fun hd name hn => h.current hd name (mt (hW name) hn)⟩

/-! ## Writing properties -/

/-- What stands before the last element stays where it is changed. -/
theorem dropLast_modifyLast {α : Type} (f : α → α) (l : List α) :
    (modifyLast f l).dropLast = l.dropLast := by
  induction l with
  | nil => rfl
  | cons x rest ih =>
    rcases rest with _ | ⟨y, rest⟩
    · rfl
    · have hne : modifyLast f (y :: rest) ≠ [] := by
        rw [← List.length_pos_iff, length_modifyLast]
        exact Nat.succ_pos _
      rw [modifyLast, List.dropLast_cons_of_ne_nil hne, ih]
      rfl

/-- Writing a property stays within the frame if its name is one that the parent may be written
under. -/
theorem Frame.define {name : String} {value : Property} {placement : Placement}
    (h : placement = .parent → W name) : Frame W a (a.define name value placement) := by
  rcases a with ⟨current, enclosing⟩
  refine ⟨depth_define _ _ _ _, ?_, ?_⟩
  · rcases placement with _ | _ | _ <;> rcases enclosing with _ | ⟨t, _ | ⟨u, rest⟩⟩ <;> try rfl
    show (modifyLast _ (u :: rest)).dropLast = (u :: rest).dropLast
    exact dropLast_modifyLast _ _
  · intro hd other hother
    rcases enclosing with _ | ⟨t, _ | ⟨u, rest⟩⟩
    · cases hd
    · exact absurd hd (Nat.not_succ_le_self 1)
    · cases placement with
      | current | global => rfl
      | parent =>
        have hne : other ≠ name := by
          rintro rfl
          exact hother (h rfl)
        show (t.insert name value).get? other = t.get? other
        rw [Dict.get?_insert, if_neg hne]

/-! ## Calls -/

/-- What stays within the frame of a scope that was opened is isolated from the scopes below, once
the scope is left. -/
theorem Frame.leave {table : Table} (h : Frame W { a.push with current := table } b) :
    Isolated W a b.pop := by
  rcases b with ⟨current, _ | ⟨t, rest⟩⟩
  · cases h.depth
  · refine ⟨Nat.succ.inj h.depth, h.outer, fun hne name hW => ?_⟩
    have hpos := List.length_pos_iff.2 hne
    exact h.parent (Nat.succ_le_succ hpos) name hW

/-- What is isolated writes to no parent, so it stays within every frame. -/
theorem Isolated.frame (h : Isolated W a b) : Frame W' a b := by
  refine ⟨h.depth, ?_, fun hd name _ => ?_⟩
  · rw [← List.tail_dropLast, ← List.tail_dropLast, h.enclosing]
  · have hlength : b.enclosing.length = a.enclosing.length := h.depth
    have henclosing := h.enclosing
    rcases a with ⟨_, _ | ⟨t, _ | ⟨u, rest⟩⟩⟩
    · cases hd
    · exact absurd hd (Nat.not_succ_le_self 1)
    · rcases b with ⟨_, _ | ⟨t', _ | ⟨u', rest'⟩⟩⟩
      · cases hlength
      · cases hlength
      · cases (List.cons.inj henclosing).1
        rfl

/-! ## The scopes of calls -/

/-- The scopes of calls: all but the global one, the current one first. -/
def inner (s : Scopes) : List Table :=
  s.tables.dropLast

/-- The first of the inner scopes is the current one. -/
theorem current_of_inner {s : Scopes} {table : Table} {tables : List Table}
    (h : s.inner = table :: tables) : s.current = table := by
  rcases s with ⟨current, _ | ⟨t, rest⟩⟩
  · cases h
  · exact (List.cons.inj h).1

/-- Leaving a scope takes away the first of the inner ones. -/
theorem inner_pop (s : Scopes) : s.pop.inner = s.inner.tail := by
  rcases s with ⟨current, _ | ⟨t, rest⟩⟩ <;> rfl

/-- What the scope of a call has a name bound to. -/
def own? (s : Scopes) (name : String) : Option Property :=
  s.inner.head?.bind (·.get? name)

/-- A name is looked for in the scope of the call and then in the global one. -/
theorem lookup?_eq (s : Scopes) (name : String) :
    s.lookup? name = (s.own? name).or (s.global.get? name) := by
  unfold lookup?
  rcases s with ⟨current, _ | ⟨t, rest⟩⟩
  · show _ = current.get? name
    cases h : current.get? name with
    | none => exact h
    | some value => rfl
  · show _ = (current.get? name).or _
    cases current.get? name <;> rfl

/-- The last element is what it is changed to. -/
theorem getLastD_modifyLast {α : Type} (f : α → α) (a d : α) (l : List α) :
    (modifyLast f (a :: l)).getLastD d = f (l.getLastD a) := by
  induction l generalizing a d with
  | nil => rfl
  | cons b l ih => rw [modifyLast, List.getLastD_cons, ih, List.getLastD_cons]

/-- Writing to the global scope leaves the scopes of calls as they are. -/
theorem inner_define_global (s : Scopes) (name : String) (value : Property) :
    (s.define name value .global).inner = s.inner := by
  rcases s with ⟨current, _ | ⟨t, rest⟩⟩
  · rfl
  · show (current :: modifyLast _ (t :: rest)).dropLast = (current :: t :: rest).dropLast
    exact dropLast_modifyLast _ (current :: t :: rest)

/-- What is written to the global scope is found there. -/
theorem global_define_global (s : Scopes) (name : String) (value : Property) :
    (s.define name value .global).global = s.global.insert name value := by
  rcases s with ⟨current, _ | ⟨t, rest⟩⟩
  · rfl
  · show (modifyLast _ (t :: rest)).getLastD current =
      ((t :: rest).getLastD current).insert name value
    rw [getLastD_modifyLast, List.getLastD_cons]

/-- The global scope stays where another one is left. -/
theorem global_pop (s : Scopes) : s.pop.global = s.global := by
  rcases s with ⟨current, _ | ⟨t, rest⟩⟩
  · rfl
  · show rest.getLastD t = (t :: rest).getLastD current
    rw [List.getLastD_cons]

/-- What is written to the same place of two stacks of scopes is written to the global scope of both
or of none. -/
theorem global_define {a b : Scopes} (h : b.depth = a.depth) (name : String)
    (value value' : Property)
    (placement : Placement) :
    ((a.define name value placement).global = a.global ∧
        (b.define name value' placement).global = b.global) ∨
      ((a.define name value placement).global = a.global.insert name value ∧
        (b.define name value' placement).global = b.global.insert name value') := by
  cases placement with
  | global => exact .inr ⟨global_define_global a name value, global_define_global b name value'⟩
  | current | parent =>
    rcases a with ⟨current, _ | ⟨t, _ | ⟨u, rest⟩⟩⟩ <;>
      rcases b with ⟨current', _ | ⟨t', _ | ⟨u', rest'⟩⟩⟩ <;>
      first
      | exact .inl ⟨rfl, rfl⟩
      | exact .inr ⟨rfl, rfl⟩
      | cases h

/-! ## What all scopes have in common -/

/-- It is one of all. -/
theorem global_mem_tables (s : Scopes) : s.global ∈ s.tables := by
  rcases s with ⟨current, enclosing⟩
  unfold global tables
  cases hlast : enclosing.getLast? with
  | none => rw [List.getLastD_eq_getLast?, hlast]; exact List.mem_cons_self
  | some t =>
    rw [List.getLastD_eq_getLast?, hlast]
    exact List.mem_cons_of_mem _ (List.mem_of_getLast? hlast)

/-- What a name stands for, it stands for in some scope. -/
theorem exists_of_lookup? {s : Scopes} {name : String} {value : Property}
    (h : s.lookup? name = some value) : ∃ t ∈ s.tables, t.get? name = some value := by
  unfold lookup? at h
  split at h
  · next hcurrent => exact ⟨s.current, List.mem_cons_self, hcurrent.trans h⟩
  · exact ⟨s.global, global_mem_tables s, h⟩

/-- The scopes that are left were there before. -/
theorem tables_pop_subset (s : Scopes) : s.pop.tables ⊆ s.tables := by
  rcases s with ⟨current, _ | ⟨t, rest⟩⟩
  · exact List.Subset.refl _
  · exact List.subset_cons_self _ _

/-- What holds of all elements, and of a changed one, holds of all where the last one is changed. -/
theorem forall_modifyLast {α : Type} {P : α → Prop} {f : α → α} (hf : ∀ a, P a → P (f a))
    {l : List α} (h : ∀ a ∈ l, P a) : ∀ a ∈ modifyLast f l, P a := by
  fun_induction modifyLast f l with
  | case1 => exact h
  | case2 a => exact List.forall_mem_singleton.2 (hf a (h a List.mem_cons_self))
  | case3 a b rest ih =>
    obtain ⟨ha, hrest⟩ := List.forall_mem_cons.1 h
    exact List.forall_mem_cons.2 ⟨ha, ih hrest⟩

/-- What holds of all scopes, and goes on to do so where a property is written, holds of all scopes
after it was. -/
theorem forall_tables_define {P : Table → Prop} {s : Scopes} {name : String} {value : Property}
    (hinsert : ∀ t : Table, P t → P (t.insert name value)) (h : ∀ t ∈ s.tables, P t)
    (placement : Placement) : ∀ t ∈ (s.define name value placement).tables, P t := by
  rcases s with ⟨current, enclosing⟩
  obtain ⟨hcurrent, henclosing⟩ := List.forall_mem_cons.1 h
  have hwritten : ∀ t ∈ current.insert name value :: enclosing, P t :=
    List.forall_mem_cons.2 ⟨hinsert _ hcurrent, henclosing⟩
  rcases enclosing with _ | ⟨t, rest⟩
  · cases placement <;> exact hwritten
  · cases placement with
    | current => exact hwritten
    | parent =>
      obtain ⟨ht, hrest⟩ := List.forall_mem_cons.1 henclosing
      exact List.forall_mem_cons.2 ⟨hcurrent, List.forall_mem_cons.2 ⟨hinsert t ht, hrest⟩⟩
    | global => exact List.forall_mem_cons.2 ⟨hcurrent, forall_modifyLast hinsert henclosing⟩

end XmlMacros.Scopes
