import Mathlib.Order.Defs.Unbundled

/-!
# Runs of computations

Evaluations and expansions are computations of one shape: they read and change a state, may end
early, and keep the state when they do. This module says what sequencing and catching do to a run
(`bind_apply`, `tryCatch_apply`), how a run of a sequence is taken apart (`bind_cases`), and
packages the inductions over a computation that are needed again and again: what every result
has in common (`Returns`), and how the states before and after are related however the run ends
(`Keeps`); and where what holds of the state and of the results has to be known together, both at
once (`Maintains`).
-/

namespace XmlMacros

section
variable {ε σ α β : Type}

/-! ## Single steps -/

/-- A sequence runs its second step in the state that the first one leaves, if that has a result. -/
theorem bind_apply (x : ExceptT ε (StateM σ) α) (f : α → ExceptT ε (StateM σ) β) (s : σ) :
    (x >>= f) s = match x s with
      | (.ok a, s') => f a s'
      | (.error e, s') => (.error e, s') := by
  show (match x s with | (r, s') => ExceptT.bindCont f r s') = _
  rcases x s with ⟨_ | _, _⟩ <;> rfl

/-- A handler runs in the state in which the computation ended early. -/
theorem tryCatch_apply (x : ExceptT ε (StateM σ) α) (f : ε → ExceptT ε (StateM σ) α) (s : σ) :
    (tryCatch x f) s = match x s with
      | (.ok a, s') => (.ok a, s')
      | (.error e, s') => f e s' := by
  show (match x s with
    | (r, s') => (match r with
      | .ok a => (pure (.ok a) : StateM σ (Except ε α))
      | .error e => f e) s') = _
  rcases x s with ⟨_ | _, _⟩ <;> rfl

/-- What is done with the state is done in this state. -/
theorem get_bind_apply (f : σ → ExceptT ε (StateM σ) α) (s : σ) :
    (get >>= f : ExceptT ε (StateM σ) α) s = f s s := rfl

/-- A sequence that ends with a fixed result ends in the state of its first part. -/
theorem bind_pure_snd (x : ExceptT ε (StateM σ) α) (b : β) (s : σ) :
    ((x >>= fun _ => pure b) s).2 = (x s).2 := by
  rw [bind_apply]
  rcases x s with ⟨_ | _, _⟩ <;> rfl

/-- Sequences that begin alike end in the same state if what follows does. -/
theorem bind_snd_congr {x : ExceptT ε (StateM σ) α} {f : α → ExceptT ε (StateM σ) β} {γ : Type}
    {g : α → ExceptT ε (StateM σ) γ} {s : σ}
    (h : ∀ a s', x s = (.ok a, s') → (f a s').2 = (g a s').2) :
    ((x >>= f) s).2 = ((x >>= g) s).2 := by
  rw [bind_apply, bind_apply]
  rcases hx : x s with ⟨_ | a, s'⟩
  · rfl
  · exact h a s' hx

/-! ## Taking a run apart -/

/-- A run of a sequence is a run of its first part that succeeds and one of the rest, or the first
part ends early. -/
theorem bind_cases {x : ExceptT ε (StateM σ) α} {f : α → ExceptT ε (StateM σ) β} {s s' : σ}
    {r : Except ε β} (h : (x >>= f) s = (r, s')) :
    (∃ a s₁, x s = (.ok a, s₁) ∧ f a s₁ = (r, s')) ∨ ∃ e, x s = (.error e, s') ∧ r = .error e := by
  rw [bind_apply] at h
  cases hx : x s with
  | mk r₁ s₁ =>
    rw [hx] at h
    cases r₁ with
    | ok a => exact .inl ⟨a, s₁, rfl, h⟩
    | error e => cases h; exact .inr ⟨e, rfl, rfl⟩

/-- A sequence that succeeds is made of parts that succeed. -/
theorem bind_ok {x : ExceptT ε (StateM σ) α} {f : α → ExceptT ε (StateM σ) β} {s s' : σ} {b : β}
    (h : (x >>= f) s = (.ok b, s')) : ∃ a s₁, x s = (.ok a, s₁) ∧ f a s₁ = (.ok b, s') := by
  rcases bind_cases h with h | ⟨e, -, he⟩
  · exact h
  · cases he

/-- A sequence of computations without a state succeeds if all of them do. -/
theorem exists_of_bind_eq_ok {x : Except ε α} {f : α → Except ε β} {b : β}
    (h : x >>= f = .ok b) : ∃ a, x = .ok a ∧ f a = .ok b := by
  cases x with
  | error e => cases h
  | ok a => exact ⟨a, rfl, h⟩

theorem map_ok {x : ExceptT ε (StateM σ) α} {g : α → β} {s s' : σ} {b : β}
    (h : (g <$> x) s = (.ok b, s')) : ∃ a, x s = (.ok a, s') ∧ g a = b := by
  rw [← bind_pure_comp] at h
  obtain ⟨a, s₁, hx, h⟩ := bind_ok h
  cases h
  exact ⟨a, hx, rfl⟩

/-- A sequence goes on with what its first part gives. -/
theorem bind_of_ok {x : ExceptT ε (StateM σ) α} {f : α → ExceptT ε (StateM σ) β} {s s' : σ} {a : α}
    (h : x s = (.ok a, s')) : (x >>= f) s = f a s' := by
  rw [bind_apply, h]

/-- A sequence ends where its first part ends early. -/
theorem bind_of_error {x : ExceptT ε (StateM σ) α} {f : α → ExceptT ε (StateM σ) β} {s s' : σ}
    {e : ε} (h : x s = (.error e, s')) : (x >>= f) s = (.error e, s') := by
  rw [bind_apply, h]

/-- A run that is known to succeed has a result. -/
theorem exists_ok {x : ExceptT ε (StateM σ) α} {s : σ} (h : (x s).1.toOption.isSome) :
    ∃ a, x s = (.ok a, (x s).2) := by
  generalize x s = p at h ⊢
  rcases p with ⟨_ | a, s'⟩
  · cases h
  · exact ⟨a, rfl⟩

theorem bind_fst_of_error {x : ExceptT ε (StateM σ) α} {f : α → ExceptT ε (StateM σ) β} {s : σ}
    {e : ε} (h : (x s).1 = .error e) : ((x >>= f) s).1 = .error e := by
  rw [bind_of_error (Prod.ext h rfl)]

/-- What runs alike can be exchanged in front of a sequence. -/
theorem bind_congr_left {x y : ExceptT ε (StateM σ) α} {s : σ} (h : x s = y s)
    (f : α → ExceptT ε (StateM σ) β) : (x >>= f) s = (y >>= f) s := by
  rw [bind_apply, bind_apply, h]

/-! ## What all results have in common -/

/-- Every result of the computation has the property. -/
def Returns (P : α → Prop) (x : ExceptT ε (StateM σ) α) : Prop :=
  ∀ s a s', x s = (.ok a, s') → P a

/-- A result that has the property is all that is returned. -/
theorem Returns.pure {P : α → Prop} {a : α} (h : P a) :
    Returns P (Pure.pure a : ExceptT ε (StateM σ) α) := by
  intro s a' s' h'
  cases h'
  exact h

/-- Where nothing is returned, everything holds of what is. -/
theorem Returns.throw {P : α → Prop} (e : ε) :
    Returns P (MonadExcept.throw e : ExceptT ε (StateM σ) α) := by
  intro s a s' h
  cases h

/-- The first part of a sequence may be anything. -/
theorem Returns.bind {P : β → Prop} {x : ExceptT ε (StateM σ) α}
    {f : α → ExceptT ε (StateM σ) β} (hf : ∀ a, Returns P (f a)) : Returns P (x >>= f) := by
  intro s b s' h
  obtain ⟨a, s₁, -, h⟩ := bind_ok h
  exact hf a _ _ _ h

/-- What the first part of a sequence gives is known in the rest. -/
theorem Returns.bind_of {P : β → Prop} {Q : α → Prop} {x : ExceptT ε (StateM σ) α}
    {f : α → ExceptT ε (StateM σ) β} (hx : Returns Q x) (hf : ∀ a, Q a → Returns P (f a)) :
    Returns P (x >>= f) := by
  intro s b s' h
  obtain ⟨a, s₁, h₁, h⟩ := bind_ok h
  exact hf a (hx _ _ _ h₁) _ _ _ h

/-- A computation with one possible result is run for its effect alone. -/
theorem Returns.bind_eq {a : α} {x : ExceptT ε (StateM σ) α} (h : Returns (· = a) x)
    (f : α → ExceptT ε (StateM σ) β) : x >>= f = x >>= fun _ => f a := by
  funext s
  rw [bind_apply, bind_apply]
  rcases hr : x s with ⟨_ | a', s'⟩
  · rfl
  · cases h s a' s' hr
    rfl

/-- What is returned has every weaker property. -/
theorem Returns.mono {P Q : α → Prop} {x : ExceptT ε (StateM σ) α} (h : Returns P x)
    (hPQ : ∀ {a}, P a → Q a) : Returns Q x :=
  fun s a s' hr => hPQ (h s a s' hr)

/-- The computation that the results come from may be anything. -/
theorem Returns.map {P : β → Prop} {x : ExceptT ε (StateM σ) α} {g : α → β} (h : ∀ a, P (g a)) :
    Returns P (g <$> x) := by
  rw [← bind_pure_comp]
  exact .bind fun a => .pure (h a)

theorem Returns.map_of {P : β → Prop} {Q : α → Prop} {x : ExceptT ε (StateM σ) α} {g : α → β}
    (hx : Returns Q x) (h : ∀ a, Q a → P (g a)) : Returns P (g <$> x) := by
  rw [← bind_pure_comp]
  exact hx.bind_of fun a ha => .pure (h a ha)

/-- A property holds of what is returned from a computation with a handler if it holds of both. -/
theorem Returns.tryCatch {P : α → Prop} {x : ExceptT ε (StateM σ) α}
    {f : ε → ExceptT ε (StateM σ) α} (hx : Returns P x) (hf : ∀ e, Returns P (f e)) :
    Returns P (tryCatch x f) := by
  intro s a s' h
  rw [tryCatch_apply] at h
  cases hr : x s with
  | mk r s₁ =>
    rw [hr] at h
    cases r with
    | ok a' => cases h; exact hx _ _ _ hr
    | error e => exact hf e _ _ _ h

/-! ## How states are related -/

/-- However a run of the computation ends, its states before and after are related. -/
def Keeps (R : σ → σ → Prop) (x : ExceptT ε (StateM σ) α) : Prop :=
  ∀ s, R s (x s).2

variable {R : σ → σ → Prop}

/-- The states at both ends of a run are related. -/
theorem Keeps.of_run {x : ExceptT ε (StateM σ) α} {s s' : σ} {r : Except ε α} (h : Keeps R x)
    (hrun : x s = (r, s')) : R s s' := by
  have hs := h s
  rwa [hrun] at hs

/-- A result leaves the state. -/
theorem Keeps.pure [Std.Refl R] (a : α) : Keeps R (Pure.pure a : ExceptT ε (StateM σ) α) :=
  Std.Refl.refl

/-- Ending early leaves the state. -/
theorem Keeps.throw [Std.Refl R] (e : ε) :
    Keeps R (MonadExcept.throw e : ExceptT ε (StateM σ) α) :=
  Std.Refl.refl

/-- The states before and after a sequence are related if those of its parts are. The rest is only
run if the first part succeeds. -/
theorem rel_bind (htrans : ∀ {a b c}, R a b → R b c → R a c) {x : ExceptT ε (StateM σ) α}
    {f : α → ExceptT ε (StateM σ) β} {s : σ} (hx : R s (x s).2)
    (hf : ∀ a s', x s = (.ok a, s') → R s' (f a s').2) : R s ((x >>= f) s).2 := by
  rw [bind_apply]
  rcases hr : x s with ⟨_ | a, s'⟩
  · rw [hr] at hx
    exact hx
  · rw [hr] at hx
    exact htrans hx (hf a s' hr)

/-- A sequence of computations keeps a transitive relation. -/
theorem Keeps.bind [IsTrans σ R] {x : ExceptT ε (StateM σ) α}
    {f : α → ExceptT ε (StateM σ) β} (hx : Keeps R x) (hf : ∀ a, Keeps R (f a)) :
    Keeps R (x >>= f) :=
  fun s => rel_bind (IsTrans.trans _ _ _) (hx s) fun a s' _ => hf a s'

/-- What is related to the end of the first part of a sequence is related to the end of
the whole. -/
theorem Keeps.after [IsTrans σ R] {x : ExceptT ε (StateM σ) α} {f : α → ExceptT ε (StateM σ) β}
    {s t : σ} (hf : ∀ a, Keeps R (f a)) (h : R t (x s).2) : R t ((x >>= f) s).2 := by
  rw [bind_apply]
  rcases hr : x s with ⟨_ | a, s'⟩
  · rwa [hr] at h
  · rw [hr] at h
    exact IsTrans.trans _ _ _ h (hf a s')

/-- Reading the state changes nothing. -/
theorem Keeps.get_bind {f : σ → ExceptT ε (StateM σ) α} (hf : ∀ s, Keeps R (f s)) :
    Keeps R (get >>= f : ExceptT ε (StateM σ) α) :=
  fun s => hf s s

/-- A function of the result leaves the state. -/
theorem Keeps.map [Std.Refl R] [IsTrans σ R] {x : ExceptT ε (StateM σ) α} (g : α → β)
    (hx : Keeps R x) : Keeps R (g <$> x) := by
  rw [← bind_pure_comp]
  exact hx.bind fun a => .pure (g a)

/-! ## What runs maintain -/

/-- From a state with a property a run ends, in whatever way, in a state with the property, and what
it gives has a property too. -/
def Maintains (I : σ → Prop) (P : α → Prop) (x : ExceptT ε (StateM σ) α) : Prop :=
  ∀ s r s', I s → x s = (r, s') → I s' ∧ ∀ a, r = .ok a → P a

namespace Maintains

variable {I : σ → Prop} {P : β → Prop} {Q : α → Prop} {x : ExceptT ε (StateM σ) α}

theorem pure {a : α} (h : Q a) : Maintains I Q (Pure.pure a : ExceptT ε (StateM σ) α) := by
  intro s r s' hs hrun
  cases hrun
  refine ⟨hs, fun a' ha' => ?_⟩
  cases ha'
  exact h

theorem throw (e : ε) : Maintains I Q (MonadExcept.throw e : ExceptT ε (StateM σ) α) := by
  intro s r s' hs hrun
  cases hrun
  exact ⟨hs, nofun⟩

/-- What the first part of a sequence gives is known in the rest. -/
theorem bind {f : α → ExceptT ε (StateM σ) β} (hx : Maintains I Q x)
    (hf : ∀ a, Q a → Maintains I P (f a)) : Maintains I P (x >>= f) := by
  intro s r s' hs hrun
  obtain ⟨a, s₁, hrun₁, hrun⟩ | ⟨e, hrun₁, rfl⟩ := bind_cases hrun
  · obtain ⟨hs₁, ha⟩ := hx s _ s₁ hs hrun₁
    exact hf a (ha a rfl) s₁ r s' hs₁ hrun
  · exact ⟨(hx s _ s' hs hrun₁).1, nofun⟩

/-- The state that is read has the property. -/
theorem get_bind {f : σ → ExceptT ε (StateM σ) β} (hf : ∀ s, I s → Maintains I P (f s)) :
    Maintains I P (get >>= f) :=
  fun s r s' hs hrun => hf s hs s r s' hs hrun

/-- A change of the state maintains what holds afterwards as well. -/
theorem modify {f : σ → σ} (hf : ∀ s, I s → I (f s)) :
    Maintains I (fun _ => True) (modify f : ExceptT ε (StateM σ) PUnit) := by
  intro s r s' hs hrun
  cases hrun
  exact ⟨hf s hs, fun _ _ => trivial⟩

theorem map {g : α → β} (hx : Maintains I Q x) (hg : ∀ a, Q a → P (g a)) :
    Maintains I P (g <$> x) := by
  rw [← bind_pure_comp]
  exact hx.bind fun a ha => .pure (hg a ha)

/-- A computation with a handler maintains what both maintain, for the handler runs in a state where
it still holds. -/
theorem tryCatch {f : ε → ExceptT ε (StateM σ) α} (hx : Maintains I Q x)
    (hf : ∀ e, Maintains I Q (f e)) : Maintains I Q (tryCatch x f) := by
  intro s r s' hs hrun
  rw [tryCatch_apply] at hrun
  cases hrun₁ : x s with
  | mk r₁ s₁ =>
    obtain ⟨hs₁, ha⟩ := hx s r₁ s₁ hs hrun₁
    rw [hrun₁] at hrun
    cases r₁ with
    | ok a =>
      cases hrun
      exact ⟨hs₁, ha⟩
    | error e => exact hf e s₁ r s' hs₁ hrun

/-- Where states before and after are related, and the relation keeps the property, it is enough to
know what the results are. -/
theorem of_keeps (hx : Keeps R x) (hR : ∀ {s s'}, R s s' → I s → I s')
    (hQ : ∀ s a s', I s → x s = (.ok a, s') → Q a) : Maintains I Q x := by
  intro s r s' hs hrun
  refine ⟨hR (hx.of_run hrun) hs, fun a ha => hQ s a s' hs ?_⟩
  rw [hrun, ha]

end Maintains

end

end XmlMacros
