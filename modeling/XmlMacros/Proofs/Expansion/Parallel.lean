import XmlMacros.Proofs.Expansion.Quiet

/-!
# Two runs in parallel

Two computations are compared that are run in two states (`Parallel`). They end alike: both with
results, or both with a fault, in states that are related again; or both end early for good, in
whatever states. One of the runs may go deeper than the other, and then it may overflow where the
other does not (`Pairing.overflows₁`, `Pairing.overflows₂`).

What runs in parallel can be put together: sequences (`Parallel.bind`), computations in changed
states (`Parallel.bracket`), and directives whose faults are reported (`Parallel.reportFault`).
-/

namespace XmlMacros.Expansion

open XmlMacros.Markup

/-- How the states of two runs are related, and which of the runs may overflow where the other one
does not. -/
structure Pairing where
  states : State → State → Prop
  overflows₁ : Prop
  overflows₂ : Prop

/-- How two runs end. -/
inductive Pairing.Ends (p : Pairing) {α β : Type} (V : α → β → Prop) :
    Except Abort α × State → Except Abort β × State → Prop
  | ok {a : α} {b : β} {s t : State} (hvalue : V a b) (hstates : p.states s t) :
    p.Ends V (.ok a, s) (.ok b, t)
  | fault {f g : Fault} {s t : State} (hstates : p.states s t) :
    p.Ends V (.error (.fault f), s) (.error (.fault g), t)
  /-- Both end early for good. -/
  | abort {e : Abort} {s t : State} (hfault : ∀ f, e ≠ .fault f) :
    p.Ends V (.error e, s) (.error e, t)
  | overflow₁ {s : State} {r : Except Abort β × State} (h : p.overflows₁) :
    p.Ends V (.error .overflow, s) r
  | overflow₂ {r : Except Abort α × State} {t : State} (h : p.overflows₂) :
    p.Ends V r (.error .overflow, t)

namespace Pairing.Ends

variable {p : Pairing} {α β : Type} {V : α → β → Prop} {r₁ : Except Abort α × State}
  {r₂ : Except Abort β × State}

/-- Two runs that end alike do so for any weaker relation between their results. -/
theorem mono {W : α → β → Prop} (h : p.Ends V r₁ r₂) (hV : ∀ {a b}, V a b → W a b) :
    p.Ends W r₁ r₂ := by
  cases h with
  | ok hvalue hstates => exact .ok (hV hvalue) hstates
  | fault hstates => exact .fault hstates
  | abort hfault => exact .abort hfault
  | overflow₁ h => exact .overflow₁ h
  | overflow₂ h => exact .overflow₂ h

/-- The states in which two runs end may be related in another way. -/
theorem lift {q : Pairing} (h : p.Ends V r₁ r₂)
    (hstates : p.states r₁.2 r₂.2 → q.states r₁.2 r₂.2)
    (h₁ : p.overflows₁ → q.overflows₁) (h₂ : p.overflows₂ → q.overflows₂) : q.Ends V r₁ r₂ := by
  cases h with
  | ok hvalue h => exact .ok hvalue (hstates h)
  | fault h => exact .fault (hstates h)
  | abort hfault => exact .abort hfault
  | overflow₁ h => exact .overflow₁ (h₁ h)
  | overflow₂ h => exact .overflow₂ (h₂ h)

/-- The states in which two runs end may be left for others that are related. -/
theorem leave {leave₁ leave₂ : State → State} (h : p.Ends V r₁ r₂)
    (hleave : ∀ s t, p.states s t → p.states (leave₁ s) (leave₂ t)) :
    p.Ends V (r₁.1, leave₁ r₁.2) (r₂.1, leave₂ r₂.2) := by
  cases h with
  | ok hvalue hstates => exact .ok hvalue (hleave _ _ hstates)
  | fault hstates => exact .fault (hleave _ _ hstates)
  | abort hfault => exact .abort hfault
  | overflow₁ h => exact .overflow₁ h
  | overflow₂ h => exact .overflow₂ h

end Pairing.Ends

/-- From these states two computations run in parallel. -/
def Parallel (p : Pairing) {α β : Type} (V : α → β → Prop) (s t : State) (x : M α) (y : M β) :
    Prop :=
  p.Ends V (x s) (y t)

namespace Parallel

variable {p : Pairing} {α β γ δ : Type} {V : α → β → Prop} {W : γ → δ → Prop} {s t : State}
  {x : M α} {y : M β}

/-- Results that are related, in states that are related, end alike. -/
theorem pure {a : α} {b : β} (hvalue : V a b) (hstates : p.states s t) :
    Parallel p V s t (Pure.pure a) (Pure.pure b) :=
  Pairing.Ends.ok hvalue hstates

/-- Any two faults end alike in related states: what the faults say is not compared. -/
theorem fault {f g : Fault} (hstates : p.states s t) :
    Parallel p V s t (throw (.fault f) : M α) (throw (.fault g) : M β) :=
  Pairing.Ends.fault hstates

/-- Runs that are given up for the same reason, which is no fault, end alike in any states. -/
theorem abort {e : Abort} (hfault : ∀ f, e ≠ .fault f) :
    Parallel p V s t (throw e : M α) (throw e : M β) :=
  Pairing.Ends.abort hfault

/-- Two runs that are known to give results are in parallel if results and states are related. -/
theorem of_ok {a : α} {b : β} {s' t' : State} (hx : x s = (.ok a, s')) (hy : y t = (.ok b, t'))
    (hvalue : V a b) (hstates : p.states s' t') : Parallel p V s t x y := by
  unfold Parallel
  rw [hx, hy]
  exact .ok hvalue hstates

theorem mono {V' : α → β → Prop} (h : Parallel p V s t x y) (hV : ∀ {a b}, V a b → V' a b) :
    Parallel p V' s t x y :=
  Pairing.Ends.mono h hV

/-- Sequences run in parallel if their first parts do, and what follows does after these. It may
relate states in a weaker way. -/
theorem bind_lift {q : Pairing} {f : α → M γ} {g : β → M δ} (h : Parallel p V s t x y)
    (hstates : ∀ s' t', p.states s' t' → q.states s' t') (h₁ : p.overflows₁ → q.overflows₁)
    (h₂ : p.overflows₂ → q.overflows₂)
    (hfg : ∀ a b s' t', x s = (.ok a, s') → y t = (.ok b, t') → V a b → p.states s' t' →
      Parallel q W s' t' (f a) (g b)) : Parallel q W s t (x >>= f) (y >>= g) := by
  unfold Parallel at h ⊢
  rw [bind_apply, bind_apply]
  generalize hx : x s = r₁ at h ⊢
  generalize hy : y t = r₂ at h ⊢
  cases h with
  | ok hvalue h => exact hfg _ _ _ _ hx hy hvalue h
  | fault h => exact .fault (hstates _ _ h)
  | abort hfault => exact .abort hfault
  | overflow₁ h => exact .overflow₁ (h₁ h)
  | overflow₂ h => exact .overflow₂ (h₂ h)

/-- What follows two parallel runs is compared only where both have given results, from the states
in which they ended. -/
theorem bind {f : α → M γ} {g : β → M δ} (h : Parallel p V s t x y)
    (hfg : ∀ a b s' t', x s = (.ok a, s') → y t = (.ok b, t') → V a b → p.states s' t' →
      Parallel p W s' t' (f a) (g b)) : Parallel p W s t (x >>= f) (y >>= g) :=
  h.bind_lift (fun _ _ => id) id id hfg

/-- Reading the states leaves a comparison of what is done with them. -/
theorem get_bind {f : State → M α} {g : State → M β} (h : Parallel p V s t (f s) (g t)) :
    Parallel p V s t (get >>= f) (get >>= g) :=
  h

/-- Changes to both states come first, and the rest is compared in the changed states. -/
theorem modify_bind {f g : State → State} (h : Parallel p V (f s) (g t) x y) :
    Parallel p V s t (modify f >>= fun _ => x) (modify g >>= fun _ => y) :=
  h

/-- A function of each result may follow two parallel runs if it takes related results to related
ones. -/
theorem map {f : α → γ} {g : β → δ} (h : Parallel p V s t x y)
    (hfg : ∀ a b, V a b → W (f a) (g b)) : Parallel p W s t (f <$> x) (g <$> y) := by
  rw [← bind_pure_comp, ← bind_pure_comp]
  exact h.bind fun a b _ _ _ _ hvalue hstates => .pure (hfg a b hvalue) hstates

/-- Computations in changed states, if leaving these leads to related states again. -/
theorem bracket {enter enter' : State → State} {leave leave' : State → State → State}
    (h : Parallel p V (enter s) (enter' t) x y)
    (hleave : ∀ s' t', p.states s' t' → p.states (leave s s') (leave' t t')) :
    Parallel p V s t (bracket enter leave x) (Expansion.bracket enter' leave' y) :=
  Pairing.Ends.leave h hleave

/-- A computation in a changed state beside one that is run as it is. -/
theorem bracket_left {enter : State → State} {leave : State → State → State}
    (h : Parallel p V (enter s) t x y)
    (hleave : ∀ s' t', p.states s' t' → p.states (leave s s') t') :
    Parallel p V s t (Expansion.bracket enter leave x) y :=
  Pairing.Ends.leave h hleave

/-- Where warnings run in parallel, so do directives whose faults are reported. -/
theorem reportFault {V : List Node → List Node → Prop} {x y : M (List Node)}
    (h : Parallel p V s t x y) (hnil : V [] [])
    (hwarn : ∀ s' t' m m', p.states s' t' → Parallel p Eq s' t' (warn m) (warn m')) :
    Parallel p V s t (Expansion.reportFault x) (Expansion.reportFault y) := by
  unfold Parallel at h ⊢
  unfold Expansion.reportFault
  rw [tryCatch_apply, tryCatch_apply]
  generalize x s = r₁ at h ⊢
  generalize y t = r₂ at h ⊢
  cases h with
  | ok hvalue hstates => exact .ok hvalue hstates
  | fault hstates =>
    exact (hwarn _ _ _ _ hstates).bind fun _ _ _ _ _ _ _ hstates => .pure hnil hstates
  | @abort e _ _ hfault =>
    cases e with
    | fault f => exact absurd rfl (hfault f)
    | unreadable | overflow | mismatch => exact .abort hfault
  | overflow₁ h => exact .overflow₁ h
  | overflow₂ h =>
    -- What the first run reports may still come, but the second one is over.
    exact .overflow₂ h

end Parallel

end XmlMacros.Expansion
