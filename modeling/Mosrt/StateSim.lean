/-
Simulation between stateful computations.

`Sim R x y`: started in states related by `R`, the computations `x` and `y` give
the same result and end in related states.  The rules follow the ways programs
are put together; with the diagonal of a predicate for `R` (`Sim.invariant`) they
are the rules for an invariant of one computation.

`SimUpto ok R E x y` is the same for computations that need not run to their end
together.  It speaks of the runs of `x` that end in a state with `ok`, which once
lost stays lost; and `x` may give up on the way, with a result that `E` relates to
the result of `y`.
-/
import Mathlib

namespace StateSim

variable {σ τ α β : Type}

/-- From related states: the same result, and related states again. -/
def Sim (R : σ → τ → Prop) (x : StateM σ α) (y : StateM τ α) : Prop :=
  ∀ s t, R s t → (x.run s).1 = (y.run t).1 ∧ R (x.run s).2 (y.run t).2

variable {R : σ → τ → Prop}

theorem run_bind (x : StateM σ α) (f : α → StateM σ β) (s : σ) :
    (x >>= f).run s = (f (x.run s).1).run (x.run s).2 := rfl

theorem run_get_bind (f : σ → StateM σ β) (s : σ) : (get >>= f).run s = (f s).run s := rfl

theorem Sim.pure (a : α) : Sim R (pure a) (pure a) := fun _ _ h => ⟨rfl, h⟩

theorem Sim.bind {x : StateM σ α} {y : StateM τ α} {f : α → StateM σ β} {g : α → StateM τ β}
    (hx : Sim R x y) (hf : ∀ a, Sim R (f a) (g a)) : Sim R (x >>= f) (y >>= g) := by
  intro s t h
  obtain ⟨heq, hR⟩ := hx s t h
  rw [run_bind, run_bind, heq]
  exact hf (y.run t).1 _ _ hR

/-- Looking at the state: what is seen has to be the same on both sides. -/
theorem Sim.get_bind {f : σ → StateM σ β} {g : τ → StateM τ β}
    (h : ∀ s t, R s t → ((f s).run s).1 = ((g t).run t).1 ∧ R ((f s).run s).2 ((g t).run t).2) :
    Sim R (get >>= f) (get >>= g) :=
  fun s t hR => h s t hR

theorem Sim.modify {f : σ → σ} {g : τ → τ} (h : ∀ s t, R s t → R (f s) (g t)) :
    Sim R (modify f) (modify g) :=
  fun s t hR => ⟨rfl, h s t hR⟩

theorem Sim.ite {c : Prop} [Decidable c] {x x' : StateM σ α} {y y' : StateM τ α}
    (hx : Sim R x y) (hx' : Sim R x' y') : Sim R (if c then x else x') (if c then y else y') := by
  split_ifs
  · exact hx
  · exact hx'

theorem Sim.iterate {f : σ → σ} {g : τ → τ} (h : ∀ s t, R s t → R (f s) (g t)) (n : ℕ) :
    ∀ s t, R s t → R (f^[n] s) (g^[n] t) := by
  induction n with
  | zero => exact fun _ _ hR => hR
  | succ n ih => exact fun s t hR => ih _ _ (h s t hR)

/-- A computation that simulates itself on the states with `I` keeps `I`. -/
theorem Sim.invariant {I : σ → Prop} {x : StateM σ α}
    (h : Sim (fun s t => s = t ∧ I s) x x) {s : σ} (hs : I s) : I (x.run s).2 :=
  (h s s ⟨rfl, hs⟩).2.2

/-! ### Simulation with an end -/

/-- While `ok` lasts: the same result and related states, or results related by `E`. -/
structure SimUpto (ok : σ → Prop) (R : σ → τ → Prop) (E : α → α → Prop) (x : StateM σ α)
    (y : StateM τ α) : Prop where
  lost : ∀ s, ok (x.run s).2 → ok s
  sim : ∀ s t, R s t → ok (x.run s).2 →
    ((x.run s).1 = (y.run t).1 ∧ R (x.run s).2 (y.run t).2) ∨ E (x.run s).1 (y.run t).1

variable {ok : σ → Prop} {E : α → α → Prop} {E' : β → β → Prop}

theorem SimUpto.pure (a : α) : SimUpto ok R E (pure a) (pure a) where
  lost := fun _ h => h
  sim := fun _ _ hR _ => .inl ⟨rfl, hR⟩

/-- What comes after a computation that gave up has to give up as well. -/
theorem SimUpto.bind {x : StateM σ α} {y : StateM τ α} {f : α → StateM σ β} {g : α → StateM τ β}
    (hx : SimUpto ok R E x y)
    (hE : ∀ a b, E a b → ∀ s t, E' ((f a).run s).1 ((g b).run t).1)
    (hf : ∀ a, SimUpto ok R E' (f a) (g a)) : SimUpto ok R E' (x >>= f) (y >>= g) where
  lost := fun s h => hx.lost s ((hf _).lost _ h)
  sim := by
    intro s t hR hok
    rw [run_bind] at hok
    rcases hx.sim s t hR ((hf _).lost _ hok) with ⟨heq, hR'⟩ | hgave
    · rw [run_bind, run_bind, ← heq]
      exact (hf _).sim _ _ hR' hok
    · exact .inr (hE _ _ hgave _ _)

theorem Sim.lost {x : StateM σ α} (h : Sim (fun s t => s = t ∧ ¬ ok s) x x) (s : σ)
    (hok : ok (x.run s).2) : ok s := by
  by_contra hs
  exact h.invariant hs hok

theorem SimUpto.get_bind {f : σ → StateM σ β} {g : τ → StateM τ β}
    (hlost : ∀ s, ok ((get >>= f).run s).2 → ok s)
    (h : ∀ s t, R s t → SimUpto ok R E' (f s) (g t)) :
    SimUpto ok R E' (get >>= f) (get >>= g) where
  lost := hlost
  sim := fun s t hR hok => (h s t hR).sim s t hR hok

theorem SimUpto.ite {c : Prop} [Decidable c] {x x' : StateM σ α} {y y' : StateM τ α}
    (hx : SimUpto ok R E x y) (hx' : SimUpto ok R E x' y') :
    SimUpto ok R E (if c then x else x') (if c then y else y') := by
  split_ifs
  · exact hx
  · exact hx'

theorem lost_iterate {f : σ → σ} (hlost : ∀ s, ok (f s) → ok s) (n : ℕ) (s : σ)
    (h : ok (f^[n] s)) : ok s := by
  induction n generalizing s with
  | zero => exact h
  | succ n ih => exact hlost s (ih _ h)

end StateSim
