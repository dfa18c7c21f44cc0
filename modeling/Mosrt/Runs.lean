/-
Runs of a deterministic machine.

A machine is a function `exec : σ → ι → σ`; a run is a list of operations.

* `run` — the state after a run;
* `Along ok` — `ok` holds of the state before each operation of a run;
* `history out` — the observations `out` makes of the operations of a run, in order;
* `run_invariant`, `run_history` — what every step preserves, a run preserves,
  for a property of the state and for a property of state and history;
* `Within r n` — reachable in at most `n` steps of a relation.
-/
import Mathlib

namespace Runs

variable {σ ι ο : Type*} (exec : σ → ι → σ)

/-- The state after the operations `ops`. -/
def run (s : σ) (ops : List ι) : σ := ops.foldl exec s

/-- `ok` holds of every operation of the run and the state it starts in. -/
def Along (ok : σ → ι → Prop) : σ → List ι → Prop
  | _, [] => True
  | s, op :: ops => ok s op ∧ Along ok (exec s op) ops

/-- What `out` observes of the operations of the run. -/
def history (out : σ → ι → List ο) : σ → List ι → List ο
  | _, [] => []
  | s, op :: ops => out s op ++ history out (exec s op) ops

variable {exec} {ok : σ → ι → Prop} {out : σ → ι → List ο} {s : σ} {op : ι} {ops ops' : List ι}

@[simp] theorem run_nil : run exec s [] = s := rfl

@[simp] theorem run_cons : run exec s (op :: ops) = run exec (exec s op) ops := rfl

theorem run_append : run exec s (ops ++ ops') = run exec (run exec s ops) ops' :=
  List.foldl_append

instance decidableAlong [∀ s op, Decidable (ok s op)] :
    (s : σ) → (ops : List ι) → Decidable (Along exec ok s ops)
  | _, [] => isTrue trivial
  | s, op :: ops =>
    have := decidableAlong (exec s op) ops
    inferInstanceAs (Decidable (ok s op ∧ Along exec ok (exec s op) ops))

theorem along_append :
    Along exec ok s (ops ++ ops') ↔ Along exec ok s ops ∧ Along exec ok (run exec s ops) ops' := by
  induction ops generalizing s with
  | nil => simp [Along]
  | cons op ops ih => simp [Along, ih, and_assoc]

theorem history_append :
    history exec out s (ops ++ ops') =
      history exec out s ops ++ history exec out (run exec s ops) ops' := by
  induction ops generalizing s with
  | nil => rfl
  | cons op ops ih => simp [history, ih]

/-- Every machine has the trivial condition. -/
theorem along_true (s : σ) (ops : List ι) : Along exec (fun _ _ => True) s ops := by
  induction ops generalizing s with
  | nil => trivial
  | cons op ops ih => exact ⟨trivial, ih _⟩

/-- A condition on the operations alone. -/
theorem along_of_forall {P : ι → Prop} (h : ∀ op ∈ ops, P op) (s : σ) :
    Along exec (fun _ op => P op) s ops := by
  induction ops generalizing s with
  | nil => trivial
  | cons op ops ih =>
    exact ⟨h op List.mem_cons_self, ih (fun op' hop => h op' (List.mem_cons_of_mem _ hop)) _⟩

/-- A condition that holds wherever the run is cut. -/
theorem along_of_split
    (h : ∀ ops₁ op ops₂, ops = ops₁ ++ op :: ops₂ → ok (run exec s ops₁) op) :
    Along exec ok s ops := by
  induction ops generalizing s with
  | nil => trivial
  | cons op ops ih =>
    refine ⟨h [] op ops rfl, ih fun ops₁ op' ops₂ hops => ?_⟩
    exact h (op :: ops₁) op' ops₂ (by rw [hops]; rfl)

/-- A condition that does not hold all along fails at some first place. -/
theorem along_or_first (s : σ) (ops : List ι) : Along exec ok s ops ∨
    ∃ ops₁ op ops₂, ops = ops₁ ++ op :: ops₂ ∧ Along exec ok s ops₁ ∧
      ¬ ok (run exec s ops₁) op := by
  induction ops generalizing s with
  | nil => exact .inl trivial
  | cons op ops ih =>
    by_cases hop : ok s op
    · rcases ih (exec s op) with hall | ⟨ops₁, op', ops₂, heq, hbefore, hfirst⟩
      · exact .inl ⟨hop, hall⟩
      · exact .inr ⟨op :: ops₁, op', ops₂, by rw [heq]; rfl, ⟨hop, hbefore⟩, hfirst⟩
    · exact .inr ⟨[], op, ops, rfl, trivial, hop⟩

theorem Along.mono {ok' : σ → ι → Prop} (h : Along exec ok s ops)
    (hmono : ∀ s op, ok s op → ok' s op) : Along exec ok' s ops := by
  induction ops generalizing s with
  | nil => trivial
  | cons op ops ih => exact ⟨hmono s op h.1, ih h.2⟩

theorem Along.and {ok' : σ → ι → Prop} (h : Along exec ok s ops) (h' : Along exec ok' s ops) :
    Along exec (fun s op => ok s op ∧ ok' s op) s ops := by
  induction ops generalizing s with
  | nil => trivial
  | cons op ops ih => exact ⟨⟨h.1, h'.1⟩, ih h.2 h'.2⟩

/-- An invariant of state and history that every step keeps holds after every run. -/
theorem run_history {I : σ → List ο → Prop}
    (hstep : ∀ s h op, I s h → ok s op → I (exec s op) (h ++ out s op)) {h : List ο}
    (hs : I s h) (hok : Along exec ok s ops) :
    I (run exec s ops) (h ++ history exec out s ops) := by
  induction ops generalizing s h with
  | nil => simpa [history] using hs
  | cons op ops ih =>
    have := ih (hstep s h op hs hok.1) hok.2
    rwa [List.append_assoc] at this

/-- An invariant that every step keeps holds after every run. -/
theorem run_invariant {I : σ → Prop} (hstep : ∀ s op, I s → ok s op → I (exec s op)) (hs : I s)
    (hok : Along exec ok s ops) : I (run exec s ops) := by
  induction ops generalizing s with
  | nil => exact hs
  | cons op ops ih => exact ih (hstep s op hs hok.1) hok.2

/-- Two machines that stay related and observe the same do so along every run. -/
theorem run_simulation {σ' : Type*} {exec' : σ' → ι → σ'} {out' : σ' → ι → List ο}
    {R : σ → σ' → Prop} {P : ι → Prop} {s' : σ'}
    (hstep : ∀ s s' op, R s s' → P op → R (exec s op) (exec' s' op) ∧ out s op = out' s' op)
    (hs : R s s') (hops : ∀ op ∈ ops, P op) :
    R (run exec s ops) (run exec' s' ops) ∧
      history exec out s ops = history exec' out' s' ops := by
  induction ops generalizing s s' with
  | nil => exact ⟨hs, rfl⟩
  | cons op ops ih =>
    obtain ⟨hnext, hout⟩ := hstep s s' op hs (hops op List.mem_cons_self)
    obtain ⟨hend, hhist⟩ := ih hnext fun op' hop => hops op' (List.mem_cons_of_mem _ hop)
    exact ⟨hend, by rw [history, history, hout, hhist]⟩

/-- Where an element stands in a list with one more at the end. -/
theorem concat_eq_append_cons {α : Type*} {l before after : List α} {a b : α}
    (h : l ++ [a] = before ++ b :: after) :
    (before = l ∧ b = a) ∨ ∃ rest, l = before ++ b :: rest := by
  rcases List.eq_nil_or_concat' after with rfl | ⟨rest, last, rfl⟩
  · obtain ⟨rfl, hab⟩ := List.append_inj' h rfl
    exact .inl ⟨rfl, (List.head_eq_of_cons_eq hab).symm⟩
  · rw [← List.cons_append, ← List.append_assoc] at h
    exact .inr ⟨rest, (List.append_inj' h rfl).1⟩

/-! ### Bounded numbers of steps -/

/-- `b` is reached from `a` in at most `n` steps of `r`. -/
inductive Within (r : σ → σ → Prop) (a : σ) : ℕ → σ → Prop
  | refl (n : ℕ) : Within r a n a
  | tail {n : ℕ} {b c : σ} : Within r a n b → r b c → Within r a (n + 1) c

namespace Within

variable {r : σ → σ → Prop} {a b c : σ} {n m : ℕ}

theorem single (h : r a b) : Within r a 1 b := .tail (.refl 0) h

theorem mono (h : Within r a n b) (hle : n ≤ m) : Within r a m b := by
  induction h generalizing m with
  | refl => exact .refl m
  | tail _ hlast ih =>
    obtain ⟨k, rfl⟩ : ∃ k, m = k + 1 := ⟨m - 1, by omega⟩
    exact .tail (ih (by omega)) hlast

theorem trans (h : Within r a n b) (h' : Within r b m c) : Within r a (n + m) c := by
  induction h' with
  | refl m => exact h.mono (Nat.le_add_right n m)
  | tail _ hlast ih => exact .tail ih hlast

/-- An invariant that may speak of the number of steps so far. -/
theorem invariant {I : ℕ → σ → Prop} (h : Within r a n b) (hmono : ∀ k s, I k s → I (k + 1) s)
    (hstep : ∀ k s s', I k s → r s s' → I (k + 1) s') (ha : I 0 a) : I n b := by
  induction h with
  | refl n =>
    induction n with
    | zero => exact ha
    | succ n ih => exact hmono n a ih
  | tail _ hlast ih => exact hstep _ _ _ ih hlast

end Within

end Runs
