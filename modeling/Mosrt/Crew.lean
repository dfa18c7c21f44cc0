/-
Tasks that share one processor.

A task has some ticks of work left, and some ticks of rest; it is awake, or rests until a tick.
In a pass everybody whose rest is over wakes up, and then somebody who is awake works for a tick,
begins a rest or is done; if nobody is awake, a tick goes by.  Whoever chooses among those awake,
each tick is one of the work left, or one of the longest rest.

* `work`, `rest` — the work left in all, and the rest left of the task that has the most;
* `Pass.still` — a pass without a tick leaves one task less awake;
* `Pass.ticks` — a tick lowers the sum of work and rest, unless nobody is left.
-/
import Mathlib

/-- A task, with the tick until which it rests. -/
structure Chore where
  due : Option ℕ
  work : ℕ
  rest : ℕ

namespace Chore

/-- The rest is over once its tick has come. -/
def wake (now : ℕ) (t : Chore) : Chore := { t with due := t.due.filter fun d => now < d }

/-- The ticks of rest left at `now`, with those of the rest that is going on. -/
def left (now : ℕ) (t : Chore) : ℕ := t.rest + t.due.elim 0 fun d => d - now

theorem left_wake (now : ℕ) (t : Chore) : (t.wake now).left now = t.left now := by
  obtain ⟨_ | d, work, rest⟩ := t
  · rfl
  · by_cases hd : now < d
    · simp [wake, left, Option.filter_some, hd]
    · have hzero : d - now = 0 := by omega
      simp [wake, left, Option.filter_some, hd, hzero]

theorem wake_wake (now : ℕ) (t : Chore) : (t.wake now).wake now = t.wake now := by
  simp [wake, Option.filter_filter]

theorem left_succ_le (now : ℕ) (t : Chore) : t.left (now + 1) ≤ t.left now := by
  obtain ⟨_ | d, work, rest⟩ := t
  · exact le_rfl
  · simp only [left, Option.elim_some]
    omega

/-- Who is not awake rests for a tick. -/
theorem left_succ {now : ℕ} {t : Chore} (h : (t.wake now).due ≠ none) :
    (t.wake now).left (now + 1) + 1 = (t.wake now).left now := by
  obtain ⟨_ | d, work, rest⟩ := t
  · exact absurd rfl h
  · by_cases hd : now < d
    · simp only [wake, left, Option.filter_some, hd, decide_true, if_true, Option.elim_some]
      omega
    · simp [wake, hd] at h

end Chore

/-- The tasks that are not done yet, and the clock. -/
@[ext] structure Crew (ι : Type*) where
  tick : ℕ
  task : ι → Option Chore

namespace Crew

variable {ι : Type*} (s : Finset ι) {c c' : Crew ι} {i : ι}

def woken (c : Crew ι) : Crew ι := { c with task := fun i => (c.task i).map (Chore.wake c.tick) }

def work (c : Crew ι) : ℕ := ∑ i ∈ s, (c.task i).elim 0 Chore.work

def rest (c : Crew ι) : ℕ := s.sup fun i => (c.task i).elim 0 (Chore.left c.tick)

/-- Those who have something left to do. -/
def live (c : Crew ι) : Finset ι := s.filter fun i => (c.task i).isSome

/-- Those who can work. -/
def awake (c : Crew ι) : Finset ι := s.filter fun i => ∃ t ∈ c.task i, t.due = none

section

variable {s}

theorem work_woken : c.woken.work s = c.work s := by
  refine Finset.sum_congr rfl fun i _ => ?_
  show ((c.task i).map _).elim 0 Chore.work = _
  cases c.task i <;> rfl

theorem rest_woken : c.woken.rest s = c.rest s := by
  refine Finset.sup_congr rfl fun i _ => ?_
  show ((c.task i).map _).elim 0 (Chore.left c.tick) = _
  cases c.task i with
  | none => rfl
  | some t => exact t.left_wake c.tick

theorem rest_later : (⟨c.tick + 1, c.task⟩ : Crew ι).rest s ≤ c.rest s := by
  refine Finset.sup_mono_fun fun i _ => ?_
  show (c.task i).elim 0 (Chore.left (c.tick + 1)) ≤ (c.task i).elim 0 (Chore.left c.tick)
  cases c.task i with
  | none => exact le_rfl
  | some t => exact t.left_succ_le c.tick

theorem live_woken : c.woken.live s = c.live s := by
  refine Finset.filter_congr fun i _ => ?_
  show ((c.task i).map _).isSome = true ↔ _
  rw [Option.isSome_map]

theorem woken_woken : c.woken.woken = c.woken := by
  refine Crew.ext rfl (funext fun i => ?_)
  show ((c.task i).map _).map _ = (c.task i).map _
  rw [Option.map_map]
  exact congrArg (fun f => (c.task i).map f) (funext fun t => t.wake_wake c.tick)

theorem awake_subset_live : c.awake s ⊆ c.live s := by
  intro i hi
  rw [awake, Finset.mem_filter] at hi
  obtain ⟨hs, t, ht, -⟩ := hi
  exact Finset.mem_filter.mpr ⟨hs, by rw [Option.mem_def.mp ht]; rfl⟩

/-- If everybody rests for a tick, so does the one who rests longest. -/
theorem rest_later_lt (hasleep : ∀ i ∈ s, ∀ t, c.woken.task i = some t → t.due ≠ none)
    (hlive : (c.woken.live s).Nonempty) :
    (⟨c.tick + 1, c.woken.task⟩ : Crew ι).rest s + 1 ≤ c.woken.rest s := by
  obtain ⟨i, hi⟩ := hlive
  obtain ⟨his, hsome⟩ := Finset.mem_filter.mp hi
  have hstep : ∀ j ∈ s, ∀ t, c.woken.task j = some t →
      t.left (c.tick + 1) + 1 ≤ c.woken.rest s := by
    intro j hj t ht
    have hle := Finset.le_sup (f := fun i => (c.woken.task i).elim 0 (Chore.left c.tick)) hj
    simp only [ht, Option.elim_some] at hle
    obtain ⟨t₀, -, rfl⟩ := Option.map_eq_some_iff.mp ht
    rw [Chore.left_succ (hasleep j hj _ ht)]
    exact hle
  obtain ⟨j, hj, heq⟩ := Finset.exists_mem_eq_sup s ⟨i, his⟩
    fun i => (c.woken.task i).elim 0 (Chore.left (c.tick + 1))
  have hrest : (⟨c.tick + 1, c.woken.task⟩ : Crew ι).rest s =
      (c.woken.task j).elim 0 (Chore.left (c.tick + 1)) := heq
  rw [hrest]
  cases htj : c.woken.task j with
  | some t => exact hstep j hj t htj
  | none =>
    obtain ⟨t, ht⟩ := Option.isSome_iff_exists.mp hsome
    have := hstep i his t ht
    simp only [Option.elim_none]
    omega

theorem task_of_live (h : c.live s = ∅) (hi : i ∈ s) : c.task i = none := by
  by_contra hsome
  have hmem : i ∈ c.live s := Finset.mem_filter.mpr ⟨hi, Option.isSome_iff_ne_none.mpr hsome⟩
  rw [h] at hmem
  exact Finset.notMem_empty i hmem

theorem work_of_live (h : c.live s = ∅) : c.work s = 0 :=
  Finset.sum_eq_zero fun i hi => by rw [task_of_live h hi, Option.elim_none]

theorem rest_of_live (h : c.live s = ∅) : c.rest s = 0 := by
  refine (Finset.sup_eq_bot_iff _ _).mpr fun i hi => ?_
  rw [task_of_live h hi]
  rfl

end

/-! ### Passes -/

variable [DecidableEq ι]

/-- A pass; the flags say whether somebody worked, and whether it took a tick. -/
inductive Pass (c : Crew ι) : Bool → Bool → Crew ι → Prop
  | work (i : ι) (t : Chore) (left : ℕ) : i ∈ s → c.woken.task i = some t → t.due = none →
      t.work = left + 1 → Pass c true true
        ⟨c.tick + 1, Function.update c.woken.task i (some { t with work := left })⟩
  | rest (i : ι) (t : Chore) (n left : ℕ) : i ∈ s → c.woken.task i = some t → t.due = none →
      0 < n → t.rest = n + left → Pass c false false
        ⟨c.tick, Function.update c.woken.task i (some ⟨some (c.tick + n), t.work, left⟩)⟩
  | done (i : ι) (t : Chore) : i ∈ s → c.woken.task i = some t → t.due = none → t.work = 0 →
      Pass c false false ⟨c.tick, Function.update c.woken.task i none⟩
  | idle : (∀ i ∈ s, ∀ t, c.woken.task i = some t → t.due ≠ none) →
      Pass c false true ⟨c.tick + 1, c.woken.task⟩

variable {s} {o : Option Chore} {now : ℕ}

theorem work_update (now : ℕ) (hi : i ∈ s) :
    (⟨now, Function.update c.task i o⟩ : Crew ι).work s + (c.task i).elim 0 Chore.work =
      c.work s + o.elim 0 Chore.work := by
  rw [work, work, ← Finset.add_sum_erase s _ hi, ← Finset.add_sum_erase s _ hi]
  have hrest : ∑ j ∈ s.erase i, (Function.update c.task i o j).elim 0 Chore.work =
      ∑ j ∈ s.erase i, (c.task j).elim 0 Chore.work :=
    Finset.sum_congr rfl fun j hj => by rw [Function.update_of_ne (Finset.ne_of_mem_erase hj)]
  simp only [Function.update_self]
  omega

/-- The longest rest does not grow if that of the task that changes does not. -/
theorem rest_update_le (hi : i ∈ s) (hnow : now = c.tick ∨ now = c.tick + 1)
    (hle : o.elim 0 (Chore.left now) ≤ (c.task i).elim 0 (Chore.left c.tick)) :
    (⟨now, Function.update c.task i o⟩ : Crew ι).rest s ≤ c.rest s := by
  refine Finset.sup_le fun j hj => ?_
  have hjle : (c.task j).elim 0 (Chore.left c.tick) ≤ c.rest s :=
    Finset.le_sup (f := fun i => (c.task i).elim 0 (Chore.left c.tick)) hj
  show (Function.update c.task i o j).elim 0 (Chore.left now) ≤ _
  by_cases hji : j = i
  · subst hji
    rw [Function.update_self]
    exact hle.trans hjle
  · rw [Function.update_of_ne hji]
    refine le_trans ?_ hjle
    cases c.task j with
    | none => exact le_rfl
    | some t =>
      rcases hnow with rfl | rfl
      · exact le_rfl
      · exact t.left_succ_le c.tick

theorem live_update_subset (ho : o.isSome → (c.task i).isSome) :
    (⟨now, Function.update c.task i o⟩ : Crew ι).live s ⊆ c.live s := by
  intro j hj
  rw [live, Finset.mem_filter] at hj ⊢
  refine ⟨hj.1, ?_⟩
  have hsome : (Function.update c.task i o j).isSome = true := hj.2
  rw [Function.update_apply] at hsome
  split_ifs at hsome with hji
  · rw [hji]
    exact ho hsome
  · exact hsome

/-- A task that goes to rest, or is done, is one less awake. -/
theorem awake_update {t : Chore} (hi : i ∈ s) (ht : c.woken.task i = some t) (hdue : t.due = none)
    (ho : ∀ t' ∈ o, (t'.wake c.tick).due ≠ none) :
    ((⟨c.tick, Function.update c.woken.task i o⟩ : Crew ι).woken.awake s).card + 1 =
      (c.woken.awake s).card := by
  have hmem : i ∈ c.woken.awake s := Finset.mem_filter.mpr ⟨hi, t, ht, hdue⟩
  have herase : (⟨c.tick, Function.update c.woken.task i o⟩ : Crew ι).woken.awake s =
      (c.woken.awake s).erase i := by
    ext j
    rw [Finset.mem_erase, awake, awake, Finset.mem_filter, Finset.mem_filter]
    show _ ∧ (∃ t ∈ (Function.update c.woken.task i o j).map (Chore.wake c.tick), _) ↔ _
    rw [Function.update_apply]
    split_ifs with hji
    · simp only [hji, ne_eq, not_true_eq_false, false_and, iff_false, not_and, not_exists,
        Option.mem_def, Option.map_eq_some_iff]
      rintro - _ ⟨t', ht', rfl⟩
      exact ho t' ht'
    · have hwoken := congrFun (congrArg Crew.task (woken_woken (c := c))) j
      rw [show (c.woken.task j).map (Chore.wake c.tick) = c.woken.task j from hwoken]
      simp [hji]
  rw [herase]
  exact Finset.card_erase_add_one hmem

variable {worked ticked : Bool}

theorem Pass.tick_eq (h : Pass s c worked ticked c') : c'.tick = c.tick + ticked.toNat := by
  cases h <;> rfl

/-- No work gets lost. -/
theorem Pass.work_eq (h : Pass s c worked ticked c') : c'.work s + worked.toNat = c.work s := by
  rw [← work_woken (c := c)]
  cases h with
  | work i t left hi ht hdue hwork =>
    have hsum := work_update (c := c.woken) (o := some { t with work := left }) (c.tick + 1) hi
    rw [ht] at hsum
    simp only [Option.elim_some, hwork] at hsum
    show _ + 1 = _
    omega
  | rest i t n left hi ht =>
    have hsum := work_update (c := c.woken) (o := some ⟨some (c.tick + n), t.work, left⟩) c.tick hi
    rw [ht] at hsum
    exact Nat.add_right_cancel hsum
  | done i t hi ht hdue hwork =>
    have hsum := work_update (c := c.woken) (o := none) c.tick hi
    rw [ht] at hsum
    simpa [hwork] using hsum
  | idle => rfl

theorem Pass.rest_le (h : Pass s c worked ticked c') : c'.rest s ≤ c.rest s := by
  rw [← rest_woken (c := c)]
  cases h with
  | work i t left hi ht hdue =>
    refine rest_update_le (c := c.woken) hi (.inr rfl) ?_
    rw [ht]
    simp only [Option.elim_some, Chore.left, hdue]
    exact le_rfl
  | rest i t n left hi ht hdue hpos hrest =>
    refine rest_update_le (c := c.woken) hi (.inl rfl) ?_
    rw [ht]
    simp only [Option.elim_some, Chore.left, hdue, hrest, Option.elim_none]
    omega
  | done i t hi => exact rest_update_le (c := c.woken) hi (.inl rfl) (Nat.zero_le _)
  | idle => exact rest_later (c := c.woken)

theorem Pass.live_subset (h : Pass s c worked ticked c') : c'.live s ⊆ c.live s := by
  rw [← live_woken (c := c)]
  cases h with
  | work i t left hi ht => exact live_update_subset (c := c.woken) fun _ => by rw [ht]; rfl
  | rest i t n left hi ht => exact live_update_subset (c := c.woken) fun _ => by rw [ht]; rfl
  | done i t hi ht => exact live_update_subset (c := c.woken) fun hsome => by cases hsome
  | idle => exact subset_rfl

/-- A pass without a tick leaves one task less awake. -/
theorem Pass.still (h : Pass s c worked false c') :
    (c'.woken.awake s).card + 1 = (c.woken.awake s).card := by
  cases h with
  | rest i t n left hi ht hdue hpos =>
    refine awake_update hi ht hdue fun t' ht' => ?_
    rw [← Option.some.inj (Option.mem_def.mp ht')]
    simp [Chore.wake, hpos.ne']
  | done i t hi ht hdue => exact awake_update hi ht hdue fun t' ht' => by cases ht'

/-- A tick is one of work, or one of the longest rest. -/
theorem Pass.ticks (h : Pass s c worked true c') :
    c'.work s + c'.rest s + 1 ≤ c.work s + c.rest s ∨ c'.live s = ∅ := by
  have hwork := h.work_eq
  have hrest := h.rest_le
  cases h with
  | work =>
    left
    simp only [Bool.toNat_true] at hwork
    omega
  | idle hasleep =>
    by_cases hlive : (c.woken.live s).Nonempty
    · left
      have hlt := rest_later_lt hasleep hlive
      rw [rest_woken] at hlt
      simp only [Bool.toNat_false] at hwork
      omega
    · exact .inr (Finset.not_nonempty_iff_eq_empty.mp hlive)

end Crew
