/-
Under SCHED_PRIO the CPU goes to a process of the best rank.

The rank of a process is its priority, then the tick since which it is READY.  `age_one`,
`runtime_set_nice` and `runtime_set_priority` change ranks under the heap, and a wakeup pushes
onto a heap that may be out of order; but every pass rebuilds the heap before it dispatches, and
the test for preemption reads all of the heap.

* `prioLess_iff` — `prio_less` is the order of the ranks;
* `rebuild_ordered` — a rebuilt heap is in order;
* `priority_dispatch` — no READY process outranks the one that is dispatched, or the one that
  keeps the CPU after a tick.
-/
import Mathlib.Data.Prod.Lex
import Mathlib.Order.WithBot
import Mosrt.RosterSpec

namespace Mosrt

/-- Smaller is better. -/
def Pcb.rank (p : Pcb) : ℤ ×ₗ ℕ := toLex (p.priority, p.lastReadyTick)

/-- The rank of a pid; a pid without a process comes last. -/
def prioKey (t : ProcTable) (pid : ℤ) : WithTop (ℤ ×ₗ ℕ) := (procGet t pid).elim ⊤ fun p => ↑p.rank

/-- No READY process has a better rank than `pid`. -/
def TopRanked (t : ProcTable) (pid : ℤ) : Prop :=
  ∃ p, procGet t pid = some p ∧
    ∀ q r, procGet t q = some r → r.state = .ready → ¬ r.rank < p.rank

variable {rt rt' : Runtime} {t : ProcTable} {s : Scheduler} {h : ReadyHeap} {pid q : ℤ} {p r : Pcb}
  {fuel : ℕ}

theorem prioKey_of_get (hp : procGet t pid = some p) : prioKey t pid = ↑p.rank := by
  rw [prioKey, hp, Option.elim_some]

theorem rank_lt_iff : p.rank < r.rank ↔
    p.priority < r.priority ∨ p.priority = r.priority ∧ p.lastReadyTick < r.lastReadyTick :=
  Prod.Lex.toLex_lt_toLex

theorem prioLess_iff : prioLess t pid q = true ↔ prioKey t pid < prioKey t q := by
  rw [prioLess]
  cases hp : procGet t pid with
  | none => simp [prioKey, hp]
  | some p =>
    cases hr : procGet t q with
    | none => simp [prioKey, hp, hr]
    | some r =>
      rw [prioKey_of_get hp, prioKey_of_get hr, WithTop.coe_lt_coe, rank_lt_iff]
      dsimp only
      by_cases heq : p.priority = r.priority
      · simp [heq]
      · simp [heq]

/-! ### The heap -/

theorem schedEnqueue_ordered (hs : s.heap.Ordered (prioKey t)) (pid : ℤ) :
    (schedEnqueue t s pid).2.heap.Ordered (prioKey t) := by
  rw [schedEnqueue]
  cases procGet t pid with
  | none => exact hs
  | some p =>
    dsimp only
    split
    · show (heapPush t s.heap pid).2.Ordered (prioKey t)
      rw [heapPush]
      split_ifs
      · exact hs
      · exact BinaryHeap.push_ordered (fun _ _ => prioLess_iff) hs
    · exact hs
    · exact hs

theorem rebuild_ordered (rt : Runtime) :
    (rebuildReadyQueues rt).scheduler.heap.Ordered (prioKey rt.procs) := by
  have hfold : ∀ is : List ℕ, (is.foldl (rebuildOneReady rt.procs)
      (schedClear rt.scheduler)).heap.Ordered (prioKey rt.procs) := by
    intro is
    refine List.foldlRecOn (motive := fun s : Scheduler => s.heap.Ordered (prioKey rt.procs)) is _
      BinaryHeap.empty_ordered fun s hs i _ => ?_
    rw [rebuildOneReady]
    split_ifs
    · exact schedEnqueue_ordered hs _
    · exact hs
  rw [rebuildReadyQueues]
  generalize List.range mosrtMaxProcs = is
  exact hfold is

theorem rebuildPrio_ordered (hrt : rt.Sound) (ha : rt.scheduler.algo = .prio) :
    (boostMlfq (rebuildPrio rt)).scheduler.algo = .prio ∧
      (boostMlfq (rebuildPrio rt)).scheduler.heap.Ordered
        (prioKey (boostMlfq (rebuildPrio rt)).procs) := by
  obtain ⟨n, hn, -⟩ := hrt.shape.packed
  have halgo : (rebuildReadyQueues rt).scheduler.algo = .prio :=
    algo_of_roster ((congrArg Roster.algo (rebuild_roster hn)).trans ha)
  have hboost : boostMlfq (rebuildReadyQueues rt) = rebuildReadyQueues rt := by
    rw [boostMlfq, if_neg]
    rintro ⟨hmlfq, -⟩
    rw [halgo] at hmlfq
    cases hmlfq
  have hprocs : (rebuildReadyQueues rt).procs = rt.procs := by rw [rebuildReadyQueues]
  rw [rebuildPrio, if_pos ha, hboost, hprocs]
  exact ⟨halgo, rebuild_ordered rt⟩

/-- Before a process is chosen, the heap is in order for the table it is chosen from. -/
theorem passPrepare_ordered (hrt : rt.Sound) (ha : rt.scheduler.algo = .prio) :
    (passPrepare rt).scheduler.algo = .prio ∧
      (passPrepare rt).scheduler.heap.Ordered (prioKey (passPrepare rt).procs) := by
  have hsame := (Roster.same_expireAll rt.roster).trans (Roster.same_age _)
  rw [← wakeTimers_roster hrt, ← ageReady_roster] at hsame
  rw [passPrepare]
  exact rebuildPrio_ordered (ageReady_spec (wakeTimers_spec hrt).1).1
    (algo_of_roster (hsame.algo.trans ha))

/-- A heap of READY pids loses its root. -/
theorem heapPop_root (hall : ∀ pid ∈ h.toList, isReady t pid = true) (hpos : 0 < h.len) :
    (heapPop t h).1 = h.items 0 := by
  have hroot : h.items 0 ∈ h.toList :=
    List.mem_map_of_mem (List.mem_range.mpr hpos)
  obtain ⟨h', hpop⟩ : ∃ h', h.pop (prioLess t) = some (h.items 0, h') := by
    rw [BinaryHeap.pop, if_pos hpos]
    exact ⟨_, rfl⟩
  rw [heapPop, popReady_some hpop (hall _ hroot) hpos]

/-! ### The process on the CPU -/

theorem Runtime.Sound.mem_heap (hrt : rt.Sound) (ha : rt.scheduler.algo = .prio) :
    pid ∈ rt.scheduler.heap.toList ↔ isReady rt.procs pid = true := by
  have hactive : rt.scheduler.active 0 = rt.scheduler.heap.toList := by
    simp only [Scheduler.active, ha, if_true]
  rw [← hactive, (hrt.tracked 0).2, isReady_iff, readyLevel_eq_some, ha]
  constructor
  · rintro ⟨p, hp, hst, -⟩
    exact ⟨p, hp, hst⟩
  · rintro ⟨p, hp, hst⟩
    exact ⟨p, hp, hst, rfl⟩

theorem dispatch_topRanked (hrt : rt.Sound) (ha : rt.scheduler.algo = .prio)
    (hheap : rt.scheduler.heap.Ordered (prioKey rt.procs)) (hidle : rt.currentPid < 0)
    (hd : (dispatch rt).1 = true) : TopRanked rt.procs (dispatch rt).2.currentPid := by
  have hall : ∀ pid ∈ rt.scheduler.heap.toList, isReady rt.procs pid = true := fun _ hmem =>
    (hrt.mem_heap ha).mp hmem
  -- the pick is the process that is dispatched
  have hpick : (dispatch rt).2.currentPid = (schedPickNext rt.procs rt.scheduler).1 ∧
      0 ≤ (schedPickNext rt.procs rt.scheduler).1 := by
    rw [dispatch, if_neg (not_le.mpr hidle)] at hd ⊢
    generalize schedPickNext rt.procs rt.scheduler = r at hd ⊢
    dsimp only at hd ⊢
    split_ifs at hd ⊢ with hneg
    split at hd
    · cases hd
    · split_ifs <;> exact ⟨rfl, not_lt.mp hneg⟩
  have hpop : (schedPickNext rt.procs rt.scheduler).1 = (heapPop rt.procs rt.scheduler.heap).1 := by
    simp only [schedPickNext, ha]
  rw [hpop] at hpick
  have hpos : 0 < rt.scheduler.heap.len := by
    by_contra h0
    have hnone : rt.scheduler.heap.len = 0 := by omega
    have : heapPop rt.procs rt.scheduler.heap = (-1, rt.scheduler.heap) :=
      popReady_none (BinaryHeap.pop_eq_none.mpr hnone)
    rw [this] at hpick
    exact absurd (show (0 : ℤ) ≤ -1 from hpick.2) (by decide)
  rw [hpick.1, heapPop_root hall hpos]
  obtain ⟨p, hp, -⟩ := isReady_iff.mp (hall _ (List.mem_map_of_mem (List.mem_range.mpr hpos)))
  refine ⟨p, hp, fun q r hr hready hlt => ?_⟩
  have hle := hheap.root_le ((hrt.mem_heap ha).mpr (isReady_iff.mpr ⟨r, hr, hready⟩))
  rw [prioKey_of_get hp, prioKey_of_get hr, WithTop.coe_le_coe] at hle
  exact absurd hlt (not_lt.mpr hle)

/-- Whoever is left on the CPU by the test for preemption is outranked by nobody. -/
theorem maybePreempt_topRanked (rt : Runtime) (hrt : rt.Sound) (hc : OnCpu rt p)
    (ha : rt.scheduler.algo = .prio) :
    (maybePreempt rt).currentPid < 0 ∨
      TopRanked (maybePreempt rt).procs (maybePreempt rt).currentPid := by
  rw [maybePreempt]
  dsimp only
  rw [if_neg hc.not_neg]
  split_ifs with hyield
  · exact .inl (by show (-1 : ℤ) < 0; decide)
  · refine .inr ⟨p, hc.get, fun q r hr hready hlt => hyield ?_⟩
    have hmem := (hrt.mem_heap ha).mpr (isReady_iff.mpr ⟨r, hr, hready⟩)
    have hless : prioLess rt.procs q rt.currentPid = true := by
      rw [prioLess_iff, prioKey_of_get hr, prioKey_of_get hc.get]
      exact WithTop.coe_lt_coe.mpr hlt
    have hpre : schedShouldPreempt rt.procs rt.scheduler rt.currentPid = true := by
      rw [schedShouldPreempt, if_neg hc.not_neg, if_neg (by rw [ha]; decide),
        if_pos ⟨ha, List.any_eq_true.mpr ⟨q, hmem, hless⟩⟩]
    rw [hpre, Bool.or_true]

/-- An instruction that takes a tick is a tick of a burst. -/
theorem executeInstruction_tick (hrt : rt.Sound) (hplaced : rt.abs.Placed) (hc : OnCpu rt p)
    (hexec : executeInstruction fuel rt = some (true, rt')) :
    ∃ idx insn n, AtInsn rt p idx insn ∧ rt' = maybePreempt (spendTick rt idx n) := by
  rw [executeInstruction] at hexec
  cases hcur : currentInsn rt rt.currentPid with
  | none =>
    rw [hcur] at hexec
    cases hexec
  | some c =>
    obtain ⟨idx, o⟩ := c
    rw [hcur] at hexec
    cases o with
    | none => cases hexec
    | some insn =>
      have hslot : slotIndex rt rt.currentPid = some idx := by
        obtain ⟨i, hi, heq⟩ := Option.map_eq_some_iff.mp hcur
        rw [hi, (Prod.mk.inj heq).1]
      have hat : AtInsn rt p idx insn :=
        ⟨hrt, hplaced, hc, hslot, by rw [Runtime.insnOf, hcur]; rfl⟩
      dsimp only at hexec
      cases hop : insn.op with
      | cpu =>
        rw [hop] at hexec
        dsimp only at hexec
        rw [execCpu_eq hc] at hexec
        split_ifs at hexec
        · cases hexec
        · exact ⟨idx, insn, _, hat, (Prod.mk.inj (Option.some.inj hexec)).2.symm⟩
      | mmap =>
        rw [hop] at hexec
        obtain ⟨rt₁, -, heq⟩ := Option.map_eq_some_iff.mp hexec
        cases heq
      | io | send | recv | semWait | semPost | lock | unlock | access | mfree | exit =>
        rw [hop] at hexec
        cases hexec

/-- The rest of a pass, from a heap in order. -/
theorem dispatched_topRanked (hrt : rt.Sound) (hplaced : rt.abs.Placed)
    (ha : rt.scheduler.algo = .prio) :
    ∀ rt', (if (dispatch rt).1 then executeInstruction fuel (dispatch rt).2
        else some (true, idleTick (dispatch rt).2)) = some (true, rt') →
      rt'.currentPid < 0 ∨ TopRanked rt'.procs rt'.currentPid := by
  intro rt' hpass
  obtain ⟨hds, hd⟩ := dispatch_spec hrt hplaced
  have hroster := dispatch_roster hrt
  generalize dispatch rt = d at hds hd hroster hpass
  rcases hd with ⟨htrue, hpos, hquiet⟩ | ⟨hfalse, habs, -⟩
  · rw [if_pos htrue] at hpass
    have hdalgo : d.2.scheduler.algo = .prio := algo_of_roster (hroster.algo.trans ha)
    have hdplaced := hplaced.steps hquiet
    obtain ⟨p, hc⟩ := hdplaced.onCpu hpos
    obtain ⟨idx, insn, n, hat, rfl⟩ := executeInstruction_tick hds hdplaced hc hpass
    obtain ⟨hspent, -, q, hq, -⟩ := spendTick_spec hat n
    have hspentAlgo : (spendTick d.2 idx n).scheduler.algo = .prio :=
      algo_of_roster ((congrArg Roster.algo (spendTick_roster d.2 idx n)).trans hdalgo)
    exact maybePreempt_topRanked _ hspent hq hspentAlgo
  · -- an idle tick
    rw [if_neg (by rw [hfalse]; exact nofun)] at hpass
    obtain rfl := (Prod.mk.inj (Option.some.inj hpass)).2
    rw [hfalse] at hroster
    obtain ⟨hcur, hsame⟩ := hroster.idle
    have hcur' : d.2.currentPid < 0 := by
      show d.2.roster.current < 0
      rw [hsame]
      exact hcur
    exact .inl hcur'

/-- **Priority dispatch.**  In every reachable state under SCHED_PRIO, a pass that finds somebody
READY dispatches; a pass that finds the CPU idle dispatches a process that no READY process
outranks; and after a pass that takes a tick the CPU is released, or no READY process outranks the
process on it. -/
theorem priority_dispatch (ops : List RtOp) (fuel : ℕ) :
    let rt := Runs.run RtOp.exec runtimeInit ops
    let m := passPrepare rt
    rt.scheduler.algo = .prio →
      ((∃ q, isReady m.procs q = true) → (dispatch m).1 = true) ∧
      (m.currentPid < 0 → (dispatch m).1 = true →
        TopRanked m.procs (dispatch m).2.currentPid) ∧
      ∀ rt', runtimePass fuel rt = some (true, rt') →
        rt'.currentPid < 0 ∨ TopRanked rt'.procs rt'.currentPid := by
  have hrt := RtOp.run_consistent ops
  dsimp only
  generalize Runs.run RtOp.exec runtimeInit ops = rt at hrt ⊢
  intro ha
  obtain ⟨hs, hsteps⟩ := passPrepare_spec hrt.sound
  obtain ⟨halgo, hheap⟩ := passPrepare_ordered hrt.sound ha
  have hplaced := hrt.placed.steps hsteps
  refine ⟨?_, dispatch_topRanked hs halgo hheap, ?_⟩
  · rintro ⟨q, hready⟩
    obtain ⟨p, hp, hready⟩ := isReady_iff.mp hready
    rcases (dispatch_spec hs hplaced).2 with ⟨htrue, -⟩ | ⟨-, -, hnobody⟩
    · exact htrue
    · exact absurd hready (hnobody q p hp)
  · rw [runtimePass]
    exact dispatched_topRanked hs hplaced halgo

/-- The process created second has the better priority. -/
def twoRanks : List RtOp :=
  [.setScheduler .prio, .runWorkload ⟨"batch", [⟨.cpu, 0, 0, 3⟩]⟩ 20,
    .runWorkload ⟨"editor", [⟨.cpu, 0, 0, 2⟩]⟩ 5]

set_option maxRecDepth 100000 in
theorem priority_dispatch_second :
    let m := passPrepare (Runs.run RtOp.exec runtimeInit twoRanks)
    (dispatch m).1 = true ∧ (dispatch m).2.currentPid = 2 ∧ TopRanked m.procs 2 := by
  have hfacts : (Runs.run RtOp.exec runtimeInit twoRanks).scheduler.algo = .prio ∧
      (passPrepare (Runs.run RtOp.exec runtimeInit twoRanks)).currentPid < 0 ∧
      isReady (passPrepare (Runs.run RtOp.exec runtimeInit twoRanks)).procs 1 = true ∧
      (dispatch (passPrepare (Runs.run RtOp.exec runtimeInit twoRanks))).2.currentPid = 2 := by
    decide +kernel
  obtain ⟨ha, hidle, hready, hcur⟩ := hfacts
  obtain ⟨hsucceeds, hranked, -⟩ := priority_dispatch twoRanks 0 ha
  have htrue := hsucceeds ⟨1, hready⟩
  have htop := hranked hidle htrue
  rw [hcur] at htop
  exact ⟨htrue, hcur, htop⟩

end Mosrt
