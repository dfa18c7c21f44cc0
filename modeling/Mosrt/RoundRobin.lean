/-
How long a READY process waits under round robin.

Whoever stands in front of a process in the ring gets the CPU for a quantum at most, and so does
the process that is on it.  `due` is what is left of all these slices: no operation raises it,
and each tick lowers it, until the process itself is put on the CPU.

* `Roster.slack_pass` — what a pass leaves of the slices: a dispatch begins one, a tick uses one up;
* `due_exec` — an operation that does not dispatch the process;
* `bounded_waiting` — a READY process with `k` others in front of it is dispatched before
  `(k + 1) * quantum` ticks have passed.
-/
import Mosrt.ArrivalOrder
import Mosrt.TimeSlices

namespace Mosrt

namespace Roster

variable {r r' d : Roster} {b ran : Bool} {op : RtOp}

/-! ### What is left of a slice -/

/-- The ticks left to the process on the CPU; it has one even if the quantum was lowered. -/
def slack (r : Roster) : ℕ := if 0 ≤ r.current then max 1 (r.quantum - r.consumed) else 0

theorem slack_of_idle (h : r.current < 0) : r.slack = 0 := if_neg (not_le.mpr h)

theorem slack_of_pos (h : 0 ≤ r.current) : r.slack = max 1 (r.quantum - r.consumed) := if_pos h

theorem slack_same (hm : r.Metered) (hs : Same r r') : r'.slack = r.slack := by
  rw [slack, slack, hs.current, hs.consumed, hs.quantum hm.quantum_pos.ne']

theorem slack_le (hm : r.Metered) : r.slack ≤ r.quantum := by
  have hpos := hm.quantum_pos
  rw [slack]
  split_ifs <;> omega

/-- Who is put on the CPU has a quantum. -/
theorem slack_dispatches (hm : r.Metered) (hd : r.Dispatches b d) :
    d.slack = r.slack + r.quantum * (r.picked d).length := by
  cases hd with
  | stays hpos =>
    have hnone : r.picked r = [] := if_neg fun hc => absurd hc.1 (not_lt.mpr hpos)
    rw [hnone]
    rfl
  | nobody hidle =>
    have hnone : r.picked { r with charged := -1, consumed := 0 } = [] :=
      if_neg fun hc => absurd hc.2 (not_le.mpr hidle)
    have hnew : ({ r with charged := -1, consumed := 0 } : Roster).slack = 0 := slack_of_idle hidle
    rw [hnone, hnew, slack_of_idle hidle]
    rfl
  | picks pid e l rest hidle hpos =>
    have hone : r.picked (r.pick pid e l rest) = [pid] := if_pos ⟨hidle, hpos⟩
    have hquantum := hm.quantum_pos
    have hnew : (r.pick pid e l rest).slack = max 1 (r.quantum - 0) := slack_of_pos hpos
    rw [hone, slack_of_idle hidle, hnew, List.length_singleton]
    omega

/-- A tick is one of the slice. -/
theorem slack_exec (hm : r.Metered) (ha : r.algo = .rr) (hpos : 0 ≤ r.current)
    (hexec : r.Exec b r') : r'.slack + b.toNat ≤ r.slack := by
  have hne : r.algo ≠ .fcfs := by
    rw [ha]
    decide
  have hidle : (-1 : ℤ) < 0 := by decide
  have hold := slack_of_pos hpos
  cases hexec with
  | stay => exact le_rfl
  | wake pid => exact (slack_same hm (same_wake r pid)).le
  | leave e st w =>
    rw [slack_of_idle (r := r.leave e st w) hidle]
    exact Nat.zero_le _
  | tick hflag hbelow =>
    have hspend : r.spend.consumed = r.consumed + 1 := by
      rw [spend]
      dsimp only
      rw [if_pos (hm.charged hpos), Nat.mod_eq_of_lt (hm.below hpos hne)]
    have hless := hbelow hne
    have hnew : r.spend.slack = max 1 (r.quantum - r.spend.consumed) := slack_of_pos hpos
    rw [hnew, hold, Bool.toNat_true]
    omega
  | preempt e =>
    rw [slack_of_idle (r := r.spend.preempt e) hidle, hold, Bool.toNat_true]
    omega

/-- A pass begins a slice or goes on with one, and each of its ticks is one of it; with a READY
process in the table it does not idle. -/
theorem slack_pass (hm : r.Metered) (ha : r.algo = .rr) (hpass : r.Pass d ran b r')
    (hready : ∃ pid e, (r.prepare mlfqBoostInterval).proc pid = some e ∧ e.state = .ready) :
    r'.slack + b.toNat ≤ r.slack + r.quantum * (r.picked d).length := by
  have hs := same_prepare mlfqBoostInterval r
  have hmp := hm.same hs
  have hpicked : (r.prepare mlfqBoostInterval).picked d = r.picked d := by
    rw [picked, picked, hs.current]
  cases hpass with
  | runs hd hexec =>
    have hslack := slack_dispatches hmp hd
    rw [slack_same hm hs, hs.quantum hm.quantum_pos.ne', hpicked] at hslack
    rw [← hslack]
    exact slack_exec (hmp.dispatches hd) (hd.algo.trans (hs.algo.trans ha)) hd.current_nonneg hexec
  | idles hd =>
    obtain ⟨pid, e, he, hst⟩ := hready
    cases hd with
    | nobody _ hnone => exact absurd hst (hnone pid e he)

theorem slack_moves (hmoves : r.Moves op r') (hpass : ∀ fuel, op ≠ .pass fuel)
    (hrings : op.keepsRings = true) (hop : op.reconfigures = false) : r'.slack = r.slack := by
  cases hmoves with
  | pass fuel | hangs fuel => exact absurd rfl (hpass fuel)
  | full | spared | nobody | repaged | spawn | setPriority | flag => rfl
  | kill => cases hrings
  | setAlgo | setQuantum => cases hop

end Roster

/-! ### Waiting -/

variable {rt : Runtime} {op : RtOp} {ops : List RtOp} {pid : ℤ} {n : ℕ} {front back : List ℤ}

/-- A runtime under round robin that keeps its configuration. -/
structure Turns (rt : Runtime) (quantum : ℕ) : Prop where
  consistent : Consistent rt
  metered : rt.roster.Metered
  algo : rt.scheduler.algo = .rr
  quantum : rt.scheduler.quantumTicks = quantum

/-- The operation neither kills nor reconfigures. -/
def RtOp.plain (op : RtOp) : Bool := op.keepsRings && !op.reconfigures

theorem RtOp.plain_iff : op.plain = true ↔ op.keepsRings = true ∧ op.reconfigures = false := by
  rw [plain, Bool.and_eq_true, Bool.not_eq_true']

theorem Turns.exec (h : Turns rt n) (hop : op.plain = true) : Turns (RtOp.exec rt op) n := by
  obtain ⟨hrings, hfixed⟩ := RtOp.plain_iff.mp hop
  have hmoves := op.rosters h.consistent
  have hquantum : ∀ ticks, op ≠ .setQuantum ticks := by
    rintro ticks rfl
    cases hfixed
  have hswitch : ∀ a, op ≠ .setScheduler a := by
    rintro a rfl
    cases hfixed
  refine ⟨op.consistent h.consistent, ?_, ?_, ?_⟩
  · exact h.metered.moves hmoves (fun ticks heq => absurd heq (hquantum ticks))
      fun a heq => absurd heq (hswitch a)
  · rw [exec_algo h.consistent hrings, h.algo]
  · exact (quantum_of_roster (hmoves.quantum h.metered.quantum_pos.ne' hquantum)).trans h.quantum

/-- The ticks after which the process behind `front` is on the CPU at the latest. -/
def due (rt : Runtime) (front : List ℤ) : ℕ :=
  rt.scheduler.quantumTicks * front.length + rt.roster.slack

theorem due_le (h : Turns rt n) (front : List ℤ) : due rt front ≤ (front.length + 1) * n := by
  have hslack : rt.roster.slack ≤ n := (Roster.slack_le h.metered).trans h.quantum.le
  rw [due, h.quantum, Nat.add_mul, Nat.one_mul, Nat.mul_comm]
  omega

/-- Who is in the ring is READY when a process is chosen. -/
theorem Turns.ready (h : Turns rt n) (hmem : pid ∈ rt.scheduler.rings 0) :
    ∃ q e, (rt.roster.prepare mlfqBoostInterval).proc q = some e ∧ e.state = .ready := by
  have ha : rt.roster.algo.IsFifo := .inr h.algo
  have hprio : (rt.roster.prepare mlfqBoostInterval).algo ≠ .prio := by
    rw [(Roster.same_prepare mlfqBoostInterval rt.roster).algo]
    exact ha.ne_prio
  have hqueued := (passPrepare_spec h.consistent.sound).1.queued
  rw [passPrepare_roster h.consistent.sound] at hqueued
  have hstays : pid ∈ (rt.roster.prepare mlfqBoostInterval).ring 0 := by
    rw [Roster.prepare_of_fifo ha, Roster.expireAll_ring ha]
    exact List.mem_append_left _ hmem
  obtain ⟨e, he, hst, -⟩ := Roster.readyIn_iff.mp (((hqueued hprio 0).2 pid).mp hstays)
  exact ⟨pid, e, he, hst⟩

/-- The slices that an operation begins and the ticks it takes of them. -/
theorem slack_exec (h : Turns rt n) (hop : op.plain = true) (hmem : pid ∈ rt.scheduler.rings 0) :
    (RtOp.exec rt op).tick = rt.tick ∧
        (RtOp.exec rt op).roster.slack ≤ rt.roster.slack + n * (op.dispatched rt).length ∨
      (RtOp.exec rt op).tick = incr64 rt.tick ∧
        (RtOp.exec rt op).roster.slack + 1 ≤ rt.roster.slack + n * (op.dispatched rt).length := by
  obtain ⟨hrings, hfixed⟩ := RtOp.plain_iff.mp hop
  have hmoves := op.rosters h.consistent
  by_cases hpass : ∃ fuel, op = .pass fuel
  · obtain ⟨fuel, rfl⟩ := hpass
    cases hp : runtimePass fuel rt with
    | none =>
      have hexec : RtOp.exec rt (.pass fuel) = rt := by
        rw [RtOp.exec, hp, Option.elim_none]
      rw [hexec]
      exact .inl ⟨rfl, Nat.le_add_right _ _⟩
    | some r =>
      obtain ⟨consumed, rt'⟩ := r
      have hroster := runtimePass_roster h.consistent hp
      have htick : rt'.tick = if consumed then incr64 rt.tick else rt.tick := hroster.tick
      have hslack := Roster.slack_pass h.metered h.algo hroster (h.ready hmem)
      have hquantum : rt.roster.quantum = n := h.quantum
      rw [hquantum, roster_picked] at hslack
      rw [exec_pass hp, dispatched_pass hp]
      generalize dispatch (passPrepare rt) = d at hslack ⊢
      cases consumed with
      | false => exact .inl ⟨htick, hslack⟩
      | true => exact .inr ⟨htick, hslack⟩
  · have hnot : ∀ fuel, op ≠ .pass fuel := fun fuel heq => hpass ⟨fuel, heq⟩
    refine .inl ⟨hmoves.tick hnot, ?_⟩
    rw [Roster.slack_moves hmoves hnot hrings hfixed]
    exact Nat.le_add_right _ _

/-- The others in front of the process get on, and it stays in the ring behind them. -/
theorem ring_exec (h : Turns rt n) (hop : op.plain = true)
    (hring : rt.scheduler.rings 0 = front ++ pid :: back) (hnot : pid ∉ op.dispatched rt) :
    ∃ front' back', front = op.dispatched rt ++ front' ∧
      (RtOp.exec rt op).scheduler.rings 0 = front' ++ pid :: back' := by
  have hstep := fifo_step h.consistent (.inr h.algo) (RtOp.plain_iff.mp hop).1
  rw [hring, List.append_assoc, List.cons_append] at hstep
  obtain ⟨front', rfl⟩ := prefix_of_append_eq hstep.symm hnot
  rw [List.append_assoc] at hstep
  exact ⟨front', _, rfl, (List.append_cancel_left hstep).symm⟩

/-- No operation raises what the process has to wait for, and a tick is a tick less of it. -/
theorem due_exec (h : Turns rt n) (hop : op.plain = true)
    (hring : rt.scheduler.rings 0 = front ++ pid :: back) (hnot : pid ∉ op.dispatched rt)
    (hroom : rt.tick + due rt front < 2 ^ 64) :
    ∃ front' back', (RtOp.exec rt op).scheduler.rings 0 = front' ++ pid :: back' ∧
      (RtOp.exec rt op).tick + due (RtOp.exec rt op) front' ≤ rt.tick + due rt front := by
  obtain ⟨front', back', rfl, hring'⟩ := ring_exec h hop hring hnot
  have hmem : pid ∈ rt.scheduler.rings 0 := by
    rw [hring]
    exact List.mem_append_right _ List.mem_cons_self
  have hslack := slack_exec h hop hmem
  have hquantum := (h.exec hop).quantum
  refine ⟨front', back', hring', ?_⟩
  have hdue : due rt (op.dispatched rt ++ front') =
      n * (op.dispatched rt).length + n * front'.length + rt.roster.slack := by
    rw [due, h.quantum, List.length_append, Nat.mul_add]
  rw [hdue] at hroom ⊢
  rw [due, hquantum]
  rcases hslack with ⟨htick, hslack⟩ | ⟨htick, hslack⟩
  · omega
  · rw [incr64, Nat.mod_eq_of_lt (by omega)] at htick
    omega

/-- A process that is not dispatched is still in the ring, with its time not yet come. -/
theorem due_run (h : Turns rt n) (hops : ∀ op ∈ ops, op.plain = true)
    (hring : rt.scheduler.rings 0 = front ++ pid :: back) (hroom : rt.tick + due rt front < 2 ^ 64)
    (hnot : pid ∉ Runs.history RtOp.exec (fun rt op => op.dispatched rt) rt ops) :
    (Runs.run RtOp.exec rt ops).tick ≤ rt.tick + due rt front := by
  induction ops generalizing rt front back with
  | nil => exact Nat.le_add_right _ _
  | cons op ops ih =>
    rw [Runs.history, List.mem_append, not_or] at hnot
    have hop := hops op List.mem_cons_self
    obtain ⟨front', back', hring', hdue⟩ := due_exec h hop hring hnot.1 hroom
    refine (ih (h.exec hop) ?_ hring' (hdue.trans_lt hroom) hnot.2).trans hdue
    exact fun op' hmem => hops op' (List.mem_cons_of_mem op hmem)

/-- **Bounded waiting.**  Under SCHED_RR, from every state of a run in which the policy was
switched only while the CPU was idle: a READY process with `front` before it in the ring is put on
the CPU before more than `(front.length + 1) * quantum` ticks have passed, whatever is created
meanwhile and however often somebody yields, as long as nobody kills or reconfigures. -/
theorem bounded_waiting (pre ops : List RtOp) (front back : List ℤ) (pid : ℤ)
    (hargs : ∀ ticks, .setQuantum ticks ∈ pre → ticks < 2 ^ 32)
    (hidle : Runs.Along RtOp.exec SwitchesIdle runtimeInit pre)
    (halgo : (Runs.run RtOp.exec runtimeInit pre).scheduler.algo = .rr)
    (hring : (Runs.run RtOp.exec runtimeInit pre).scheduler.rings 0 = front ++ pid :: back)
    (hops : ∀ op ∈ ops, op.plain = true) :
    let rt := Runs.run RtOp.exec runtimeInit pre
    let bound := (front.length + 1) * rt.scheduler.quantumTicks
    rt.tick + bound < 2 ^ 64 → rt.tick + bound < (Runs.run RtOp.exec rt ops).tick →
      pid ∈ Runs.history RtOp.exec (fun rt op => op.dispatched rt) rt ops := by
  have hturns : Turns (Runs.run RtOp.exec runtimeInit pre)
      (Runs.run RtOp.exec runtimeInit pre).scheduler.quantumTicks :=
    ⟨RtOp.run_consistent pre, run_metered hargs hidle, halgo, rfl⟩
  dsimp only
  generalize Runs.run RtOp.exec runtimeInit pre = rt at hring hturns ⊢
  intro hroom hlate
  by_contra hnot
  have hle := due_le hturns front
  have hrun := due_run hturns hops hring (by omega) hnot
  omega

/-- Two processes in the ring, with a quantum of two ticks. -/
def longThenLate : List RtOp := longJob ++ [.runWorkload ⟨"late", [⟨.cpu, 0, 0, 9⟩]⟩ 20]

set_option maxRecDepth 100000 in
/-- The second of two processes is on the CPU before the fifth tick is over. -/
theorem bounded_waiting_two :
    2 ∈ Runs.history RtOp.exec (fun rt op => op.dispatched rt)
      (Runs.run RtOp.exec runtimeInit longThenLate) (List.replicate 5 (.pass 0)) := by
  have hfacts :
      let rt := Runs.run RtOp.exec runtimeInit longThenLate
      rt.scheduler.algo = .rr ∧ rt.scheduler.rings 0 = [1, 2] ∧ rt.scheduler.quantumTicks = 2 ∧
        rt.tick = 0 ∧ (Runs.run RtOp.exec rt (List.replicate 5 (.pass 0))).tick = 5 := by
    decide +kernel
  obtain ⟨halgo, hring, hquantum, htick, hlate⟩ := hfacts
  refine bounded_waiting longThenLate _ [1] [] 2 ?_ ?_ halgo hring (by decide) ?_ ?_
  · intro ticks hmem
    simp [longThenLate, longJob] at hmem
    omega
  · refine Runs.along_of_split fun pre op post heq a hop => ?_
    have hmem : op ∈ longThenLate := by
      rw [heq]
      simp
    rw [hop] at hmem
    simp [longThenLate, longJob] at hmem
  · rw [htick, hquantum]
    decide
  · rw [htick, hquantum, hlate]
    decide

end Mosrt
