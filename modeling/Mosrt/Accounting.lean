/-
Accounting of time and work (`runtime_step`, `collect_metrics`).

* `times_accounted` — as long as the clock does not wrap, every tick is busy or idle, the busy
  ticks are the CPU times of all processes, and no process is charged for more than its life;
* `clock_wraps` — after 2⁶⁴ ticks a process has ended in the future;
* `work_done` — the CPU time of a process is the work that its workload says it did.

All three read the ledger that the runtime keeps (`RtOp.evolves`).
-/
import Mosrt.Operations

namespace Mosrt

open Relation

variable {rt : Runtime} {pid : ℤ} {p : Pcb} {fuel : ℕ}

/-! ### Metrics -/

/-- `metric_accum_t`. -/
structure MetricAccum where
  completed : ℕ := 0
  turnaroundSum : ℕ := 0
  responseSum : ℕ := 0
  waitSum : ℕ := 0

def collectMetrics (p : Pcb) (m : MetricAccum) : MetricAccum :=
  if p.state = .exited then
    { completed := (m.completed + 1) % 2 ^ 32
      turnaroundSum := (m.turnaroundSum + sub64 p.finishTick p.startTick) % 2 ^ 64
      waitSum := (m.waitSum + p.waitTime) % 2 ^ 64
      responseSum :=
        if p.responseTime ≠ uint64Max then (m.responseSum + p.responseTime) % 2 ^ 64
        else m.responseSum }
  else m

/-- The end of the time that a process has been there. -/
def Pcb.endTick (p : Pcb) (now : ℕ) : ℕ := if p.state = .exited then p.finishTick else now

/-- What a process is charged for lies within its life, and its life within the past. -/
structure Accounted (now : ℕ) (p : Pcb) : Prop where
  start_le : p.startTick ≤ p.endTick now
  end_le : p.endTick now ≤ now
  response : p.responseTime ≠ uint64Max → p.startTick + p.responseTime ≤ p.endTick now
  charged : p.cpuTime + p.waitTime ≤ p.endTick now - p.startTick

/-- The turnaround of a process is the length of its life: the subtraction does not underflow. -/
theorem Accounted.turnaround {now : ℕ} (h : Accounted now p) (hnow : now < 2 ^ 64)
    (hx : p.state = .exited) :
    (collectMetrics p {}).turnaroundSum + p.startTick = p.finishTick := by
  have hend : p.endTick now = p.finishTick := if_pos hx
  have hstart := h.start_le
  have hle := h.end_le
  rw [hend] at hstart hle
  have hsub : sub64 p.finishTick p.startTick = p.finishTick - p.startTick :=
    Ledger.sub64_of_le hstart (by omega)
  rw [collectMetrics, if_pos hx]
  show (0 + sub64 p.finishTick p.startTick) % 2 ^ 64 + p.startTick = p.finishTick
  rw [hsub, Nat.zero_add, Nat.mod_eq_of_lt (by omega)]
  omega

/-! ### Time -/

theorem account_init (pid : ℤ) : runtimeInit.ledger.account pid = none := by
  show (procGet runtimeInit.procs pid).map _ = none
  rw [procGet_init]
  rfl

theorem balanced_init : runtimeInit.ledger.Balanced where
  clock := rfl
  bound := by
    show 0 < 2 ^ 64
    omega
  total := by
    refine Finset.sum_eq_zero fun pid _ => ?_
    rw [Ledger.cpuOf, account_init]
    rfl
  covers := by
    intro pid a ha
    rw [account_init] at ha
    cases ha
  range := fun pid hne => absurd (account_init pid) hne

/-- The clock has room for an operation after which it has not gone back. -/
theorem RtOp.evolves_forward (h : Consistent rt) (hb : rt.ledger.Balanced) (op : RtOp)
    (hle : rt.tick ≤ (RtOp.exec rt op).tick) :
    Ledger.Evolves True (op.removed rt) rt.ledger (RtOp.exec rt op).ledger := by
  by_cases hroom : rt.tick + 1 < 2 ^ 64
  · exact RtOp.evolves h op fun _ => hroom
  · have hbound : rt.tick < 2 ^ 64 := hb.bound
    have hev : Ledger.Evolves False (op.removed rt) rt.ledger (RtOp.exec rt op).ledger :=
      RtOp.evolves h op False.elim
    generalize RtOp.exec rt op = rt' at hle hev ⊢
    cases hev with
    | still hs => exact .still hs
    | tick l₁ l₂ h₁ h₂ h₃ =>
      -- a tick would set the clock back to zero
      have htick : rt'.tick = incr64 rt.tick := by
        have h₂' := h₂.tick
        rw [(Ledger.stirs_clock h₁).1] at h₂'
        exact (Ledger.stirs_clock h₃).1.trans h₂'
      rw [htick, incr64] at hle
      omega

theorem Ledger.Covers.accounted {now : ℕ} (h : Ledger.Covers now p.account) : Accounted now p :=
  ⟨h.start_le, h.end_le, h.response, h.charged⟩

theorem RtOp.run_balanced {ops : List RtOp}
    (hclock : Runs.Along RtOp.exec (fun rt op => rt.tick ≤ (RtOp.exec rt op).tick)
      runtimeInit ops) :
    Consistent (Runs.run RtOp.exec runtimeInit ops) ∧
      (Runs.run RtOp.exec runtimeInit ops).ledger.Balanced :=
  Runs.run_invariant (I := fun rt => Consistent rt ∧ rt.ledger.Balanced)
    (fun _ op h hle => ⟨op.consistent h.1, h.2.evolves (op.evolves_forward h.1 h.2 hle)⟩)
    ⟨runtimeInit_consistent, balanced_init⟩ hclock

/-- A process that was never BLOCKED is charged for all its life. -/
theorem RtOp.run_even (pid : ℤ) {ops : List RtOp}
    (hclock : Runs.Along RtOp.exec (fun rt op => rt.tick ≤ (RtOp.exec rt op).tick)
      runtimeInit ops)
    (hfree : ∀ before after, ops = before ++ after →
      ∀ q, procGet (Runs.run RtOp.exec runtimeInit before).procs pid = some q →
        q.state ≠ .blocked) :
    (Runs.run RtOp.exec runtimeInit ops).ledger.Even pid := by
  have hfrees : Runs.Along RtOp.exec (fun rt _ => rt.ledger.Free pid) runtimeInit ops := by
    refine Runs.along_of_split fun before op after hops a ha => ?_
    obtain ⟨q, hq, rfl⟩ := Option.map_eq_some_iff.mp ha
    exact hfree before (op :: after) hops q hq
  have hinv := Runs.run_invariant
    (I := fun rt => (Consistent rt ∧ rt.ledger.Balanced) ∧ rt.ledger.Even pid)
    (fun rt op h hok => by
      obtain ⟨⟨hc, hb⟩, he⟩ := h
      have hev := op.evolves_forward hc hb hok.1
      exact ⟨⟨op.consistent hc, hb.evolves hev⟩, he.evolves hb hok.2 hev⟩)
    ⟨⟨runtimeInit_consistent, balanced_init⟩, fun a ha => by
      rw [account_init] at ha
      cases ha⟩ (hclock.and hfrees)
  exact hinv.2

/-- **Accounting.**  In every run in which the clock never goes back, time is accounted for. -/
theorem times_accounted (ops : List RtOp)
    (hclock : Runs.Along RtOp.exec (fun rt op => rt.tick ≤ (RtOp.exec rt op).tick)
      runtimeInit ops) :
    let rt := Runs.run RtOp.exec runtimeInit ops
    rt.tick = rt.busyTicks + rt.idleTicks ∧
    ∑ pid ∈ Finset.Icc (1 : ℤ) mosrtMaxProcs,
      ((procGet rt.procs pid).map (·.cpuTime)).getD 0 = rt.busyTicks ∧
    ∀ pid p, procGet rt.procs pid = some p →
      (1 ≤ pid ∧ pid ≤ mosrtMaxProcs) ∧
      Accounted rt.tick p ∧
      ((∀ before after, ops = before ++ after →
          ∀ q, procGet (Runs.run RtOp.exec runtimeInit before).procs pid = some q →
            q.state ≠ .blocked) →
        p.cpuTime + p.waitTime = p.endTick rt.tick - p.startTick) ∧
      (p.state = .exited → (collectMetrics p {}).turnaroundSum + p.startTick = p.finishTick) := by
  intro rt
  obtain ⟨-, hb⟩ := RtOp.run_balanced hclock
  have heven := fun pid => RtOp.run_even pid hclock
  change Ledger.Balanced rt.ledger at hb
  refine ⟨hb.clock, ?_, fun pid p hp => ?_⟩
  · refine Eq.trans (Finset.sum_congr rfl fun pid _ => ?_) hb.total
    show _ = (((procGet rt.procs pid).map _).map _).getD 0
    rw [Option.map_map]
    rfl
  · have hacc : rt.ledger.account pid = some p.account := congrArg (Option.map Pcb.account) hp
    have hcover := (hb.covers pid p.account hacc).accounted
    refine ⟨hb.range pid (by rw [hacc]; exact Option.some_ne_none _), hcover, fun hfree => ?_,
      hcover.turnaround hb.bound⟩
    exact heven pid hfree p.account hacc

set_option maxRecDepth 100000 in
/-- A process computes for two ticks and ends. -/
theorem times_accounted_burst :
    ∃ p, procGet (Runs.run RtOp.exec runtimeInit [.runWorkload ⟨"job", [⟨.cpu, 0, 0, 2⟩,
        ⟨.exit, 0, 0, 0⟩]⟩ 0, .pass 0, .pass 0, .pass 0]).procs 1 = some p ∧
      p.state = .exited ∧ Accounted 2 p := by
  obtain ⟨ops, hops⟩ : ∃ ops : List RtOp, [.runWorkload ⟨"job", [⟨.cpu, 0, 0, 2⟩,
    ⟨.exit, 0, 0, 0⟩]⟩ 0, .pass 0, .pass 0, .pass 0] = ops := ⟨_, rfl⟩
  have hclock : Runs.Along RtOp.exec (fun rt op => rt.tick ≤ (RtOp.exec rt op).tick)
      runtimeInit ops := by
    rw [← hops]
    decide +kernel
  have hrun : (Runs.run RtOp.exec runtimeInit ops).tick = 2 ∧
      (procGet (Runs.run RtOp.exec runtimeInit ops).procs 1).map (·.state) = some .exited := by
    rw [← hops]
    decide +kernel
  obtain ⟨p, hp, hx⟩ := Option.map_eq_some_iff.mp hrun.2
  have hacc := ((times_accounted ops hclock).2.2 1 p hp).2.1
  rw [hrun.1] at hacc
  rw [hops]
  exact ⟨p, hp, hx, hacc⟩

/-! ### The clock wraps -/

theorem dispatch_of_ended (hs : rt.Sound) (hplaced : rt.abs.Placed) (hended : rt.ledger.Ended) :
    (dispatch rt).1 = false ∧ (dispatch rt).2.ledger = rt.ledger := by
  have hsame : (dispatch rt).2.ledger = rt.ledger := hended.stirs (dispatch_stirs rt)
  obtain ⟨-, ⟨-, hpos, hsteps⟩ | ⟨hfalse, -⟩⟩ := dispatch_spec hs hplaced
  · -- the process dispatched would be RUNNING
    obtain ⟨p, hcpu⟩ := (hplaced.steps hsteps).onCpu hpos
    have hacc : (dispatch rt).2.ledger.account (dispatch rt).2.currentPid = some p.account :=
      congrArg (Option.map Pcb.account) hcpu.get
    rw [hsame] at hacc
    have hx : p.state = .exited := hended _ _ hacc
    rw [hcpu.running] at hx
    cases hx
  · exact ⟨hfalse, hsame⟩

/-- When everybody has ended, time passes and nothing else happens. -/
theorem pass_of_ended (h : Consistent rt) (hended : rt.ledger.Ended) (fuel : ℕ) :
    (RtOp.exec rt (.pass fuel)).ledger.account = rt.ledger.account ∧
      (RtOp.exec rt (.pass fuel)).tick = incr64 rt.tick := by
  obtain ⟨hs, hsteps⟩ := passPrepare_spec h.sound
  have hprepare : (passPrepare rt).ledger = rt.ledger := hended.stirs (passPrepare_stirs rt)
  obtain ⟨hfalse, hd⟩ := dispatch_of_ended hs (h.placed.steps hsteps)
    (by rw [hprepare]; exact hended)
  have hpass : (RtOp.exec rt (.pass fuel)).ledger = rt.ledger.idleTick := by
    rw [RtOp.exec, runtimePass]
    rw [if_neg (by rw [hfalse]; exact Bool.false_ne_true)]
    rw [Option.elim_some, ledger_idleTick, hd, hprepare]
  refine ⟨by rw [hpass]; exact hended.idleTick_account, ?_⟩
  rw [← ledger_tick, hpass]
  rfl

theorem passes_of_ended (h : Consistent rt) (hended : rt.ledger.Ended) (hbound : rt.tick < 2 ^ 64)
    (fuel n : ℕ) :
    (Runs.run RtOp.exec rt (List.replicate n (.pass fuel))).ledger.account = rt.ledger.account ∧
      (Runs.run RtOp.exec rt (List.replicate n (.pass fuel))).tick = (rt.tick + n) % 2 ^ 64 := by
  induction n generalizing rt with
  | zero => exact ⟨rfl, (Nat.mod_eq_of_lt hbound).symm⟩
  | succ n ih =>
    obtain ⟨hacc, htick⟩ := pass_of_ended h hended fuel
    have hconsistent := RtOp.consistent h (.pass fuel)
    rw [List.replicate_succ, Runs.run_cons]
    generalize RtOp.exec rt (.pass fuel) = rt' at hacc htick hconsistent ⊢
    have hended' : rt'.ledger.Ended := by
      intro pid a ha
      rw [hacc] at ha
      exact hended pid a ha
    rw [incr64] at htick
    obtain ⟨hacc', htick'⟩ := ih hconsistent hended' (by omega)
    exact ⟨hacc'.trans hacc, by rw [htick']; omega⟩

/-- A process is created and killed at tick `1`. -/
def killedAtOne : List RtOp := [.pass 0, .runWorkload {} 0, .kill 1]

set_option maxRecDepth 100000 in
theorem killedAtOne_run :
    (∀ i < mosrtMaxProcs, ∀ p ∈ procGet (Runs.run RtOp.exec runtimeInit killedAtOne).procs (i + 1),
      p.state = .exited) ∧
    (Runs.run RtOp.exec runtimeInit killedAtOne).tick = 1 ∧
    (procGet (Runs.run RtOp.exec runtimeInit killedAtOne).procs 1).map (·.finishTick) = some 1 := by
  decide +kernel

/-- 2⁶⁴ ticks later its end lies in the future. -/
theorem clock_wraps :
    let rt := Runs.run RtOp.exec runtimeInit
      (killedAtOne ++ List.replicate (2 ^ 64 - 1) (.pass 0))
    ∃ p, procGet rt.procs 1 = some p ∧ p.state = .exited ∧ ¬ p.endTick rt.tick ≤ rt.tick := by
  obtain ⟨hx, htick, hfinish⟩ := killedAtOne_run
  have hconsistent := RtOp.run_consistent killedAtOne
  dsimp only
  rw [Runs.run_append]
  generalize Runs.run RtOp.exec runtimeInit killedAtOne = rt at hx htick hfinish hconsistent ⊢
  have hended : rt.ledger.Ended := by
    intro pid a ha
    obtain ⟨p, hp, rfl⟩ := Option.map_eq_some_iff.mp ha
    have hrange := procGet_range hp
    have hpid : ((pid - 1).toNat : ℤ) + 1 = pid := by omega
    exact hx (pid - 1).toNat (by omega) p (by rw [hpid]; exact hp)
  obtain ⟨hacc, htick'⟩ := passes_of_ended hconsistent hended (by omega) 0 (2 ^ 64 - 1)
  generalize Runs.run RtOp.exec rt (List.replicate (2 ^ 64 - 1) (.pass 0)) = rt' at hacc htick' ⊢
  obtain ⟨p, hp, hpfin⟩ := Option.map_eq_some_iff.mp hfinish
  have hpx : p.state = .exited := hx 0 (by decide) p hp
  have hnow : rt'.tick = 0 := by omega
  have hacc₁ : rt'.ledger.account 1 = some p.account := by
    rw [hacc]
    exact congrArg (Option.map Pcb.account) hp
  obtain ⟨q, hq, hqp⟩ := Option.map_eq_some_iff.mp hacc₁
  have hqx : q.state = .exited := (congrArg Account.state hqp).trans hpx
  have hqfin : q.finishTick = 1 := (congrArg Account.finish hqp).trans hpfin
  refine ⟨q, hq, hqx, ?_⟩
  rw [Pcb.endTick, if_pos hqx, hqfin, hnow]
  omega

/-! ### Work -/

theorem worked_init : runtimeInit.ledger.Worked := by
  intro pid a j ha
  rw [account_init] at ha
  cases ha

theorem RtOp.run_worked (ops : List RtOp) :
    (Runs.run RtOp.exec runtimeInit ops).ledger.Worked :=
  RtOp.run_ledger worked_init (fun _ _ _ hev h => h.evolves hev) ops

/-- Only a kill takes the slot of a process away. -/
theorem RtOp.run_kept (ops : List RtOp) :
    (Runs.run RtOp.exec runtimeInit ops).ledger.Kept
      (Runs.history RtOp.exec RtOp.removed runtimeInit ops) := by
  have hstep : ∀ (rt : Runtime) (gone : List ℤ) (op : RtOp),
      Consistent rt ∧ rt.ledger.Kept gone → True →
        Consistent (RtOp.exec rt op) ∧ (RtOp.exec rt op).ledger.Kept (gone ++ op.removed rt) := by
    intro rt gone op h _
    have hev : Ledger.Evolves False (op.removed rt) rt.ledger (RtOp.exec rt op).ledger :=
      RtOp.evolves h.1 op False.elim
    exact ⟨op.consistent h.1, h.2.evolves hev⟩
  have hinv := Runs.run_history (I := fun rt gone => Consistent rt ∧ rt.ledger.Kept gone) hstep
    (h := []) ⟨runtimeInit_consistent, fun pid ha => absurd (account_init pid) ha⟩
    (Runs.along_true runtimeInit ops)
  exact hinv.2

/-- A process that stands at an `EXIT` has executed what comes before the first one. -/
theorem Job.Ok.before_exit {j : Job} {insn : WorkloadInsn} (h : j.Ok)
    (hinsn : j.insns[j.pc]? = some insn) (hop : insn.op = .exit) :
    j.done = Job.burstTicks (j.insns.takeWhile fun insn => insn.op ≠ .exit) := by
  have hspent : j.spent = 0 := by
    rw [Job.spent, hinsn]
    exact if_neg fun hcpu => by
      rw [hop] at hcpu
      cases hcpu.1
  have hsplit : j.insns = j.insns.take j.pc ++ insn :: j.insns.drop (j.pc + 1) := by
    obtain ⟨hlt, hget⟩ := List.getElem?_eq_some_iff.mp hinsn
    rw [← hget, List.getElem_cons_drop, List.take_append_drop]
  have htake : (j.insns.takeWhile fun insn => insn.op ≠ .exit) = j.insns.take j.pc := by
    rw [hsplit, List.takeWhile_append_of_pos (by simpa using h.noExit),
      List.takeWhile_cons_of_neg (by simpa using hop), List.append_nil, ← hsplit]
  rw [Job.done, hspent, htake, Nat.add_zero]

/-- **Work done.**  In every run, under every policy: the CPU time of a process that was not
killed is the number of ticks of the bursts it has executed, and of all bursts before its first
`EXIT` when it stands there. -/
theorem work_done (ops : List RtOp) (pid : ℤ) (p : Pcb) :
    let rt := Runs.run RtOp.exec runtimeInit ops
    procGet rt.procs pid = some p →
    pid ∉ Runs.history RtOp.exec RtOp.removed runtimeInit ops →
    ∃ idx, slotIndex rt pid = some idx ∧ p.cpuTime = (rt.slots idx).job.done % 2 ^ 64 ∧
      ∀ insn, (rt.slots idx).workload.insns[(rt.slots idx).pc]? = some insn → insn.op = .exit →
        p.cpuTime = Job.burstTicks
          ((rt.slots idx).workload.insns.takeWhile fun insn => insn.op ≠ .exit) % 2 ^ 64 := by
  intro rt hp hkept
  have hworked := RtOp.run_worked ops
  have hslot := RtOp.run_kept ops pid
  have hacc : rt.ledger.account pid = some p.account := congrArg (Option.map Pcb.account) hp
  have hjob := hslot (by rw [hacc]; exact Option.some_ne_none _) hkept
  cases hidx : slotIndex rt pid with
  | none => exact absurd (congrArg (Option.map fun i => (rt.slots i).job) hidx) hjob
  | some idx =>
    obtain ⟨hok, hcpu⟩ := hworked pid p.account (rt.slots idx).job hacc
      (congrArg (Option.map fun i => (rt.slots i).job) hidx)
    refine ⟨idx, rfl, hcpu, fun insn hinsn hop => ?_⟩
    have hdone := hok.before_exit hinsn hop
    rw [hdone] at hcpu
    exact hcpu

/-- One tick of a burst of two. -/
def halfBurst : List RtOp :=
  [.runWorkload ⟨"job", [⟨.cpu, 0, 0, 2⟩, ⟨.exit, 0, 0, 0⟩]⟩ 0, .pass 0]

set_option maxRecDepth 100000 in
theorem work_done_halfway :
    let rt := Runs.run RtOp.exec runtimeInit halfBurst
    ∃ p idx, procGet rt.procs 1 = some p ∧ p.cpuTime = 1 ∧
      p.cpuTime = (rt.slots idx).job.done % 2 ^ 64 := by
  have hcpu : (procGet (Runs.run RtOp.exec runtimeInit halfBurst).procs 1).map (·.cpuTime) =
      some 1 := by decide +kernel
  obtain ⟨p, hp, hone⟩ := Option.map_eq_some_iff.mp hcpu
  obtain ⟨idx, -, hdone, -⟩ := work_done halfBurst 1 p hp List.not_mem_nil
  exact ⟨p, idx, hp, hone, hdone⟩

end Mosrt
