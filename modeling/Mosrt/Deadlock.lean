/-
When the runtime can do nothing any more.

A runtime is stuck if each of its processes has EXITED or is BLOCKED without a wakeup tick.  It
then idles for good: only another process could do something.  And only then: as long as a
process is READY, RUNNING or waits for a tick, some pass executes an instruction.

* `Core.Stuck.exec` — a stuck runtime stays so, whatever is done short of creating a process;
* `deadlock_iff` — a runtime is stuck exactly if no pass executes an instruction.
-/
import Mosrt.Timers
import Mosrt.StepTicks

namespace Mosrt

variable {rt : Runtime} {pid : ℤ} {fuel : ℕ}

/-! ### Stuck runtimes -/

/-- Nobody can do anything, or will be able to. -/
def Core.Stuck (c : Core) : Prop :=
  ∀ pid s, c.proc pid = some s → s.1 = .exited ∨ s.1 = .blocked ∧ s.2 = 0

/-- A pass made now executes an instruction. -/
def executes (rt : Runtime) : Bool := (dispatch (passPrepare rt)).1

theorem Core.Stuck.not_ready {c : Core} {st : ProcState} (h : c.Stuck)
    (hst : c.stateOf pid = some st) : st ≠ .ready ∧ st ≠ .running := by
  obtain ⟨w, hs⟩ := Core.proc_of_stateOf hst
  rcases h pid _ hs with hexited | ⟨hblocked, -⟩
  · rw [show st = .exited from hexited]
    decide
  · rw [show st = .blocked from hblocked]
    decide

theorem Core.Stuck.quiet {c c' : Core} (h : c.Stuck) (hq : Relation.ReflTransGen Core.Quiet c c') :
    c' = c := by
  induction hq with
  | refl => rfl
  | tail _ hlast ih =>
    rw [ih] at hlast
    cases hlast with
    | timer pid w hproc hpos =>
      rcases h pid _ hproc with hexited | ⟨-, hzero⟩
      · cases hexited
      · exact absurd hzero hpos.ne'
    | dispatch pid w _ hready => exact absurd rfl (h.not_ready (Core.stateOf_eq hready)).1

/-- A pass of a stuck runtime finds nobody. -/
theorem Core.Stuck.begins {d : Runtime} {b : Bool} (h : rt.abs.Stuck) (hbegins : Begins rt d b) :
    b = false := by
  by_contra hne
  obtain ⟨p, hcpu⟩ := hbegins.consistent.placed.onCpu (hbegins.runs ((Bool.not_eq_false _).mp hne))
  have hrun := Core.stateOf_eq hcpu.proc
  rw [h.quiet hbegins.quiet] at hrun
  exact (h.not_ready hrun).2 rfl

theorem Core.Stuck.executes (h : rt.abs.Stuck) (hcons : Consistent rt) : executes rt = false := by
  have hbegins := hcons.begins
  rw [Mosrt.executes]
  generalize (dispatch (passPrepare rt)).1 = b at hbegins ⊢
  exact h.begins hbegins

/-- Only the creation of a process helps. -/
theorem Core.Stuck.exec (h : rt.abs.Stuck) (hcons : Consistent rt) {op : RtOp}
    (hop : op.creates = false) : (RtOp.exec rt op).abs.Stuck := by
  cases (op.moves hcons).2 with
  | quiet _ hsteps =>
    rw [h.quiet hsteps]
    exact h
  | exec d fuel consumed _ hsteps hd hpos =>
    obtain ⟨p, hcpu⟩ := hd.placed.onCpu hpos
    have hrun := Core.stateOf_eq hcpu.proc
    rw [h.quiet hsteps] at hrun
    exact absurd rfl (h.not_ready hrun).2
  | spawn _ _ _ _ _ _ _ hcreates =>
    rw [hop] at hcreates
    cases hcreates
  | kill pid st _ _ _ habs =>
    intro q s hs
    rw [habs] at hs
    have hs' : (rt.abs.setProc pid .exited 0).proc q = some s := hs
    rw [Core.proc_setProc] at hs'
    split_ifs at hs'
    · rw [← Option.some.inj hs']
      exact .inl rfl
    · exact h q s hs'

/-! ### Runtimes that go on -/

/-- A pass that executes nothing takes a tick; nobody was READY, and nobody is due. -/
theorem idle_pass (hcons : Consistent rt) (hidle : executes rt = false) (fuel : ℕ) :
    (RtOp.exec rt (.pass fuel)).tick = incr64 rt.tick ∧ rt.currentPid < 0 ∧
      ∀ pid s, rt.abs.proc pid = some s → ¬ (s.1 = .blocked ∧ 0 < s.2 ∧ s.2 ≤ rt.tick) ∧
        s.1 ≠ .ready ∧ (RtOp.exec rt (.pass fuel)).abs.proc pid = some s := by
  have hbegins := hcons.begins
  have hexec : RtOp.exec rt (.pass fuel) = idleTick (dispatch (passPrepare rt)).2 := by
    rcases pass_cases rt fuel with ⟨htrue, -⟩ | ⟨-, hexec⟩
    · rw [executes, htrue] at hidle
      cases hidle
    · exact hexec
  rw [hexec]
  rw [executes] at hidle
  generalize passPrepare rt = m at hbegins hidle ⊢
  generalize dispatch m = r at hbegins hidle ⊢
  obtain ⟨hneg, -, hnone⟩ := hbegins.idles hidle
  refine ⟨congrArg incr64 hbegins.tick, hneg, fun pid s hs => ?_⟩
  have hproc : r.2.abs.proc pid = some (timed rt.tick s) := by
    rcases hbegins.proc pid with hproc | ⟨htrue, -⟩
    · rw [hproc, hs, Option.map_some]
    · cases hidle.symm.trans htrue
  have hnot : (timed rt.tick s).1 ≠ .ready := fun hready =>
    hnone pid (by rw [Core.stateOf, hproc, Option.map_some, hready])
  have hdue : ¬ (s.1 = .blocked ∧ 0 < s.2 ∧ s.2 ≤ rt.tick) := fun hdue =>
    hnot (by rw [timed, if_pos hdue])
  have hsame : timed rt.tick s = s := if_neg hdue
  rw [hsame] at hnot hproc
  rw [(idleTick_spec hbegins.consistent.sound).2]
  exact ⟨hdue, hnot, hproc⟩

/-- As long as nothing is executed the clock goes on, and a process sleeps until its tick. -/
theorem idle_passes (hcons : Consistent rt) {w : ℕ} (hs : rt.abs.proc pid = some (.blocked, w))
    (hpos : 0 < w) (k : ℕ) (hk : rt.tick + k < 2 ^ 64)
    (hidle : ∀ i ≤ k, executes (Runs.run RtOp.exec rt (List.replicate i (.pass 0))) = false) :
    (Runs.run RtOp.exec rt (List.replicate k (.pass 0))).tick = rt.tick + k ∧
      (Runs.run RtOp.exec rt (List.replicate k (.pass 0))).abs.proc pid = some (.blocked, w) ∧
        rt.tick + k < w := by
  induction k generalizing rt with
  | zero =>
    refine ⟨rfl, hs, ?_⟩
    by_contra hdue
    exact ((idle_pass hcons (hidle 0 le_rfl) 0).2.2 pid _ hs).1 ⟨rfl, hpos, not_lt.mp hdue⟩
  | succ k ih =>
    obtain ⟨htick, -, hall⟩ := idle_pass hcons (hidle 0 (Nat.zero_le _)) 0
    obtain ⟨-, -, hproc⟩ := hall pid _ hs
    have htick' : (RtOp.exec rt (.pass 0)).tick = rt.tick + 1 := by
      rw [htick, Ledger.incr64_of_lt (by omega)]
    have hidle' : ∀ i ≤ k, executes (Runs.run RtOp.exec (RtOp.exec rt (.pass 0))
        (List.replicate i (.pass 0))) = false := by
      intro i hi
      rw [← Runs.run_cons, ← List.replicate_succ]
      exact hidle (i + 1) (by omega)
    have hcons' := RtOp.consistent hcons (.pass 0)
    rw [List.replicate_succ, Runs.run_cons]
    generalize RtOp.exec rt (.pass 0) = rt' at htick' hproc hidle' hcons' ⊢
    obtain ⟨htick'', hproc', hlt⟩ := ih hcons' hproc (by omega) hidle'
    exact ⟨by omega, hproc', by omega⟩

/-- **Deadlock.**  In every reachable state: no pass executes an instruction any more, whatever
else is done short of creating a process, exactly if each process has EXITED or is BLOCKED
without a wakeup tick. -/
theorem deadlock_iff (ops : List RtOp) :
    (Runs.run RtOp.exec runtimeInit ops).abs.Stuck ↔
      ∀ ops', (∀ op ∈ ops', op.creates = false) →
        executes (Runs.run RtOp.exec (Runs.run RtOp.exec runtimeInit ops) ops') = false := by
  have hcons := RtOp.run_consistent ops
  have hentered := RtOp.run_entered ops
  have hbound := RtOp.run_tick_lt ops
  generalize Runs.run RtOp.exec runtimeInit ops = rt at hcons hentered hbound ⊢
  constructor
  · intro hstuck ops' hops
    have halong : Runs.Along RtOp.exec (fun _ op => op.creates = false) rt ops' :=
      Runs.along_of_forall hops rt
    have hrun := Runs.run_invariant (I := fun rt => Consistent rt ∧ rt.abs.Stuck)
      (fun rt op h hop => ⟨op.consistent h.1, h.2.exec h.1 hop⟩) ⟨hcons, hstuck⟩ halong
    exact hrun.2.executes hrun.1
  · intro hidle pid s hs
    have hpasses : ∀ k, executes (Runs.run RtOp.exec rt (List.replicate k (.pass 0))) = false := by
      intro k
      refine hidle _ fun op hop => ?_
      rw [List.eq_of_mem_replicate hop]
      rfl
    obtain ⟨-, hneg, hall⟩ := idle_pass hcons (hpasses 0) 0
    have hnone : ∀ pid, rt.abs.stateOf pid ≠ some .ready := by
      intro pid hst
      obtain ⟨w, hproc⟩ := Core.proc_of_stateOf hst
      exact (hall pid _ hproc).2.1 rfl
    rcases blocked_or_exited hcons.placed hentered hneg hnone hs with hblocked | hexited
    · refine .inr ⟨hblocked, ?_⟩
      -- otherwise the clock comes to the wakeup tick
      by_contra hne
      have hw := (hentered pid s hs).2
      rw [show s = (.blocked, s.2) from Prod.ext hblocked rfl] at hs
      obtain ⟨-, -, hlt⟩ := idle_passes hcons hs (Nat.pos_of_ne_zero hne) (s.2 - rt.tick)
        (by omega) fun i _ => hpasses i
      omega
    · exact .inl hexited

end Mosrt
