/-
Consistency of the runtime and its scheduler (`runtime_consistent`).

In every run, the CPU, the process states and the ready structure of the active
policy agree, an EXITED process stays EXITED, and idle ticks are counted when nobody
is READY.
-/
import Mosrt.Operations

namespace Mosrt

variable {rt : Runtime} {pid : ℤ} {p : Pcb}

theorem RtOp.idle (h : Consistent rt) (op : RtOp)
    (hne : (RtOp.exec rt op).idleTicks ≠ rt.idleTicks) : NobodyReady (RtOp.exec rt op).procs := by
  by_cases hop : ∃ fuel, op = .pass fuel
  · obtain ⟨fuel, rfl⟩ := hop
    exact (runtimePass_spec h fuel).2.2 hne
  · -- no other operation takes time
    have hsteps := op.steps h.sound fun fuel hf => hop ⟨fuel, hf⟩
    exact absurd hsteps.clock.2 hne

theorem RtOp.run_exited (h : Consistent rt) (ops : List RtOp)
    (hx : rt.abs.stateOf pid = some .exited) :
    (Runs.run RtOp.exec rt ops).abs.stateOf pid = some .exited := by
  have hinv : Consistent (Runs.run RtOp.exec rt ops) ∧
      (Runs.run RtOp.exec rt ops).abs.stateOf pid = some .exited :=
    Runs.run_invariant (I := fun r => Consistent r ∧ r.abs.stateOf pid = some .exited)
      (fun _ op hr _ => ⟨RtOp.consistent hr.1 op, (op.moves hr.1).2.exited hr.2⟩) ⟨h, hx⟩
      (Runs.along_true _ _)
  exact hinv.2

/-- Where the active policy keeps a READY process. -/
theorem Sound.active_count {l : ℕ} (h : rt.Sound) (hp : procGet rt.procs pid = some p)
    (hready : p.state = .ready) :
    (rt.scheduler.active l).count pid =
      if l = (if rt.scheduler.algo = .mlfq then p.mlfqLevel else 0) then 1 else 0 := by
  obtain ⟨hnodup, hmem⟩ := h.tracked l
  have hlevel : rt.scheduler.algo.levelOf p =
      if rt.scheduler.algo = .mlfq then p.mlfqLevel else 0 := by
    have := h.shape.level pid p hp
    rw [SchedAlgo.levelOf, mlfqLevel, if_neg (not_le.mpr this)]
  rw [hnodup.count, ← hlevel]
  refine if_congr ?_ rfl rfl
  rw [hmem, readyLevel_eq_some]
  constructor
  · rintro ⟨q, hq, -, hl⟩
    rw [hp] at hq
    cases hq
    exact hl.symm
  · intro hl
    exact ⟨p, hp, hready, hl.symm⟩

/-- **Consistency of runtime and scheduler.**  After any run: at most one process is RUNNING, the
one `current_pid` names; the active ready structure holds each READY process once, under MLFQ in
the queue of its level, and nothing else; an EXITED process stays EXITED whatever follows; and an
operation that counts an idle tick ends with no process READY.  By `runtimeStep_passes`, the
calls of `runtime_step` are runs of passes. -/
theorem runtime_consistent (before after : List RtOp) (op : RtOp) :
    let rt := Runs.run RtOp.exec runtimeInit before
    (∀ pid p, procGet rt.procs pid = some p → p.state = .running → rt.currentPid = pid) ∧
    (rt.currentPid = -1 ∨ ∃ p, procGet rt.procs rt.currentPid = some p ∧ p.state = .running) ∧
    (∀ pid p l, procGet rt.procs pid = some p → p.state = .ready →
      (rt.scheduler.active l).count pid =
        if l = (if rt.scheduler.algo = .mlfq then p.mlfqLevel else 0) then 1 else 0) ∧
    (∀ pid l, (∀ p, procGet rt.procs pid = some p → p.state ≠ .ready) →
      pid ∉ rt.scheduler.active l) ∧
    (∀ pid p, procGet rt.procs pid = some p → p.state = .exited →
      ∃ q, procGet (Runs.run RtOp.exec rt after).procs pid = some q ∧ q.state = .exited) ∧
    ((RtOp.exec rt op).idleTicks ≠ rt.idleTicks → NobodyReady (RtOp.exec rt op).procs) := by
  intro rt
  have h : Consistent rt := RtOp.run_consistent before
  refine ⟨fun pid p hp hrun => ?_, ?_, fun pid p l hp hready => ?_, fun pid l hnot hmem => ?_,
    fun pid p hp hx => ?_, op.idle h⟩
  · have hst := abs_stateOf hp
    rw [hrun] at hst
    exact (h.placed.running pid hst).symm
  · rcases h.placed.current with hc | hc
    · exact .inl hc
    · exact .inr (procGet_of_stateOf hc)
  · exact Sound.active_count h.sound hp hready
  · obtain ⟨p, hp, hready, -⟩ := readyLevel_eq_some.mp (((h.sound.tracked l).2 pid).mp hmem)
    exact hnot p hp hready
  · have hst := abs_stateOf hp
    rw [hx] at hst
    exact procGet_of_stateOf (RtOp.run_exited h after hst)

end Mosrt
