/-
What precedes the instruction of a pass, process by process.

* `passPrepare_proc` — exactly the BLOCKED processes whose wakeup tick has come turn READY;
  aging, rebuilding and boosts do not show;
* `Consistent.begins` — then the process on the CPU stays there, or a READY one is put there, or
  there is none;
* `RtOp.run_entered` — no process is NEW between two operations, and wakeup ticks are 64-bit
  numbers, so that the clock comes to each of them.
-/
import Mosrt.Programs

namespace Mosrt

/-- State and wakeup tick. -/
def RosterEntry.standing (e : RosterEntry) : ProcState × ℕ := (e.state, e.wakeup)

/-- What the timers make of a process. -/
def timed (now : ℕ) (s : ProcState × ℕ) : ProcState × ℕ :=
  if s.1 = .blocked ∧ 0 < s.2 ∧ s.2 ≤ now then (.ready, 0) else s

theorem timed_timed (now : ℕ) (s : ProcState × ℕ) : timed now (timed now s) = timed now s := by
  by_cases hdue : s.1 = .blocked ∧ 0 < s.2 ∧ s.2 ≤ now
  · have hready : timed now s = (.ready, 0) := if_pos hdue
    rw [hready]
    rfl
  · have hsame : timed now s = s := if_neg hdue
    rw [hsame, hsame]

namespace Roster

variable {r : Roster} {pid : ℤ}

theorem ready_standing (r : Roster) (q pid : ℤ) (e : RosterEntry) :
    ((r.ready q e).proc pid).map RosterEntry.standing =
      if pid = q then some (.ready, e.wakeup) else (r.proc pid).map RosterEntry.standing := by
  show (Function.update r.proc q (some (e.turn .ready r.tick)) pid).map RosterEntry.standing = _
  rw [Function.update_apply]
  split_ifs <;> rfl

theorem expire_standing (r : Roster) (q pid : ℤ) :
    ((r.expire q).proc pid).map RosterEntry.standing =
      if pid = q then ((r.proc pid).map RosterEntry.standing).map (timed r.tick)
      else (r.proc pid).map RosterEntry.standing := by
  rw [expire]
  split
  · next hnone =>
    split_ifs with hq
    · rw [hq, hnone]
      rfl
    · rfl
  · next e he =>
    by_cases hdue : r.Due e
    · have htimed : timed r.tick e.standing = (.ready, 0) := if_pos hdue
      rw [if_pos hdue, ready_standing]
      split_ifs with hq
      · rw [hq, he, Option.map_some, Option.map_some, htimed]
      · rfl
    · have htimed : timed r.tick e.standing = e.standing := if_neg hdue
      rw [if_neg hdue]
      split_ifs with hq
      · rw [hq, he, Option.map_some, Option.map_some, htimed]
      · rfl

/-- The pass over the table, up to any of its entries. -/
theorem foldl_expire_standing (pids : List ℤ) (r : Roster) (pid : ℤ) :
    ((pids.foldl expire r).proc pid).map RosterEntry.standing =
      if pid ∈ pids then ((r.proc pid).map RosterEntry.standing).map (timed r.tick)
      else (r.proc pid).map RosterEntry.standing := by
  induction pids generalizing r with
  | nil => exact (if_neg List.not_mem_nil).symm
  | cons q pids ih =>
    have hidem : timed r.tick ∘ timed r.tick = timed r.tick := funext (timed_timed r.tick)
    rw [List.foldl_cons, ih, (same_expire r q).tick, expire_standing]
    by_cases hq : pid = q
    · have hmem : pid ∈ q :: pids := hq ▸ List.mem_cons_self
      rw [if_pos hq, if_pos hmem, Option.map_map, hidem, ite_self]
    · rw [if_neg hq]
      simp only [List.mem_cons, hq, false_or]

theorem mapProc_standing {f : RosterEntry → RosterEntry} (r : Roster) (pid : ℤ)
    (hf : ∀ e, (f e).standing = e.standing) :
    ((r.mapProc f).proc pid).map RosterEntry.standing = (r.proc pid).map RosterEntry.standing := by
  show ((r.proc pid).map f).map _ = _
  rw [Option.map_map]
  exact congrArg (fun g => (r.proc pid).map g) (funext hf)

theorem age_standing (r : Roster) (pid : ℤ) :
    (r.age.proc pid).map RosterEntry.standing = (r.proc pid).map RosterEntry.standing := by
  rw [age]
  split_ifs
  · refine mapProc_standing r pid fun e => ?_
    rw [RosterEntry.age]
    split_ifs <;> rfl
  · rfl

theorem boost_standing (interval : ℕ) (r : Roster) (pid : ℤ) :
    ((r.boost interval).proc pid).map RosterEntry.standing =
      (r.proc pid).map RosterEntry.standing := by
  rw [boost]
  split_ifs
  · refine mapProc_standing r pid fun e => ?_
    rw [RosterEntry.boost]
    split_ifs <;> rfl
  · rfl

theorem rebuildPrio_standing (r : Roster) (pid : ℤ) :
    (r.rebuildPrio.proc pid).map RosterEntry.standing = (r.proc pid).map RosterEntry.standing := by
  rw [rebuildPrio]
  split_ifs <;> rfl

theorem prepare_standing (interval : ℕ) (r : Roster) (hpid : pid ∈ allPids) :
    ((r.prepare interval).proc pid).map RosterEntry.standing =
      ((r.proc pid).map RosterEntry.standing).map (timed r.tick) := by
  rw [prepare, boost_standing, rebuildPrio_standing, age_standing, expireAll,
    foldl_expire_standing, if_pos hpid]

end Roster

variable {rt rt' d : Runtime} {pid : ℤ} {p : Pcb} {f : Pcb → Pcb} {idx fuel : ℕ}
  {insn : WorkloadInsn}

theorem abs_proc_roster (rt : Runtime) (pid : ℤ) :
    rt.abs.proc pid = (rt.roster.proc pid).map RosterEntry.standing := by
  show _ = ((procGet rt.procs pid).map Pcb.entry).map _
  rw [Option.map_map]
  rfl

/-- Before a process is chosen, the timers alone can be seen. -/
theorem passPrepare_proc (h : rt.Sound) (pid : ℤ) :
    (passPrepare rt).abs.proc pid = (rt.abs.proc pid).map (timed rt.tick) := by
  by_cases hpid : pid ∈ allPids
  · rw [abs_proc_roster, passPrepare_roster h, Roster.prepare_standing _ _ hpid, abs_proc_roster]
    rfl
  · have hnone : ∀ rt : Runtime, rt.abs.proc pid = none := by
      intro rt
      rw [abs_proc_roster]
      cases he : rt.roster.proc pid with
      | none => rfl
      | some e => exact absurd (mem_allPids he) hpid
    rw [hnone, hnone]
    rfl

/-- What a pass has come to when it looked for a process; the flag says whether there is one. -/
structure Begins (rt d : Runtime) (b : Bool) : Prop where
  consistent : Consistent d
  tick : d.tick = rt.tick
  busy : d.busyTicks = rt.busyTicks
  job : d.ledger.job = rt.ledger.job
  runs : b = true → 0 ≤ d.currentPid
  quiet : Relation.ReflTransGen Core.Quiet rt.abs d.abs
  proc : ∀ pid, d.abs.proc pid = (rt.abs.proc pid).map (timed rt.tick) ∨ b = true ∧
    ∃ w, (rt.abs.proc pid).map (timed rt.tick) = some (.ready, w) ∧
      d.abs.proc pid = some (.running, w)
  idles : b = false → rt.currentPid < 0 ∧ d.currentPid < 0 ∧ ∀ pid, d.abs.stateOf pid ≠ some .ready

theorem chosen_proc {m : Runtime} {b : Bool} (h : m.roster.Dispatches b d.roster) (pid : ℤ) :
    d.abs.proc pid = m.abs.proc pid ∨ b = true ∧
      ∃ w, m.abs.proc pid = some (.ready, w) ∧ d.abs.proc pid = some (.running, w) := by
  rw [abs_proc_roster, abs_proc_roster]
  generalize d.roster = r at h ⊢
  cases h with
  | stays | nobody => exact .inl rfl
  | picks q e l rest _ _ he hready =>
    have hpick : (m.roster.pick q e l rest).proc =
        Function.update m.roster.proc q (some (e.turn .running m.roster.tick)) := rfl
    rw [hpick, Function.update_apply]
    split_ifs with hq
    · refine .inr ⟨rfl, e.wakeup, ?_, rfl⟩
      rw [hq, he, ← hready]
      rfl
    · exact .inl rfl

theorem nobody_chosen {m : Runtime} (h : m.roster.Dispatches false d.roster) :
    m.currentPid < 0 ∧ d.currentPid < 0 ∧ ∀ pid, m.abs.stateOf pid ≠ some .ready := by
  have hcur : d.currentPid = d.roster.current := rfl
  rw [hcur]
  generalize d.roster = r at h ⊢
  cases h with
  | nobody hidle hnone =>
    refine ⟨hidle, hidle, fun pid hst => ?_⟩
    obtain ⟨p, hp, hready⟩ := procGet_of_stateOf hst
    exact hnone pid p.entry (roster_proc hp) hready

theorem Consistent.begins (h : Consistent rt) :
    Begins rt (dispatch (passPrepare rt)).2 (dispatch (passPrepare rt)).1 := by
  obtain ⟨hcons, hruns⟩ := h.prepared
  have hprep := passPrepare_proc h.sound
  have hcur := passPrepare_current h.sound
  obtain ⟨hsound, hquiet⟩ := passPrepare_spec h.sound
  have hroster := dispatch_roster hsound
  have hdispatch := (dispatch_spec hsound (h.placed.steps hquiet)).2
  have hstirs := (passPrepare_stirs rt).trans (dispatch_stirs (passPrepare rt))
  generalize passPrepare rt = m at hcons hruns hprep hcur hquiet hroster hdispatch hstirs ⊢
  generalize dispatch m = r at hcons hruns hroster hdispatch hstirs ⊢
  obtain ⟨b, d⟩ := r
  dsimp only at hcons hruns hroster hdispatch ⊢
  have hsteps : Steps [] rt d := Ledger.Stir.steps hstirs
  have hclock := Ledger.steps_clock hsteps
  refine ⟨hcons, hclock.1, hclock.2.1, Ledger.stirs_job hstirs, hruns, ?_, fun pid => ?_, ?_⟩
  · rcases hdispatch with ⟨-, -, hput⟩ | ⟨-, habs, -⟩
    · exact hquiet.trans hput
    · rw [habs]
      exact hquiet
  · rw [← hprep]
    exact chosen_proc hroster pid
  · rintro rfl
    obtain ⟨hm, hd, hnone⟩ := nobody_chosen hroster
    refine ⟨hcur ▸ hm, hd, fun pid hst => ?_⟩
    rcases chosen_proc hroster pid with hsame | ⟨htrue, -⟩
    · rw [Core.stateOf, hsame] at hst
      exact hnone pid hst
    · cases htrue

/-! ### What every process keeps -/

/-- After a tick of a burst the process is still on the CPU, or READY. -/
theorem tick_proc (h : AtInsn d p idx insn) (n : ℕ) : ∃ st, (st = .ready ∨ st = .running) ∧
    (maybePreempt (spendTick d idx n)).abs.proc =
      Function.update d.abs.proc d.currentPid (some (st, p.wakeupTick)) := by
  obtain ⟨hs, ⟨next, habs⟩, q, hq, hwake⟩ := spendTick_spec h n
  rcases (maybePreempt_spec _ hs hq).2 with hpre | hpre
  · refine ⟨.running, .inr rfl, ?_⟩
    rw [hpre, habs]
    exact (Function.update_eq_self_iff.mpr h.cpu.proc.symm).symm
  · refine ⟨.ready, .inl rfl, ?_⟩
    rw [hpre, hwake, habs]
    rfl

/-- No process is NEW, and wakeup ticks are 64-bit numbers. -/
def ProcTable.Entered (t : ProcTable) : Prop :=
  ∀ pid p, procGet t pid = some p → p.state ≠ .new ∧ p.wakeupTick < 2 ^ 64

namespace ProcTable.Entered

variable {t : ProcTable}

theorem modify (h : t.Entered) (hf : KeepsId f) (pid : ℤ)
    (hnew : ∀ p, p.state ≠ .new ∧ p.wakeupTick < 2 ^ 64 →
      (f p).state ≠ .new ∧ (f p).wakeupTick < 2 ^ 64) : (t.modify pid f).Entered := by
  intro q p hp
  rw [procGet_modify hf] at hp
  split_ifs at hp
  · obtain ⟨p₀, hp₀, rfl⟩ := Option.map_eq_some_iff.mp hp
    exact hnew p₀ (h pid p₀ hp₀)
  · exact h q p hp

theorem setState {st : ProcState} {procs : ProcTable} {now : ℕ} (h : t.Entered) (hst : st ≠ .new)
    (hset : procSetState t pid st now = some procs) : procs.Entered := by
  rw [(procSetState_eq_some.mp hset).2]
  exact h.modify (keepsId_setState st now) pid fun p hp => ⟨hst, hp.2⟩

theorem wakePid (h : rt.procs.Entered) (pid : ℤ) (why : CString) :
    (wakePid rt pid why).procs.Entered := by
  rw [Mosrt.wakePid]
  split
  · exact h
  · split_ifs
    · rw [enqueueReady]
      split
      · exact h
      · next hset => exact h.setState (by decide) hset
    · exact h

theorem exitCurrent (h : rt.procs.Entered) (code : ℤ) : (exitCurrent rt code).procs.Entered := by
  rw [Mosrt.exitCurrent]
  split_ifs
  · exact h
  · split
    · exact h
    · next procs hmark =>
      show procs.Entered
      rw [(procMarkExited_eq_some.mp hmark).2]
      refine h.modify (keepsId_markExited code rt.tick) _ fun p hp => ?_
      exact ⟨ProcState.noConfusion, Nat.two_pow_pos 64⟩

theorem blockCurrent (h : rt.procs.Entered) (why : CString) :
    (blockCurrent rt why).procs.Entered := by
  rw [Mosrt.blockCurrent]
  split_ifs
  · exact h
  · split
    · exact h
    · next hset => exact h.setState (by decide) hset

theorem written (h : rt.procs.Entered) (ht : Written rt pid t) : t.Entered := by
  cases ht with
  | same => exact h
  | wakeup n =>
    refine h.modify (f := fun p => p.setWakeup (n % 2 ^ 64)) (fun _ => ⟨rfl, rfl⟩) pid
      fun p hp => ?_
    exact ⟨hp.1, Nat.mod_lt n (Nat.two_pow_pos 64)⟩
  | alloc addr =>
    exact h.modify (f := fun p => { p with vmLastAlloc := addr }) (fun _ => ⟨rfl, rfl⟩) pid
      fun p hp => hp

theorem ends {b : Bool} {sems : SemTable} (h : rt.procs.Entered)
    (he : Ends rt pid idx sems b rt') : rt'.procs.Entered := by
  cases he with
  | exits code hr => exact exitCurrent (h.written hr.procs) code
  | blocks why hr => exact blockCurrent (h.written hr.procs) why
  | @sleeps rt₁ why hr =>
    have hcompleted : (completeImmediate rt₁ idx).procs.Entered := h.written hr.procs
    exact hcompleted.blockCurrent why
  | completes hr => exact h.written hr.procs
  | @wakes rt₁ wake why hr =>
    rw [wakeAndComplete]
    split_ifs
    · exact wakePid (h.written hr.procs) wake why
    · exact h.written hr.procs

theorem execCpu (h : d.procs.Entered) (hat : AtInsn d p idx insn) :
    (execCpu d d.currentPid idx insn).2.procs.Entered := by
  rw [execCpu_eq hat.cpu]
  split_ifs
  · have hload : (loadBurst d idx 0).procs.Entered := h
    exact hload.exitCurrent 1
  · obtain ⟨st, hst, hproc⟩ := tick_proc hat (burstOf d idx insn)
    intro q p' hp'
    have hs := abs_proc hp'
    rw [hproc, Function.update_apply] at hs
    split_ifs at hs
    · obtain ⟨rfl, hw⟩ := Prod.mk.inj (Option.some.inj hs)
      rw [← hw]
      exact ⟨by rcases hst with hst | hst <;> rw [hst] <;> decide, (h _ p hat.cpu.get).2⟩
    · obtain ⟨p₀, hp₀, heq⟩ := Option.map_eq_some_iff.mp hs
      obtain ⟨hst₀, hw₀⟩ := Prod.mk.inj heq
      rw [← hst₀, ← hw₀]
      exact h q p₀ hp₀

theorem executeInstruction {r : Bool × Runtime} (h : d.procs.Entered) (hcons : Consistent d)
    (hpos : 0 ≤ d.currentPid) (hexec : executeInstruction fuel d = some r) :
    r.2.procs.Entered := by
  cases hinsn : d.insnOf d.currentPid with
  | none =>
    obtain ⟨code, hend⟩ := executeInstruction_of_none hinsn fuel
    obtain rfl := Option.some.inj (hend.symm.trans hexec)
    exact h.exitCurrent code
  | some insn =>
    obtain ⟨p, idx, hat⟩ := atInsn hcons.sound hcons.placed hpos hinsn
    by_cases hop : insn.op = .cpu
    · rw [Mosrt.executeInstruction, hat.current] at hexec
      dsimp only at hexec
      rw [hop] at hexec
      rw [← Option.some.inj hexec]
      exact h.execCpu hat
    · obtain ⟨b, t, hends, -⟩ := executeInstruction_calls hat hop hexec
      exact h.ends hends

end ProcTable.Entered

def Core.Entered (c : Core) : Prop := ∀ pid s, c.proc pid = some s → s.1 ≠ .new ∧ s.2 < 2 ^ 64

namespace Core.Entered

variable {c c' : Core} {st : ProcState} {w : ℕ}

theorem setProc (h : c.Entered) (hst : st ≠ .new) (hw : w < 2 ^ 64) (pid : ℤ) :
    (c.setProc pid st w).Entered := by
  intro q s hs
  rw [proc_setProc] at hs
  split_ifs at hs
  · rw [← Option.some.inj hs]
    exact ⟨hst, hw⟩
  · exact h q s hs

theorem quiet (h : c.Entered) (hq : Relation.ReflTransGen Quiet c c') : c'.Entered := by
  induction hq with
  | refl => exact h
  | tail _ hlast ih =>
    cases hlast with
    | timer pid => exact ih.setProc (by decide) (Nat.two_pow_pos 64) pid
    | dispatch pid w _ hready => exact ih.setProc (by decide) (ih pid _ hready).2 pid

theorem exec (h : rt.abs.Entered) (hcons : Consistent rt) (op : RtOp) :
    (RtOp.exec rt op).abs.Entered := by
  cases (op.moves hcons).2 with
  | quiet _ hsteps => exact h.quiet hsteps
  | exec d fuel consumed _ hsteps hd hpos hinsn =>
    have hentered := h.quiet hsteps
    have htable : d.procs.Entered := fun pid p hp => hentered pid _ (abs_proc hp)
    intro pid s hs
    obtain ⟨p, hp, rfl⟩ := Option.map_eq_some_iff.mp hs
    exact htable.executeInstruction hd hpos hinsn pid p hp
  | spawn pid first _ _ _ _ habs =>
    rw [habs]
    exact h.setProc (by decide) (Nat.two_pow_pos 64) pid
  | kill pid st _ _ _ habs =>
    rw [habs]
    exact h.setProc (by decide) (Nat.two_pow_pos 64) pid

end Core.Entered

theorem RtOp.run_entered (ops : List RtOp) : (Runs.run RtOp.exec runtimeInit ops).abs.Entered := by
  refine RtOp.run_keeps (I := fun rt => rt.abs.Entered) (fun _ op hrt h _ => h.exec hrt op)
    (fun pid s hs => ?_) (Runs.along_true runtimeInit ops)
  obtain ⟨p, hp, -⟩ := Option.map_eq_some_iff.mp hs
  rw [procGet_init] at hp
  cases hp

/-- With nobody on the CPU and nobody READY, everybody is BLOCKED or has EXITED. -/
theorem blocked_or_exited (hplaced : d.abs.Placed) (hentered : d.abs.Entered)
    (hidle : d.currentPid < 0) (hnone : ∀ pid, d.abs.stateOf pid ≠ some .ready)
    {s : ProcState × ℕ} (hs : d.abs.proc pid = some s) : s.1 = .blocked ∨ s.1 = .exited := by
  obtain ⟨st, w⟩ := s
  have hst := Core.stateOf_eq hs
  cases st with
  | new => exact absurd rfl (hentered pid _ hs).1
  | ready => exact absurd hst (hnone pid)
  | running =>
    have hpid : pid = d.currentPid := hplaced.running pid hst
    have hpos := hplaced.positive pid (by rw [hst]; exact Option.some_ne_none _)
    omega
  | blocked => exact .inl rfl
  | exited => exact .inr rfl

end Mosrt
