/-
Timer signals and the results of a run (`timer.c`, `maybe_preempt`).

The handler of `SIGALRM` sets a flag, which only `maybe_preempt` looks at.  Signals arrive in any
pattern: `σ k` says that one arrived before pass `k` of a run.

* `…_withTimer` — every other function commutes with setting the flag;
* `runtimePass_erase` — a pass does the same with and without the flag, unless the flag alone makes
  it preempt its process (`timerDecides`);
* `runs_repeatable` — runs of the same shell commands in which it never does end alike;
* `signal_changes_run` — one signal gives a tick of one process to another.
-/
import Mosrt.InsnSpec

namespace Mosrt

/-- The runtime with the flag of the signal handler set to `b`. -/
def Runtime.withTimer (rt : Runtime) (b : Bool) : Runtime := { rt with timerResched := b }

variable {rt rt' : Runtime} {b b' : Bool} {pid : ℤ} {idx fuel : ℕ} {insn : WorkloadInsn}

theorem withTimer_withTimer : (rt.withTimer b).withTimer b' = rt.withTimer b' := rfl

theorem log_withTimer {event detail : CString} :
    (rt.withTimer b).log pid event detail = (rt.log pid event detail).withTimer b := rfl

theorem completeImmediate_withTimer :
    completeImmediate (rt.withTimer b) idx = (completeImmediate rt idx).withTimer b := rfl

theorem rebuildReadyQueues_withTimer :
    rebuildReadyQueues (rt.withTimer b) = (rebuildReadyQueues rt).withTimer b := rfl

theorem ageReady_withTimer : ageReady (rt.withTimer b) = (ageReady rt).withTimer b := rfl

/-! ### Functions that do not look at the flag

Each of them does the same with and without it, so its tests are the same, and so is what it does
in each case. -/

/-- Two tests of one condition, and what the cases of one make of those of the other. -/
theorem ite_of_branches {α β : Type*} (f : α → β) {c : Prop} {d d' : Decidable c} {x y : α}
    {x' y' : β} (hx : c → x' = f x) (hy : ¬ c → y' = f y) :
    @ite β c d' x' y' = f (@ite α c d x y) := by
  by_cases h : c
  · rw [if_pos h, if_pos h, hx h]
  · rw [if_neg h, if_neg h, hy h]

theorem enqueueReady_withTimer (h : rt' = rt.withTimer b) :
    enqueueReady rt' pid = (enqueueReady rt pid).withTimer b := by
  subst h
  have hset : procSetState (rt.withTimer b).procs pid .ready (rt.withTimer b).tick =
    procSetState rt.procs pid .ready rt.tick := rfl
  rw [enqueueReady, enqueueReady, hset]
  cases procSetState rt.procs pid .ready rt.tick <;> rfl

theorem wakePid_withTimer {why : CString} (h : rt' = rt.withTimer b) :
    wakePid rt' pid why = (wakePid rt pid why).withTimer b := by
  subst h
  have hget : procGet (rt.withTimer b).procs pid = procGet rt.procs pid := rfl
  rw [wakePid, wakePid, enqueueReady_withTimer rfl, hget]
  cases procGet rt.procs pid with
  | none => rfl
  | some p => exact ite_of_branches (Runtime.withTimer · b) (fun _ => rfl) fun _ => rfl

theorem wakeBlockedByTime_withTimer {i : ℕ} :
    wakeBlockedByTime (rt.withTimer b) i = (wakeBlockedByTime rt i).withTimer b := by
  rw [wakeBlockedByTime, wakeBlockedByTime]
  refine ite_of_branches (Runtime.withTimer · b) (fun _ => ?_) fun _ => rfl
  exact wakePid_withTimer rfl

theorem wakeTimers_withTimer : wakeTimers (rt.withTimer b) = (wakeTimers rt).withTimer b := by
  rw [wakeTimers, wakeTimers]
  generalize List.range mosrtMaxProcs = is
  induction is generalizing rt with
  | nil => rfl
  | cons i is ih => rw [List.foldl_cons, List.foldl_cons, wakeBlockedByTime_withTimer, ih]

theorem rebuildPrio_withTimer : rebuildPrio (rt.withTimer b) = (rebuildPrio rt).withTimer b := by
  rw [rebuildPrio, rebuildPrio]
  exact ite_of_branches (Runtime.withTimer · b) (fun _ => rfl) fun _ => rfl

theorem boostMlfq_withTimer : boostMlfq (rt.withTimer b) = (boostMlfq rt).withTimer b := by
  rw [boostMlfq, boostMlfq]
  exact ite_of_branches (Runtime.withTimer · b) (fun _ => rfl) fun _ => rfl

theorem passPrepare_withTimer : passPrepare (rt.withTimer b) = (passPrepare rt).withTimer b := by
  rw [passPrepare, passPrepare, wakeTimers_withTimer, ageReady_withTimer, rebuildPrio_withTimer,
    boostMlfq_withTimer]

theorem dispatch_withTimer :
    dispatch (rt.withTimer b) = ((dispatch rt).1, (dispatch rt).2.withTimer b) := by
  rw [dispatch, dispatch]
  refine ite_of_branches (fun r : Bool × Runtime => (r.1, r.2.withTimer b))
    (fun _ => rfl) fun _ => ?_
  refine ite_of_branches (fun r : Bool × Runtime => (r.1, r.2.withTimer b))
    (fun _ => rfl) fun _ => ?_
  have hset : procSetState (rt.withTimer b).procs
      (schedPickNext (rt.withTimer b).procs (rt.withTimer b).scheduler).1 .running
      (rt.withTimer b).tick =
    procSetState rt.procs (schedPickNext rt.procs rt.scheduler).1 .running rt.tick := rfl
  rw [hset]
  cases procSetState rt.procs (schedPickNext rt.procs rt.scheduler).1 .running rt.tick with
  | none => rfl
  | some procs =>
    exact ite_of_branches (fun r : Bool × Runtime => (r.1, r.2.withTimer b))
      (fun _ => rfl) fun _ => rfl

theorem exitCurrent_withTimer {code : ℤ} (h : rt' = rt.withTimer b) :
    exitCurrent rt' code = (exitCurrent rt code).withTimer b := by
  subst h
  rw [exitCurrent, exitCurrent]
  refine ite_of_branches (Runtime.withTimer · b) (fun _ => rfl) fun _ => ?_
  have hmark : procMarkExited (rt.withTimer b).procs (rt.withTimer b).currentPid code
    (rt.withTimer b).tick = procMarkExited rt.procs rt.currentPid code rt.tick := rfl
  rw [hmark]
  cases procMarkExited rt.procs rt.currentPid code rt.tick <;> rfl

theorem blockCurrent_withTimer {why : CString} (h : rt' = rt.withTimer b) :
    blockCurrent rt' why = (blockCurrent rt why).withTimer b := by
  subst h
  rw [blockCurrent, blockCurrent]
  refine ite_of_branches (Runtime.withTimer · b) (fun _ => rfl) fun _ => ?_
  have hset : procSetState (rt.withTimer b).procs (rt.withTimer b).currentPid .blocked
    (rt.withTimer b).tick = procSetState rt.procs rt.currentPid .blocked rt.tick := rfl
  rw [hset]
  cases procSetState rt.procs rt.currentPid .blocked rt.tick <;> rfl

theorem wakeAndComplete_withTimer {wake : ℤ} {why : CString} (h : rt' = rt.withTimer b) :
    wakeAndComplete rt' idx wake why = (wakeAndComplete rt idx wake why).withTimer b := by
  subst h
  rw [wakeAndComplete, wakeAndComplete]
  split_ifs
  · rw [wakePid_withTimer rfl, completeImmediate_withTimer]
  · rfl

theorem execIo_withTimer :
    execIo (rt.withTimer b) pid idx insn = (execIo rt pid idx insn).withTimer b := by
  rw [execIo, execIo]
  exact ite_of_branches (Runtime.withTimer · b) (fun _ => exitCurrent_withTimer rfl)
    fun _ => blockCurrent_withTimer rfl

theorem execSend_withTimer :
    execSend (rt.withTimer b) pid idx insn = (execSend rt pid idx insn).withTimer b := by
  have hqueues : (rt.withTimer b).queues = rt.queues := rfl
  rw [execSend, execSend, hqueues]
  cases sendResult (ipcSend rt.queues insn.arg0 pid insn.arg1).1 with
  | error => exact exitCurrent_withTimer rfl
  | wouldBlock => exact blockCurrent_withTimer rfl
  | ok => exact wakeAndComplete_withTimer rfl

theorem execRecv_withTimer :
    execRecv (rt.withTimer b) pid idx insn = (execRecv rt pid idx insn).withTimer b := by
  have hqueues : (rt.withTimer b).queues = rt.queues := rfl
  rw [execRecv, execRecv, hqueues]
  cases recvResult (ipcRecv rt.queues insn.arg0 pid).1 with
  | error => exact exitCurrent_withTimer rfl
  | wouldBlock => exact blockCurrent_withTimer rfl
  | ok => exact wakeAndComplete_withTimer rfl

theorem execAcquire_withTimer {r : SyncResult × SemTable} {why : CString} :
    execAcquire (rt.withTimer b) idx r why = (execAcquire rt idx r why).withTimer b := by
  rw [execAcquire, execAcquire]
  cases r.1 with
  | error => exact exitCurrent_withTimer rfl
  | wouldBlock => exact blockCurrent_withTimer rfl
  | ok => rfl

theorem execRelease_withTimer {r : SyncResult × ℤ × SemTable} {why : CString} :
    execRelease (rt.withTimer b) idx r why = (execRelease rt idx r why).withTimer b := by
  rw [execRelease, execRelease]
  exact ite_of_branches (Runtime.withTimer · b) (fun _ => exitCurrent_withTimer rfl)
    fun _ => wakeAndComplete_withTimer rfl

theorem execMmap_withTimer :
    execMmap fuel (rt.withTimer b) pid idx insn =
      (execMmap fuel rt pid idx insn).map (Runtime.withTimer · b) := by
  rw [execMmap, execMmap]
  refine ite_of_branches (Option.map (Runtime.withTimer · b))
    (fun _ => congrArg some (exitCurrent_withTimer rfl)) fun _ => ?_
  dsimp only
  rw [Option.map_map]
  refine congrArg (Option.map · _) (funext fun addr => ?_)
  exact ite_of_branches (Runtime.withTimer · b) (fun _ => exitCurrent_withTimer rfl) fun _ => rfl

theorem execAccess_withTimer :
    execAccess (rt.withTimer b) pid idx insn = (execAccess rt pid idx insn).withTimer b := by
  rw [execAccess, execAccess]
  refine ite_of_branches (Runtime.withTimer · b) (fun _ => exitCurrent_withTimer rfl) fun _ => ?_
  refine ite_of_branches (Runtime.withTimer · b) (fun _ => exitCurrent_withTimer rfl) fun _ => ?_
  exact ite_of_branches (Runtime.withTimer · b) (fun _ => blockCurrent_withTimer rfl) fun _ => rfl

theorem execMfree_withTimer :
    execMfree (rt.withTimer b) pid idx = (execMfree rt pid idx).withTimer b := by
  rw [execMfree, execMfree]
  exact ite_of_branches (Runtime.withTimer · b) (fun _ => exitCurrent_withTimer rfl) fun _ => rfl

theorem runtimeRunWorkload_withTimer {workload : Workload} {priority : ℤ} :
    (runtimeRunWorkload (rt.withTimer b) workload priority).2 =
      (runtimeRunWorkload rt workload priority).2.withTimer b := by
  rw [runtimeRunWorkload, runtimeRunWorkload]
  show Prod.snd ((procCreate rt.procs 0 priority rt.tick).elim _ _) = _
  cases procCreate rt.procs 0 priority rt.tick with
  | none => rfl
  | some c =>
    obtain ⟨q, procs⟩ := c
    rw [Option.elim_some, Option.elim_some]
    dsimp only
    have hvm : ∀ vm : VmSys, ((allocSlot { rt.withTimer b with procs := procs, vm := vm } q).elim
        ((-1 : ℤ), ({ rt.withTimer b with
          procs := procDestroy procs q 1, vm := vmProcDestroy vm q } : Runtime))
        fun r => (q, (enqueueReady (r.2.setSlot r.1 fun s => { s with workload := workload }) q).log
          q "CREATE" workload.name)).2 =
        ((allocSlot { rt with procs := procs, vm := vm } q).elim
        ((-1 : ℤ), ({ rt with
          procs := procDestroy procs q 1, vm := vmProcDestroy vm q } : Runtime))
        fun r => (q, (enqueueReady (r.2.setSlot r.1 fun s => { s with workload := workload }) q).log
          q "CREATE" workload.name)).2.withTimer b := by
      intro vm
      have hslot : ∀ r : Runtime, r.slots = rt.slots → unusedSlot r = unusedSlot rt := by
        intro r hr
        rw [unusedSlot, hr, unusedSlot]
      rw [allocSlot, allocSlot, hslot { rt.withTimer b with procs := procs, vm := vm } rfl,
        hslot { rt with procs := procs, vm := vm } rfl]
      cases unusedSlot rt with
      | none => rfl
      | some i =>
        show (enqueueReady _ q).log q "CREATE" workload.name =
          ((enqueueReady _ q).log q "CREATE" workload.name).withTimer b
        rw [← log_withTimer]
        exact congrArg (Runtime.log · q "CREATE" workload.name) (enqueueReady_withTimer rfl)
    by_cases hsome : (procGet procs q).isSome = true
    · rw [if_pos hsome, if_pos hsome]
      exact hvm _
    · rw [if_neg hsome, if_neg hsome]
      exact hvm rt.vm

theorem releaseSlot_withTimer (h : rt' = rt.withTimer b) :
    releaseSlot rt' pid = (releaseSlot rt pid).withTimer b := by
  subst h
  have hslot : slotIndex (rt.withTimer b) pid = slotIndex rt pid := rfl
  rw [releaseSlot, releaseSlot, hslot]
  cases slotIndex rt pid <;> rfl

theorem runtimeKill_withTimer :
    (runtimeKill (rt.withTimer b) pid).2 = (runtimeKill rt pid).2.withTimer b := by
  rw [runtimeKill, runtimeKill, apply_ite Prod.snd, apply_ite Prod.snd]
  refine ite_of_branches (Runtime.withTimer · b) (fun _ => rfl) fun _ => ?_
  have hcur : (if (rt.withTimer b).currentPid = pid then
      ({ rt.withTimer b with currentPid := -1 } : Runtime) else rt.withTimer b) =
      (if rt.currentPid = pid then { rt with currentPid := -1 } else rt).withTimer b :=
    ite_of_branches (Runtime.withTimer · b) (fun _ => rfl) fun _ => rfl
  dsimp only
  rw [hcur]
  generalize (if rt.currentPid = pid then { rt with currentPid := -1 } else rt) = r
  have hmark : procMarkExited (r.withTimer b).procs pid 130 (r.withTimer b).tick =
    procMarkExited r.procs pid 130 r.tick := rfl
  rw [hmark]
  cases procMarkExited r.procs pid 130 r.tick with
  | none => rfl
  | some procs =>
    have hrelease : releaseSlot { r.withTimer b with procs := procs } pid =
      (releaseSlot { r with procs := procs } pid).withTimer b := releaseSlot_withTimer rfl
    dsimp only
    rw [hrelease, log_withTimer, rebuildReadyQueues_withTimer]

theorem runtimeSetNice_withTimer {niceValue : ℤ} :
    (runtimeSetNice (rt.withTimer b) pid niceValue).2 =
      (runtimeSetNice rt pid niceValue).2.withTimer b := by
  rw [runtimeSetNice, runtimeSetNice, apply_ite Prod.snd, apply_ite Prod.snd]
  exact ite_of_branches (Runtime.withTimer · b) (fun _ => rfl) fun _ => rfl

theorem runtimeSetPriority_withTimer {priority : ℤ} :
    (runtimeSetPriority (rt.withTimer b) pid priority).2 =
      (runtimeSetPriority rt pid priority).2.withTimer b := by
  rw [runtimeSetPriority, runtimeSetPriority, apply_ite Prod.snd, apply_ite Prod.snd]
  exact ite_of_branches (Runtime.withTimer · b) (fun _ => rfl) fun _ => rfl

/-! ### Preemption -/

/-- The process on the CPU is preempted whatever the timer says. -/
def preemptsAnyway (rt : Runtime) : Bool :=
  rt.needResched || schedShouldPreempt rt.procs rt.scheduler rt.currentPid

theorem maybePreempt_erase (rt : Runtime) (h : rt.timerResched = true → preemptsAnyway rt = true) :
    (maybePreempt rt).withTimer false = (maybePreempt (rt.withTimer false)).withTimer false := by
  by_cases hcur : rt.currentPid < 0
  · have hwith : maybePreempt rt = rt := if_pos hcur
    have hwithout : maybePreempt (rt.withTimer false) = rt.withTimer false := if_pos hcur
    rw [hwith, hwithout, withTimer_withTimer]
  by_cases hflag : rt.timerResched = true
  · -- both are preempted, and the flag is cleared
    have hany : (rt.needResched || schedShouldPreempt rt.procs rt.scheduler rt.currentPid) = true :=
      h hflag
    have hpreempt : (rt.needResched || rt.timerResched ||
        schedShouldPreempt rt.procs rt.scheduler rt.currentPid) = true := by
      rw [hflag, Bool.or_true, Bool.true_or]
    have hpreempt' : (rt.needResched || false ||
        schedShouldPreempt rt.procs rt.scheduler rt.currentPid) = true := by
      rw [Bool.or_false, hany]
    have hwith : maybePreempt rt = _ := (if_neg hcur).trans (if_pos hpreempt)
    have hwithout : maybePreempt (rt.withTimer false) = _ := (if_neg hcur).trans (if_pos hpreempt')
    rw [hwith, hwithout]
    rfl
  · have hsame : rt.withTimer false = rt := by
      have hfalse : false = rt.timerResched := (Bool.eq_false_iff.mpr hflag).symm
      rw [Runtime.withTimer, hfalse]
    rw [hsame]

/-- What a pass returns, without the flag. -/
def erase (r : Bool × Runtime) : Bool × Runtime := (r.1, r.2.withTimer false)

theorem execCpu_erase
    (h : rt.timerResched = true → burstOf rt idx insn ≠ 0 →
      preemptsAnyway (spendTick rt idx (burstOf rt idx insn)) = true) :
    erase (execCpu rt rt.currentPid idx insn) =
      erase (execCpu (rt.withTimer false) rt.currentPid idx insn) := by
  by_cases hexit : (procGet rt.procs rt.currentPid).isNone ∨ burstOf rt idx insn = 0
  · have hwith : execCpu rt rt.currentPid idx insn =
      (false, exitCurrent (loadBurst rt idx (burstOf rt idx insn)) 1) := if_pos hexit
    have hwithout : execCpu (rt.withTimer false) rt.currentPid idx insn =
        (false, exitCurrent ((loadBurst rt idx (burstOf rt idx insn)).withTimer false) 1) :=
      if_pos hexit
    rw [hwith, hwithout, exitCurrent_withTimer rfl]
    rfl
  · have hwith : execCpu rt rt.currentPid idx insn =
      (true, maybePreempt (spendTick rt idx (burstOf rt idx insn))) := if_neg hexit
    have hwithout : execCpu (rt.withTimer false) rt.currentPid idx insn =
        (true, maybePreempt ((spendTick rt idx (burstOf rt idx insn)).withTimer false)) :=
      if_neg hexit
    have herase := maybePreempt_erase (spendTick rt idx (burstOf rt idx insn))
      fun hflag => h hflag (not_or.mp hexit).2
    rw [hwith, hwithout]
    exact congrArg (Prod.mk true) herase

/-- Nothing else looks at the flag. -/
theorem erase_quiet {r r' : Runtime} (h : r' = r.withTimer false) :
    (some (false, r)).map erase = (some (false, r')).map erase := by
  subst h
  rfl

theorem erase_quiet_map {o o' : Option Runtime} (h : o' = o.map (Runtime.withTimer · false)) :
    (o.map (Prod.mk false)).map erase = (o'.map (Prod.mk false)).map erase := by
  subst h
  cases o <;> rfl

/-- The process on the CPU is about to end a tick, and only a signal that arrived will make it
leave the CPU after it. -/
def decidesAt (rt : Runtime) : Bool :=
  rt.timerResched && match currentInsn rt rt.currentPid with
    | some (idx, some insn) =>
      insn.op = .cpu && burstOf rt idx insn != 0 &&
        !preemptsAnyway (spendTick rt idx (burstOf rt idx insn))
    | _ => false

theorem executeInstruction_erase (h : decidesAt rt = false) (fuel : ℕ) :
    (executeInstruction fuel rt).map erase =
      (executeInstruction fuel (rt.withTimer false)).map erase := by
  rw [executeInstruction, executeInstruction]
  rw [decidesAt] at h
  obtain ⟨c, hc⟩ : ∃ c, currentInsn rt rt.currentPid = c := ⟨_, rfl⟩
  have hc' : currentInsn (rt.withTimer false) (rt.withTimer false).currentPid = c := hc
  rw [hc, hc']
  rw [hc] at h
  rcases c with _ | ⟨idx, _ | insn⟩
  · exact erase_quiet (exitCurrent_withTimer rfl)
  · exact erase_quiet (exitCurrent_withTimer rfl)
  · dsimp only at h ⊢
    cases hop : insn.op with
    | cpu =>
      refine congrArg some (execCpu_erase fun hflag hn => ?_)
      rw [hflag, hop] at h
      simpa [hn] using h
    | mmap => exact erase_quiet_map execMmap_withTimer
    | io => exact erase_quiet execIo_withTimer
    | send => exact erase_quiet execSend_withTimer
    | recv => exact erase_quiet execRecv_withTimer
    | semWait | lock => exact erase_quiet execAcquire_withTimer
    | semPost | unlock => exact erase_quiet execRelease_withTimer
    | access => exact erase_quiet execAccess_withTimer
    | mfree => exact erase_quiet execMfree_withTimer
    | exit => exact erase_quiet (exitCurrent_withTimer rfl)

/-- In a pass begun in `rt`, the flag decides. -/
def timerDecides (rt : Runtime) : Bool :=
  let d := dispatch (passPrepare rt)
  d.1 && decidesAt d.2

theorem dispatched_erase {d d' : Bool × Runtime} (hd : d' = (d.1, d.2.withTimer false))
    (h : (d.1 && decidesAt d.2) = false) (fuel : ℕ) :
    (if d.1 then executeInstruction fuel d.2 else some (true, idleTick d.2)).map erase =
      (if d'.1 then executeInstruction fuel d'.2 else some (true, idleTick d'.2)).map erase := by
  subst hd
  by_cases hd : d.1 = true
  · rw [if_pos hd, if_pos hd]
    rw [hd, Bool.true_and] at h
    exact executeInstruction_erase h fuel
  · rw [if_neg hd, if_neg hd]
    rfl

theorem runtimePass_erase (h : timerDecides rt = false) (fuel : ℕ) :
    (runtimePass fuel rt).map erase = (runtimePass fuel (rt.withTimer false)).map erase := by
  rw [timerDecides] at h
  rw [runtimePass, runtimePass, passPrepare_withTimer]
  exact dispatched_erase dispatch_withTimer h fuel

/-! ### Runs with signals -/

/-- A signal arrives before pass `k`, if `σ` says so. -/
def signal (σ : ℕ → Bool) (k : ℕ) (rt : Runtime) : Runtime :=
  if σ k then RtOp.exec rt .timerSignal else rt

/-- A runtime, and the number of passes it has made. -/
abbrev TimedState := Runtime × ℕ

variable {σ τ : ℕ → Bool} {s t : TimedState}

/-- The inner loop of `runtime_step` while signals arrive. -/
def timedTick (fuel : ℕ) (σ : ℕ → Bool) : ℕ → TimedState → Option TimedState
  | 0, s => some s
  | guard + 1, s =>
    (runtimePass fuel (signal σ s.2 s.1)).bind fun r =>
      if r.1 then some (r.2, s.2 + 1) else timedTick fuel σ guard (r.2, s.2 + 1)

/-- `runtime_step` while signals arrive. -/
def timedStep (fuel : ℕ) (σ : ℕ → Bool) : ℕ → TimedState → Option TimedState
  | 0, s => some s
  | ticks + 1, s => (timedTick fuel σ maxDispatchGuard s).bind (timedStep fuel σ ticks)

/-- Without signals this is `runtime_step`. -/
theorem timedStep_never (n : ℕ) (s : TimedState) :
    (timedStep fuel (fun _ => false) n s).map Prod.fst = runtimeStep fuel s.1 n := by
  have htick : ∀ guard (s : TimedState), (timedTick fuel (fun _ => false) guard s).map Prod.fst =
      stepTick fuel guard s.1 := by
    intro guard
    induction guard with
    | zero => exact fun s => rfl
    | succ guard ih =>
      intro s
      rw [timedTick, stepTick]
      show ((runtimePass fuel s.1).bind _).map _ = _
      cases runtimePass fuel s.1 with
      | none => rfl
      | some r =>
        rw [Option.bind_some, Option.bind_some]
        split_ifs
        · rfl
        · exact ih _
  induction n generalizing s with
  | zero => rfl
  | succ n ih =>
    rw [timedStep, runtimeStep, ← htick]
    cases timedTick fuel (fun _ => false) maxDispatchGuard s with
    | none => rfl
    | some s' => exact ih s'

/-- The commands of the shell that change the runtime. -/
inductive ShellOp where
  | create (workload : Workload) (priority : ℤ)
  | step (ticks : ℕ)
  | kill (pid : ℤ)
  | sched (algo : SchedAlgo)
  | policy (name : String)
  | quantum (ticks : ℕ)
  | nice (pid niceValue : ℤ)
  | prio (pid priority : ℤ)

/-- What a command other than `step` does. -/
def ShellOp.call (rt : Runtime) : ShellOp → Runtime
  | .create workload priority => (runtimeRunWorkload rt workload priority).2
  | .step _ => rt
  | .kill pid => (runtimeKill rt pid).2
  | .sched algo => runtimeSetScheduler rt algo
  | .policy name => { rt with vm := (pagerSetPolicy rt.vm name).2 }
  | .quantum ticks => runtimeSetQuantum rt ticks
  | .nice pid niceValue => (runtimeSetNice rt pid niceValue).2
  | .prio pid priority => (runtimeSetPriority rt pid priority).2

/-- The ticks that a command takes. -/
def ShellOp.ticks : ShellOp → ℕ
  | .step ticks => ticks
  | _ => 0

def ShellOp.exec (fuel : ℕ) (σ : ℕ → Bool) (s : TimedState) (op : ShellOp) : Option TimedState :=
  timedStep fuel σ op.ticks (op.call s.1, s.2)

def shellRun (fuel : ℕ) (σ : ℕ → Bool) : TimedState → List ShellOp → Option TimedState
  | s, [] => some s
  | s, op :: ops => (op.exec fuel σ s).bind fun s' => shellRun fuel σ s' ops

/-! ### Runs in which the flag never decides -/

/-- The flag decides in none of the passes of the inner loop. -/
def tickUndecided (fuel : ℕ) (σ : ℕ → Bool) : ℕ → TimedState → Bool
  | 0, _ => true
  | guard + 1, s =>
    !timerDecides (signal σ s.2 s.1) && (runtimePass fuel (signal σ s.2 s.1)).elim true fun r =>
      r.1 || tickUndecided fuel σ guard (r.2, s.2 + 1)

def stepUndecided (fuel : ℕ) (σ : ℕ → Bool) : ℕ → TimedState → Bool
  | 0, _ => true
  | ticks + 1, s => tickUndecided fuel σ maxDispatchGuard s &&
      (timedTick fuel σ maxDispatchGuard s).elim true (stepUndecided fuel σ ticks)

def runUndecided (fuel : ℕ) (σ : ℕ → Bool) : TimedState → List ShellOp → Bool
  | _, [] => true
  | s, op :: ops => stepUndecided fuel σ op.ticks (op.call s.1, s.2) &&
      (op.exec fuel σ s).elim true fun s' => runUndecided fuel σ s' ops

/-- Two states that differ in the flag only. -/
def SameBut (s t : TimedState) : Prop := s.1.withTimer false = t.1.withTimer false ∧ s.2 = t.2

theorem signal_erase {k : ℕ} : (signal σ k rt).withTimer false = rt.withTimer false := by
  rw [signal]
  split_ifs
  · rfl
  · rfl

/-- One pass, in two runs. -/
theorem pass_same (fuel : ℕ) (h : SameBut s t) (hσ : timerDecides (signal σ s.2 s.1) = false)
    (hτ : timerDecides (signal τ t.2 t.1) = false) :
    (runtimePass fuel (signal σ s.2 s.1)).map erase =
      (runtimePass fuel (signal τ t.2 t.1)).map erase := by
  rw [runtimePass_erase hσ, runtimePass_erase hτ, signal_erase, signal_erase, h.1]

/-- Neither computation ends, or both end in states that differ in the flag only. -/
abbrev SameEnd (o o' : Option TimedState) : Prop := Option.Rel SameBut o o'

theorem SameEnd.bind {o o' : Option TimedState} {f g : TimedState → Option TimedState}
    (h : SameEnd o o') (hfg : ∀ s t, o = some s → o' = some t → SameBut s t →
      SameEnd (f s) (g t)) : SameEnd (o.bind f) (o'.bind g) := by
  cases h with
  | none => exact .none
  | some h => exact hfg _ _ rfl rfl h

theorem timedTick_same (guard : ℕ) (h : SameBut s t) (hσ : tickUndecided fuel σ guard s = true)
    (hτ : tickUndecided fuel τ guard t = true) :
    SameEnd (timedTick fuel σ guard s) (timedTick fuel τ guard t) := by
  induction guard generalizing s t with
  | zero => exact .some h
  | succ guard ih =>
    rw [tickUndecided, Bool.and_eq_true, Bool.not_eq_true'] at hσ hτ
    have hpass := pass_same fuel h hσ.1 hτ.1
    rw [timedTick, timedTick]
    cases hr : runtimePass fuel (signal σ s.2 s.1) with
    | none =>
      cases hr' : runtimePass fuel (signal τ t.2 t.1) with
      | none => exact .none
      | some r' =>
        rw [hr, hr'] at hpass
        cases hpass
    | some r =>
      cases hr' : runtimePass fuel (signal τ t.2 t.1) with
      | none =>
        rw [hr, hr'] at hpass
        cases hpass
      | some r' =>
        rw [hr, hr'] at hpass
        rw [hr] at hσ
        rw [hr'] at hτ
        obtain ⟨hconsumed, hrt⟩ := Prod.mk.inj (Option.some.inj hpass)
        have hsame : SameBut (r.2, s.2 + 1) (r'.2, t.2 + 1) := ⟨hrt, by rw [h.2]⟩
        rw [Option.bind_some, Option.bind_some, ← hconsumed]
        split_ifs with hr1
        · exact .some hsame
        · refine ih hsame ?_ ?_
          · exact (Bool.or_eq_true _ _ ▸ hσ.2).resolve_left hr1
          · exact (Bool.or_eq_true _ _ ▸ hτ.2).resolve_left (by rw [← hconsumed]; exact hr1)

theorem timedStep_same (n : ℕ) (h : SameBut s t) (hσ : stepUndecided fuel σ n s = true)
    (hτ : stepUndecided fuel τ n t = true) :
    SameEnd (timedStep fuel σ n s) (timedStep fuel τ n t) := by
  induction n generalizing s t with
  | zero => exact .some h
  | succ n ih =>
    rw [stepUndecided, Bool.and_eq_true] at hσ hτ
    rw [timedStep, timedStep]
    refine (timedTick_same maxDispatchGuard h hσ.1 hτ.1).bind fun s' t' hs ht hsame => ?_
    rw [hs] at hσ
    rw [ht] at hτ
    exact ih hsame hσ.2 hτ.2

/-- Commands other than `step` do not look at the flag. -/
theorem ShellOp.call_withTimer (op : ShellOp) :
    op.call (rt.withTimer b) = (op.call rt).withTimer b := by
  cases op with
  | create workload priority => exact runtimeRunWorkload_withTimer
  | kill pid => exact runtimeKill_withTimer
  | nice pid niceValue => exact runtimeSetNice_withTimer
  | prio pid priority => exact runtimeSetPriority_withTimer
  | step | sched | policy | quantum => rfl

theorem ShellOp.call_same (op : ShellOp) (h : SameBut s t) :
    SameBut (op.call s.1, s.2) (op.call t.1, t.2) := by
  refine ⟨?_, h.2⟩
  show (op.call s.1).withTimer false = (op.call t.1).withTimer false
  rw [← op.call_withTimer, ← op.call_withTimer, h.1]

theorem shellRun_same (ops : List ShellOp) (h : SameBut s t)
    (hσ : runUndecided fuel σ s ops = true) (hτ : runUndecided fuel τ t ops = true) :
    SameEnd (shellRun fuel σ s ops) (shellRun fuel τ t ops) := by
  induction ops generalizing s t with
  | nil => exact .some h
  | cons op ops ih =>
    rw [runUndecided, Bool.and_eq_true] at hσ hτ
    rw [shellRun, shellRun]
    have hstep : SameEnd (op.exec fuel σ s) (op.exec fuel τ t) :=
      timedStep_same op.ticks (op.call_same h) hσ.1 hτ.1
    refine hstep.bind fun s' t' hs ht hsame => ?_
    rw [hs] at hσ
    rw [ht] at hτ
    exact ih hsame hσ.2 hτ.2

/-- **Repeatable runs.**  Two runs of the same commands, with any two patterns of signals, in
neither of which the flag decides: neither ends, or both end with the same processes, scheduler
and trace. -/
theorem runs_repeatable (fuel : ℕ) (σ τ : ℕ → Bool) (ops : List ShellOp)
    (hσ : runUndecided fuel σ (runtimeInit, 0) ops = true)
    (hτ : runUndecided fuel τ (runtimeInit, 0) ops = true) :
    (shellRun fuel σ (runtimeInit, 0) ops).map (fun s => (s.1.procs, s.1.scheduler, s.1.trace)) =
      (shellRun fuel τ (runtimeInit, 0) ops).map
        fun s => (s.1.procs, s.1.scheduler, s.1.trace) := by
  have hsame : SameEnd (shellRun fuel σ (runtimeInit, 0) ops)
      (shellRun fuel τ (runtimeInit, 0) ops) :=
    shellRun_same ops ⟨rfl, rfl⟩ hσ hτ
  generalize shellRun fuel σ (runtimeInit, 0) ops = o at hsame ⊢
  generalize shellRun fuel τ (runtimeInit, 0) ops = o' at hsame ⊢
  cases hsame with
  | none => rfl
  | some h =>
    have hprocs := congrArg Runtime.procs h.1
    have hscheduler := congrArg Runtime.scheduler h.1
    have htrace := congrArg Runtime.trace h.1
    exact congrArg some (Prod.ext hprocs (Prod.ext hscheduler htrace))

/-- A process whose quantum ends with its first tick. -/
def shortQuantum : List ShellOp := [.create ⟨"job", [⟨.cpu, 0, 0, 2⟩]⟩ 0, .quantum 1, .step 1]

set_option maxRecDepth 100000 in
/-- It is preempted with a signal and without. -/
theorem runs_repeatable_quantum :
    (shellRun 0 (fun _ => true) (runtimeInit, 0) shortQuantum).map
        (fun s => (s.1.procs, s.1.scheduler, s.1.trace)) =
      (shellRun 0 (fun _ => false) (runtimeInit, 0) shortQuantum).map
        fun s => (s.1.procs, s.1.scheduler, s.1.trace) :=
  runs_repeatable 0 (fun _ => true) (fun _ => false) shortQuantum (by decide +kernel)
    (by decide +kernel)

/-- Two processes that compute, for two ticks. -/
def twoJobs : List ShellOp :=
  [.create ⟨"first", [⟨.cpu, 0, 0, 4⟩]⟩ 0, .create ⟨"second", [⟨.cpu, 0, 0, 4⟩]⟩ 0, .step 2]

set_option maxRecDepth 100000 in
/-- Without signals the first process gets both ticks; with one before the first pass it gets
one. -/
theorem signal_changes_run :
    (shellRun 0 (fun _ => false) (runtimeInit, 0) twoJobs).map
        (fun s => (procGet s.1.procs 1).map (·.cpuTime)) = some (some 2) ∧
      (shellRun 0 (fun k => k == 0) (runtimeInit, 0) twoJobs).map
        (fun s => (procGet s.1.procs 1).map (·.cpuTime)) = some (some 1) := by
  decide +kernel

end Mosrt
