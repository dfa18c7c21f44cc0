/-
The runtime (`runtime.c`): processes executing workloads on one simulated CPU.

`Runtime` collects the fields of `runtime_t` and the globals of the modules it
drives.  A context switch to a process runs its trampoline, which records an event
and switches back; `started` and the signal count are read by nobody and left out.
Files are loaded before (`Workload`), and the allocations of a new process are
taken to succeed.

One iteration of the inner loop of `runtime_step` is `runtimePass`; everything the
runtime does between two calls of its interface is a sequence of these, and the
timer signal may come between any two.  `vm_malloc` may walk a damaged heap for
ever, so whatever executes instructions takes fuel for that walk and returns
`none` when it is spent.
-/
import Mosrt.Sched
import Mosrt.Log
import Mosrt.Workload
import Mosrt.Ipc
import Mosrt.Sync
import Mosrt.VmAlloc

namespace Mosrt

abbrev mlfqBoostInterval : ℕ := 50
abbrev defaultQuantum : ℕ := 10
abbrev maxDispatchGuard : ℕ := 1024

/-- An element of `slots`: what a process executes and how far it has come. -/
structure Slot where
  used : Bool := false
  pid : ℤ := 0
  workload : Workload := {}
  pc : ℕ := 0
  remaining : ℕ := 0

/-- `runtime_t` and the globals around it; `timerResched` is `g_need_resched` of `timer.c`. -/
structure Runtime where
  tick : ℕ := 0
  needResched : Bool := false
  timerResched : Bool := false
  currentPid : ℤ := -1
  busyTicks : ℕ := 0
  idleTicks : ℕ := 0
  completed : ℕ := 0
  scheduler : Scheduler := schedInit .rr defaultQuantum
  trace : TraceLog := {}
  slots : ℕ → Slot := fun _ => {}
  slotByPid : ℕ → Option ℕ := fun _ => none
  procs : ProcTable := procTableInit
  queues : QueueTable := ipcInit
  sems : SemTable := syncInit
  vm : VmSys := vmInit

def runtimeInit : Runtime := {}

def runtimeSchedulerName (rt : Runtime) : String := schedAlgoName rt.scheduler.algo

/-- Record an event at the current tick. -/
def Runtime.log (rt : Runtime) (pid : ℤ) (event detail : CString) : Runtime :=
  { rt with trace := traceEvent rt.trace rt.tick pid event detail }

/-! ### Details of events -/

/-- Conversion to `int`. -/
def toInt32 (n : ℤ) : ℤ := (n + 2 ^ 31) % 2 ^ 32 - 2 ^ 31

def makeDetail (text : String) (value : ℤ) : String := text ++ " " ++ toString value

/-- `%04X` of a 16-bit number. -/
def hex4 (n : ℕ) : String :=
  String.ofList ([n / 4096, n / 256, n / 16, n].map fun d => (Nat.digitChar (d % 16)).toUpper)

def mmapDetail (insn : WorkloadInsn) (addr : ℕ) : String :=
  "size=" ++ toString insn.arg0 ++ " addr=0x" ++ hex4 addr

def mfreeDetail (addr : ℕ) : String := "addr=0x" ++ hex4 addr

/-! ### Slots -/

def slotIndex (rt : Runtime) (pid : ℤ) : Option ℕ :=
  if 1 ≤ pid ∧ pid ≤ mosrtMaxProcs then
    match rt.slotByPid (pid - 1).toNat with
    | none => none
    | some idx =>
      if idx < mosrtMaxProcs ∧ (rt.slots idx).used ∧ (rt.slots idx).pid = pid then some idx
      else none
  else none

/-- The first slot not in use. -/
def unusedSlot (rt : Runtime) : Option ℕ :=
  (List.range mosrtMaxProcs).find? fun i => !(rt.slots i).used

/-- `alloc_slot`; `none` is the return of `-1`. -/
def allocSlot (rt : Runtime) (pid : ℤ) : Option (ℕ × Runtime) :=
  (unusedSlot rt).map fun i =>
    (i, { rt with
      slots := Function.update rt.slots i { used := true, pid := pid }
      slotByPid :=
        if 1 ≤ pid ∧ pid ≤ mosrtMaxProcs then
          Function.update rt.slotByPid (pid - 1).toNat (some i)
        else rt.slotByPid })

def Runtime.setSlot (rt : Runtime) (idx : ℕ) (f : Slot → Slot) : Runtime :=
  { rt with slots := Function.update rt.slots idx (f (rt.slots idx)) }

/-! ### Waking -/

def enqueueReady (rt : Runtime) (pid : ℤ) : Runtime :=
  match procSetState rt.procs pid .ready rt.tick with
  | none => rt
  | some procs =>
    let rt := { rt with procs := procs, scheduler := (schedEnqueue procs rt.scheduler pid).2 }
    rt.log pid "READY" (runtimeSchedulerName rt)

def wakePid (rt : Runtime) (pid : ℤ) (why : CString) : Runtime :=
  match procGet rt.procs pid with
  | none => rt
  | some p => if p.state = .blocked then (enqueueReady rt pid).log pid "WAKE" why else rt

/-- `p->wakeup_tick = wakeup`. -/
def Pcb.setWakeup (p : Pcb) (wakeup : ℕ) : Pcb := { p with wakeupTick := wakeup }

/-- `wake_blocked_by_time` on the PCB in slot `i`, if it is in use. -/
def wakeBlockedByTime (rt : Runtime) (i : ℕ) : Runtime :=
  let p := rt.procs.entries i
  if p.used ∧ p.state = .blocked ∧ 0 < p.wakeupTick ∧ p.wakeupTick ≤ rt.tick then
    let entries := Function.update rt.procs.entries i (p.setWakeup 0)
    wakePid { rt with procs := { rt.procs with entries := entries } } p.pid "timer"
  else rt

/-- `proc_for_each(wake_blocked_by_time, rt)`. -/
def wakeTimers (rt : Runtime) : Runtime := (List.range mosrtMaxProcs).foldl wakeBlockedByTime rt

def accountReadyWait (p : Pcb) : Pcb :=
  if p.state = .ready then { p with waitTime := incr64 p.waitTime } else p

/-- `rebuild_one_ready` on the PCB in slot `i`, if it is in use. -/
def rebuildOneReady (procs : ProcTable) (s : Scheduler) (i : ℕ) : Scheduler :=
  if (procs.entries i).used ∧ (procs.entries i).state = .ready then
    (schedEnqueue procs s (procs.entries i).pid).2
  else s

def rebuildReadyQueues (rt : Runtime) : Runtime :=
  let s := (List.range mosrtMaxProcs).foldl (rebuildOneReady rt.procs) (schedClear rt.scheduler)
  { rt with
    scheduler := { s with
      currentPid := rt.scheduler.currentPid
      consumedTicks := rt.scheduler.consumedTicks } }

/-! ### The process on the CPU -/

/-- `dispatch`; the switch to the process and back records `CTXSW`. -/
def dispatch (rt : Runtime) : Bool × Runtime :=
  if 0 ≤ rt.currentPid then (true, rt)
  else
    let pid := (schedPickNext rt.procs rt.scheduler).1
    let rt := { rt with scheduler := (schedPickNext rt.procs rt.scheduler).2 }
    if pid < 0 then (false, rt)
    else
      match procSetState rt.procs pid .running rt.tick with
      | none => (false, rt)
      | some procs =>
        let rt := { rt with procs := procs, currentPid := pid }
        let rt := rt.log pid "DISPATCH" (runtimeSchedulerName rt)
        if (procGet rt.procs pid).isSome then
          let rt := { rt with vm := { rt.vm with tlb := tlbFlush rt.vm.tlb } }
          (true, rt.log pid "CTXSW" "swapcontext")
        else (true, rt)

def exitCurrent (rt : Runtime) (code : ℤ) : Runtime :=
  if rt.currentPid < 0 then rt
  else
    match procMarkExited rt.procs rt.currentPid code rt.tick with
    | none => { rt with currentPid := -1 }
    | some procs =>
      let pid := rt.currentPid
      let rt := { rt with
        procs := procs
        completed := (rt.completed + 1) % 2 ^ 32
        currentPid := -1 }
      rt.log pid "EXIT" "workload complete"

def blockCurrent (rt : Runtime) (why : CString) : Runtime :=
  if rt.currentPid < 0 then rt
  else
    match procSetState rt.procs rt.currentPid .blocked rt.tick with
    | none => { rt with currentPid := -1 }
    | some procs =>
      let pid := rt.currentPid
      { rt with procs := procs, currentPid := -1 }.log pid "BLOCK" why

def maybePreempt (rt : Runtime) : Runtime :=
  let pid := rt.currentPid
  if pid < 0 then rt
  else if rt.needResched || rt.timerResched || schedShouldPreempt rt.procs rt.scheduler pid then
    let rt := { rt with
      procs := schedDemoteAfterQuantum rt.procs rt.scheduler pid
      needResched := false
      timerResched := false }
    { (enqueueReady rt pid).log pid "YIELD" "quantum/preempt" with currentPid := -1 }
  else rt

def completeImmediate (rt : Runtime) (idx : ℕ) : Runtime :=
  rt.setSlot idx fun s => { s with pc := s.pc + 1, remaining := 0 }

/-! ### Instructions

`pid` is the process on the CPU, `idx` its slot and `insn` the instruction there. -/

def execCpu (rt : Runtime) (pid : ℤ) (idx : ℕ) (insn : WorkloadInsn) : Bool × Runtime :=
  let remaining := if (rt.slots idx).remaining = 0 then insn.ticks else (rt.slots idx).remaining
  let rt := rt.setSlot idx fun s => { s with remaining := remaining }
  if (procGet rt.procs pid).isNone ∨ remaining = 0 then (false, exitCurrent rt 1)
  else
    let rt := { rt with
      procs := (procForEach rt.procs accountReadyWait).modify pid fun p =>
        { p with cpuTime := incr64 p.cpuTime }
      busyTicks := incr64 rt.busyTicks
      tick := incr64 rt.tick
      scheduler := schedOnTick rt.scheduler pid }
    let rt := rt.setSlot idx fun s =>
      { s with remaining := remaining - 1, pc := if remaining - 1 = 0 then s.pc + 1 else s.pc }
    (true, maybePreempt (rt.log pid "CPU" "tick"))

def execIo (rt : Runtime) (pid : ℤ) (idx : ℕ) (insn : WorkloadInsn) : Runtime :=
  if (procGet rt.procs pid).isNone then exitCurrent rt 1
  else
    let wakeup : ℕ := (rt.tick + insn.ticks) % 2 ^ 64
    let rt := { rt with procs := rt.procs.modify pid fun p => p.setWakeup wakeup }
    blockCurrent (completeImmediate rt idx) (makeDetail "until" (toInt32 wakeup))

/-- The end of an instruction that may have released a waiter. -/
def wakeAndComplete (rt : Runtime) (idx : ℕ) (wake : ℤ) (why : CString) : Runtime :=
  completeImmediate (if 0 ≤ wake then wakePid rt wake why else rt) idx

def execSend (rt : Runtime) (pid : ℤ) (idx : ℕ) (insn : WorkloadInsn) : Runtime :=
  let r := ipcSend rt.queues insn.arg0 pid insn.arg1
  match sendResult r.1 with
  | .error => exitCurrent { rt with queues := r.2 } 3
  | .wouldBlock =>
    blockCurrent { rt with queues := ipcWaitSender r.2 insn.arg0 pid } "send full"
  | .ok =>
    let w := ipcPopReceiverWaiter r.2 insn.arg0
    wakeAndComplete { rt with queues := w.2 } idx w.1 "message"

def execRecv (rt : Runtime) (pid : ℤ) (idx : ℕ) (insn : WorkloadInsn) : Runtime :=
  let r := ipcRecv rt.queues insn.arg0 pid
  match recvResult r.1 with
  | .error => exitCurrent { rt with queues := r.2 } 3
  | .wouldBlock =>
    blockCurrent { rt with queues := ipcWaitReceiver r.2 insn.arg0 pid } "recv empty"
  | .ok =>
    let w := ipcPopSenderWaiter r.2 insn.arg0
    wakeAndComplete { rt with queues := w.2 } idx w.1 "queue space"

/-- `SEM_WAIT` and `LOCK`, given what the call on the object returned. -/
def execAcquire (rt : Runtime) (idx : ℕ) (r : SyncResult × SemTable) (why : CString) : Runtime :=
  let rt := { rt with sems := r.2 }
  match r.1 with
  | .error => exitCurrent rt 4
  | .wouldBlock => blockCurrent rt why
  | .ok => completeImmediate rt idx

/-- `SEM_POST` and `UNLOCK`, given what the call on the object returned. -/
def execRelease (rt : Runtime) (idx : ℕ) (r : SyncResult × ℤ × SemTable) (why : CString) :
    Runtime :=
  let rt := { rt with sems := r.2.2 }
  if r.1 = .error then exitCurrent rt 4 else wakeAndComplete rt idx r.2.1 why

def execSemWait (rt : Runtime) (pid : ℤ) (idx : ℕ) (insn : WorkloadInsn) : Runtime :=
  execAcquire rt idx (syncWait rt.sems insn.arg0 pid) "sem wait"

def execLock (rt : Runtime) (pid : ℤ) (idx : ℕ) (insn : WorkloadInsn) : Runtime :=
  execAcquire rt idx (syncMutexLock rt.sems insn.arg0 pid) "mutex lock"

def execSemPost (rt : Runtime) (pid : ℤ) (idx : ℕ) (insn : WorkloadInsn) : Runtime :=
  execRelease rt idx (syncPost rt.sems insn.arg0 pid) "sem post"

def execUnlock (rt : Runtime) (pid : ℤ) (idx : ℕ) (insn : WorkloadInsn) : Runtime :=
  execRelease rt idx (syncMutexUnlock rt.sems insn.arg0 pid) "mutex unlock"

/-- The test `p == NULL || p->vm == NULL`. -/
def lacksVm (rt : Runtime) (pid : ℤ) : Bool :=
  (procGet rt.procs pid).isNone || (rt.vm.vms pid).isNone

def vmLastAlloc (rt : Runtime) (pid : ℤ) : ℕ := ((procGet rt.procs pid).map (·.vmLastAlloc)).getD 0

def execMmap (fuel : ℕ) (rt : Runtime) (pid : ℤ) (idx : ℕ) (insn : WorkloadInsn) : Option Runtime :=
  if lacksVm rt pid then some (exitCurrent rt 5)
  else
    let r := vmAllocMalloc (vmHeapOps pid rt.tick) fuel (insn.arg0 % 2 ^ 64).toNat rt.vm
    r.1.map fun addr =>
      let rt := { rt with vm := r.2 }
      if addr = 0 then exitCurrent rt 5
      else
        let rt := { rt with procs := rt.procs.modify pid fun p => { p with vmLastAlloc := addr } }
        completeImmediate
          (rt.log pid "MMAP" (mmapDetail insn addr)) idx

/-- The address an `ACCESS` goes to. -/
def accessAddr (rt : Runtime) (pid : ℤ) (insn : WorkloadInsn) : ℕ :=
  if insn.arg0 < 0 then ((vmLastAlloc rt pid - insn.arg0) % 2 ^ 16).toNat
  else (insn.arg0 % 2 ^ 16).toNat

/-- The memory access of an `ACCESS`: whether it succeeded and the memory after. -/
def accessMem (rt : Runtime) (pid : ℤ) (insn : WorkloadInsn) : Bool × VmSys :=
  if insn.arg1 ≠ 0 then
    let r := vmWriteMem rt.vm pid (accessAddr rt pid insn) [0xAA] rt.tick
    (r.1, r.2.2)
  else
    let r := vmReadMem rt.vm pid (accessAddr rt pid insn) 1 rt.tick
    (r.1.isSome, r.2)

/-- The comparison of the major fault counters before and after an access. -/
def majorFault (rt : Runtime) (pid : ℤ) (insn : WorkloadInsn) : Bool :=
  rt.vm.pager.majorFaults < (accessMem rt pid insn).2.pager.majorFaults

def accessDetail (rt : Runtime) (pid : ℤ) (insn : WorkloadInsn) : String :=
  let vm := (accessMem rt pid insn).2
  (if insn.arg1 ≠ 0 then "write" else "read") ++ " addr=0x" ++
    hex4 (accessAddr rt pid insn) ++ " " ++
    if rt.vm.tlb.hits < vm.tlb.hits then "TLB-hit"
    else if rt.vm.pager.minorFaults < vm.pager.minorFaults then "minor-fault"
    else if majorFault rt pid insn then "major-fault"
    else "page-hit"

def execAccess (rt : Runtime) (pid : ℤ) (idx : ℕ) (insn : WorkloadInsn) : Runtime :=
  if lacksVm rt pid then exitCurrent rt 5
  else
    let r := accessMem rt pid insn
    let detail := accessDetail rt pid insn
    let major := majorFault rt pid insn
    let rt := { rt with vm := r.2 }
    if r.1 = false then exitCurrent rt 6
    else
      let rt := rt.log pid "ACCESS" detail
      if major then
        -- the program counter stays, so the access is made again
        let wakeup : ℕ := (rt.tick + vmPageFaultLatency) % 2 ^ 64
        blockCurrent
          { rt with procs := rt.procs.modify pid fun p => p.setWakeup wakeup }
          "page fault"
      else completeImmediate rt idx

def execMfree (rt : Runtime) (pid : ℤ) (idx : ℕ) : Runtime :=
  if lacksVm rt pid then exitCurrent rt 5
  else
    let addr := vmLastAlloc rt pid
    let rt := { rt with vm := (vmAllocFree (vmHeapOps pid rt.tick) addr rt.vm).2 }
    let rt := rt.log pid "MFREE" (mfreeDetail addr)
    completeImmediate
      { rt with procs := rt.procs.modify pid fun p => { p with vmLastAlloc := 0 } } idx

/-- The instruction that the process on the CPU executes next, with its slot. -/
def currentInsn (rt : Runtime) (pid : ℤ) : Option (ℕ × Option WorkloadInsn) :=
  (slotIndex rt pid).map fun idx => (idx, (rt.slots idx).workload.insns[(rt.slots idx).pc]?)

/-- `execute_instruction`: whether it consumed a tick, and the state after. -/
def executeInstruction (fuel : ℕ) (rt : Runtime) : Option (Bool × Runtime) :=
  let pid := rt.currentPid
  match currentInsn rt pid with
  | none => some (false, exitCurrent rt 1)
  | some (_, none) => some (false, exitCurrent rt 0)
  | some (idx, some insn) =>
    match insn.op with
    | .cpu => some (execCpu rt pid idx insn)
    | .io => some (false, execIo rt pid idx insn)
    | .send => some (false, execSend rt pid idx insn)
    | .recv => some (false, execRecv rt pid idx insn)
    | .semWait => some (false, execSemWait rt pid idx insn)
    | .semPost => some (false, execSemPost rt pid idx insn)
    | .lock => some (false, execLock rt pid idx insn)
    | .unlock => some (false, execUnlock rt pid idx insn)
    | .mmap => (execMmap fuel rt pid idx insn).map fun rt => (false, rt)
    | .access => some (false, execAccess rt pid idx insn)
    | .mfree => some (false, execMfree rt pid idx)
    | .exit => some (false, exitCurrent rt 0)

/-! ### The interface -/

/-- `runtime_run_workload` on a workload that was loaded; `-1` when there is no room. -/
def runtimeRunWorkload (rt : Runtime) (workload : Workload) (priority : ℤ) : ℤ × Runtime :=
  (procCreate rt.procs 0 priority rt.tick).elim (-1, rt) fun (pid, procs) =>
    let rt := { rt with procs := procs }
    let rt :=
      if (procGet rt.procs pid).isSome then
        { rt with vm := { rt.vm with vms := Function.update rt.vm.vms pid (some vmProcInit) } }
      else rt
    (allocSlot rt pid).elim
      (-1, { rt with procs := procDestroy rt.procs pid 1, vm := vmProcDestroy rt.vm pid })
      fun (idx, rt) =>
        let rt := enqueueReady (rt.setSlot idx fun s => { s with workload := workload }) pid
        (pid, rt.log pid "CREATE" workload.name)

/-- `sched_age_ready(&rt->scheduler, rt->tick)`. -/
def ageReady (rt : Runtime) : Runtime :=
  { rt with procs := schedAgeReady rt.procs rt.scheduler rt.tick }

/-- The heap is rebuilt in every pass, as priorities may have changed. -/
def rebuildPrio (rt : Runtime) : Runtime :=
  if rt.scheduler.algo = .prio then rebuildReadyQueues rt else rt

def boostMlfq (rt : Runtime) : Runtime :=
  if rt.scheduler.algo = .mlfq ∧ mlfqBoostInterval ≤ sub64 rt.tick rt.scheduler.lastBoostTick then
    let rt := { rt with
      procs := schedPriorityBoost rt.procs rt.scheduler
      scheduler := { rt.scheduler with lastBoostTick := rt.tick } }
    (rebuildReadyQueues rt).log (-1) "BOOST" "mlfq"
  else rt

/-- The part of a pass before `dispatch`. -/
def passPrepare (rt : Runtime) : Runtime := boostMlfq (rebuildPrio (ageReady (wakeTimers rt)))

/-- A tick on which no process could be dispatched. -/
def idleTick (rt : Runtime) : Runtime :=
  let rt := { rt with
    procs := procForEach rt.procs accountReadyWait
    idleTicks := incr64 rt.idleTicks
    tick := incr64 rt.tick }
  rt.log (-1) "IDLE" "no ready process"

/-- One iteration of the inner loop of `runtime_step`: whether it consumed a tick. -/
def runtimePass (fuel : ℕ) (rt : Runtime) : Option (Bool × Runtime) :=
  let r := dispatch (passPrepare rt)
  if r.1 then executeInstruction fuel r.2 else some (true, idleTick r.2)

/-- The inner loop of `runtime_step`, with `guard` iterations left. -/
def stepTick (fuel : ℕ) : ℕ → Runtime → Option Runtime
  | 0, rt => some rt
  | guard + 1, rt =>
    (runtimePass fuel rt).bind fun r => if r.1 then some r.2 else stepTick fuel guard r.2

def runtimeStep (fuel : ℕ) (rt : Runtime) : ℕ → Option Runtime
  | 0 => some rt
  | ticks + 1 => (stepTick fuel maxDispatchGuard rt).bind fun rt => runtimeStep fuel rt ticks

/-- The end of the slot of a killed process. -/
def releaseSlot (rt : Runtime) (pid : ℤ) : Runtime :=
  match slotIndex rt pid with
  | none => rt
  | some idx =>
    { rt with
      slots := Function.update rt.slots idx {}
      slotByPid :=
        if 1 ≤ pid ∧ pid ≤ mosrtMaxProcs then Function.update rt.slotByPid (pid - 1).toNat none
        else rt.slotByPid }

def runtimeKill (rt : Runtime) (pid : ℤ) : Bool × Runtime :=
  if (procGet rt.procs pid).isNone then (false, rt)
  else
    let rt := if rt.currentPid = pid then { rt with currentPid := -1 } else rt
    match procMarkExited rt.procs pid 130 rt.tick with
    | none => (false, rt)
    | some procs =>
      let rt := releaseSlot { rt with procs := procs } pid
      (true, rebuildReadyQueues (rt.log pid "KILL" "requested"))

def runtimeYield (rt : Runtime) : Runtime := { rt with needResched := true }

def runtimeSetScheduler (rt : Runtime) (algo : SchedAlgo) : Runtime :=
  rebuildReadyQueues { rt with scheduler := schedSetAlgo rt.scheduler algo }

def runtimeSetQuantum (rt : Runtime) (ticks : ℕ) : Runtime :=
  { rt with scheduler := schedSetQuantum rt.scheduler ticks }

/-- The nice values that `runtime_set_nice` accepts. -/
def clampNice (niceValue : ℤ) : ℤ :=
  if niceValue < -20 then -20 else if 19 < niceValue then 19 else niceValue

def runtimeSetNice (rt : Runtime) (pid niceValue : ℤ) : Bool × Runtime :=
  if (procGet rt.procs pid).isNone then (false, rt)
  else
    (true, { rt with procs := rt.procs.modify pid fun p =>
      { p with
        nice := clampNice niceValue
        priority := clampPrio (p.basePriority + clampNice niceValue) } })

def runtimeSetPriority (rt : Runtime) (pid priority : ℤ) : Bool × Runtime :=
  if (procGet rt.procs pid).isNone then (false, rt)
  else
    (true, { rt with procs := rt.procs.modify pid fun p =>
      { p with basePriority := clampPrio priority, priority := clampPrio priority } })

/-! ### Runs -/

/-- What can happen to a runtime: calls of its interface, passes of `runtime_step`, a change of
the replacement policy by `pager_set_policy`, and the timer signal. -/
inductive RtOp where
  | runWorkload (workload : Workload) (priority : ℤ)
  | pass (fuel : ℕ)
  | kill (pid : ℤ)
  | setScheduler (algo : SchedAlgo)
  | setQuantum (ticks : ℕ)
  | setNice (pid niceValue : ℤ)
  | setPriority (pid priority : ℤ)
  | setPolicy (name : String)
  | yield
  | timerSignal

/-- The state after an operation.  A pass that does not end leads to no new state. -/
def RtOp.exec (rt : Runtime) : RtOp → Runtime
  | .runWorkload workload priority => (runtimeRunWorkload rt workload priority).2
  | .pass fuel => (runtimePass fuel rt).elim rt Prod.snd
  | .kill pid => (runtimeKill rt pid).2
  | .setScheduler algo => runtimeSetScheduler rt algo
  | .setQuantum ticks => runtimeSetQuantum rt ticks
  | .setNice pid niceValue => (runtimeSetNice rt pid niceValue).2
  | .setPriority pid priority => (runtimeSetPriority rt pid priority).2
  | .setPolicy name => { rt with vm := (pagerSetPolicy rt.vm name).2 }
  | .yield => runtimeYield rt
  | .timerSignal => { rt with timerResched := true }

variable {fuel : ℕ} {rt rt' : Runtime}

theorem stepTick_passes {guard : ℕ} (h : stepTick fuel guard rt = some rt') :
    ∃ k, rt' = Runs.run RtOp.exec rt (List.replicate k (.pass fuel)) := by
  induction guard generalizing rt with
  | zero => exact ⟨0, (Option.some.inj h).symm⟩
  | succ guard ih =>
    rw [stepTick] at h
    obtain ⟨r, hpass, hr⟩ := Option.bind_eq_some_iff.mp h
    have hexec : RtOp.exec rt (.pass fuel) = r.2 := by rw [RtOp.exec, hpass, Option.elim_some]
    split_ifs at hr with hconsumed
    · refine ⟨1, ?_⟩
      rw [List.replicate_one, Runs.run_cons, Runs.run_nil, hexec]
      exact (Option.some.inj hr).symm
    · obtain ⟨k, hk⟩ := ih hr
      refine ⟨k + 1, ?_⟩
      rw [List.replicate_succ, Runs.run_cons, hexec]
      exact hk

/-- A call of `runtime_step` that returns is a run of passes. -/
theorem runtimeStep_passes {ticks : ℕ} (h : runtimeStep fuel rt ticks = some rt') :
    ∃ k, rt' = Runs.run RtOp.exec rt (List.replicate k (.pass fuel)) := by
  induction ticks generalizing rt with
  | zero => exact ⟨0, (Option.some.inj h).symm⟩
  | succ ticks ih =>
    rw [runtimeStep] at h
    obtain ⟨rt₁, hfirst, hrest⟩ := Option.bind_eq_some_iff.mp h
    obtain ⟨k, rfl⟩ := stepTick_passes hfirst
    obtain ⟨k', rfl⟩ := ih hrest
    refine ⟨k + k', ?_⟩
    rw [List.replicate_add, Runs.run_append]

end Mosrt
