/-
Memory and last allocations, through the runtime.

`Runtime.store` is the memory system together with what each process allocated last.
Three instructions change it; the rest of the runtime flushes the TLB at a dispatch and
gives a new process its address space.

* `store_passPrepare`, `dispatch_store` — up to the instruction of a pass;
* `executeInstruction_store` — every other instruction leaves the store as it is;
* `execMmap_store`, `execAccess_store`, `execMfree_store` — those that do not.
-/
import Mosrt.Operations

namespace Mosrt

variable {rt rt' : Runtime} {pid : ℤ} {p : Pcb} {f : Pcb → Pcb} {idx fuel : ℕ}
  {insn : WorkloadInsn}

/-- What each process allocated last. -/
def ProcTable.lastAllocs (t : ProcTable) (pid : ℤ) : Option ℕ :=
  (procGet t pid).map Pcb.vmLastAlloc

def Runtime.store (rt : Runtime) : VmSys × (ℤ → Option ℕ) := (rt.vm, rt.procs.lastAllocs)

/-! ### Writing PCBs -/

theorem lastAllocs_modify (t : ProcTable) (hf : KeepsId f)
    (hlast : ∀ p, (f p).vmLastAlloc = p.vmLastAlloc) (pid : ℤ) :
    (t.modify pid f).lastAllocs = t.lastAllocs :=
  funext fun pid' => procGet_modify_map hf hlast pid pid'

theorem lastAllocs_forEach (t : ProcTable) (hf : KeepsId f)
    (hlast : ∀ p, (f p).vmLastAlloc = p.vmLastAlloc) :
    (procForEach t f).lastAllocs = t.lastAllocs :=
  funext fun pid => procGet_forEach_map hf hlast pid

theorem lastAllocs_setState {t t' : ProcTable} {st : ProcState} {tick : ℕ}
    (h : procSetState t pid st tick = some t') : t'.lastAllocs = t.lastAllocs := by
  obtain ⟨-, rfl⟩ := procSetState_eq_some.mp h
  exact lastAllocs_modify t (keepsId_setState st tick) (fun _ => rfl) pid

theorem lastAllocs_markExited {t t' : ProcTable} {code : ℤ} {tick : ℕ}
    (h : procMarkExited t pid code tick = some t') : t'.lastAllocs = t.lastAllocs := by
  obtain ⟨-, rfl⟩ := procMarkExited_eq_some.mp h
  exact lastAllocs_modify t (keepsId_markExited code tick) (fun _ => rfl) pid

/-- Setting the last allocation of an existing process. -/
theorem lastAllocs_set {t : ProcTable} (hp : procGet t pid = some p) (addr : ℕ) :
    (t.modify pid fun p => { p with vmLastAlloc := addr }).lastAllocs =
      Function.update t.lastAllocs pid (some addr) := by
  have hid : KeepsId fun p : Pcb => { p with vmLastAlloc := addr } := fun _ => ⟨rfl, rfl⟩
  funext pid'
  rw [ProcTable.lastAllocs, procGet_modify hid, Function.update_apply]
  split_ifs
  · rw [hp, Option.map_some, Option.map_some]
  · rfl

theorem store_procs {t : ProcTable} (h : t.lastAllocs = rt.procs.lastAllocs) :
    ({ rt with procs := t } : Runtime).store = rt.store := congrArg (Prod.mk rt.vm) h

/-! ### Waking and dispatching -/

theorem store_log (rt : Runtime) (pid : ℤ) (event detail : CString) :
    (rt.log pid event detail).store = rt.store := rfl

theorem store_setSlot (rt : Runtime) (idx : ℕ) (g : Slot → Slot) :
    (rt.setSlot idx g).store = rt.store := rfl

theorem store_rebuild (rt : Runtime) : (rebuildReadyQueues rt).store = rt.store := by
  rw [rebuildReadyQueues]
  generalize (List.range mosrtMaxProcs).foldl (rebuildOneReady rt.procs)
    (schedClear rt.scheduler) = s
  rfl

theorem store_enqueueReady (rt : Runtime) (pid : ℤ) : (enqueueReady rt pid).store = rt.store := by
  rw [enqueueReady]
  cases hset : procSetState rt.procs pid .ready rt.tick with
  | none => rfl
  | some procs => exact congrArg (Prod.mk rt.vm) (lastAllocs_setState hset)

theorem store_wakePid (rt : Runtime) (pid : ℤ) (why : CString) :
    (wakePid rt pid why).store = rt.store := by
  rw [wakePid]
  cases procGet rt.procs pid with
  | none => rfl
  | some p =>
    dsimp only
    split_ifs
    · rw [store_log, store_enqueueReady]
    · rfl

theorem store_wakeBlockedByTime (rt : Runtime) (i : ℕ) :
    (wakeBlockedByTime rt i).store = rt.store := by
  rw [wakeBlockedByTime]
  dsimp only
  split_ifs
  · rw [store_wakePid]
    refine store_procs (funext fun pid => ?_)
    exact procGet_entry_map (g := Pcb.vmLastAlloc) (q := (rt.procs.entries i).setWakeup 0) i rfl rfl
      rfl pid
  · rfl

theorem store_wakeTimers (rt : Runtime) : (wakeTimers rt).store = rt.store := by
  rw [wakeTimers]
  refine List.foldlRecOn (motive := fun r : Runtime => r.store = rt.store) _ _ rfl ?_
  intro r hr i _
  rw [store_wakeBlockedByTime, hr]

theorem store_ageReady (rt : Runtime) : (ageReady rt).store = rt.store := by
  rw [ageReady, schedAgeReady]
  split_ifs
  · refine store_procs (lastAllocs_forEach rt.procs (keeps_ageOne rt.tick).id fun p => ?_)
    rw [ageOne]
    split_ifs <;> rfl
  · rfl

theorem store_rebuildPrio (rt : Runtime) : (rebuildPrio rt).store = rt.store := by
  rw [rebuildPrio]
  split_ifs
  · exact store_rebuild rt
  · rfl

theorem store_boostMlfq (rt : Runtime) : (boostMlfq rt).store = rt.store := by
  rw [boostMlfq]
  split_ifs with hdue
  · have hboost : schedPriorityBoost rt.procs rt.scheduler = procForEach rt.procs boostOne := by
      rw [schedPriorityBoost, if_pos hdue.1]
    rw [hboost, store_log, store_rebuild]
    refine congrArg (Prod.mk rt.vm) (lastAllocs_forEach rt.procs keepsId_boostOne fun p => ?_)
    rw [boostOne]
    split_ifs <;> rfl
  · rfl

theorem store_passPrepare (rt : Runtime) : (passPrepare rt).store = rt.store := by
  rw [passPrepare, store_boostMlfq, store_rebuildPrio, store_ageReady, store_wakeTimers]

/-- A dispatch flushes the TLB when it puts another process on the CPU. -/
theorem dispatch_store (rt : Runtime) :
    (dispatch rt).2.store = rt.store ∧ (dispatch rt).2.currentPid = rt.currentPid ∨
      (dispatch rt).2.store = ({ rt.vm with tlb := tlbFlush rt.vm.tlb }, rt.procs.lastAllocs) := by
  rw [dispatch]
  split_ifs
  · exact .inl ⟨rfl, rfl⟩
  · dsimp only
    split_ifs
    · exact .inl ⟨rfl, rfl⟩
    · generalize (schedPickNext rt.procs rt.scheduler).1 = pid
      generalize (schedPickNext rt.procs rt.scheduler).2 = sched
      cases hset : procSetState rt.procs pid .running rt.tick with
      | none => exact .inl ⟨rfl, rfl⟩
      | some procs =>
        have hlast := lastAllocs_setState hset
        obtain ⟨⟨p, hp, -⟩, hprocs⟩ := procSetState_eq_some.mp hset
        have hsome : (procGet procs pid).isSome = true := by
          rw [hprocs, procGet_modify_self (keepsId_setState .running rt.tick) hp,
            Option.isSome_some]
        dsimp only
        split_ifs with hget
        · exact .inr (congrArg (Prod.mk _) hlast)
        · exact absurd hsome hget

theorem store_idleTick (rt : Runtime) : (idleTick rt).store = rt.store :=
  congrArg (Prod.mk rt.vm) (lastAllocs_forEach rt.procs keeps_accountReadyWait.id fun p => by
    rw [accountReadyWait]
    split_ifs <;> rfl)

/-! ### The process on the CPU -/

theorem store_exitCurrent (rt : Runtime) (code : ℤ) : (exitCurrent rt code).store = rt.store := by
  rw [exitCurrent]
  split_ifs
  · rfl
  · cases hmark : procMarkExited rt.procs rt.currentPid code rt.tick with
    | none => rfl
    | some procs => exact congrArg (Prod.mk rt.vm) (lastAllocs_markExited hmark)

theorem store_blockCurrent (rt : Runtime) (why : CString) :
    (blockCurrent rt why).store = rt.store := by
  rw [blockCurrent]
  split_ifs
  · rfl
  · cases hset : procSetState rt.procs rt.currentPid .blocked rt.tick with
    | none => rfl
    | some procs => exact congrArg (Prod.mk rt.vm) (lastAllocs_setState hset)

theorem lastAllocs_demote (t : ProcTable) (s : Scheduler) (pid : ℤ) :
    (schedDemoteAfterQuantum t s pid).lastAllocs = t.lastAllocs := by
  rw [schedDemoteAfterQuantum]
  split_ifs
  · refine lastAllocs_modify t ?_ ?_ pid
    · intro q
      dsimp only
      split_ifs <;> exact ⟨rfl, rfl⟩
    · intro q
      split_ifs <;> rfl
  · rfl

theorem store_maybePreempt (rt : Runtime) : (maybePreempt rt).store = rt.store := by
  rw [maybePreempt]
  dsimp only
  split_ifs
  · rfl
  · obtain ⟨r, hr⟩ : ∃ r : Runtime, { rt with
      procs := schedDemoteAfterQuantum rt.procs rt.scheduler rt.currentPid
      needResched := false
      timerResched := false } = r := ⟨_, rfl⟩
    have hstore : r.store = rt.store := by
      rw [← hr]
      exact congrArg (Prod.mk rt.vm) (lastAllocs_demote rt.procs rt.scheduler rt.currentPid)
    rw [hr, ← hstore]
    exact store_enqueueReady r rt.currentPid
  · rfl

theorem store_completeImmediate (rt : Runtime) (idx : ℕ) :
    (completeImmediate rt idx).store = rt.store := rfl

theorem store_wakeAndComplete (rt : Runtime) (idx : ℕ) (wake : ℤ) (why : CString) :
    (wakeAndComplete rt idx wake why).store = rt.store := by
  rw [wakeAndComplete, store_completeImmediate]
  split_ifs
  · exact store_wakePid rt wake why
  · rfl

theorem store_setWakeup (rt : Runtime) (pid : ℤ) (w : ℕ) :
    ({ rt with procs := rt.procs.modify pid fun p => p.setWakeup w } : Runtime).store = rt.store :=
  have hid : KeepsId fun p : Pcb => p.setWakeup w := fun _ => ⟨rfl, rfl⟩
  store_procs (lastAllocs_modify rt.procs hid (fun _ => rfl) pid)

/-! ### Instructions that leave the store alone -/

theorem store_accountTick (rt : Runtime) (pid : ℤ) : (accountTick rt pid).store = rt.store := by
  have hcharge : KeepsId fun p : Pcb => { p with cpuTime := incr64 p.cpuTime } :=
    fun _ => ⟨rfl, rfl⟩
  have hwait : (procForEach rt.procs accountReadyWait).lastAllocs = rt.procs.lastAllocs := by
    refine lastAllocs_forEach rt.procs keeps_accountReadyWait.id fun p => ?_
    rw [accountReadyWait]
    split_ifs <;> rfl
  exact congrArg (Prod.mk rt.vm) ((lastAllocs_modify _ hcharge (fun _ => rfl) pid).trans hwait)

theorem store_execCpu (hc : OnCpu rt p) (idx : ℕ) (insn : WorkloadInsn) :
    (execCpu rt rt.currentPid idx insn).2.store = rt.store := by
  rw [execCpu_eq hc]
  split_ifs
  · rw [store_exitCurrent]
    rfl
  · rw [store_maybePreempt, spendTick, store_log, store_setSlot, store_accountTick]
    rfl

theorem store_execIo (rt : Runtime) (pid : ℤ) (idx : ℕ) (insn : WorkloadInsn) :
    (execIo rt pid idx insn).store = rt.store := by
  rw [execIo]
  split_ifs
  · exact store_exitCurrent rt 1
  · dsimp only
    rw [store_blockCurrent, store_completeImmediate]
    exact store_setWakeup rt pid _

theorem Settled.store (h : Settled rt idx rt') : rt'.store = rt.store := by
  cases h with
  | error => exact store_exitCurrent _ _
  | blocked => exact store_blockCurrent _ _
  | done => exact store_wakeAndComplete _ _ _ _

/-- The instructions that may change memory. -/
def WorkloadOp.isMemory : WorkloadOp → Bool
  | .mmap | .access | .mfree => true
  | _ => false

theorem executeInstruction_store {r : Bool × Runtime} (hc : OnCpu rt p)
    (hexec : executeInstruction fuel rt = some r)
    (hop : ∀ insn, rt.insnOf rt.currentPid = some insn → insn.op.isMemory = false) :
    r.2.store = rt.store := by
  have hrun := hexec
  rw [executeInstruction] at hexec
  rw [Runtime.insnOf] at hop
  cases hcur : currentInsn rt rt.currentPid with
  | none =>
    rw [hcur] at hexec
    cases hexec
    exact store_exitCurrent rt 1
  | some c =>
    obtain ⟨idx, insn⟩ := c
    rw [hcur] at hexec hop
    cases insn with
    | none =>
      cases hexec
      exact store_exitCurrent rt 0
    | some insn =>
      have hop := hop insn rfl
      dsimp only at hexec
      cases hkind : insn.op with
      | cpu =>
        rw [hkind] at hexec
        rw [← Option.some.inj hexec]
        exact store_execCpu hc idx insn
      | io =>
        rw [hkind] at hexec
        cases hexec
        exact store_execIo rt rt.currentPid idx insn
      | send | recv | semWait | semPost | lock | unlock =>
        exact (executeInstruction_settled hcur (by rw [hkind]; rfl) hrun).2.store
      | exit =>
        rw [hkind] at hexec
        cases hexec
        exact store_exitCurrent rt 0
      | mmap | access | mfree =>
        rw [hkind] at hop
        cases hop

/-! ### Instructions that change the store -/

/-- The size an `MMAP` asks for. -/
abbrev mmapSize (insn : WorkloadInsn) : ℕ := (insn.arg0 % 2 ^ 64).toNat

theorem vms_of_lacksVm (h : ¬ lacksVm rt pid = true) : (rt.vm.vms pid).isSome = true := by
  rw [lacksVm, Bool.or_eq_true, not_or, Option.isNone_iff_eq_none, Option.isNone_iff_eq_none] at h
  exact Option.isSome_iff_ne_none.mpr h.2

theorem exitCurrent_exited (rt : Runtime) (h : rt.Sound) (hc : OnCpu rt p) (code : ℤ) :
    (exitCurrent rt code).abs.stateOf rt.currentPid = some .exited := by
  rw [(exitCurrent_spec rt h hc code).2, Core.stateOf_leave]
  exact if_pos rfl

/-- A process that maps memory has its block on record afterwards, or has exited. -/
theorem execMmap_store (h : AtInsn rt p idx insn)
    (hexec : execMmap fuel rt rt.currentPid idx insn = some rt') :
    rt'.store = rt.store ∨ (rt.vm.vms rt.currentPid).isSome = true ∧
      ∃ addr, (vmAllocMalloc (vmHeapOps rt.currentPid rt.tick) fuel (mmapSize insn) rt.vm).1 =
          some addr ∧
        rt'.vm = (vmAllocMalloc (vmHeapOps rt.currentPid rt.tick) fuel (mmapSize insn) rt.vm).2 ∧
        (rt'.abs.stateOf rt.currentPid = some .exited ∧
            rt'.procs.lastAllocs = rt.procs.lastAllocs ∨
          addr ≠ 0 ∧ rt'.procs.lastAllocs =
            Function.update rt.procs.lastAllocs rt.currentPid (some addr)) := by
  rw [execMmap] at hexec
  by_cases hvm : lacksVm rt rt.currentPid = true
  · rw [if_pos hvm] at hexec
    cases hexec
    exact .inl (store_exitCurrent rt 5)
  rw [if_neg hvm] at hexec
  generalize vmAllocMalloc (vmHeapOps rt.currentPid rt.tick) fuel (mmapSize insn) rt.vm = m
    at hexec ⊢
  obtain ⟨addr, haddr, heq⟩ := Option.map_eq_some_iff.mp hexec
  refine .inr ⟨vms_of_lacksVm hvm, addr, haddr, ?_⟩
  dsimp only at heq
  by_cases hzero : addr = 0
  · rw [if_pos hzero] at heq
    have hstore := store_exitCurrent { rt with vm := m.2 } 5
    have hexit := exitCurrent_exited { rt with vm := m.2 } h.sound
      ⟨h.cpu.pos, h.cpu.get, h.cpu.running⟩ 5
    rw [heq] at hstore hexit
    exact ⟨congrArg Prod.fst hstore, .inl ⟨hexit, congrArg Prod.snd hstore⟩⟩
  · rw [if_neg hzero] at heq
    rw [← heq]
    exact ⟨rfl, .inr ⟨hzero, lastAllocs_set h.cpu.get addr⟩⟩

theorem execAccess_store (rt : Runtime) (idx : ℕ) (insn : WorkloadInsn) :
    (execAccess rt rt.currentPid idx insn).store = rt.store ∨
      (rt.vm.vms rt.currentPid).isSome = true ∧
        (execAccess rt rt.currentPid idx insn).store =
          ((accessMem rt rt.currentPid insn).2, rt.procs.lastAllocs) := by
  rw [execAccess]
  by_cases hvm : lacksVm rt rt.currentPid = true
  · rw [if_pos hvm]
    exact .inl (store_exitCurrent rt 5)
  rw [if_neg hvm]
  refine .inr ⟨vms_of_lacksVm hvm, ?_⟩
  dsimp only
  generalize accessMem rt rt.currentPid insn = r
  generalize accessDetail rt rt.currentPid insn = detail
  split_ifs
  · exact store_exitCurrent _ 6
  · rw [store_blockCurrent]
    exact store_setWakeup (({ rt with vm := r.2 } : Runtime).log rt.currentPid "ACCESS" detail) _ _
  · rfl

theorem execMfree_store (h : OnCpu rt p) (idx : ℕ) :
    (execMfree rt rt.currentPid idx).store = rt.store ∨
      (rt.vm.vms rt.currentPid).isSome = true ∧
        (execMfree rt rt.currentPid idx).store =
          ((vmAllocFree (vmHeapOps rt.currentPid rt.tick) (vmLastAlloc rt rt.currentPid) rt.vm).2,
            Function.update rt.procs.lastAllocs rt.currentPid (some 0)) := by
  rw [execMfree]
  by_cases hvm : lacksVm rt rt.currentPid = true
  · rw [if_pos hvm]
    exact .inl (store_exitCurrent rt 5)
  rw [if_neg hvm]
  refine .inr ⟨vms_of_lacksVm hvm, ?_⟩
  dsimp only
  generalize (vmAllocFree (vmHeapOps rt.currentPid rt.tick) (vmLastAlloc rt rt.currentPid)
    rt.vm).2 = vm
  generalize asciiBytes (mfreeDetail (vmLastAlloc rt rt.currentPid)) = detail
  exact congrArg (Prod.mk vm) (lastAllocs_set h.get 0)

/-! ### The other operations -/

theorem store_releaseSlot (rt : Runtime) (pid : ℤ) : (releaseSlot rt pid).store = rt.store := by
  rw [releaseSlot]
  split <;> rfl

theorem store_runtimeKill (rt : Runtime) (pid : ℤ) : (runtimeKill rt pid).2.store = rt.store := by
  rw [runtimeKill]
  by_cases hget : (procGet rt.procs pid).isNone = true
  · rw [if_pos hget]
  rw [if_neg hget]
  obtain ⟨r, hr⟩ : ∃ r : Runtime,
    (if rt.currentPid = pid then { rt with currentPid := -1 } else rt) = r := ⟨_, rfl⟩
  have hstore : r.store = rt.store := by
    rw [← hr]
    split_ifs <;> rfl
  dsimp only
  rw [hr, ← hstore]
  cases hmark : procMarkExited r.procs pid 130 r.tick with
  | none => rfl
  | some procs =>
    dsimp only
    rw [store_rebuild, store_log, store_releaseSlot]
    exact store_procs (lastAllocs_markExited hmark)

/-- A new process gets an empty address space; the table may be full. -/
theorem runtimeRunWorkload_store (h : rt.Sound) (workload : Workload) (priority : ℤ) :
    (runtimeRunWorkload rt workload priority).2.store = rt.store ∨
      ∃ pid, procGet rt.procs pid = none ∧
        (runtimeRunWorkload rt workload priority).2.store =
          ({ rt.vm with vms := Function.update rt.vm.vms pid (some vmProcInit) },
            Function.update rt.procs.lastAllocs pid (some 0)) := by
  rcases runtimeRunWorkload_eq workload h priority with ⟨heq, -⟩ | ⟨n, t, i, vm, hvm, hroom, heq⟩
  · exact .inl (congrArg Runtime.store heq)
  · refine .inr ⟨n + 1, hroom.absent, ?_⟩
    rw [heq, store_log, store_enqueueReady, ← hvm]
    refine congrArg (Prod.mk vm) (funext fun pid => ?_)
    show (procGet t pid).map _ = _
    rw [Function.update_apply]
    split_ifs with hpid
    · rw [hpid, hroom.created]
      rfl
    · rw [hroom.others pid hpid]
      rfl

/-- Operations that execute no instruction and create no process, a change of the replacement
policy apart. -/
theorem RtOp.store_exec (op : RtOp) (hpass : ∀ fuel, op ≠ .pass fuel)
    (hcreate : op.creates = false) :
    (RtOp.exec rt op).store = rt.store ∨ ∃ name, op = .setPolicy name := by
  refine or_iff_not_imp_right.mpr fun hpolicy => ?_
  cases op with
  | setPolicy name => exact absurd ⟨name, rfl⟩ hpolicy
  | runWorkload => cases hcreate
  | pass fuel => exact absurd rfl (hpass fuel)
  | kill pid => exact store_runtimeKill rt pid
  | setScheduler algo => exact store_rebuild _
  | setQuantum ticks => rfl
  | setNice pid niceValue =>
    have hid : KeepsId fun p : Pcb => { p with
      nice := clampNice niceValue
      priority := clampPrio (p.basePriority + clampNice niceValue) } := fun _ => ⟨rfl, rfl⟩
    rw [RtOp.exec, runtimeSetNice]
    split_ifs
    · rfl
    · exact store_procs (lastAllocs_modify rt.procs hid (fun _ => rfl) pid)
  | setPriority pid priority =>
    have hid : KeepsId fun p : Pcb => { p with
      basePriority := clampPrio priority
      priority := clampPrio priority } := fun _ => ⟨rfl, rfl⟩
    rw [RtOp.exec, runtimeSetPriority]
    split_ifs
    · rfl
    · exact store_procs (lastAllocs_modify rt.procs hid (fun _ => rfl) pid)
  | yield | timerSignal => rfl

end Mosrt
