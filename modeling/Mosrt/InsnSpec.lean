/-
Instructions as moves of the abstract machine.

`executeInstruction_spec`: whatever the process on the CPU executes, the runtime
stays `Sound` and its abstract state makes one `Exec` move.  `blocksSafely` is the
condition under which an instruction that blocks leaves its process a way to be
woken; it is evaluated before the instruction.  `executeInstruction_settled` is what
the four instructions on queues and semaphores have in common.
-/
import Mosrt.RuntimeSpec

namespace Mosrt

variable {rt rt' : Runtime} {pid : ℤ} {p : Pcb} {idx : ℕ} {insn : WorkloadInsn} {f : Pcb → Pcb}

/-! ### The process on the CPU -/

/-- `p` is the PCB of the process on the CPU. -/
structure OnCpu (rt : Runtime) (p : Pcb) : Prop where
  pos : 0 ≤ rt.currentPid
  get : procGet rt.procs rt.currentPid = some p
  running : p.state = .running

theorem Core.Placed.onCpu (h : rt.abs.Placed) (hpos : 0 ≤ rt.currentPid) : ∃ p, OnCpu rt p := by
  rcases h.current with hc | hc
  · have : rt.currentPid = -1 := hc
    omega
  · obtain ⟨p, hp, hrun⟩ := procGet_of_stateOf hc
    exact ⟨p, hpos, hp, hrun⟩

theorem OnCpu.proc (h : OnCpu rt p) :
    rt.abs.proc rt.abs.current = some (.running, p.wakeupTick) := by
  rw [← h.running]
  exact abs_proc h.get

theorem OnCpu.not_neg (h : OnCpu rt p) : ¬ rt.currentPid < 0 := not_lt.mpr h.pos

theorem OnCpu.not_ready (h : OnCpu rt p) : p.state ≠ .ready := by
  rw [h.running]
  exact nofun

theorem OnCpu.markExited (hc : OnCpu rt p) (code : ℤ) :
    procMarkExited rt.procs rt.currentPid code rt.tick =
      some (rt.procs.modify rt.currentPid fun p => p.markExited code rt.tick) :=
  procMarkExited_eq_some.mpr ⟨⟨p, hc.get, by rw [hc.running]; exact nofun⟩, rfl⟩

theorem OnCpu.setBlocked (hc : OnCpu rt p) :
    procSetState rt.procs rt.currentPid .blocked rt.tick =
      some (rt.procs.modify rt.currentPid fun p => p.setState .blocked rt.tick) :=
  procSetState_eq_some.mpr ⟨⟨p, hc.get, by rw [hc.running]; rfl⟩, rfl⟩

theorem exitCurrent_spec (rt : Runtime) (h : rt.Sound) (hc : OnCpu rt p) (code : ℤ) :
    (exitCurrent rt code).Sound ∧ (exitCurrent rt code).abs = rt.abs.leave .exited 0 := by
  have hid := keepsId_markExited code rt.tick
  rw [exitCurrent, if_neg hc.not_neg, hc.markExited]
  constructor
  · exact Sound.modify h hid (fun _ hl => hl) hc.get hc.not_ready nofun
  · exact congrArg (fun c : Core => { c with current := -1 }) (abs_modify _ hid hc.get)

theorem blockCurrent_spec (rt : Runtime) (h : rt.Sound) (hc : OnCpu rt p) (why : CString) :
    (blockCurrent rt why).Sound ∧
      (blockCurrent rt why).abs = rt.abs.leave .blocked p.wakeupTick := by
  have hid := keepsId_setState .blocked rt.tick
  rw [blockCurrent, if_neg hc.not_neg, hc.setBlocked]
  constructor
  · exact Sound.modify h hid (fun _ hl => hl) hc.get hc.not_ready nofun
  · exact congrArg (fun c : Core => { c with current := -1 }) (abs_modify _ hid hc.get)

/-- The demotion of a process that used up its quantum. -/
theorem schedDemote_spec (h : rt.Sound) (hc : OnCpu rt p) :
    ∃ q, procGet (schedDemoteAfterQuantum rt.procs rt.scheduler rt.currentPid) rt.currentPid =
        some q ∧ q.state = .running ∧ q.wakeupTick = p.wakeupTick ∧
      Sound (schedDemoteAfterQuantum rt.procs rt.scheduler rt.currentPid) rt.scheduler rt.slots
        rt.slotByPid ∧
      ({ rt with procs := schedDemoteAfterQuantum rt.procs rt.scheduler rt.currentPid } :
        Runtime).abs = rt.abs := by
  rw [schedDemoteAfterQuantum]
  split_ifs
  · obtain ⟨demote, hdemote⟩ : ∃ f : Pcb → Pcb, f = fun p =>
        if p.mlfqLevel + 1 < mosrtMlfqLevels then { p with mlfqLevel := p.mlfqLevel + 1 } else p :=
      ⟨_, rfl⟩
    rw [← hdemote]
    have hid : KeepsId demote := by
      intro q
      rw [hdemote]
      dsimp only
      split_ifs <;> exact ⟨rfl, rfl⟩
    have hview : ∀ q, (demote q).state = q.state ∧ (demote q).wakeupTick = q.wakeupTick := by
      intro q
      rw [hdemote]
      dsimp only
      split_ifs <;> exact ⟨rfl, rfl⟩
    have hlevel : ∀ q, q.mlfqLevel < mosrtMlfqLevels → (demote q).mlfqLevel < mosrtMlfqLevels := by
      intro q hq
      rw [hdemote]
      dsimp only
      split_ifs with hlt
      · exact hlt
      · exact hq
    refine ⟨demote p, procGet_modify_self hid hc.get, (hview p).1.trans hc.running, (hview p).2,
      ?_, ?_⟩
    · exact Sound.modify h hid hlevel hc.get hc.not_ready (by rw [(hview p).1]; exact hc.not_ready)
    · rw [abs_modify _ hid hc.get, (hview p).1, (hview p).2, Core.setProc, ← abs_proc hc.get,
        Function.update_eq_self]
  · exact ⟨p, hc.get, hc.running, rfl, h, rfl⟩

theorem maybePreempt_spec (rt : Runtime) (h : rt.Sound) (hc : OnCpu rt p) :
    (maybePreempt rt).Sound ∧ ((maybePreempt rt).abs = rt.abs ∨
      (maybePreempt rt).abs = rt.abs.leave .ready p.wakeupTick) := by
  rw [maybePreempt]
  dsimp only
  rw [if_neg hc.not_neg]
  split_ifs
  · obtain ⟨q, hget, hrun, hwake, hsound, habs⟩ := schedDemote_spec h hc
    obtain ⟨r, hr⟩ : ∃ r : Runtime, r = { rt with
        procs := schedDemoteAfterQuantum rt.procs rt.scheduler rt.currentPid
        needResched := false
        timerResched := false } := ⟨_, rfl⟩
    have hrs : r.Sound := by
      rw [hr]
      exact hsound
    have hrget : procGet r.procs rt.currentPid = some q := by
      rw [hr]
      exact hget
    have hrabs : r.abs = rt.abs := by
      rw [hr]
      exact habs
    rw [← hr]
    obtain ⟨hs, ha⟩ := enqueueReady_spec hrs hrget (by rw [hrun]; rfl)
    refine ⟨hs, .inr ?_⟩
    show ({ (enqueueReady r rt.currentPid).abs with current := -1 } : Core) = _
    rw [ha, hrabs, hwake]
    rfl
  · exact ⟨h, .inl rfl⟩

/-! ### Slots -/

theorem slotIndex_eq_some : slotIndex rt pid = some idx ↔
    (1 ≤ pid ∧ pid ≤ mosrtMaxProcs) ∧ rt.slotByPid (pid - 1).toNat = some idx ∧
      idx < mosrtMaxProcs ∧ (rt.slots idx).used = true ∧ (rt.slots idx).pid = pid := by
  rw [slotIndex]
  split_ifs with hpid
  · cases hslot : rt.slotByPid (pid - 1).toNat with
    | none => simp
    | some i =>
      dsimp only
      split_ifs with hi
      · constructor
        · rintro ⟨⟩
          exact ⟨hpid, rfl, hi⟩
        · rintro ⟨-, h, -⟩
          exact h
      · constructor
        · rintro ⟨⟩
        · rintro ⟨-, ⟨⟩, h⟩
          exact absurd h hi
  · constructor
    · rintro ⟨⟩
    · rintro ⟨h, -⟩
      exact absurd h hpid

/-- A write to a slot that does not take it away from its process. -/
def KeepsSlot (g : Slot → Slot) : Prop := ∀ s, (g s).used = s.used ∧ (g s).pid = s.pid

variable {g : Slot → Slot}

theorem slotIndex_setSlot (hg : KeepsSlot g) :
    slotIndex (rt.setSlot idx g) pid = slotIndex rt pid := by
  have hentry : ∀ i, ((rt.setSlot idx g).slots i).used = (rt.slots i).used ∧
      ((rt.setSlot idx g).slots i).pid = (rt.slots i).pid := by
    intro i
    show (Function.update rt.slots idx (g (rt.slots idx)) i).used = _ ∧
      (Function.update rt.slots idx (g (rt.slots idx)) i).pid = _
    by_cases hi : i = idx
    · subst hi
      rw [Function.update_self]
      exact hg _
    · rw [Function.update_of_ne hi]
      exact ⟨rfl, rfl⟩
  have hby : (rt.setSlot idx g).slotByPid = rt.slotByPid := rfl
  rw [slotIndex, slotIndex, hby]
  simp only [hentry]

/-- Writing the slot of the process on the CPU may send it to another instruction. -/
theorem setSlot_spec (h : rt.Sound) (hg : KeepsSlot g)
    (hidx : slotIndex rt rt.currentPid = some idx) :
    (rt.setSlot idx g).Sound ∧ (rt.setSlot idx g).abs =
      rt.abs.goto (g (rt.slots idx)).workload.insns[(g (rt.slots idx)).pc]? := by
  constructor
  · obtain ⟨⟨⟨n, hn, hslots⟩, hlevel⟩, htracked⟩ := h
    refine ⟨⟨⟨n, hn, fun i hi hused => ?_⟩, hlevel⟩, htracked⟩
    by_cases hii : i = idx
    · subst hii
      have hs : (rt.setSlot i g).slots i = g (rt.slots i) := Function.update_self _ _ _
      rw [hs, (hg _).1] at hused
      rw [hs, (hg _).2]
      exact hslots i hi hused
    · have hs : (rt.setSlot idx g).slots i = rt.slots i := Function.update_of_ne hii _ _
      rw [hs] at hused ⊢
      exact hslots i hi hused
  · have hinsn : (rt.setSlot idx g).insnOf = Function.update rt.insnOf rt.currentPid
        (g (rt.slots idx)).workload.insns[(g (rt.slots idx)).pc]? := by
      funext pid
      rw [Runtime.insnOf, currentInsn, slotIndex_setSlot hg, Function.update_apply]
      split_ifs with hpid
      · subst hpid
        rw [hidx]
        have hs : (rt.setSlot idx g).slots idx = g (rt.slots idx) := Function.update_self _ _ _
        simp only [Option.map_some, Option.bind_some, hs]
      · rw [Runtime.insnOf, currentInsn]
        cases hslot : slotIndex rt pid with
        | none => rfl
        | some i =>
          -- another process has another slot
          have hii : i ≠ idx := by
            rintro rfl
            have h1 := (slotIndex_eq_some.mp hslot).2.2.2.2
            have h2 := (slotIndex_eq_some.mp hidx).2.2.2.2
            exact hpid (h1.symm.trans h2)
          have hs : (rt.setSlot idx g).slots i = rt.slots i := Function.update_of_ne hii _ _
          simp only [Option.map_some, Option.bind_some, hs]
    exact congrArg (fun k => { rt.abs with insn := k }) hinsn

theorem completeImmediate_spec (rt : Runtime) (h : rt.Sound)
    (hidx : slotIndex rt rt.currentPid = some idx) :
    (completeImmediate rt idx).Sound ∧
      ∃ next, (completeImmediate rt idx).abs = rt.abs.goto next := by
  obtain ⟨hs, ha⟩ := setSlot_spec (g := fun s => { s with pc := s.pc + 1, remaining := 0 }) h
    (fun _ => ⟨rfl, rfl⟩) hidx
  exact ⟨hs, _, ha⟩

/-- Writing the slot without touching workload and program counter. -/
theorem setSlot_same (h : rt.Sound) (hg : KeepsSlot g)
    (hidx : slotIndex rt rt.currentPid = some idx)
    (hpc : ∀ s, (g s).workload = s.workload ∧ (g s).pc = s.pc) :
    (rt.setSlot idx g).Sound ∧ (rt.setSlot idx g).abs = rt.abs := by
  obtain ⟨hs, ha⟩ := setSlot_spec h hg hidx
  have hinsn : rt.abs.insn rt.abs.current =
      (rt.slots idx).workload.insns[(rt.slots idx).pc]? := by
    show rt.insnOf rt.currentPid = _
    rw [Runtime.insnOf, currentInsn, hidx]
    rfl
  refine ⟨hs, ?_⟩
  rw [ha, (hpc _).1, (hpc _).2, ← hinsn, Core.goto_self]

/-! ### Queues and semaphores -/

theorem abs_queues {t : QueueTable} {id : ℤ} {q : IpcQueue} (h : QueueSet rt.queues t id q) :
    ({ rt with queues := t } : Runtime).abs = rt.abs.setQueue id q := by
  have hq : queueOf t = Function.update rt.abs.queue id q := by
    funext id'
    rw [h.2, Function.update_apply]
    rfl
  exact congrArg (fun k => { rt.abs with queue := k }) hq

theorem abs_sems {t : SemTable} {id : ℤ} {ws : List ℤ}
    (h : ∀ id', semWaiters t id' = if id' = id then ws else semWaiters rt.sems id') :
    ({ rt with sems := t } : Runtime).abs = rt.abs.setSemWaiters id ws := by
  have hq : semWaiters t = Function.update rt.abs.semWaiters id ws := by
    funext id'
    rw [h, Function.update_apply]
    rfl
  exact congrArg (fun k => { rt.abs with semWaiters := k }) hq

theorem abs_sems_same {t : SemTable} (h : ∀ id', semWaiters t id' = semWaiters rt.sems id') :
    ({ rt with sems := t } : Runtime).abs = rt.abs :=
  congrArg (fun k => { rt.abs with semWaiters := k }) (funext h)

theorem wakePid_slots (rt : Runtime) (pid : ℤ) (why : CString) :
    (wakePid rt pid why).slots = rt.slots ∧ (wakePid rt pid why).slotByPid = rt.slotByPid := by
  rw [wakePid]
  cases procGet rt.procs pid with
  | none => exact ⟨rfl, rfl⟩
  | some p =>
    dsimp only
    split_ifs
    · show (enqueueReady rt pid).slots = _ ∧ (enqueueReady rt pid).slotByPid = _
      rw [enqueueReady]
      cases procSetState rt.procs pid .ready rt.tick with
      | none => exact ⟨rfl, rfl⟩
      | some procs => exact ⟨rfl, rfl⟩
    · exact ⟨rfl, rfl⟩

theorem wakeAndComplete_spec (rt : Runtime) (h : rt.Sound)
    (hpos : ∀ pid, rt.abs.stateOf pid ≠ none → 0 < pid)
    (hidx : slotIndex rt rt.currentPid = some idx) (wake : ℤ) (why : CString) :
    (wakeAndComplete rt idx wake why).Sound ∧
      ∃ next, (wakeAndComplete rt idx wake why).abs = (rt.abs.wake wake).goto next := by
  rw [wakeAndComplete]
  split_ifs with hwake
  · obtain ⟨hs, ha⟩ := wakePid_spec h wake why
    have hcur : (wakePid rt wake why).currentPid = rt.currentPid :=
      (congrArg Core.current ha).trans Core.wake_fields.1
    have hslot : slotIndex (wakePid rt wake why) (wakePid rt wake why).currentPid = some idx := by
      rw [← hidx, hcur, slotIndex, slotIndex, (wakePid_slots _ wake why).1,
        (wakePid_slots _ wake why).2]
    obtain ⟨hs', next, ha'⟩ := completeImmediate_spec _ hs hslot
    exact ⟨hs', next, by rw [ha', ha]⟩
  · obtain ⟨hs', next, ha'⟩ := completeImmediate_spec _ h hidx
    refine ⟨hs', next, ?_⟩
    -- nobody has a negative pid
    rw [ha', Core.wake_of_not_blocked]
    intro hb
    have := hpos wake (by rw [hb]; exact Option.some_ne_none _)
    omega

/-! ### Instructions -/

/-- `SEND` on this queue blocks its process. -/
def sendWouldBlock (q : IpcQueue) : Bool :=
  waitqPeek q.recvWaiters < 0 && mosrtMsgCapacity ≤ q.ring.len

/-- `RECV` on this queue blocks the process `pid`. -/
def recvWouldBlock (q : IpcQueue) (pid : ℤ) : Bool :=
  !(q.grants.any fun g => g.1 == pid) &&
    (decide (0 ≤ waitqPeek q.recvWaiters ∧ waitqPeek q.recvWaiters ≠ pid) || q.ring.len == 0)

theorem sendWouldBlock_of_result {q : IpcQueue} {value : ℤ}
    (h : (queueSend q pid value).1.result = .wouldBlock) : sendWouldBlock q = true := by
  rw [queueSend] at h
  split_ifs at h with hpeek hfull
  · dsimp only at h
    split_ifs at h <;> cases h
  · simp only [sendWouldBlock, Bool.and_eq_true, decide_eq_true_eq]
    exact ⟨not_le.mp hpeek, hfull⟩
  · cases h

theorem recvWouldBlock_of_result {q : IpcQueue}
    (h : (queueRecv q pid).1.result = .wouldBlock) : recvWouldBlock q pid = true := by
  rw [queueRecv, grantTake] at h
  cases hfind : q.grants.find? fun g => g.1 == pid with
  | some g =>
    rw [hfind] at h
    cases h
  | none =>
    rw [hfind] at h
    have hany : (q.grants.any fun g => g.1 == pid) = false := by
      rw [List.any_eq_false]
      exact List.find?_eq_none.mp hfind
    rw [recvWouldBlock, hany, Bool.not_false, Bool.true_and, Bool.or_eq_true]
    dsimp only at h
    split_ifs at h with hfirst
    · exact .inl (decide_eq_true hfirst)
    · refine .inr ?_
      cases hpop : q.ring.pop with
      | none => exact beq_iff_eq.mpr (RingBuffer.pop_eq_none.mp hpop)
      | some r =>
        rw [hpop] at h
        cases h

/-- An `ACCESS` that waits for its page to come back from swap. -/
def accessBlocks (rt : Runtime) (insn : WorkloadInsn) : Bool :=
  !lacksVm rt rt.currentPid && (accessMem rt rt.currentPid insn).1 &&
    majorFault rt rt.currentPid insn

/-- An instruction that blocks its process leaves something that can wake it: a wakeup tick,
which must not be `0`, or an entry in a wait list, which must have room. -/
def blocksSafely (rt : Runtime) : Bool :=
  match rt.insnOf rt.currentPid with
  | none => true
  | some insn =>
    let q := queueOf rt.queues insn.arg0
    match insn.op with
    | .io => (rt.tick + insn.ticks) % 2 ^ 64 != 0
    | .access => !accessBlocks rt insn || (rt.tick + vmPageFaultLatency) % 2 ^ 64 != 0
    | .send => !sendWouldBlock q || q.sendWaiters.length < mosrtWaitqCapacity
    | .recv => !recvWouldBlock q rt.currentPid || q.recvWaiters.length < mosrtWaitqCapacity
    | _ => true

/-- The process on the CPU is about to execute `insn`. -/
structure AtInsn (rt : Runtime) (p : Pcb) (idx : ℕ) (insn : WorkloadInsn) : Prop where
  sound : rt.Sound
  placed : rt.abs.Placed
  cpu : OnCpu rt p
  slot : slotIndex rt rt.currentPid = some idx
  insn : rt.insnOf rt.currentPid = some insn

theorem AtInsn.current (h : AtInsn rt p idx insn) :
    currentInsn rt rt.currentPid = some (idx, some insn) := by
  have hinsn := h.insn
  rw [Runtime.insnOf, currentInsn, h.slot] at hinsn
  rw [currentInsn, h.slot, Option.map_some, ← hinsn]
  rfl

/-- A process that stands at an instruction has a slot. -/
theorem atInsn (h : rt.Sound) (hplaced : rt.abs.Placed) (hpos : 0 ≤ rt.currentPid)
    (hinsn : rt.insnOf rt.currentPid = some insn) : ∃ p idx, AtInsn rt p idx insn := by
  obtain ⟨p, hcpu⟩ := hplaced.onCpu hpos
  cases hslot : slotIndex rt rt.currentPid with
  | none =>
    rw [Runtime.insnOf, currentInsn, hslot] at hinsn
    cases hinsn
  | some idx => exact ⟨p, idx, h, hplaced, hcpu, hslot, hinsn⟩

/-- One instruction: the runtime stays sound, and the abstract state makes a move. -/
def Executes (rt rt' : Runtime) : Prop :=
  rt'.Sound ∧ Core.Exec (blocksSafely rt = true) rt.abs rt'.abs

theorem AtInsn.plain (h : AtInsn rt p idx insn) (hs : insn.op ≠ .send) (hr : insn.op ≠ .recv) :
    rt.abs.Plain := by
  intro insn' hinsn'
  have : some insn = some insn' := h.insn.symm.trans hinsn'
  cases this
  exact ⟨hs, hr⟩

/-- Leaving the CPU until a wakeup tick. -/
theorem sleep_spec (h : rt.Sound) (hc : OnCpu rt p) (wakeup : ℕ) (why : CString) :
    (blockCurrent { rt with
      procs := rt.procs.modify rt.currentPid fun p => p.setWakeup wakeup } why).Sound ∧
    (blockCurrent { rt with
      procs := rt.procs.modify rt.currentPid fun p => p.setWakeup wakeup } why).abs =
      rt.abs.leave .blocked wakeup := by
  have hid : KeepsId fun p : Pcb => p.setWakeup wakeup := fun _ => ⟨rfl, rfl⟩
  obtain ⟨rt₁, hrt₁⟩ : ∃ r : Runtime, r = { rt with
    procs := rt.procs.modify rt.currentPid fun p => p.setWakeup wakeup } := ⟨_, rfl⟩
  have hsound : rt₁.Sound := by
    rw [hrt₁]
    exact Sound.modify h hid (fun _ hl => hl) hc.get hc.not_ready hc.not_ready
  have hcpu : OnCpu rt₁ (p.setWakeup wakeup) := by
    rw [hrt₁]
    exact ⟨hc.pos, procGet_modify_self hid hc.get, hc.running⟩
  have habs : rt₁.abs = rt.abs.setProc rt.abs.current .running wakeup := by
    rw [hrt₁, ← hc.running]
    exact abs_modify _ hid hc.get
  rw [← hrt₁]
  obtain ⟨hs, ha⟩ := blockCurrent_spec _ hsound hcpu why
  refine ⟨hs, ?_⟩
  rw [ha, habs]
  exact Core.leave_setProc

/-- The ticks left of the burst that is going on, or of the one that begins. -/
def burstOf (rt : Runtime) (idx : ℕ) (insn : WorkloadInsn) : ℕ :=
  if (rt.slots idx).remaining = 0 then insn.ticks else (rt.slots idx).remaining

def loadBurst (rt : Runtime) (idx n : ℕ) : Runtime :=
  rt.setSlot idx fun s => { s with remaining := n }

/-- The accounting of a tick. -/
def accountTick (rt : Runtime) (pid : ℤ) : Runtime :=
  { rt with
    procs := (procForEach rt.procs accountReadyWait).modify pid fun p =>
      { p with cpuTime := incr64 p.cpuTime }
    busyTicks := incr64 rt.busyTicks
    tick := incr64 rt.tick
    scheduler := schedOnTick rt.scheduler pid }

/-- A tick of a burst with `n` ticks left, up to the test whether to preempt the process. -/
def spendTick (rt : Runtime) (idx n : ℕ) : Runtime :=
  ((accountTick (loadBurst rt idx n) rt.currentPid).setSlot idx fun s =>
    { s with remaining := n - 1, pc := if n - 1 = 0 then s.pc + 1 else s.pc }).log
      rt.currentPid "CPU" "tick"

/-- The accounting cannot be seen in the abstract state. -/
theorem accountTick_spec (h : rt.Sound) (pid : ℤ) :
    (accountTick rt pid).Sound ∧ (accountTick rt pid).abs = rt.abs := by
  have hkeep : Keeps fun p : Pcb => { p with cpuTime := incr64 p.cpuTime } :=
    ⟨fun _ => ⟨rfl, rfl⟩, fun _ => rfl, fun _ => rfl, fun _ => rfl⟩
  constructor
  · have hs := (Sound.forEach h keeps_accountReadyWait).modify_keeps hkeep pid
    refine ⟨hs.shape, ?_⟩
    show (schedOnTick rt.scheduler pid).Tracks
      (readyLevel (schedOnTick rt.scheduler pid).algo (accountTick rt pid).procs)
    rw [schedOnTick]
    split_ifs
    · exact hs.tracked
    · exact hs.tracked
  · exact (abs_modify_keeps { rt with procs := procForEach rt.procs accountReadyWait }
      hkeep pid).trans (abs_forEach keeps_accountReadyWait.id keeps_accountReadyWait.state
        keeps_accountReadyWait.wakeup)

/-- A burst of no ticks ends the process. -/
theorem execCpu_eq (hc : OnCpu rt p) (idx : ℕ) (insn : WorkloadInsn) :
    execCpu rt rt.currentPid idx insn =
      if burstOf rt idx insn = 0 then (false, exitCurrent (loadBurst rt idx 0) 1)
      else (true, maybePreempt (spendTick rt idx (burstOf rt idx insn))) := by
  have hsome : ¬ (procGet (loadBurst rt idx (burstOf rt idx insn)).procs
      rt.currentPid).isNone = true := by
    have hget : procGet (loadBurst rt idx (burstOf rt idx insn)).procs rt.currentPid = some p :=
      hc.get
    rw [hget]
    exact nofun
  by_cases hn : burstOf rt idx insn = 0
  · rw [if_pos hn, ← hn]
    exact if_pos (.inr hn)
  · rw [if_neg hn]
    exact if_neg (not_or.mpr ⟨hsome, hn⟩)

/-- Changes that the abstract state does not show leave the process on the CPU. -/
theorem OnCpu.of_abs {q : Pcb} (h : OnCpu rt q) (habs : rt'.abs = rt.abs) :
    ∃ q', OnCpu rt' q' ∧ q'.wakeupTick = q.wakeupTick := by
  have hpid : rt'.currentPid = rt.currentPid := congrArg Core.current habs
  have hproc : rt'.abs.proc rt'.abs.current = some (.running, q.wakeupTick) := by
    rw [habs]
    exact h.proc
  obtain ⟨q', hq', hrun, hwake⟩ := procGet_of_abs_proc hproc
  exact ⟨q', ⟨by rw [hpid]; exact h.pos, hq', hrun⟩, hwake⟩

theorem loadBurst_spec (h : AtInsn rt p idx insn) (n : ℕ) :
    (loadBurst rt idx n).Sound ∧ (loadBurst rt idx n).abs = rt.abs :=
  setSlot_same (g := fun s => { s with remaining := n }) h.sound (fun _ => ⟨rfl, rfl⟩) h.slot
    fun _ => ⟨rfl, rfl⟩

/-- After a tick the process stands at this instruction or at the next. -/
theorem spendTick_spec (h : AtInsn rt p idx insn) (n : ℕ) :
    (spendTick rt idx n).Sound ∧ (∃ next, (spendTick rt idx n).abs = rt.abs.goto next) ∧
      ∃ q, OnCpu (spendTick rt idx n) q ∧ q.wakeupTick = p.wakeupTick := by
  obtain ⟨hs₁, ha₁⟩ := loadBurst_spec h n
  have hslot₁ : slotIndex (loadBurst rt idx n) rt.currentPid = some idx := by
    rw [← h.slot]
    exact slotIndex_setSlot fun _ => ⟨rfl, rfl⟩
  obtain ⟨hs₂, ha₂⟩ := accountTick_spec hs₁ rt.currentPid
  obtain ⟨q, hq, hwake⟩ := h.cpu.of_abs (ha₂.trans ha₁)
  have hslot₂ : slotIndex (accountTick (loadBurst rt idx n) rt.currentPid)
      (accountTick (loadBurst rt idx n) rt.currentPid).currentPid = some idx := hslot₁
  obtain ⟨hs₃, ha₃⟩ := setSlot_spec (g := fun s =>
    { s with remaining := n - 1, pc := if n - 1 = 0 then s.pc + 1 else s.pc })
    hs₂ (fun _ => ⟨rfl, rfl⟩) hslot₂
  rw [ha₂, ha₁] at ha₃
  exact ⟨hs₃.log, ⟨_, ha₃⟩, q, ⟨hq.pos, hq.get, hq.running⟩, hwake⟩

theorem execCpu_spec (h : AtInsn rt p idx insn) (hop : insn.op = .cpu) :
    Executes rt (execCpu rt rt.currentPid idx insn).2 := by
  have hplain := h.plain (by rw [hop]; exact nofun) (by rw [hop]; exact nofun)
  rw [execCpu_eq h.cpu]
  split_ifs
  · obtain ⟨hs, ha⟩ := loadBurst_spec h 0
    have hcpu : OnCpu (loadBurst rt idx 0) p := ⟨h.cpu.pos, h.cpu.get, h.cpu.running⟩
    obtain ⟨hs', ha'⟩ := exitCurrent_spec _ hs hcpu 1
    refine ⟨hs', ?_⟩
    rw [ha', ha]
    exact .exit hplain
  · obtain ⟨hs, ⟨next, ha⟩, q, hq, hwake⟩ := spendTick_spec h (burstOf rt idx insn)
    obtain ⟨hs', ha'⟩ := maybePreempt_spec _ hs hq
    refine ⟨hs', ?_⟩
    rw [ha] at ha'
    rcases ha' with ha' | ha'
    · rw [ha']
      exact .goto _ hplain
    · rw [ha', hwake]
      exact .preempt _ _ hplain h.cpu.proc

theorem execIo_spec (h : AtInsn rt p idx insn) (hop : insn.op = .io) :
    Executes rt (execIo rt rt.currentPid idx insn) := by
  have hplain := h.plain (by rw [hop]; exact nofun) (by rw [hop]; exact nofun)
  obtain ⟨hs, next, ha⟩ := completeImmediate_spec _ h.sound h.slot
  have hcpu : OnCpu (completeImmediate rt idx) p := ⟨h.cpu.pos, h.cpu.get, h.cpu.running⟩
  rw [execIo, if_neg (by rw [h.cpu.get]; exact nofun)]
  obtain ⟨hs', ha'⟩ := sleep_spec hs hcpu ((rt.tick + insn.ticks) % 2 ^ 64)
    (makeDetail "until" (toInt32 ((rt.tick + insn.ticks) % 2 ^ 64 : ℕ)))
  refine ⟨hs', ?_⟩
  have hsafe : blocksSafely rt = true → 0 < (rt.tick + insn.ticks) % 2 ^ 64 := by
    rw [blocksSafely, h.insn]
    dsimp only
    rw [hop]
    dsimp only
    rw [bne_iff_ne]
    exact Nat.pos_of_ne_zero
  have hmove := Core.Exec.sleep next _ hplain hsafe
  rw [← ha, ← ha'] at hmove
  exact hmove

/-- How the instructions on queues and semaphores end, with these updated: with an error, with the
process waiting, or completed, with at most one process woken. -/
inductive Settled (rt : Runtime) (idx : ℕ) : Runtime → Prop
  | error (q : QueueTable) (t : SemTable) (code : ℤ) (hcode : code = 3 ∨ code = 4) :
      Settled rt idx (exitCurrent { rt with queues := q, sems := t } code)
  | blocked (q : QueueTable) (t : SemTable) (why : CString) :
      Settled rt idx (blockCurrent { rt with queues := q, sems := t } why)
  | done (q : QueueTable) (t : SemTable) (wake : ℤ) (why : CString) :
      Settled rt idx (wakeAndComplete { rt with queues := q, sems := t } idx wake why)

theorem execSend_settled (rt : Runtime) (pid : ℤ) (idx : ℕ) (insn : WorkloadInsn) :
    Settled rt idx (execSend rt pid idx insn) := by
  rw [execSend]
  dsimp only
  split
  · exact .error _ rt.sems 3 (.inl rfl)
  · exact .blocked _ rt.sems _
  · exact .done _ rt.sems _ _

theorem execRecv_settled (rt : Runtime) (pid : ℤ) (idx : ℕ) (insn : WorkloadInsn) :
    Settled rt idx (execRecv rt pid idx insn) := by
  rw [execRecv]
  dsimp only
  split
  · exact .error _ rt.sems 3 (.inl rfl)
  · exact .blocked _ rt.sems _
  · exact .done _ rt.sems _ _

theorem execAcquire_settled (rt : Runtime) (idx : ℕ) (r : SyncResult × SemTable) (why : CString) :
    Settled rt idx (execAcquire rt idx r why) := by
  rw [execAcquire]
  split
  · exact .error rt.queues _ 4 (.inr rfl)
  · exact .blocked rt.queues _ why
  · exact .done rt.queues r.2 (-1) why

theorem execRelease_settled (rt : Runtime) (idx : ℕ) (r : SyncResult × ℤ × SemTable)
    (why : CString) : Settled rt idx (execRelease rt idx r why) := by
  rw [execRelease]
  split_ifs
  · exact .error rt.queues _ 4 (.inr rfl)
  · exact .done rt.queues _ _ why

/-- The instructions on queues and semaphores. -/
def WorkloadOp.isSync : WorkloadOp → Bool
  | .send | .recv | .semWait | .semPost | .lock | .unlock => true
  | _ => false

theorem executeInstruction_settled {r : Bool × Runtime} {fuel : ℕ}
    (hcur : currentInsn rt rt.currentPid = some (idx, some insn)) (hsync : insn.op.isSync = true)
    (hr : executeInstruction fuel rt = some r) : r.1 = false ∧ Settled rt idx r.2 := by
  rw [executeInstruction, hcur] at hr
  dsimp only at hr
  cases hop : insn.op with
  | send =>
    rw [hop] at hr
    cases hr
    exact ⟨rfl, execSend_settled rt _ idx insn⟩
  | recv =>
    rw [hop] at hr
    cases hr
    exact ⟨rfl, execRecv_settled rt _ idx insn⟩
  | semWait | lock =>
    rw [hop] at hr
    cases hr
    exact ⟨rfl, execAcquire_settled rt idx _ _⟩
  | semPost | unlock =>
    rw [hop] at hr
    cases hr
    exact ⟨rfl, execRelease_settled rt idx _ _⟩
  | cpu | io | mmap | access | mfree | exit =>
    rw [hop] at hsync
    cases hsync

/-- What a `SEND` by the process on the CPU comes to: the branch that `ipc_send` takes, and the
abstract state after. -/
inductive SendOutcome (rt : Runtime) (p : Pcb) (insn : WorkloadInsn) (c : Core) : Prop
  | noQueue : (ipcSend rt.queues insn.arg0 rt.currentPid insn.arg1).1 = none →
      rt.abs.queue insn.arg0 = newQueue insn.arg0 → c = rt.abs.leave .exited 0 →
      SendOutcome rt p insn c
  | error : (ipcSend rt.queues insn.arg0 rt.currentPid insn.arg1).1 = some (rt.abs.sent insn).1 →
      (rt.abs.sent insn).1.result = .error →
      c = (rt.abs.setQueue insn.arg0 (rt.abs.sent insn).2).leave .exited 0 →
      SendOutcome rt p insn c
  | blocked : (ipcSend rt.queues insn.arg0 rt.currentPid insn.arg1).1 =
        some (rt.abs.sent insn).1 →
      (rt.abs.sent insn).1.result = .wouldBlock →
      c = (rt.abs.sendBlocked insn).leave .blocked p.wakeupTick → SendOutcome rt p insn c
  | ok (next : Option WorkloadInsn) :
      (ipcSend rt.queues insn.arg0 rt.currentPid insn.arg1).1 = some (rt.abs.sent insn).1 →
      (rt.abs.sent insn).1.result = .ok → c = (rt.abs.afterSend insn).goto next →
      SendOutcome rt p insn c

theorem execSend_outcome (h : AtInsn rt p idx insn) :
    (execSend rt rt.currentPid idx insn).Sound ∧
      SendOutcome rt p insn (execSend rt rt.currentPid idx insn).abs := by
  rw [execSend]
  dsimp only
  rcases ipcSend_spec rt.queues insn.arg0 rt.currentPid insn.arg1 with
    ⟨hnone, hsame, hfind⟩ | ⟨hsome, hset⟩
  · obtain ⟨hs, ha⟩ := exitCurrent_spec _ h.sound h.cpu 3
    rw [hnone, hsame]
    exact ⟨hs, .noQueue hnone (KeyedTable.get_of_none _ _ _ hfind) ha⟩
  · have hres : sendResult (ipcSend rt.queues insn.arg0 rt.currentPid insn.arg1).1 =
        (rt.abs.sent insn).1.result := by
      rw [hsome]
      rfl
    generalize (ipcSend rt.queues insn.arg0 rt.currentPid insn.arg1).2 = u at hset
    have hq : queueOf u insn.arg0 = (rt.abs.sent insn).2 := hset.self
    rw [hres]
    cases hr : (rt.abs.sent insn).1.result with
    | error =>
      obtain ⟨hs, ha⟩ := exitCurrent_spec { rt with queues := u } h.sound
        ⟨h.cpu.pos, h.cpu.get, h.cpu.running⟩ 3
      rw [abs_queues hset] at ha
      exact ⟨hs, .error hsome hr ha⟩
    | wouldBlock =>
      have hset' := hset.trans (ipcWaitSender_spec rt.currentPid hset.1)
      rw [hq] at hset'
      obtain ⟨hs, ha⟩ := blockCurrent_spec
        { rt with queues := ipcWaitSender u insn.arg0 rt.currentPid } h.sound
        ⟨h.cpu.pos, h.cpu.get, h.cpu.running⟩ "send full"
      rw [abs_queues hset'] at ha
      exact ⟨hs, .blocked hsome hr ha⟩
    | ok =>
      obtain ⟨hpop, hset'⟩ := ipcPopReceiverWaiter_spec hset.1
      have hset'' := hset.trans hset'
      rw [hq] at hpop hset''
      rw [hpop]
      obtain ⟨hs, next, ha⟩ := wakeAndComplete_spec
        { rt with queues := (ipcPopReceiverWaiter u insn.arg0).2 } h.sound
        h.placed.positive h.slot (waitqPop (rt.abs.sent insn).2.recvWaiters).1 "message"
      rw [abs_queues hset''] at ha
      exact ⟨hs, .ok next hsome hr ha⟩

theorem execSend_spec (h : AtInsn rt p idx insn) (hop : insn.op = .send) :
    Executes rt (execSend rt rt.currentPid idx insn) := by
  have hinsn : rt.abs.insn rt.abs.current = some insn := h.insn
  obtain ⟨hs, hout⟩ := execSend_outcome h
  refine ⟨hs, ?_⟩
  cases hout with
  | noQueue _ hnew ha =>
    rw [ha]
    exact .noQueue insn hinsn hnew
  | error _ hr ha =>
    rw [ha]
    exact .sendError insn hinsn hop hr
  | blocked _ hr ha =>
    rw [ha]
    refine .sendBlock insn _ hinsn hop hr h.cpu.proc fun hsafe => ?_
    rw [blocksSafely, h.insn] at hsafe
    dsimp only at hsafe
    rw [hop] at hsafe
    dsimp only at hsafe
    have hblock : sendWouldBlock (queueOf rt.queues insn.arg0) = true :=
      sendWouldBlock_of_result hr
    rw [hblock, Bool.not_true, Bool.false_or] at hsafe
    exact of_decide_eq_true hsafe
  | ok next _ hr ha =>
    rw [ha]
    exact .sendOk insn next hinsn hop hr

/-- What a `RECV` by the process on the CPU comes to. -/
inductive RecvOutcome (rt : Runtime) (p : Pcb) (insn : WorkloadInsn) (c : Core) : Prop
  | noQueue : (ipcRecv rt.queues insn.arg0 rt.currentPid).1 = none →
      rt.abs.queue insn.arg0 = newQueue insn.arg0 → c = rt.abs.leave .exited 0 →
      RecvOutcome rt p insn c
  | blocked : (ipcRecv rt.queues insn.arg0 rt.currentPid).1 = some (rt.abs.received insn).1 →
      (rt.abs.received insn).1.result = .wouldBlock →
      c = (rt.abs.recvBlocked insn).leave .blocked p.wakeupTick → RecvOutcome rt p insn c
  | ok (next : Option WorkloadInsn) :
      (ipcRecv rt.queues insn.arg0 rt.currentPid).1 = some (rt.abs.received insn).1 →
      (rt.abs.received insn).1.result = .ok → c = (rt.abs.afterRecv insn).goto next →
      RecvOutcome rt p insn c

theorem execRecv_outcome (h : AtInsn rt p idx insn) :
    (execRecv rt rt.currentPid idx insn).Sound ∧
      RecvOutcome rt p insn (execRecv rt rt.currentPid idx insn).abs := by
  rw [execRecv]
  dsimp only
  rcases ipcRecv_spec rt.queues insn.arg0 rt.currentPid with
    ⟨hnone, hsame, hfind⟩ | ⟨hsome, hset⟩
  · obtain ⟨hs, ha⟩ := exitCurrent_spec _ h.sound h.cpu 3
    rw [hnone, hsame]
    exact ⟨hs, .noQueue hnone (KeyedTable.get_of_none _ _ _ hfind) ha⟩
  · have hres : recvResult (ipcRecv rt.queues insn.arg0 rt.currentPid).1 =
        (rt.abs.received insn).1.result := by
      rw [hsome]
      rfl
    generalize (ipcRecv rt.queues insn.arg0 rt.currentPid).2 = u at hset
    have hq : queueOf u insn.arg0 = (rt.abs.received insn).2 := hset.self
    rw [hres]
    cases hr : (rt.abs.received insn).1.result with
    | error =>
      -- `ipc_recv` on a queue has no error
      exfalso
      generalize (rt.abs.received insn).1 = b at hr
      cases b <;> cases hr
    | wouldBlock =>
      have hset' := hset.trans (ipcWaitReceiver_spec rt.currentPid hset.1)
      rw [hq] at hset'
      obtain ⟨hs, ha⟩ := blockCurrent_spec
        { rt with queues := ipcWaitReceiver u insn.arg0 rt.currentPid } h.sound
        ⟨h.cpu.pos, h.cpu.get, h.cpu.running⟩ "recv empty"
      rw [abs_queues hset'] at ha
      exact ⟨hs, .blocked hsome hr ha⟩
    | ok =>
      obtain ⟨hpop, hset'⟩ := ipcPopSenderWaiter_spec hset.1
      have hset'' := hset.trans hset'
      rw [hq] at hpop hset''
      rw [hpop]
      obtain ⟨hs, next, ha⟩ := wakeAndComplete_spec
        { rt with queues := (ipcPopSenderWaiter u insn.arg0).2 } h.sound
        h.placed.positive h.slot (waitqPop (rt.abs.received insn).2.sendWaiters).1 "queue space"
      rw [abs_queues hset''] at ha
      exact ⟨hs, .ok next hsome hr ha⟩

theorem execRecv_spec (h : AtInsn rt p idx insn) (hop : insn.op = .recv) :
    Executes rt (execRecv rt rt.currentPid idx insn) := by
  have hinsn : rt.abs.insn rt.abs.current = some insn := h.insn
  obtain ⟨hs, hout⟩ := execRecv_outcome h
  refine ⟨hs, ?_⟩
  cases hout with
  | noQueue _ hnew ha =>
    rw [ha]
    exact .noQueue insn hinsn hnew
  | blocked _ hr ha =>
    rw [ha]
    refine .recvBlock insn _ hinsn hop hr h.cpu.proc fun hsafe => ?_
    rw [blocksSafely, h.insn] at hsafe
    dsimp only at hsafe
    rw [hop] at hsafe
    dsimp only at hsafe
    have hblock : recvWouldBlock (queueOf rt.queues insn.arg0) rt.currentPid = true :=
      recvWouldBlock_of_result hr
    rw [hblock, Bool.not_true, Bool.false_or] at hsafe
    exact of_decide_eq_true hsafe
  | ok next _ hr ha =>
    rw [ha]
    exact .recvOk insn next hinsn hop hr

theorem execAcquire_spec (h : AtInsn rt p idx insn) (hplain : rt.abs.Plain) (id : ℤ)
    (r : SyncResult × SemTable) (why : CString)
    (hw : ∀ id', semWaiters r.2 id' =
      if r.1 = .wouldBlock ∧ id' = id ∧ rt.currentPid ∉ semWaiters rt.sems id then
        semWaiters rt.sems id ++ [rt.currentPid]
      else semWaiters rt.sems id') :
    Executes rt (execAcquire rt idx r why) := by
  obtain ⟨res, t⟩ := r
  have hcpu : OnCpu { rt with sems := t } p := ⟨h.cpu.pos, h.cpu.get, h.cpu.running⟩
  have hsame : res ≠ .wouldBlock → ({ rt with sems := t } : Runtime).abs = rt.abs := by
    intro hne
    exact abs_sems_same fun id' => by rw [hw, if_neg fun hc => hne hc.1]
  rw [execAcquire]
  cases res with
  | error =>
    obtain ⟨hs, ha⟩ := exitCurrent_spec { rt with sems := t } h.sound hcpu 4
    refine ⟨hs, ?_⟩
    rw [ha, hsame nofun]
    exact .exit hplain
  | ok =>
    obtain ⟨hs, next, ha⟩ := completeImmediate_spec { rt with sems := t } h.sound h.slot
    refine ⟨hs, ?_⟩
    rw [ha, hsame nofun]
    exact .goto next hplain
  | wouldBlock =>
    have hwaiters : ∀ id', semWaiters t id' =
        if id' = id then Core.enlist (semWaiters rt.sems id) rt.currentPid
        else semWaiters rt.sems id' := by
      intro id'
      rw [hw, Core.enlist]
      by_cases hid : id' = id
      · by_cases hmem : rt.currentPid ∈ semWaiters rt.sems id
        · simp [hid, hmem]
        · simp [hid, hmem]
      · simp [hid]
    obtain ⟨hs, ha⟩ := blockCurrent_spec { rt with sems := t } h.sound hcpu why
    refine ⟨hs, ?_⟩
    rw [ha, abs_sems hwaiters]
    exact .acquire id _ hplain h.cpu.proc

theorem execRelease_spec (h : AtInsn rt p idx insn) (hplain : rt.abs.Plain) (id : ℤ)
    (r : SyncResult × ℤ × SemTable) (why : CString)
    (hw : r.1 = .error ∧ (∀ id', semWaiters r.2.2 id' = semWaiters rt.sems id') ∨
      r.1 = .ok ∧ r.2.1 = woken (semWaiters rt.sems id) ∧ ∀ id', semWaiters r.2.2 id' =
        if id' = id then (semWaiters rt.sems id).tail else semWaiters rt.sems id') :
    Executes rt (execRelease rt idx r why) := by
  obtain ⟨res, wake, t⟩ := r
  have hcpu : OnCpu { rt with sems := t } p := ⟨h.cpu.pos, h.cpu.get, h.cpu.running⟩
  rw [execRelease]
  dsimp only at hw ⊢
  rcases hw with ⟨rfl, hsame⟩ | ⟨rfl, rfl, hwaiters⟩
  · rw [if_pos rfl]
    obtain ⟨hs, ha⟩ := exitCurrent_spec { rt with sems := t } h.sound hcpu 4
    refine ⟨hs, ?_⟩
    rw [ha, abs_sems_same hsame]
    exact .exit hplain
  · rw [if_neg nofun]
    have habs := abs_sems hwaiters
    obtain ⟨hs, next, ha⟩ := wakeAndComplete_spec { rt with sems := t } h.sound
      (by rw [habs]; exact h.placed.positive) h.slot (woken (semWaiters rt.sems id)) why
    refine ⟨hs, ?_⟩
    rw [ha, habs]
    -- waking someone who is not there changes nothing
    have hnobody : ∀ pid : ℤ, pid < 0 →
        (rt.abs.setSemWaiters id (semWaiters rt.sems id).tail).wake pid =
          rt.abs.setSemWaiters id (semWaiters rt.sems id).tail := by
      intro pid hneg
      refine Core.wake_of_not_blocked fun hb => ?_
      have := h.placed.positive pid (by rw [← Option.isSome_iff_ne_none]; exact hb ▸ rfl)
      omega
    cases hws : semWaiters rt.sems id with
    | nil =>
      rw [hws] at hnobody
      have hsame : rt.abs.setSemWaiters id [] = rt.abs := by
        rw [← hws]
        exact Core.setSemWaiters_self
      rw [List.tail_nil] at hnobody ⊢
      rw [hnobody _ (by decide), hsame]
      exact .goto next hplain
    | cons w rest =>
      rw [hws, List.tail_cons] at hnobody
      rw [List.tail_cons]
      have hwake : (rt.abs.setSemWaiters id rest).wake (woken (w :: rest)) =
          (rt.abs.setSemWaiters id rest).wake w := by
        by_cases hpos : 0 ≤ w
        · rw [show woken (w :: rest) = w from if_pos hpos]
        · rw [show woken (w :: rest) = -1 from if_neg hpos, hnobody (-1) (by decide),
            hnobody w (by omega)]
      rw [hwake]
      exact .release id w rest next hplain hws

theorem execMmap_spec {fuel : ℕ} (h : AtInsn rt p idx insn) (hplain : rt.abs.Plain)
    (hexec : execMmap fuel rt rt.currentPid idx insn = some rt') : Executes rt rt' := by
  rw [execMmap] at hexec
  split_ifs at hexec with hvm
  · obtain ⟨hs, ha⟩ := exitCurrent_spec _ h.sound h.cpu 5
    cases hexec
    exact ⟨hs, by rw [ha]; exact .exit hplain⟩
  · generalize vmAllocMalloc (vmHeapOps rt.currentPid rt.tick) fuel
      (insn.arg0 % 2 ^ 64).toNat rt.vm = r at hexec
    obtain ⟨addr, -, heq⟩ := Option.map_eq_some_iff.mp hexec
    dsimp only at heq
    split_ifs at heq
    · obtain ⟨hs, ha⟩ := exitCurrent_spec { rt with vm := r.2 } h.sound
        ⟨h.cpu.pos, h.cpu.get, h.cpu.running⟩ 5
      rw [← heq]
      exact ⟨hs, by rw [ha]; exact .exit hplain⟩
    · have hkeep : Keeps fun p : Pcb => { p with vmLastAlloc := addr } :=
        ⟨fun _ => ⟨rfl, rfl⟩, fun _ => rfl, fun _ => rfl, fun _ => rfl⟩
      obtain ⟨hs, next, ha⟩ := completeImmediate_spec { rt with
        vm := r.2
        procs := rt.procs.modify rt.currentPid fun p => { p with vmLastAlloc := addr } }
        (Sound.modify_keeps h.sound hkeep _) h.slot
      have habs := abs_modify_keeps { rt with vm := r.2 } hkeep rt.currentPid
      rw [habs] at ha
      rw [← heq]
      refine ⟨hs, ?_⟩
      have hmove : Core.Exec (blocksSafely rt = true) rt.abs (rt.abs.goto next) := .goto next hplain
      exact ha ▸ hmove

theorem execAccess_spec (h : AtInsn rt p idx insn) (hop : insn.op = .access) :
    Executes rt (execAccess rt rt.currentPid idx insn) := by
  have hplain := h.plain (by rw [hop]; exact nofun) (by rw [hop]; exact nofun)
  rw [execAccess]
  by_cases hvm : lacksVm rt rt.currentPid = true
  · rw [if_pos hvm]
    obtain ⟨hs, ha⟩ := exitCurrent_spec _ h.sound h.cpu 5
    exact ⟨hs, by rw [ha]; exact .exit hplain⟩
  rw [if_neg hvm]
  dsimp only
  generalize hr : accessMem rt rt.currentPid insn = r
  generalize accessDetail rt rt.currentPid insn = detail
  by_cases hfail : r.1 = false
  · rw [if_pos hfail]
    obtain ⟨hs, ha⟩ := exitCurrent_spec { rt with vm := r.2 } h.sound
      ⟨h.cpu.pos, h.cpu.get, h.cpu.running⟩ 6
    exact ⟨hs, by rw [ha]; exact .exit hplain⟩
  rw [if_neg hfail]
  obtain ⟨rt₁, hrt₁⟩ : ∃ r₁, ({ rt with vm := r.2 } : Runtime).log rt.currentPid "ACCESS" detail =
    r₁ := ⟨_, rfl⟩
  have hs₁ : rt₁.Sound := hrt₁ ▸ h.sound
  have ha₁ : rt₁.abs = rt.abs := hrt₁ ▸ rfl
  have hcpu₁ : OnCpu rt₁ p := hrt₁ ▸ ⟨h.cpu.pos, h.cpu.get, h.cpu.running⟩
  have hpid : rt.currentPid = rt₁.currentPid := hrt₁ ▸ rfl
  have htick : rt₁.tick = rt.tick := hrt₁ ▸ rfl
  have hslot₁ : slotIndex rt₁ rt₁.currentPid = some idx := hrt₁ ▸ h.slot
  rw [hrt₁]
  split_ifs with hmajor
  · have hblocks : accessBlocks rt insn = true := by
      rw [accessBlocks, hr, Bool.eq_false_iff.mpr hvm, Bool.eq_true_of_not_eq_false hfail, hmajor]
      rfl
    have hsafe : blocksSafely rt = true → 0 < (rt₁.tick + vmPageFaultLatency) % 2 ^ 64 := by
      rw [blocksSafely, h.insn, htick]
      dsimp only
      rw [hop]
      dsimp only
      rw [hblocks, Bool.not_true, Bool.false_or, bne_iff_ne]
      exact Nat.pos_of_ne_zero
    rw [hpid]
    obtain ⟨hs, ha⟩ := sleep_spec hs₁ hcpu₁ ((rt₁.tick + vmPageFaultLatency) % 2 ^ 64) "page fault"
    refine ⟨hs, ?_⟩
    have hmove := Core.Exec.sleep (rt.abs.insn rt.abs.current) _ hplain hsafe
    rw [Core.goto_self] at hmove
    rw [ha, ha₁]
    exact hmove
  · obtain ⟨hs, next, ha⟩ := completeImmediate_spec _ hs₁ hslot₁
    refine ⟨hs, ?_⟩
    rw [ha, ha₁]
    exact .goto next hplain

theorem execMfree_spec (h : AtInsn rt p idx insn) (hplain : rt.abs.Plain) :
    Executes rt (execMfree rt rt.currentPid idx) := by
  rw [execMfree]
  split_ifs
  · obtain ⟨hs, ha⟩ := exitCurrent_spec _ h.sound h.cpu 5
    exact ⟨hs, by rw [ha]; exact .exit hplain⟩
  · have hkeep : Keeps fun p : Pcb => { p with vmLastAlloc := 0 } :=
      ⟨fun _ => ⟨rfl, rfl⟩, fun _ => rfl, fun _ => rfl, fun _ => rfl⟩
    dsimp only
    generalize hvm : (vmAllocFree (vmHeapOps rt.currentPid rt.tick) (vmLastAlloc rt rt.currentPid)
      rt.vm).2 = vm
    generalize asciiBytes (mfreeDetail (vmLastAlloc rt rt.currentPid)) = detail
    obtain ⟨rt₁, hrt₁⟩ : ∃ r₁, ({ rt with vm := vm } : Runtime).log rt.currentPid "MFREE" detail =
      r₁ := ⟨_, rfl⟩
    have hs₁ : rt₁.Sound := hrt₁ ▸ h.sound
    have ha₁ : rt₁.abs = rt.abs := hrt₁ ▸ rfl
    have hslot₁ : slotIndex rt₁ rt₁.currentPid = some idx := hrt₁ ▸ h.slot
    have habs := abs_modify_keeps rt₁ hkeep rt.currentPid
    rw [hrt₁]
    obtain ⟨hs, next, ha⟩ := completeImmediate_spec { rt₁ with
      procs := rt₁.procs.modify rt.currentPid fun p => { p with vmLastAlloc := 0 } }
      (Sound.modify_keeps hs₁ hkeep _) hslot₁
    refine ⟨hs, ?_⟩
    rw [ha, habs, ha₁]
    exact .goto next hplain

/-- What is executed at a given instruction. -/
theorem AtInsn.execute_send {fuel : ℕ} (h : AtInsn rt p idx insn) (hop : insn.op = .send) :
    executeInstruction fuel rt = some (false, execSend rt rt.currentPid idx insn) := by
  rw [executeInstruction, h.current]
  dsimp only
  rw [hop]

theorem AtInsn.execute_recv {fuel : ℕ} (h : AtInsn rt p idx insn) (hop : insn.op = .recv) :
    executeInstruction fuel rt = some (false, execRecv rt rt.currentPid idx insn) := by
  rw [executeInstruction, h.current]
  dsimp only
  rw [hop]

/-- Whatever is executed: one instruction is one move. -/
theorem executeInstruction_spec {fuel : ℕ} {r : Bool × Runtime} (h : rt.Sound)
    (hplaced : rt.abs.Placed) (hpos : 0 ≤ rt.currentPid)
    (hexec : executeInstruction fuel rt = some r) : Executes rt r.2 := by
  obtain ⟨p, hcpu⟩ := hplaced.onCpu hpos
  rw [executeInstruction] at hexec
  -- without an instruction the process ends
  have hend : rt.insnOf rt.currentPid = none → ∀ code, Executes rt (exitCurrent rt code) := by
    intro hnone code
    obtain ⟨hs, ha⟩ := exitCurrent_spec _ h hcpu code
    refine ⟨hs, ?_⟩
    rw [ha]
    refine .exit fun insn hinsn => ?_
    have : rt.insnOf rt.currentPid = some insn := hinsn
    rw [hnone] at this
    cases this
  cases hslot : slotIndex rt rt.currentPid with
  | none =>
    have hcur : currentInsn rt rt.currentPid = none := by
      rw [currentInsn, hslot]
      rfl
    rw [hcur] at hexec
    cases hexec
    exact hend (by rw [Runtime.insnOf, hcur]; rfl) 1
  | some idx =>
    have hcur : currentInsn rt rt.currentPid =
        some (idx, (rt.slots idx).workload.insns[(rt.slots idx).pc]?) := by
      rw [currentInsn, hslot]
      rfl
    have hinsnOf : rt.insnOf rt.currentPid =
        (rt.slots idx).workload.insns[(rt.slots idx).pc]? := by
      rw [Runtime.insnOf, hcur]
      rfl
    rw [hcur] at hexec
    cases hinsn : (rt.slots idx).workload.insns[(rt.slots idx).pc]? with
    | none =>
      rw [hinsn] at hexec
      cases hexec
      exact hend (hinsnOf.trans hinsn) 0
    | some insn =>
      have hat : AtInsn rt p idx insn := ⟨h, hplaced, hcpu, hslot, hinsnOf.trans hinsn⟩
      rw [hinsn] at hexec
      dsimp only at hexec
      have hplain : insn.op ≠ .send → insn.op ≠ .recv → rt.abs.Plain := hat.plain
      cases hop : insn.op with
      | cpu =>
        rw [hop] at hexec
        have := execCpu_spec hat hop
        rwa [Option.some.inj hexec] at this
      | io =>
        rw [hop] at hexec
        cases hexec
        exact execIo_spec hat hop
      | send =>
        rw [hop] at hexec
        cases hexec
        exact execSend_spec hat hop
      | recv =>
        rw [hop] at hexec
        cases hexec
        exact execRecv_spec hat hop
      | semWait =>
        rw [hop] at hexec hplain
        cases hexec
        exact execAcquire_spec hat (hplain nofun nofun) _ _ _ (syncWait_waiters _ _ _)
      | lock =>
        rw [hop] at hexec hplain
        cases hexec
        exact execAcquire_spec hat (hplain nofun nofun) _ _ _ (syncMutexLock_waiters _ _ _)
      | semPost =>
        rw [hop] at hexec hplain
        cases hexec
        exact execRelease_spec hat (hplain nofun nofun) _ _ _ (syncPost_waiters _ _ _)
      | unlock =>
        rw [hop] at hexec hplain
        cases hexec
        exact execRelease_spec hat (hplain nofun nofun) _ _ _ (syncPost_waiters _ _ _)
      | mmap =>
        rw [hop] at hexec hplain
        obtain ⟨rt₁, hmmap, heq⟩ := Option.map_eq_some_iff.mp hexec
        cases heq
        exact execMmap_spec hat (hplain nofun nofun) hmmap
      | access =>
        rw [hop] at hexec
        cases hexec
        exact execAccess_spec hat hop
      | mfree =>
        rw [hop] at hexec hplain
        cases hexec
        exact execMfree_spec hat (hplain nofun nofun)
      | exit =>
        rw [hop] at hexec hplain
        cases hexec
        obtain ⟨hs, ha⟩ := exitCurrent_spec _ h hcpu 0
        exact ⟨hs, by rw [ha]; exact .exit (hplain nofun nofun)⟩

end Mosrt
