/-
The runtime keeps a ledger.

`Runtime.ledger` reads clock, accounts and progress off the runtime.  Each function changes it by
the steps of `Ledger`:

* `passPrepare_stirs`, `dispatch_stirs` — processes are woken and put on the CPU;
* `executeInstruction_ledger` — an instruction takes no time, or is a tick of a burst.
-/
import Mosrt.InsnSpec
import Mosrt.Ledger

namespace Mosrt

open Relation

def Pcb.account (p : Pcb) : Account :=
  ⟨p.state, p.startTick, p.finishTick, p.cpuTime, p.waitTime, p.responseTime⟩

def Slot.job (s : Slot) : Job := ⟨s.workload.insns, s.pc, s.remaining⟩

def Runtime.ledger (rt : Runtime) : Ledger where
  tick := rt.tick
  busy := rt.busyTicks
  idle := rt.idleTicks
  account := fun pid => (procGet rt.procs pid).map Pcb.account
  job := fun pid => (slotIndex rt pid).map fun i => (rt.slots i).job

theorem ledger_tick (rt : Runtime) : rt.ledger.tick = rt.tick := rfl

variable {rt rt' : Runtime} {pid : ℤ} {p : Pcb} {f : Pcb → Pcb} {idx fuel : ℕ}
  {insn : WorkloadInsn} {why : CString} {gone : List ℤ} {fits : Prop}

/-- No time passes, and processes are only woken or put on the CPU. -/
def Stirs (rt rt' : Runtime) : Prop := ReflTransGen Ledger.Stir rt.ledger rt'.ledger

/-- No time passes. -/
def Steps (gone : List ℤ) (rt rt' : Runtime) : Prop :=
  ReflTransGen (Ledger.Step gone) rt.ledger rt'.ledger

theorem Stirs.steps (h : Stirs rt rt') : Steps gone rt rt' := Ledger.Stir.steps h

theorem Steps.clock (h : Steps gone rt rt') : rt'.tick = rt.tick ∧ rt'.idleTicks = rt.idleTicks :=
  have hclock := Ledger.steps_clock h
  ⟨hclock.1, hclock.2.2⟩

theorem Stirs.clock (h : Stirs rt rt') : rt'.tick = rt.tick ∧ rt'.idleTicks = rt.idleTicks :=
  have hsteps : Steps [] rt rt' := h.steps
  hsteps.clock

/-! ### Writing PCBs -/

theorem ledger_modify (rt : Runtime) (hf : KeepsId f) (hp : procGet rt.procs pid = some p) :
    ({ rt with procs := rt.procs.modify pid f } : Runtime).ledger =
      rt.ledger.setAccount pid (f p).account := by
  have haccount : (fun pid' => (procGet (rt.procs.modify pid f) pid').map Pcb.account) =
      Function.update rt.ledger.account pid (some (f p).account) := by
    funext pid'
    rw [procGet_modify hf, Function.update_apply]
    split_ifs
    · rw [hp]
      rfl
    · rfl
  exact congrArg (fun g => { rt.ledger with account := g }) haccount

/-- Writes that have nothing to do with time. -/
theorem ledger_modify_keeps (rt : Runtime) (hf : KeepsId f) (hacc : ∀ p, (f p).account = p.account)
    (pid : ℤ) : ({ rt with procs := rt.procs.modify pid f } : Runtime).ledger = rt.ledger :=
  congrArg (fun g => { rt.ledger with account := g })
    (funext fun pid' => procGet_modify_map hf hacc pid pid')

theorem ledger_forEach_keeps (rt : Runtime) (hf : KeepsId f)
    (hacc : ∀ p, (f p).account = p.account) :
    ({ rt with procs := procForEach rt.procs f } : Runtime).ledger = rt.ledger :=
  congrArg (fun g => { rt.ledger with account := g })
    (funext fun pid => procGet_forEach_map hf hacc pid)

theorem ledger_setWakeup (rt : Runtime) (pid : ℤ) (w : ℕ) :
    ({ rt with procs := rt.procs.modify pid fun p => p.setWakeup w } : Runtime).ledger =
      rt.ledger :=
  ledger_modify_keeps rt (f := fun p => p.setWakeup w) (fun _ => ⟨rfl, rfl⟩) (fun _ => rfl) pid

theorem ledger_setLastAlloc (rt : Runtime) (pid : ℤ) (addr : ℕ) :
    ({ rt with procs := rt.procs.modify pid fun p => { p with vmLastAlloc := addr } } :
      Runtime).ledger = rt.ledger :=
  ledger_modify_keeps rt (f := fun p => { p with vmLastAlloc := addr }) (fun _ => ⟨rfl, rfl⟩)
    (fun _ => rfl) pid

theorem ledger_entry (rt : Runtime) (i : ℕ) {q : Pcb} (hused : q.used = (rt.procs.entries i).used)
    (hpid : q.pid = (rt.procs.entries i).pid) (hacc : q.account = (rt.procs.entries i).account) :
    ({ rt with procs := { rt.procs with entries := Function.update rt.procs.entries i q } } :
      Runtime).ledger = rt.ledger :=
  congrArg (fun g => { rt.ledger with account := g })
    (funext fun pid => procGet_entry_map (g := Pcb.account) i hused hpid hacc pid)

/-! ### Waking and dispatching -/

theorem enqueueReady_stirs (rt : Runtime) (pid : ℤ) : Stirs rt (enqueueReady rt pid) := by
  rw [enqueueReady]
  cases hset : procSetState rt.procs pid .ready rt.tick with
  | none => exact .refl
  | some procs =>
    obtain ⟨⟨p, hp, hv⟩, rfl⟩ := procSetState_eq_some.mp hset
    have hl := ledger_modify rt (keepsId_setState .ready rt.tick) hp
    refine .single ?_
    have hstir := Ledger.Stir.turn (l := rt.ledger) pid p.account .ready
      (by show (procGet rt.procs pid).map _ = _; rw [hp]; rfl) hv (.inl rfl)
    have hturn : p.account.turn .ready rt.ledger.tick = (p.setState .ready rt.tick).account := rfl
    rw [hturn, ← hl] at hstir
    exact hstir

theorem wakePid_stirs (rt : Runtime) (pid : ℤ) (why : CString) : Stirs rt (wakePid rt pid why) := by
  rw [wakePid]
  cases procGet rt.procs pid with
  | none => exact .refl
  | some p =>
    dsimp only
    split_ifs
    · exact enqueueReady_stirs rt pid
    · exact .refl

theorem wakeBlockedByTime_stirs (rt : Runtime) (i : ℕ) : Stirs rt (wakeBlockedByTime rt i) := by
  rw [wakeBlockedByTime]
  dsimp only
  split_ifs
  · have hl := ledger_entry rt i (q := (rt.procs.entries i).setWakeup 0) rfl rfl rfl
    rw [Stirs, ← hl]
    exact wakePid_stirs _ _ _
  · exact .refl

theorem wakeTimers_stirs (rt : Runtime) : Stirs rt (wakeTimers rt) := by
  rw [wakeTimers]
  refine List.foldlRecOn (motive := fun r : Runtime => Stirs rt r) _ _ .refl ?_
  intro r hr i _
  exact hr.trans (wakeBlockedByTime_stirs r i)

theorem ledger_log (rt : Runtime) (pid : ℤ) (event detail : CString) :
    (rt.log pid event detail).ledger = rt.ledger := rfl

theorem ledger_rebuild (rt : Runtime) : (rebuildReadyQueues rt).ledger = rt.ledger := by
  rw [rebuildReadyQueues]
  generalize (List.range mosrtMaxProcs).foldl (rebuildOneReady rt.procs)
    (schedClear rt.scheduler) = s
  rfl

theorem ledger_ageReady (rt : Runtime) : (ageReady rt).ledger = rt.ledger := by
  rw [ageReady, schedAgeReady]
  split_ifs
  · refine ledger_forEach_keeps rt (keeps_ageOne rt.tick).id fun p => ?_
    rw [ageOne]
    split_ifs <;> rfl
  · rfl

theorem ledger_rebuildPrio (rt : Runtime) : (rebuildPrio rt).ledger = rt.ledger := by
  rw [rebuildPrio]
  split_ifs
  · exact ledger_rebuild rt
  · rfl

theorem ledger_boostMlfq (rt : Runtime) : (boostMlfq rt).ledger = rt.ledger := by
  rw [boostMlfq]
  split_ifs with hdue
  · have hboost : schedPriorityBoost rt.procs rt.scheduler = procForEach rt.procs boostOne := by
      rw [schedPriorityBoost, if_pos hdue.1]
    rw [hboost]
    rw [ledger_log, ledger_rebuild]
    refine ledger_forEach_keeps rt keepsId_boostOne fun p => ?_
    rw [boostOne]
    split_ifs <;> rfl
  · rfl

theorem passPrepare_stirs (rt : Runtime) : Stirs rt (passPrepare rt) := by
  rw [Stirs, passPrepare, ledger_boostMlfq, ledger_rebuildPrio, ledger_ageReady]
  exact wakeTimers_stirs rt

theorem dispatch_stirs (rt : Runtime) : Stirs rt (dispatch rt).2 := by
  rw [dispatch]
  split_ifs
  · exact .refl
  · dsimp only
    split_ifs
    · exact .refl
    · generalize (schedPickNext rt.procs rt.scheduler).1 = pid
      generalize (schedPickNext rt.procs rt.scheduler).2 = sched
      cases hset : procSetState rt.procs pid .running rt.tick with
      | none => exact .refl
      | some procs =>
        obtain ⟨⟨p, hp, hv⟩, rfl⟩ := procSetState_eq_some.mp hset
        have hl := ledger_modify rt (keepsId_setState .running rt.tick) hp
        have hstir := Ledger.Stir.turn (l := rt.ledger) pid p.account .running
          (by show (procGet rt.procs pid).map _ = _; rw [hp]; rfl) hv (.inr rfl)
        have hturn : p.account.turn .running rt.ledger.tick =
          (p.setState .running rt.tick).account := rfl
        rw [hturn, ← hl] at hstir
        dsimp only
        split_ifs
        · exact .single hstir
        · exact .single hstir

/-! ### Instructions -/

theorem procMarkExited_step {procs : ProcTable} {code : ℤ}
    (h : procMarkExited rt.procs pid code rt.tick = some procs) :
    Ledger.Step gone rt.ledger ({ rt with procs := procs } : Runtime).ledger := by
  obtain ⟨⟨p, hp, hne⟩, rfl⟩ := procMarkExited_eq_some.mp h
  have hl := ledger_modify rt (keepsId_markExited code rt.tick) hp
  have hv : procIsValidTransition p.state .exited = true := by
    cases hst : p.state <;> first | rfl | exact absurd hst hne
  have hstep : Ledger.Step gone rt.ledger _ := .turn pid p.account .exited
    (by show (procGet rt.procs pid).map _ = _; rw [hp]; rfl) hv
  have hturn : p.account.turn .exited rt.ledger.tick = (p.markExited code rt.tick).account := rfl
  rw [hturn, ← hl] at hstep
  exact hstep

theorem exitCurrent_steps (rt : Runtime) (code : ℤ) : Steps gone rt (exitCurrent rt code) := by
  rw [exitCurrent]
  split_ifs
  · exact .refl
  · cases hmark : procMarkExited rt.procs rt.currentPid code rt.tick with
    | none => exact .refl
    | some procs => exact .single (procMarkExited_step hmark)

theorem blockCurrent_steps (rt : Runtime) (why : CString) :
    Steps gone rt (blockCurrent rt why) := by
  rw [blockCurrent]
  split_ifs
  · exact .refl
  · cases hset : procSetState rt.procs rt.currentPid .blocked rt.tick with
    | none => exact .refl
    | some procs =>
      obtain ⟨⟨p, hp, hv⟩, rfl⟩ := procSetState_eq_some.mp hset
      have hl := ledger_modify rt (keepsId_setState .blocked rt.tick) hp
      have hstep : Ledger.Step gone rt.ledger _ := .turn rt.currentPid p.account .blocked
        (by show (procGet rt.procs rt.currentPid).map _ = _; rw [hp]; rfl) hv
      have hturn : p.account.turn .blocked rt.ledger.tick =
        (p.setState .blocked rt.tick).account := rfl
      rw [hturn, ← hl] at hstep
      exact .single hstep

theorem ledger_demote (rt : Runtime) (pid : ℤ) :
    ({ rt with procs := schedDemoteAfterQuantum rt.procs rt.scheduler pid } : Runtime).ledger =
      rt.ledger := by
  rw [schedDemoteAfterQuantum]
  split_ifs
  · refine ledger_modify_keeps rt ?_ ?_ pid
    · intro q
      dsimp only
      split_ifs <;> exact ⟨rfl, rfl⟩
    · intro q
      split_ifs <;> rfl
  · rfl

theorem maybePreempt_stirs (rt : Runtime) : Stirs rt (maybePreempt rt) := by
  rw [maybePreempt]
  dsimp only
  split_ifs
  · exact .refl
  · obtain ⟨r, hr⟩ : ∃ r : Runtime, { rt with
      procs := schedDemoteAfterQuantum rt.procs rt.scheduler rt.currentPid
      needResched := false
      timerResched := false } = r := ⟨_, rfl⟩
    have hl : r.ledger = rt.ledger := by
      rw [← hr]
      exact ledger_demote rt rt.currentPid
    rw [hr, Stirs, ← hl]
    exact enqueueReady_stirs r rt.currentPid
  · exact .refl

/-- Writing the slot of a process. -/
theorem ledger_setSlot (rt : Runtime) {g : Slot → Slot} (hg : KeepsSlot g)
    (hidx : slotIndex rt pid = some idx) :
    (rt.setSlot idx g).ledger = rt.ledger.setJob pid (g (rt.slots idx)).job := by
  have hjob : (fun q => (slotIndex (rt.setSlot idx g) q).map
        fun i => ((rt.setSlot idx g).slots i).job) =
      Function.update rt.ledger.job pid (some (g (rt.slots idx)).job) := by
    funext q
    rw [slotIndex_setSlot hg, Function.update_apply]
    split_ifs with hq
    · have hs : (rt.setSlot idx g).slots idx = g (rt.slots idx) := Function.update_self _ _ _
      rw [hq, hidx, Option.map_some, hs]
    · show _ = (slotIndex rt q).map _
      cases hslot : slotIndex rt q with
      | none => rfl
      | some i =>
        -- another process has another slot
        have hii : i ≠ idx := by
          rintro rfl
          have h1 := (slotIndex_eq_some.mp hslot).2.2.2.2
          have h2 := (slotIndex_eq_some.mp hidx).2.2.2.2
          exact hq (h1.symm.trans h2)
        have hs : (rt.setSlot idx g).slots i = rt.slots i := Function.update_of_ne hii _ _
        rw [Option.map_some, Option.map_some, hs]
  exact congrArg (fun k => { rt.ledger with job := k }) hjob

/-- The process `pid` stands at `insn`, in the slot `idx`. -/
structure StandsAt (rt : Runtime) (pid : ℤ) (idx : ℕ) (insn : WorkloadInsn) : Prop where
  slot : slotIndex rt pid = some idx
  insn : (rt.slots idx).workload.insns[(rt.slots idx).pc]? = some insn

theorem AtInsn.standsAt (h : AtInsn rt p idx insn) : StandsAt rt rt.currentPid idx insn := by
  have hinsn := h.insn
  rw [Runtime.insnOf, currentInsn, h.slot] at hinsn
  exact ⟨h.slot, hinsn⟩

/-- Changes elsewhere leave a process where it stands. -/
theorem StandsAt.congr (h : StandsAt rt pid idx insn) (hslots : rt'.slots = rt.slots)
    (hby : rt'.slotByPid = rt.slotByPid) : StandsAt rt' pid idx insn := by
  refine ⟨?_, ?_⟩
  · rw [slotIndex, hslots, hby]
    exact h.slot
  · rw [hslots]
    exact h.insn

theorem StandsAt.job (h : StandsAt rt pid idx insn) :
    rt.ledger.job pid = some (rt.slots idx).job := by
  show (slotIndex rt pid).map _ = _
  rw [h.slot]
  rfl

theorem completeImmediate_steps (h : StandsAt rt pid idx insn) (hcpu : insn.op ≠ .cpu)
    (hexit : insn.op ≠ .exit) : Steps gone rt (completeImmediate rt idx) := by
  refine .single ?_
  have hstep : Ledger.Step gone rt.ledger _ :=
    .advance pid (rt.slots idx).job insn h.job h.insn hcpu hexit
  have hl := ledger_setSlot rt (g := fun s => { s with pc := s.pc + 1, remaining := 0 })
    (fun _ => ⟨rfl, rfl⟩) h.slot
  have hnext : (rt.slots idx).job.next =
    Slot.job { rt.slots idx with pc := (rt.slots idx).pc + 1, remaining := 0 } := rfl
  rw [hnext, ← hl] at hstep
  exact hstep

theorem wakeAndComplete_steps (h : StandsAt rt pid idx insn) (hcpu : insn.op ≠ .cpu)
    (hexit : insn.op ≠ .exit) (wake : ℤ) (why : CString) :
    Steps gone rt (wakeAndComplete rt idx wake why) := by
  rw [wakeAndComplete]
  split_ifs
  · have hslots := wakePid_slots rt wake why
    exact (wakePid_stirs rt wake why).steps.trans
      (completeImmediate_steps (h.congr hslots.1 hslots.2) hcpu hexit)
  · exact completeImmediate_steps h hcpu hexit

theorem execIo_steps (h : StandsAt rt pid idx insn) (hop : insn.op = .io) :
    Steps gone rt (execIo rt pid idx insn) := by
  rw [execIo]
  split_ifs
  · exact exitCurrent_steps rt 1
  · dsimp only
    obtain ⟨w, hw⟩ : ∃ w, (rt.tick + insn.ticks) % 2 ^ 64 = w := ⟨_, rfl⟩
    rw [hw]
    obtain ⟨r, hr⟩ : ∃ r : Runtime, { rt with
      procs := rt.procs.modify pid fun p => p.setWakeup w } = r := ⟨_, rfl⟩
    have hl : r.ledger = rt.ledger := by
      rw [← hr]
      exact ledger_setWakeup rt pid w
    have hstands : StandsAt r pid idx insn := by
      rw [← hr]
      exact h.congr rfl rfl
    rw [hr, Steps, ← hl]
    have hdone : Steps gone r (completeImmediate r idx) :=
      completeImmediate_steps hstands (by rw [hop]; decide) (by rw [hop]; decide)
    exact hdone.trans (blockCurrent_steps _ _)

theorem Settled.steps (hset : Settled rt idx rt') (h : StandsAt rt pid idx insn)
    (hcpu : insn.op ≠ .cpu) (hexit : insn.op ≠ .exit) : Steps gone rt rt' := by
  cases hset with
  | error q t code => exact exitCurrent_steps { rt with queues := q, sems := t } code
  | blocked q t why => exact blockCurrent_steps { rt with queues := q, sems := t } why
  | done q t wake why =>
    have hstands : StandsAt { rt with queues := q, sems := t } pid idx insn := h.congr rfl rfl
    exact wakeAndComplete_steps hstands hcpu hexit wake why

theorem execMmap_steps (h : StandsAt rt pid idx insn) (hop : insn.op = .mmap)
    (hex : execMmap fuel rt pid idx insn = some rt') : Steps gone rt rt' := by
  rw [execMmap] at hex
  split_ifs at hex
  · rw [← Option.some.inj hex]
    exact exitCurrent_steps rt 5
  · obtain ⟨addr, -, heq⟩ := Option.map_eq_some_iff.mp hex
    generalize (vmAllocMalloc (vmHeapOps pid rt.tick) fuel (insn.arg0 % 2 ^ 64).toNat rt.vm).2 = vm
      at heq
    dsimp only at heq
    split_ifs at heq
    · rw [← heq]
      exact exitCurrent_steps { rt with vm := vm } 5
    · obtain ⟨r, hr⟩ : ∃ r : Runtime, { rt with
        vm := vm
        procs := rt.procs.modify pid fun p => { p with vmLastAlloc := addr } } = r := ⟨_, rfl⟩
      have hl : r.ledger = rt.ledger := by
        rw [← hr]
        exact ledger_setLastAlloc rt pid addr
      have hstands : ∀ event detail, StandsAt (r.log pid event detail) pid idx insn := by
        rw [← hr]
        exact fun _ _ => h.congr rfl rfl
      rw [hr] at heq
      rw [← heq, Steps, ← hl, ← ledger_log r pid "MMAP" (mmapDetail insn addr)]
      exact completeImmediate_steps (hstands _ _) (by rw [hop]; decide)
        (by rw [hop]; decide)

theorem execAccess_steps (h : StandsAt rt pid idx insn) (hop : insn.op = .access) :
    Steps gone rt (execAccess rt pid idx insn) := by
  rw [execAccess]
  split_ifs
  · exact exitCurrent_steps rt 5
  · dsimp only
    generalize (accessMem rt pid insn).2 = vm
    obtain ⟨r, hr⟩ : ∃ r : Runtime,
      ({ rt with vm := vm } : Runtime).log pid "ACCESS" (accessDetail rt pid insn) = r := ⟨_, rfl⟩
    have hl : r.ledger = rt.ledger := by
      rw [← hr]
      rfl
    have hstands : StandsAt r pid idx insn := by
      rw [← hr]
      exact h.congr rfl rfl
    rw [hr]
    split_ifs
    · exact exitCurrent_steps { rt with vm := vm } 6
    · rw [Steps, ← hl, ← ledger_setWakeup r pid ((r.tick + vmPageFaultLatency) % 2 ^ 64)]
      exact blockCurrent_steps _ _
    · rw [Steps, ← hl]
      exact completeImmediate_steps hstands (by rw [hop]; decide) (by rw [hop]; decide)

theorem execMfree_steps (h : StandsAt rt pid idx insn) (hop : insn.op = .mfree) :
    Steps gone rt (execMfree rt pid idx) := by
  rw [execMfree]
  split_ifs
  · exact exitCurrent_steps rt 5
  · dsimp only
    generalize (vmAllocFree (vmHeapOps pid rt.tick) (vmLastAlloc rt pid) rt.vm).2 = vm
    obtain ⟨r, hr⟩ : ∃ r : Runtime, ({ rt with vm := vm } : Runtime).log pid "MFREE"
      (mfreeDetail (vmLastAlloc rt pid)) = r := ⟨_, rfl⟩
    have hl : r.ledger = rt.ledger := by
      rw [← hr]
      rfl
    have hstands : StandsAt { r with
        procs := r.procs.modify pid fun p => { p with vmLastAlloc := 0 } } pid idx insn := by
      rw [← hr]
      exact h.congr rfl rfl
    rw [hr, Steps, ← hl, ← ledger_setLastAlloc r pid 0]
    exact completeImmediate_steps hstands (by rw [hop]; decide) (by rw [hop]; decide)

theorem account_waits (p : Pcb) : (accountReadyWait p).account = p.account.waits := by
  rw [accountReadyWait, Account.waits]
  show _ = if p.state = .ready then _ else _
  split_ifs <;> rfl

theorem ledger_idleTick (rt : Runtime) : (idleTick rt).ledger = rt.ledger.idleTick := by
  have haccount : (fun q => (procGet (procForEach rt.procs accountReadyWait) q).map Pcb.account) =
      fun q => (rt.ledger.account q).map Account.waits := by
    funext q
    show _ = ((procGet rt.procs q).map Pcb.account).map _
    rw [procGet_forEach keeps_accountReadyWait.id, Option.map_map, Option.map_map]
    congr 1
    funext p
    exact account_waits p
  exact congrArg (fun g => { rt.ledger.idleTick with account := g }) haccount

theorem ledger_accountTick (hp : procGet rt.procs pid = some p) (hrun : p.state = .running) :
    (accountTick rt pid).ledger =
      { tick := incr64 rt.tick
        busy := incr64 rt.busyTicks
        idle := rt.idleTicks
        account := fun q => if q = pid then some p.account.runs
          else (rt.ledger.account q).map Account.waits
        job := rt.ledger.job } := by
  have hid : KeepsId fun p : Pcb => { p with cpuTime := incr64 p.cpuTime } := fun _ => ⟨rfl, rfl⟩
  have haccount : (accountTick rt pid).ledger.account = fun q =>
      if q = pid then some p.account.runs else (rt.ledger.account q).map Account.waits := by
    funext q
    show (procGet (accountTick rt pid).procs q).map _ = _
    rw [accountTick, procGet_modify hid]
    split_ifs
    · have hsame : accountReadyWait p = p := if_neg (by rw [hrun]; exact nofun)
      rw [procGet_forEach keeps_accountReadyWait.id, hp, Option.map_some, hsame]
      rfl
    · show _ = ((procGet rt.procs q).map Pcb.account).map _
      rw [procGet_forEach keeps_accountReadyWait.id, Option.map_map, Option.map_map]
      congr 1
      funext p
      exact account_waits p
  exact congrArg (fun g : ℤ → Option Account => (⟨_, _, _, g, _⟩ : Ledger)) haccount

theorem ledger_spendTick (h : AtInsn rt p idx insn) (n : ℕ) :
    (spendTick rt idx n).ledger =
      rt.ledger.burst rt.currentPid p.account (rt.slots idx).job (n - 1) := by
  have hload := ledger_setSlot rt (g := fun s => { s with remaining := n }) (fun _ => ⟨rfl, rfl⟩)
    h.slot
  obtain ⟨r, hr⟩ : ∃ r, loadBurst rt idx n = r := ⟨_, rfl⟩
  have hslot : slotIndex r rt.currentPid = some idx := by
    rw [← h.slot, ← hr]
    exact slotIndex_setSlot (g := fun s => { s with remaining := n }) fun _ => ⟨rfl, rfl⟩
  have hslot' : slotIndex (accountTick r rt.currentPid) rt.currentPid = some idx := hslot
  have hspent := ledger_setSlot (accountTick r rt.currentPid) (g := fun s =>
    { s with remaining := n - 1, pc := if n - 1 = 0 then s.pc + 1 else s.pc })
    (fun _ => ⟨rfl, rfl⟩) hslot'
  have hget : procGet r.procs rt.currentPid = some p := by
    rw [← hr]
    exact h.cpu.get
  have hjob : Slot.job { r.slots idx with
      remaining := n - 1
      pc := if n - 1 = 0 then (r.slots idx).pc + 1 else (r.slots idx).pc } =
      (rt.slots idx).job.burn (n - 1) := by
    have hs : r.slots idx = { rt.slots idx with remaining := n } := by
      rw [← hr]
      exact Function.update_self _ _ _
    rw [hs]
    rfl
  have hl : r.ledger = rt.ledger.setJob rt.currentPid (Slot.job { rt.slots idx with
      remaining := n }) := by
    rw [← hr]
    exact hload
  have hclock : r.tick = rt.tick ∧ r.busyTicks = rt.busyTicks ∧ r.idleTicks = rt.idleTicks := by
    rw [← hr]
    exact ⟨rfl, rfl, rfl⟩
  rw [spendTick, ledger_log, hr, hspent, ledger_accountTick hget h.cpu.running, hl, hclock.1,
    hclock.2.1, hclock.2.2]
  show Ledger.mk _ _ _ _ (Function.update (Function.update _ _ _) _ (some (Slot.job _))) = _
  rw [Function.update_idem]
  exact congrArg (fun j => (⟨_, _, _, _, Function.update _ _ (some j)⟩ : Ledger)) hjob

/-- A burst that is loaded loses a tick; an empty one ends the process. -/
theorem execCpu_ledger (h : AtInsn rt p idx insn) (hop : insn.op = .cpu)
    (hfits : fits → rt.tick + 1 < 2 ^ 64) :
    (execCpu rt rt.currentPid idx insn).1 = false ∧
        Steps gone rt (execCpu rt rt.currentPid idx insn).2 ∨
      (execCpu rt rt.currentPid idx insn).1 = true ∧ ∃ l, Ledger.Tick fits rt.ledger l ∧
        ReflTransGen Ledger.Stir l (execCpu rt rt.currentPid idx insn).2.ledger := by
  have hstands := h.standsAt
  rw [execCpu_eq h.cpu]
  split_ifs with hn
  · -- nothing was loaded, and nothing is
    have hload := ledger_setSlot rt (g := fun s => { s with remaining := 0 })
      (fun _ => ⟨rfl, rfl⟩) h.slot
    have hjob : Slot.job { rt.slots idx with remaining := 0 } = (rt.slots idx).job := by
      have hzero : (rt.slots idx).remaining = 0 := by
        rw [burstOf] at hn
        split_ifs at hn with hr
        · exact hr
        · exact hn
      rw [Slot.job, Slot.job, hzero]
    have hsame : (loadBurst rt idx 0).ledger = rt.ledger := by
      refine hload.trans ?_
      rw [hjob, Ledger.setJob, ← hstands.job, Function.update_eq_self]
    refine .inl ⟨rfl, ?_⟩
    rw [Steps, ← hsame]
    exact exitCurrent_steps _ 1
  · refine .inr ⟨rfl, _, ?_, maybePreempt_stirs _⟩
    rw [ledger_spendTick h]
    refine .burst rt.currentPid p.account (rt.slots idx).job insn _ ?_ h.cpu.running ?_
      hstands.job hstands.insn hop ?_ hfits
    · show (procGet rt.procs rt.currentPid).map _ = _
      rw [h.cpu.get]
      rfl
    · intro q b hb hrun
      obtain ⟨p', hp', rfl⟩ := Option.map_eq_some_iff.mp hb
      refine h.placed.running q ?_
      rw [abs_stateOf hp']
      exact congrArg some hrun
    · exact Nat.sub_add_cancel (Nat.pos_of_ne_zero hn)

theorem executeInstruction_ledger {r : Bool × Runtime} (h : rt.Sound) (hplaced : rt.abs.Placed)
    (hpos : 0 ≤ rt.currentPid) (hfits : fits → rt.tick + 1 < 2 ^ 64)
    (hr : executeInstruction fuel rt = some r) :
    r.1 = false ∧ Steps gone rt r.2 ∨
      r.1 = true ∧ ∃ l, Ledger.Tick fits rt.ledger l ∧ ReflTransGen Ledger.Stir l r.2.ledger := by
  cases hinsn : rt.insnOf rt.currentPid with
  | none =>
    -- there is no slot, or the workload is at its end
    left
    rw [executeInstruction] at hr
    rw [Runtime.insnOf] at hinsn
    cases hcur : currentInsn rt rt.currentPid with
    | none =>
      rw [hcur] at hr
      cases hr
      exact ⟨rfl, exitCurrent_steps rt 1⟩
    | some c =>
      obtain ⟨i, o⟩ := c
      rw [hcur] at hinsn hr
      have ho : o = none := hinsn
      subst ho
      cases hr
      exact ⟨rfl, exitCurrent_steps rt 0⟩
  | some insn =>
    obtain ⟨p, idx, hat⟩ := atInsn h hplaced hpos hinsn
    have hstands := hat.standsAt
    have hexec := hr
    rw [executeInstruction, hat.current] at hr
    dsimp only at hr
    cases hop : insn.op with
    | cpu =>
      rw [hop] at hr
      rw [← Option.some.inj hr]
      exact execCpu_ledger hat hop hfits
    | mmap =>
      rw [hop] at hr
      obtain ⟨rt', hmmap, rfl⟩ := Option.map_eq_some_iff.mp hr
      exact .inl ⟨rfl, execMmap_steps hstands hop hmmap⟩
    | io =>
      rw [hop] at hr
      rw [← Option.some.inj hr]
      exact .inl ⟨rfl, execIo_steps hstands hop⟩
    | send | recv | semWait | semPost | lock | unlock =>
      obtain ⟨hfalse, hset⟩ := executeInstruction_settled hat.current (by rw [hop]; rfl) hexec
      exact .inl ⟨hfalse, hset.steps hstands (by rw [hop]; decide) (by rw [hop]; decide)⟩
    | access =>
      rw [hop] at hr
      rw [← Option.some.inj hr]
      exact .inl ⟨rfl, execAccess_steps hstands hop⟩
    | mfree =>
      rw [hop] at hr
      rw [← Option.some.inj hr]
      exact .inl ⟨rfl, execMfree_steps hstands hop⟩
    | exit =>
      rw [hop] at hr
      rw [← Option.some.inj hr]
      exact .inl ⟨rfl, exitCurrent_steps rt 0⟩

/-- Executing an instruction is not idling. -/
theorem idleTicks_executeInstruction {r : Bool × Runtime} (h : rt.Sound) (hplaced : rt.abs.Placed)
    (hpos : 0 ≤ rt.currentPid) (hr : executeInstruction fuel rt = some r) :
    r.2.idleTicks = rt.idleTicks := by
  have hledger : r.1 = false ∧ Steps [] rt r.2 ∨ r.1 = true ∧ ∃ l, Ledger.Tick False rt.ledger l ∧
      ReflTransGen Ledger.Stir l r.2.ledger :=
    executeInstruction_ledger h hplaced hpos False.elim hr
  rcases hledger with ⟨-, hsteps⟩ | ⟨-, l, htick, hstirs⟩
  · exact hsteps.clock.2
  · obtain ⟨p, hcpu⟩ := hplaced.onCpu hpos
    have hacc : rt.ledger.account rt.currentPid = some p.account := by
      show (procGet rt.procs rt.currentPid).map _ = _
      rw [hcpu.get]
      rfl
    exact (Ledger.stirs_clock hstirs).2.trans (htick.idle_eq hacc hcpu.running)

end Mosrt
