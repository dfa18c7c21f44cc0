/-
What programs have done, and the objects they share.

A process works through the instructions of its slot; `LOCK`, `UNLOCK`, `SEM_WAIT` and `SEM_POST`
call `sync.c`, and the process goes on to its next instruction only if the call succeeds.  A `Desk`
is what this takes: who exists, how far everybody has come, and the semaphores and mutexes.

* `Desk.Acts` — one instruction of one process, with the call it makes;
* `Desk.Step` — an operation: an instruction, a process that comes, one that is killed, or nothing;
* `executeInstruction_acts`, `RtOp.desk_step` — the runtime takes such steps, and no others.
-/
import Mosrt.InternalErrors
import Mosrt.RosterSpec
import Mosrt.SyncSafety

namespace Mosrt

/-- The call that an operation on the object `id` makes for `pid`. -/
def WorkloadOp.syncOp (id pid : ℤ) : WorkloadOp → Option SyncOp
  | .semWait => some (.wait id pid)
  | .lock => some (.lock id pid)
  | .semPost => some (.post id pid)
  | .unlock => some (.unlock id pid)
  | _ => none

def WorkloadInsn.syncOp (insn : WorkloadInsn) (pid : ℤ) : Option SyncOp :=
  insn.op.syncOp insn.arg0 pid

structure Desk where
  known : ℤ → Bool
  job : ℤ → Option Job
  sems : SemTable

namespace Desk

def setJob (x : Desk) (pid : ℤ) (j : Option Job) : Desk :=
  { x with job := Function.update x.job pid j }

/-- The process `pid` executes `insn`; the flag says whether it is done with it. -/
inductive Acts (x : Desk) (pid : ℤ) (insn : WorkloadInsn) : Bool → Desk → Prop
  /-- The process ends or waits. -/
  | stays : Acts x pid insn false x
  /-- A tick of a longer burst. -/
  | ticks (j j' : Job) : x.job pid = some j → j'.insns = j.insns → j'.pc = j.pc →
      Acts x pid insn false (x.setJob pid (some j'))
  | finishes (j j' : Job) : x.job pid = some j → j'.insns = j.insns → j'.pc = j.pc + 1 →
      insn.syncOp pid = none → Acts x pid insn true (x.setJob pid (some j'))
  | succeeds (j : Job) (op : SyncOp) : x.job pid = some j → insn.syncOp pid = some op →
      (op.call x.sems).1 = .ok →
      Acts x pid insn true { x.setJob pid (some j.next) with sems := op.exec x.sems }
  | fails (op : SyncOp) : insn.syncOp pid = some op → (op.call x.sems).1 ≠ .ok →
      Acts x pid insn false { x with sems := op.exec x.sems }

/-- An operation, with the instruction that somebody is done with. -/
inductive Step (x : Desk) : List (ℤ × WorkloadInsn) → Desk → Prop
  | still : Step x [] x
  | acts {b : Bool} {x' : Desk} (pid : ℤ) (j : Job) (insn : WorkloadInsn) : 0 < pid →
      x.known pid = true → x.job pid = some j → j.insns[j.pc]? = some insn →
      Acts x pid insn b x' → Step x (if b then [(pid, insn)] else []) x'
  | spawn (pid : ℤ) (insns : List WorkloadInsn) : 0 < pid → x.known pid = false →
      Step x []
        { x.setJob pid (some ⟨insns, 0, 0⟩) with known := Function.update x.known pid true }
  | close (pid : ℤ) : Step x [] (x.setJob pid none)

theorem job_setJob (x : Desk) (pid : ℤ) (j : Option Job) (q : ℤ) :
    (x.setJob pid j).job q = if q = pid then j else x.job q := Function.update_apply _ _ _ _

def pcOf (x : Desk) (pid : ℤ) : ℕ := (x.job pid).elim 0 Job.pc

variable {x x' : Desk} {pid : ℤ} {j : Job} {insn : WorkloadInsn} {b : Bool}

/-- An instruction moves nobody but its process, by one instruction or not at all. -/
theorem Acts.job (h : x.Acts pid insn b x') (hj : x.job pid = some j) :
    (∃ j', x'.job pid = some j' ∧ j'.insns = j.insns ∧ j'.pc = j.pc + b.toNat) ∧
      (∀ q, q ≠ pid → x'.job q = x.job q) ∧ x'.known = x.known := by
  cases h with
  | stays | fails => exact ⟨⟨j, hj, rfl, rfl⟩, fun _ _ => rfl, rfl⟩
  | ticks j₀ j' hj₀ hinsns hpc | finishes j₀ j' hj₀ hinsns hpc =>
    obtain rfl := Option.some.inj (hj₀.symm.trans hj)
    exact ⟨⟨j', Function.update_self _ _ _, hinsns, hpc⟩,
      fun q hq => Function.update_of_ne hq _ _, rfl⟩
  | succeeds j₀ op hj₀ =>
    obtain rfl := Option.some.inj (hj₀.symm.trans hj)
    exact ⟨⟨j₀.next, Function.update_self _ _ _, rfl, rfl⟩,
      fun q hq => Function.update_of_ne hq _ _, rfl⟩

/-- The program counter tells whether the process is done with an instruction. -/
theorem Acts.pc (h : Acts x pid insn b x') (hj : x.job pid = some j) :
    x'.pcOf pid = x.pcOf pid + b.toNat := by
  obtain ⟨j', hj', -, hpc⟩ := (h.job hj).1
  rw [pcOf, pcOf, hj', hj]
  exact hpc

end Desk

/-! ### What leaves programs and objects alone -/

/-- The fields of the runtime that programs and objects are in. -/
def Runtime.bench (rt : Runtime) : (ℕ → Slot) × (ℕ → Option ℕ) × SemTable :=
  (rt.slots, rt.slotByPid, rt.sems)

variable {rt rt' d : Runtime} {pid : ℤ} {p : Pcb} {idx fuel : ℕ} {insn : WorkloadInsn}

theorem enqueueReady_bench (rt : Runtime) (pid : ℤ) : (enqueueReady rt pid).bench = rt.bench := by
  rw [enqueueReady]
  split <;> rfl

theorem wakePid_bench (rt : Runtime) (pid : ℤ) (why : CString) :
    (wakePid rt pid why).bench = rt.bench := by
  rw [wakePid]
  split
  · rfl
  · split_ifs
    · exact enqueueReady_bench rt pid
    · rfl

theorem wakeTimers_bench (rt : Runtime) : (wakeTimers rt).bench = rt.bench := by
  rw [wakeTimers]
  refine List.foldlRecOn (motive := fun r : Runtime => r.bench = rt.bench) _ _ rfl
    fun r hr i _ => ?_
  rw [wakeBlockedByTime]
  dsimp only
  split_ifs
  · exact (wakePid_bench _ _ _).trans hr
  · exact hr

theorem rebuildReadyQueues_bench (rt : Runtime) : (rebuildReadyQueues rt).bench = rt.bench := by
  rw [rebuildReadyQueues]
  generalize (List.range mosrtMaxProcs).foldl (rebuildOneReady rt.procs)
    (schedClear rt.scheduler) = s
  rfl

theorem rebuildPrio_bench (rt : Runtime) : (rebuildPrio rt).bench = rt.bench := by
  rw [rebuildPrio]
  split_ifs
  · exact rebuildReadyQueues_bench rt
  · rfl

theorem boostMlfq_bench (rt : Runtime) : (boostMlfq rt).bench = rt.bench := by
  rw [boostMlfq]
  split_ifs
  · exact rebuildReadyQueues_bench { rt with
      procs := schedPriorityBoost rt.procs rt.scheduler
      scheduler := { rt.scheduler with lastBoostTick := rt.tick } }
  · rfl

theorem ageReady_bench (rt : Runtime) : (ageReady rt).bench = rt.bench := rfl

theorem passPrepare_bench (rt : Runtime) : (passPrepare rt).bench = rt.bench :=
  (boostMlfq_bench _).trans ((rebuildPrio_bench _).trans ((ageReady_bench _).trans
    (wakeTimers_bench rt)))

theorem dispatch_bench (rt : Runtime) : (dispatch rt).2.bench = rt.bench := by
  rw [dispatch]
  generalize schedPickNext rt.procs rt.scheduler = r
  split_ifs
  · rfl
  · dsimp only
    split_ifs
    · rfl
    · split
      · rfl
      · split_ifs <;> rfl

theorem exitCurrent_bench (rt : Runtime) (code : ℤ) : (exitCurrent rt code).bench = rt.bench := by
  rw [exitCurrent]
  split_ifs
  · rfl
  · split <;> rfl

theorem blockCurrent_bench (rt : Runtime) (why : CString) :
    (blockCurrent rt why).bench = rt.bench := by
  rw [blockCurrent]
  split_ifs
  · rfl
  · split <;> rfl

theorem maybePreempt_bench (rt : Runtime) : (maybePreempt rt).bench = rt.bench := by
  rw [maybePreempt]
  dsimp only
  split_ifs
  · rfl
  · exact enqueueReady_bench _ _
  · rfl

theorem job_of_bench (h : rt'.bench = rt.bench) : rt'.ledger.job = rt.ledger.job := by
  obtain ⟨hslots, hrest⟩ := Prod.mk.inj h
  have hby := (Prod.mk.inj hrest).1
  funext q
  show (slotIndex rt' q).map (fun i => (rt'.slots i).job) =
    (slotIndex rt q).map fun i => (rt.slots i).job
  rw [slotIndex, slotIndex, hslots, hby]

theorem sems_of_bench (h : rt'.bench = rt.bench) : rt'.sems = rt.sems :=
  (Prod.mk.inj (Prod.mk.inj h).2).2

/-- An instruction that is done with: the process stands at the next one. -/
theorem job_completeImmediate (hidx : slotIndex rt pid = some idx) :
    (completeImmediate rt idx).ledger.job =
      Function.update rt.ledger.job pid (some (rt.slots idx).job.next) :=
  congrArg Ledger.job (ledger_setSlot rt (g := fun s => { s with pc := s.pc + 1, remaining := 0 })
    (fun _ => ⟨rfl, rfl⟩) hidx)

theorem completeImmediate_bench (h : rt'.bench = rt.bench) (idx : ℕ) :
    (completeImmediate rt' idx).bench = (completeImmediate rt idx).bench := by
  obtain ⟨hslots, hrest⟩ := Prod.mk.inj h
  obtain ⟨hby, hsems⟩ := Prod.mk.inj hrest
  rw [completeImmediate, completeImmediate, Runtime.setSlot, Runtime.setSlot, Runtime.bench,
    Runtime.bench]
  dsimp only
  rw [hslots, hby, hsems]

theorem wakeAndComplete_bench (rt : Runtime) (idx : ℕ) (wake : ℤ) (why : CString) :
    (wakeAndComplete rt idx wake why).bench = (completeImmediate rt idx).bench := by
  rw [wakeAndComplete]
  split_ifs
  · exact completeImmediate_bench (wakePid_bench rt wake why) idx
  · rfl

/-! ### Instructions -/

def Runtime.desk (rt : Runtime) : Desk where
  known := fun pid => (rt.ledger.account pid).isSome
  job := rt.ledger.job
  sems := rt.sems

/-- The programs and objects of a runtime, with the processes of the desk. -/
def Desk.over (x : Desk) (rt : Runtime) : Desk := { x with job := rt.ledger.job, sems := rt.sems }

theorem desk_over (h : rt'.desk.known = rt.desk.known) : rt'.desk = rt.desk.over rt' :=
  congrArg (fun k => (⟨k, rt'.ledger.job, rt'.sems⟩ : Desk)) h

/-- The process table after an instruction has written to its process. -/
inductive Written (rt : Runtime) (pid : ℤ) : ProcTable → Prop
  | same : Written rt pid rt.procs
  | wakeup (n : ℕ) : Written rt pid (rt.procs.modify pid fun p => p.setWakeup (n % 2 ^ 64))
  | alloc (addr : ℕ) : Written rt pid (rt.procs.modify pid fun p => { p with vmLastAlloc := addr })

/-- What an instruction changes before it ends, apart from queues, memory and trace. -/
structure Readied (rt : Runtime) (pid : ℤ) (t : SemTable) (rt₁ : Runtime) : Prop where
  bench : rt₁.bench = (rt.slots, rt.slotByPid, t)
  procs : Written rt pid rt₁.procs

/-- How an instruction other than `CPU` ends; the flag says whether the process is done with it. -/
inductive Ends (rt : Runtime) (pid : ℤ) (idx : ℕ) (t : SemTable) : Bool → Runtime → Prop
  | exits {rt₁ : Runtime} (code : ℤ) : Readied rt pid t rt₁ →
      Ends rt pid idx t false (exitCurrent rt₁ code)
  | blocks {rt₁ : Runtime} (why : CString) : Readied rt pid t rt₁ →
      Ends rt pid idx t false (blockCurrent rt₁ why)
  | sleeps {rt₁ : Runtime} (why : CString) : Readied rt pid t rt₁ →
      Ends rt pid idx t true (blockCurrent (completeImmediate rt₁ idx) why)
  | completes {rt₁ : Runtime} : Readied rt pid t rt₁ →
      Ends rt pid idx t true (completeImmediate rt₁ idx)
  | wakes {rt₁ : Runtime} (wake : ℤ) (why : CString) : Readied rt pid t rt₁ →
      Ends rt pid idx t true (wakeAndComplete rt₁ idx wake why)

theorem execIo_ends (rt : Runtime) (pid : ℤ) (idx : ℕ) (insn : WorkloadInsn) :
    ∃ b, Ends rt pid idx rt.sems b (execIo rt pid idx insn) := by
  rw [execIo]
  split_ifs
  · exact ⟨false, .exits 1 ⟨rfl, .same⟩⟩
  · exact ⟨true, .sleeps _ ⟨rfl, .wakeup _⟩⟩

theorem execSend_ends (rt : Runtime) (pid : ℤ) (idx : ℕ) (insn : WorkloadInsn) :
    ∃ b, Ends rt pid idx rt.sems b (execSend rt pid idx insn) := by
  rw [execSend]
  dsimp only
  split
  · exact ⟨false, .exits 3 ⟨rfl, .same⟩⟩
  · exact ⟨false, .blocks _ ⟨rfl, .same⟩⟩
  · exact ⟨true, .wakes _ _ ⟨rfl, .same⟩⟩

theorem execRecv_ends (rt : Runtime) (pid : ℤ) (idx : ℕ) (insn : WorkloadInsn) :
    ∃ b, Ends rt pid idx rt.sems b (execRecv rt pid idx insn) := by
  rw [execRecv]
  dsimp only
  split
  · exact ⟨false, .exits 3 ⟨rfl, .same⟩⟩
  · exact ⟨false, .blocks _ ⟨rfl, .same⟩⟩
  · exact ⟨true, .wakes _ _ ⟨rfl, .same⟩⟩

theorem execAcquire_ends (rt : Runtime) (pid : ℤ) (idx : ℕ) (r : SyncResult × SemTable)
    (why : CString) : Ends rt pid idx r.2 (decide (r.1 = .ok)) (execAcquire rt idx r why) := by
  rw [execAcquire]
  cases r.1 with
  | error => exact .exits 4 ⟨rfl, .same⟩
  | wouldBlock => exact .blocks why ⟨rfl, .same⟩
  | ok => exact .completes ⟨rfl, .same⟩

theorem execRelease_ends (rt : Runtime) (pid : ℤ) (idx : ℕ) (r : SyncResult × ℤ × SemTable)
    (hr : r.1 ≠ .wouldBlock) (why : CString) :
    Ends rt pid idx r.2.2 (decide (r.1 = .ok)) (execRelease rt idx r why) := by
  rw [execRelease]
  cases hres : r.1 with
  | error => exact .exits 4 ⟨rfl, .same⟩
  | wouldBlock => exact absurd hres hr
  | ok => exact .wakes _ why ⟨rfl, .same⟩

theorem execMmap_ends (h : execMmap fuel rt pid idx insn = some rt') :
    ∃ b, Ends rt pid idx rt.sems b rt' := by
  rw [execMmap] at h
  split_ifs at h
  · rw [← Option.some.inj h]
    exact ⟨false, .exits 5 ⟨rfl, .same⟩⟩
  · obtain ⟨addr, -, rfl⟩ := Option.map_eq_some_iff.mp h
    dsimp only
    split_ifs
    · exact ⟨false, .exits 5 ⟨rfl, .same⟩⟩
    · exact ⟨true, .completes ⟨rfl, .alloc addr⟩⟩

theorem execAccess_ends (rt : Runtime) (pid : ℤ) (idx : ℕ) (insn : WorkloadInsn) :
    ∃ b, Ends rt pid idx rt.sems b (execAccess rt pid idx insn) := by
  rw [execAccess]
  split_ifs
  · exact ⟨false, .exits 5 ⟨rfl, .same⟩⟩
  · dsimp only
    split_ifs
    · exact ⟨false, .exits 6 ⟨rfl, .same⟩⟩
    · exact ⟨false, .blocks _ ⟨rfl, .wakeup _⟩⟩
    · exact ⟨true, .completes ⟨rfl, .same⟩⟩

theorem execMfree_ends (rt : Runtime) (pid : ℤ) (idx : ℕ) :
    ∃ b, Ends rt pid idx rt.sems b (execMfree rt pid idx) := by
  rw [execMfree]
  split_ifs
  · exact ⟨false, .exits 5 ⟨rfl, .same⟩⟩
  · exact ⟨true, .completes ⟨rfl, .alloc 0⟩⟩

/-- A release never waits. -/
theorem syncPost_result {t : SemTable} {id : ℤ} : (syncPost t id pid).1 ≠ .wouldBlock := by
  rw [syncPost]
  cases findSem t id with
  | none => exact fun h => by cases h
  | some i =>
    have hcase := semPost_case (t i) pid
    dsimp only
    generalize semPost (t i) pid = r at hcase ⊢
    cases hcase <;> exact fun h => by cases h

/-- The call that an instruction makes, if any, decides whether the process goes on. -/
def Calls (insn : WorkloadInsn) (pid : ℤ) (t t' : SemTable) (b : Bool) : Prop :=
  insn.syncOp pid = none ∧ t' = t ∨
    ∃ op, insn.syncOp pid = some op ∧ t' = op.exec t ∧ b = decide ((op.call t).1 = .ok)

theorem executeInstruction_calls {r : Bool × Runtime} (hat : AtInsn d p idx insn)
    (hcpu : insn.op ≠ .cpu) (hr : executeInstruction fuel d = some r) :
    ∃ b t, Ends d d.currentPid idx t b r.2 ∧ Calls insn d.currentPid d.sems t b := by
  have hsync : insn.syncOp d.currentPid = insn.op.syncOp insn.arg0 d.currentPid := rfl
  have hplain : insn.op.syncOp insn.arg0 d.currentPid = none →
      (∃ b, Ends d d.currentPid idx d.sems b r.2) →
        ∃ b t, Ends d d.currentPid idx t b r.2 ∧ Calls insn d.currentPid d.sems t b :=
    fun hnone ⟨b, hends⟩ => ⟨b, d.sems, hends, .inl ⟨hnone, rfl⟩⟩
  rw [executeInstruction, hat.current] at hr
  dsimp only at hr
  cases hop : insn.op with
  | cpu => exact absurd hop hcpu
  | mmap =>
    rw [hop] at hr hplain
    obtain ⟨rt', hmmap, rfl⟩ := Option.map_eq_some_iff.mp hr
    exact hplain rfl (execMmap_ends hmmap)
  | io =>
    rw [hop] at hr hplain
    obtain rfl := Option.some.inj hr
    exact hplain rfl (execIo_ends d _ idx insn)
  | send =>
    rw [hop] at hr hplain
    obtain rfl := Option.some.inj hr
    exact hplain rfl (execSend_ends d _ idx insn)
  | recv =>
    rw [hop] at hr hplain
    obtain rfl := Option.some.inj hr
    exact hplain rfl (execRecv_ends d _ idx insn)
  | access =>
    rw [hop] at hr hplain
    obtain rfl := Option.some.inj hr
    exact hplain rfl (execAccess_ends d _ idx insn)
  | mfree =>
    rw [hop] at hr hplain
    obtain rfl := Option.some.inj hr
    exact hplain rfl (execMfree_ends d _ idx)
  | exit =>
    rw [hop] at hr hplain
    obtain rfl := Option.some.inj hr
    exact hplain rfl ⟨false, .exits 0 ⟨rfl, .same⟩⟩
  | semWait | lock =>
    rw [hop] at hr hsync
    obtain rfl := Option.some.inj hr
    exact ⟨_, _, execAcquire_ends d _ idx _ _, .inr ⟨_, hsync, rfl, rfl⟩⟩
  | semPost | unlock =>
    rw [hop] at hr hsync
    obtain rfl := Option.some.inj hr
    exact ⟨_, _, execRelease_ends d _ idx _ syncPost_result _, .inr ⟨_, hsync, rfl, rfl⟩⟩

/-- Without an instruction the process ends. -/
theorem executeInstruction_of_none (hinsn : d.insnOf d.currentPid = none) (fuel : ℕ) :
    ∃ code, executeInstruction fuel d = some (false, exitCurrent d code) := by
  rw [Runtime.insnOf] at hinsn
  rw [executeInstruction]
  cases hcur : currentInsn d d.currentPid with
  | none => exact ⟨1, rfl⟩
  | some c =>
    obtain ⟨i, o⟩ := c
    rw [hcur] at hinsn
    obtain rfl : o = none := hinsn
    exact ⟨0, rfl⟩

/-! ### Who exists -/

/-- Accounts are not closed. -/
theorem Ledger.Evolves.persists {l l' : Ledger} {fits : Prop} {gone : List ℤ}
    (he : l.Evolves fits gone l') (h : (l.account pid).isSome = true) :
    (l'.account pid).isSome = true := by
  refine he.invariant (I := fun l => (l.account pid).isSome = true) ?_ ?_ h
  · intro l l' h hs
    cases hs with
    | turn q a st =>
      rw [account_setAccount]
      split_ifs
      · rfl
      · exact h
    | spawn q insns =>
      show ((l.setAccount q (.opened l.tick)).account pid).isSome = true
      rw [account_setAccount]
      split_ifs
      · rfl
      · exact h
    | advance | close => exact h
  · intro l l' h hs
    have hwaits : ((l.account pid).map Account.waits).isSome = true := by rwa [Option.isSome_map]
    cases hs with
    | burst q a =>
      show (if pid = q then some a.runs else (l.account pid).map Account.waits).isSome = true
      split_ifs
      · rfl
      · exact hwaits
    | idle => exact hwaits

/-- Only a creation adds a process. -/
theorem exec_known (h : Consistent rt) {op : RtOp} (hop : op.creates = false) :
    (RtOp.exec rt op).desk.known = rt.desk.known := by
  funext pid
  have hev : Ledger.Evolves False (op.removed rt) rt.ledger (RtOp.exec rt op).ledger :=
    RtOp.evolves h op False.elim
  refine Bool.eq_iff_iff.mpr ⟨fun hpid => ?_, hev.persists⟩
  refine Option.isSome_iff_ne_none.mpr (account_ne_none ?_)
  exact (op.moves h).2.exists_of hop (stateOf_ne_none (Option.isSome_iff_ne_none.mp hpid))

/-! ### The process on the CPU -/

theorem Ends.job {t : SemTable} {b : Bool} (h : Ends d pid idx t b rt')
    (hslot : slotIndex d pid = some idx) : rt'.sems = t ∧ rt'.ledger.job =
      if b then Function.update d.ledger.job pid (some (d.slots idx).job.next)
      else d.ledger.job := by
  have hready : ∀ {rt₁ : Runtime}, Readied d pid t rt₁ →
      rt₁.bench = ({ d with sems := t } : Runtime).bench := fun h => h.bench
  have hstays : ∀ {rt₁ : Runtime}, Readied d pid t rt₁ → rt'.bench = rt₁.bench →
      rt'.sems = t ∧ rt'.ledger.job = d.ledger.job := fun h hb =>
    ⟨sems_of_bench (hb.trans (hready h)), (job_of_bench (hb.trans (hready h))).trans rfl⟩
  have hnext : ∀ {rt₁ : Runtime}, Readied d pid t rt₁ →
      rt'.bench = (completeImmediate rt₁ idx).bench → rt'.sems = t ∧ rt'.ledger.job =
        Function.update d.ledger.job pid (some (d.slots idx).job.next) := by
    intro rt₁ h hb
    have hb₁ := hb.trans (completeImmediate_bench (hready h) idx)
    exact ⟨(sems_of_bench hb₁).trans rfl, (job_of_bench hb₁).trans (job_completeImmediate hslot)⟩
  cases h with
  | exits code h => exact hstays h (exitCurrent_bench _ code)
  | blocks why h => exact hstays h (blockCurrent_bench _ why)
  | sleeps why h => exact hnext h (blockCurrent_bench _ why)
  | completes h => exact hnext h rfl
  | wakes wake why h => exact hnext h (wakeAndComplete_bench _ idx wake why)

theorem Ends.acts {t : SemTable} {b : Bool} (h : Ends d d.currentPid idx t b rt')
    (hcalls : Calls insn d.currentPid d.sems t b) (hat : AtInsn d p idx insn) (x : Desk) :
    (x.over d).Acts d.currentPid insn b (x.over rt') := by
  obtain ⟨hsems, hjob⟩ := h.job hat.slot
  rcases hcalls with ⟨hnone, rfl⟩ | ⟨op, hsync, rfl, rfl⟩
  · cases b with
    | false =>
      rw [Desk.over, Desk.over, hjob, hsems]
      exact .stays
    | true =>
      rw [Desk.over, Desk.over, hjob, hsems]
      exact .finishes (d.slots idx).job (d.slots idx).job.next hat.standsAt.job rfl rfl hnone
  · by_cases hok : (op.call d.sems).1 = .ok
    · rw [decide_eq_true hok] at hjob ⊢
      rw [Desk.over, Desk.over, hjob, hsems]
      exact .succeeds (d.slots idx).job op hat.standsAt.job hsync hok
    · rw [decide_eq_false hok] at hjob ⊢
      rw [Desk.over, Desk.over, hjob, hsems]
      exact .fails op hsync hok

/-- A tick of a burst, or an empty one. -/
theorem execCpu_acts (hat : AtInsn d p idx insn) (hop : insn.op = .cpu) (x : Desk) :
    ∃ b, (x.over d).Acts d.currentPid insn b (x.over (execCpu d d.currentPid idx insn).2) := by
  have hsync : insn.syncOp d.currentPid = none := by
    rw [WorkloadInsn.syncOp, hop]
    rfl
  rw [execCpu_eq hat.cpu]
  split_ifs with hn
  · have hload := congrArg Ledger.job (ledger_setSlot d (g := fun s => { s with remaining := 0 })
      (fun _ => ⟨rfl, rfl⟩) hat.slot)
    have hb := exitCurrent_bench (loadBurst d idx 0) 1
    refine ⟨false, ?_⟩
    rw [Desk.over, Desk.over, (job_of_bench hb).trans hload, sems_of_bench hb]
    exact .ticks (d.slots idx).job _ hat.standsAt.job rfl rfl
  · have hspend := congrArg Ledger.job (ledger_spendTick hat (burstOf d idx insn))
    have hb := maybePreempt_bench (spendTick d idx (burstOf d idx insn))
    rw [Desk.over, Desk.over, (job_of_bench hb).trans hspend, sems_of_bench hb]
    by_cases hlast : burstOf d idx insn - 1 = 0
    · exact ⟨true, .finishes (d.slots idx).job _ hat.standsAt.job rfl (if_pos hlast) hsync⟩
    · exact ⟨false, .ticks (d.slots idx).job _ hat.standsAt.job rfl (if_neg hlast)⟩

/-- One instruction. -/
theorem executeInstruction_acts {r : Bool × Runtime} (hat : AtInsn d p idx insn)
    (hr : executeInstruction fuel d = some r) (x : Desk) :
    ∃ b, (x.over d).Acts d.currentPid insn b (x.over r.2) := by
  by_cases hop : insn.op = .cpu
  · rw [executeInstruction, hat.current] at hr
    dsimp only at hr
    rw [hop] at hr
    obtain rfl := Option.some.inj hr
    exact execCpu_acts hat hop x
  · obtain ⟨b, t, hends, hcalls⟩ := executeInstruction_calls hat hop hr
    exact ⟨b, hends.acts hcalls hat x⟩

/-! ### Operations -/

/-- The instruction that the process on the CPU is done with in an operation, if there is one. -/
def RtOp.completes (rt : Runtime) (op : RtOp) : List (ℤ × WorkloadInsn) :=
  (op.executing rt).elim [] fun d => (d.insnOf d.currentPid).elim [] fun insn =>
    if (RtOp.exec rt op).desk.pcOf d.currentPid = d.desk.pcOf d.currentPid + 1 then
      [(d.currentPid, insn)]
    else []

theorem over_of_bench (x : Desk) (hb : rt'.bench = rt.bench) : x.over rt' = x.over rt := by
  rw [Desk.over, Desk.over, job_of_bench hb, sems_of_bench hb]

/-- An operation that executes no instruction is done with none. -/
theorem completes_of_none {op : RtOp} (h : op.executing rt = none) : op.completes rt = [] := by
  rw [RtOp.completes, h, Option.elim_none]

theorem executing_bench {op : RtOp} (h : op.executing rt = some d) : d.bench = rt.bench := by
  cases op with
  | pass fuel => rw [(executing_eq h).2, dispatch_bench, passPrepare_bench]
  | _ => cases h

/-- An operation that executes an instruction. -/
theorem executes_desk_step {op : RtOp} {consumed : Bool} (hd : Consistent d)
    (hpos : 0 ≤ d.currentPid) (hexecuting : op.executing rt = some d)
    (hknown : (RtOp.exec rt op).desk.known = rt.desk.known)
    (hcur : rt.desk.known d.currentPid = true)
    (hexec : executeInstruction fuel d = some (consumed, RtOp.exec rt op)) :
    rt.desk.Step (op.completes rt) (RtOp.exec rt op).desk := by
  have hbench := executing_bench hexecuting
  have hover : rt.desk.over d = rt.desk := over_of_bench rt.desk hbench
  have hpc : d.desk.pcOf = rt.desk.pcOf := by
    funext q
    exact congrArg (fun job => (job q).elim 0 Job.pc) (job_of_bench hbench)
  rw [RtOp.completes, hexecuting, Option.elim_some, hpc, desk_over hknown]
  generalize RtOp.exec rt op = rt' at hexec ⊢
  cases hinsn : d.insnOf d.currentPid with
  | none =>
    obtain ⟨code, hend⟩ := executeInstruction_of_none hinsn fuel
    obtain ⟨-, rfl⟩ := Prod.mk.inj (Option.some.inj (hend.symm.trans hexec))
    rw [Option.elim_none, over_of_bench _ (exitCurrent_bench d code), hover]
    exact .still
  | some insn =>
    obtain ⟨p, idx, hat⟩ := atInsn hd.sound hd.placed hpos hinsn
    obtain ⟨b, hacts⟩ := executeInstruction_acts hat hexec rt.desk
    have hjob : (rt.desk.over d).job d.currentPid = some (d.slots idx).job := hat.standsAt.job
    rw [hover] at hacts hjob
    have hlabel : (if (rt.desk.over rt').pcOf d.currentPid = rt.desk.pcOf d.currentPid + 1 then
        [(d.currentPid, insn)] else []) = if b then [(d.currentPid, insn)] else [] := by
      rw [hacts.pc hjob]
      cases b with
      | false => exact if_neg (by simp)
      | true => exact if_pos rfl
    have hpid : 0 < d.abs.current :=
      hd.placed.positive _ (by rw [Core.stateOf_eq hat.cpu.proc]; simp)
    rw [Option.elim_some]
    refine hlabel ▸ ?_
    exact .acts d.currentPid (d.slots idx).job insn hpid hcur hjob hat.standsAt.insn hacts

theorem idleTick_bench (rt : Runtime) : (idleTick rt).bench = rt.bench := rfl

/-- A pass that executes no instruction changes no program and no object. -/
theorem pass_bench_of_none (h : RtOp.executing rt (.pass fuel) = none) :
    (RtOp.exec rt (.pass fuel)).bench = rt.bench := by
  have hd := (dispatch_bench (passPrepare rt)).trans (passPrepare_bench rt)
  rw [RtOp.executing] at h
  rcases pass_cases rt fuel with ⟨htrue, ⟨-, hexec⟩ | ⟨r, hr, -⟩⟩ | ⟨-, hexec⟩
  · rw [hexec]
  · rw [if_pos ⟨htrue, by rw [hr]; rfl⟩] at h
    cases h
  · rw [hexec]
    generalize dispatch (passPrepare rt) = d at hd
    exact (idleTick_bench d.2).trans hd

theorem releaseSlot_sems (rt : Runtime) (pid : ℤ) : (releaseSlot rt pid).sems = rt.sems := by
  rw [releaseSlot]
  split <;> rfl

/-- Who is killed loses its program. -/
theorem runtimeKill_job (rt : Runtime) (pid : ℤ) :
    (runtimeKill rt pid).2.sems = rt.sems ∧
      ((runtimeKill rt pid).2.ledger.job = rt.ledger.job ∨
        (runtimeKill rt pid).2.ledger.job = Function.update rt.ledger.job pid none) := by
  rw [runtimeKill]
  by_cases hget : (procGet rt.procs pid).isNone = true
  · rw [if_pos hget]
    exact ⟨rfl, .inl rfl⟩
  · rw [if_neg hget]
    dsimp only
    obtain ⟨r, hr⟩ : ∃ r : Runtime,
      (if rt.currentPid = pid then { rt with currentPid := -1 } else rt) = r := ⟨_, rfl⟩
    have hb : r.bench = rt.bench := by
      rw [← hr]
      split_ifs <;> rfl
    rw [hr]
    cases procMarkExited r.procs pid 130 r.tick with
    | none => exact ⟨sems_of_bench hb, .inl (job_of_bench hb)⟩
    | some procs =>
      have hrel := congrArg Ledger.job (releaseSlot_job { r with procs := procs } pid).1
      have hsems := releaseSlot_sems { r with procs := procs } pid
      dsimp only
      generalize releaseSlot { r with procs := procs } pid = r' at hrel hsems ⊢
      have hreb := rebuildReadyQueues_bench (r'.log pid "KILL" "requested")
      refine ⟨(sems_of_bench hreb).trans (hsems.trans (sems_of_bench hb)), .inr ?_⟩
      refine (job_of_bench hreb).trans (hrel.trans ?_)
      have hjob := job_of_bench hb
      show Function.update r.ledger.job pid none = _
      rw [hjob]

/-- Who is created begins with the first instruction. -/
theorem runtimeRunWorkload_desk (h : rt.Sound) (workload : Workload) (priority : ℤ) :
    rt.desk.Step [] (runtimeRunWorkload rt workload priority).2.desk := by
  have hsems : (runtimeRunWorkload rt workload priority).2.sems = rt.sems := by
    rcases runtimeRunWorkload_eq workload h priority with ⟨heq, -⟩ | ⟨n, t, i, vm, -, -, heq⟩
    · rw [heq]
    · rw [heq]
      exact (sems_of_bench (enqueueReady_bench _ _)).trans rfl
  have hledger := runtimeRunWorkload_ledger workload h priority
  generalize (runtimeRunWorkload rt workload priority).2 = rt' at hsems hledger ⊢
  show rt.desk.Step [] ⟨fun q => (rt'.ledger.account q).isSome, rt'.ledger.job, rt'.sems⟩
  rcases hledger with hsame | ⟨pid, hnone, hpid, -, hnew⟩
  · rw [hsame, hsems]
    exact .still
  · have hknown : (fun q => ((Function.update rt.ledger.account pid
        (some (.opened rt.tick))) q).isSome) = Function.update rt.desk.known pid true := by
      funext q
      rw [Function.update_apply, Function.update_apply]
      split_ifs <;> rfl
    have hold : rt.desk.known pid = false := congrArg Option.isSome hnone
    have hstep := Desk.Step.spawn pid workload.insns hpid hold
    rw [← hknown] at hstep
    rw [hnew, hsems]
    exact hstep

/-- **The runtime at the desk.**  Every operation takes one step, with the instruction it is done
with. -/
theorem RtOp.desk_step (h : Consistent rt) (op : RtOp) :
    rt.desk.Step (op.completes rt) (RtOp.exec rt op).desk := by
  have hmoves := (op.moves h).2
  cases hexecuting : op.executing rt with
  | some d =>
    cases hmoves with
    | quiet hnone => exact absurd (hnone.symm.trans hexecuting) (by simp)
    | spawn _ _ hnone => exact absurd (hnone.symm.trans hexecuting) (by simp)
    | kill _ _ hkill =>
      rw [hkill] at hexecuting
      cases hexecuting
    | exec d' fuel consumed hexecuting' hquiet hd hpos hexec =>
      have hop : op.creates = false := by
        cases op with
        | runWorkload => cases hexecuting'
        | _ => rfl
      obtain ⟨p, hcpu⟩ := hd.placed.onCpu hpos
      have hrun : d'.abs.stateOf d'.currentPid ≠ none := by
        rw [show d'.abs.stateOf d'.currentPid = some .running from Core.stateOf_eq hcpu.proc]
        exact Option.some_ne_none _
      have hcur := account_ne_none (Core.Quiet.exists_of_steps hquiet hrun)
      exact executes_desk_step hd hpos hexecuting' (exec_known h hop)
        (Option.isSome_iff_ne_none.mpr hcur) hexec
  | none =>
    rw [completes_of_none hexecuting]
    have hsame : op.creates = false → (RtOp.exec rt op).bench = rt.bench →
        rt.desk.Step [] (RtOp.exec rt op).desk := by
      intro hop hb
      rw [desk_over (exec_known h hop), over_of_bench _ hb]
      exact .still
    cases op with
    | runWorkload workload priority => exact runtimeRunWorkload_desk h.sound workload priority
    | pass fuel => exact hsame rfl (pass_bench_of_none hexecuting)
    | kill pid =>
      have hknown : (RtOp.exec rt (.kill pid)).desk.known = rt.desk.known := exec_known h rfl
      obtain ⟨hsems, hjob⟩ := runtimeKill_job rt pid
      rw [RtOp.exec] at hknown ⊢
      rw [desk_over hknown, Desk.over, hsems]
      rcases hjob with hjob | hjob
      · rw [hjob]
        exact .still
      · rw [hjob]
        exact .close pid
    | setScheduler algo => exact hsame rfl (rebuildReadyQueues_bench _)
    | setNice pid niceValue =>
      refine hsame rfl ?_
      rw [RtOp.exec, runtimeSetNice]
      split_ifs <;> rfl
    | setPriority pid priority =>
      refine hsame rfl ?_
      rw [RtOp.exec, runtimeSetPriority]
      split_ifs <;> rfl
    | setQuantum | setPolicy | yield | timerSignal => exact hsame rfl rfl

/-- What every step at the desk keeps, of the desk and of what was done, every run keeps. -/
theorem RtOp.desk_run {I : Desk → List (ℤ × WorkloadInsn) → Prop}
    (hstep : ∀ x x' l done, x.Step l x' → I x done → I x' (done ++ l)) (h : Consistent rt)
    (done : List (ℤ × WorkloadInsn)) (hI : I rt.desk done) (ops : List RtOp) :
    I (Runs.run RtOp.exec rt ops).desk
      (done ++ Runs.history RtOp.exec (fun rt op => op.completes rt) rt ops) :=
  (Runs.run_history (I := fun rt done => Consistent rt ∧ I rt.desk done)
    (fun _ done op hrt _ =>
      ⟨op.consistent hrt.1, hstep _ _ _ done (op.desk_step hrt.1) hrt.2⟩)
    ⟨h, hI⟩ (Runs.along_true rt ops)).2

end Mosrt
