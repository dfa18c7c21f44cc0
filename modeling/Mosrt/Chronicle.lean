/-
What the runtime does and what it records of it.

A `Chronicle` is the state and exit code of every process together with the trace and the
clock.  It changes in few ways (`Note`): a process changes its state and the event that
reports this is recorded at once; another event is recorded; a process comes into being;
the clock ticks, which is recorded too.  Every function of the runtime is a sequence of
these, of a length that is bounded (`Notes`).

* `executeInstruction_notes` — instructions; exit codes 1 and 2 belong to the branches for
  internal errors (`internalError`);
* `RtOp.notes` — operations.
-/
import Mosrt.Operations

namespace Mosrt

/-! ### Chronicles -/

structure Chronicle where
  proc : ℤ → Option (ProcState × ℤ)
  trace : TraceLog
  tick : ℕ

/-- The state that an event reports. -/
def reportedState (event : CString) : Option ProcState :=
  if event = asciiBytes "READY" then some .ready
  else if event = asciiBytes "DISPATCH" then some .running
  else if event = asciiBytes "BLOCK" then some .blocked
  else if event = asciiBytes "EXIT" ∨ event = asciiBytes "KILL" then some .exited
  else none

namespace Chronicle

def log (c : Chronicle) (pid : ℤ) (event detail : CString) : Chronicle :=
  { c with trace := traceEvent c.trace c.tick pid event detail }

def set (c : Chronicle) (pid : ℤ) (st : ProcState) (code : ℤ) : Chronicle :=
  { c with proc := Function.update c.proc pid (some (st, code)) }

/-- The ways in which a chronicle goes on; `ok` are the exit codes with which processes end. -/
inductive Note (ok : ℤ → Prop) (c : Chronicle) : Chronicle → Prop
  | remark (pid : ℤ) (event detail : CString) : reportedState (truncateTo 24 event) = none →
      Note ok c (c.log pid event detail)
  | turn (pid : ℤ) (old st : ProcState) (code : ℤ) (event detail : CString) :
      c.proc pid = some (old, code) → procIsValidTransition old st = true →
      reportedState (truncateTo 24 event) = some st →
      Note ok c ((c.set pid st code).log pid event detail)
  | leave (pid : ℤ) (old : ProcState) (before code : ℤ) (event detail : CString) :
      c.proc pid = some (old, before) → procIsValidTransition old .exited = true → ok code →
      reportedState (truncateTo 24 event) = some .exited →
      Note ok c ((c.set pid .exited code).log pid event detail)
  | spawn (pid : ℤ) : c.proc pid = none → Note ok c (c.set pid .new 0)
  | tick (pid : ℤ) (event detail : CString) : reportedState (truncateTo 24 event) = none →
      Note ok c ({ c with tick := incr64 c.tick }.log pid event detail)

end Chronicle

open Chronicle (Note)

def Pcb.standing (p : Pcb) : ProcState × ℤ := (p.state, p.exitCode)

def Runtime.chronicle (rt : Runtime) : Chronicle where
  proc := fun pid => (procGet rt.procs pid).map Pcb.standing
  trace := rt.trace
  tick := rt.tick

/-- At most `n` notes lead from `rt` to `rt'`. -/
def Notes (ok : ℤ → Prop) (n : ℕ) (rt rt' : Runtime) : Prop :=
  Runs.Within (Note ok) rt.chronicle n rt'.chronicle

variable {ok : ℤ → Prop} {n m : ℕ} {rt rt' rt'' : Runtime} {pid : ℤ} {p : Pcb} {f : Pcb → Pcb}
  {idx fuel : ℕ} {insn : WorkloadInsn}

/-- Every exit code is in order but the two for internal errors. -/
def CodesOk (ok : ℤ → Prop) : Prop := ∀ code, code ≠ 1 → code ≠ 2 → ok code

theorem Notes.refl : Notes ok n rt rt := Runs.Within.refl n

theorem Notes.trans (h : Notes ok n rt rt') (h' : Notes ok m rt' rt'') :
    Notes ok (n + m) rt rt'' := Runs.Within.trans h h'

theorem Notes.mono (h : Notes ok n rt rt') (hle : n ≤ m) : Notes ok m rt rt' :=
  Runs.Within.mono h hle

/-- A change that does not show, before and after others. -/
theorem Notes.before (h : rt'.chronicle = rt.chronicle) (h' : Notes ok n rt' rt'') :
    Notes ok n rt rt'' := by
  rw [Notes, ← h]
  exact h'

theorem Notes.after (h : Notes ok n rt rt') (h' : rt''.chronicle = rt'.chronicle) :
    Notes ok n rt rt'' := by
  rw [Notes, h']
  exact h

theorem Notes.of_eq (h : rt'.chronicle = rt.chronicle) : Notes ok n rt rt' :=
  Notes.refl.after h

/-! ### Writing PCBs -/

theorem chronicle_proc (h : procGet rt.procs pid = some p) :
    rt.chronicle.proc pid = some (p.state, p.exitCode) := by
  show (procGet rt.procs pid).map _ = _
  rw [h]
  rfl

theorem chronicle_modify (rt : Runtime) (hf : KeepsId f) (hp : procGet rt.procs pid = some p) :
    ({ rt with procs := rt.procs.modify pid f } : Runtime).chronicle =
      rt.chronicle.set pid (f p).state (f p).exitCode := by
  have hproc : (fun pid' => (procGet (rt.procs.modify pid f) pid').map Pcb.standing) =
      Function.update rt.chronicle.proc pid (some ((f p).state, (f p).exitCode)) := by
    funext pid'
    rw [procGet_modify hf, Function.update_apply]
    split_ifs
    · rw [hp]
      rfl
    · rfl
  exact congrArg (fun g => { rt.chronicle with proc := g }) hproc

theorem chronicle_modify_keeps (rt : Runtime) (hf : KeepsId f)
    (hst : ∀ p, (f p).standing = p.standing) (pid : ℤ) :
    ({ rt with procs := rt.procs.modify pid f } : Runtime).chronicle = rt.chronicle :=
  congrArg (fun g => { rt.chronicle with proc := g })
    (funext fun pid' => procGet_modify_map hf hst pid pid')

theorem chronicle_forEach_keeps (rt : Runtime) (hf : KeepsId f)
    (hst : ∀ p, (f p).standing = p.standing) :
    ({ rt with procs := procForEach rt.procs f } : Runtime).chronicle = rt.chronicle :=
  congrArg (fun g => { rt.chronicle with proc := g })
    (funext fun pid => procGet_forEach_map hf hst pid)

theorem chronicle_setWakeup (rt : Runtime) (pid : ℤ) (w : ℕ) :
    ({ rt with procs := rt.procs.modify pid fun p => p.setWakeup w } : Runtime).chronicle =
      rt.chronicle :=
  chronicle_modify_keeps rt (f := fun p => p.setWakeup w) (fun _ => ⟨rfl, rfl⟩) (fun _ => rfl) pid

theorem chronicle_setLastAlloc (rt : Runtime) (pid : ℤ) (addr : ℕ) :
    ({ rt with procs := rt.procs.modify pid fun p => { p with vmLastAlloc := addr } } :
      Runtime).chronicle = rt.chronicle :=
  chronicle_modify_keeps rt (f := fun p => { p with vmLastAlloc := addr }) (fun _ => ⟨rfl, rfl⟩)
    (fun _ => rfl) pid

/-! ### Events -/

theorem log_notes (rt : Runtime) (pid : ℤ) (event detail : CString)
    (hevent : reportedState (truncateTo 24 event) = none) :
    Notes ok 1 rt (rt.log pid event detail) :=
  .single (.remark pid event detail hevent)

/-- A tick and its event. -/
theorem tick_notes (hrt : rt'.chronicle = { rt.chronicle with tick := incr64 rt.chronicle.tick })
    (pid : ℤ) (event detail : CString) (hevent : reportedState (truncateTo 24 event) = none) :
    Notes ok 1 rt (rt'.log pid event detail) := by
  have hafter : (rt'.log pid event detail).chronicle =
      { rt.chronicle with tick := incr64 rt.chronicle.tick }.log pid event detail :=
    congrArg (fun c => Chronicle.log c pid event detail) hrt
  rw [Notes, hafter]
  exact .single (.tick pid event detail hevent)

/-- A change of state and its event. -/
theorem procSetState_notes {procs : ProcTable} {st : ProcState}
    (hset : procSetState rt.procs pid st rt.tick = some procs) (event detail : CString)
    (hevent : reportedState (truncateTo 24 event) = some st)
    (hrt : rt'.chronicle =
      (({ rt with procs := procs } : Runtime).log pid event detail).chronicle) :
    Notes ok 1 rt rt' := by
  obtain ⟨⟨p, hp, hv⟩, rfl⟩ := procSetState_eq_some.mp hset
  have hc := chronicle_modify rt (keepsId_setState st rt.tick) hp
  have hnote : Note ok rt.chronicle _ :=
    .turn pid p.state st p.exitCode event detail (chronicle_proc hp) hv hevent
  have hafter : rt'.chronicle = (rt.chronicle.set pid st p.exitCode).log pid event detail :=
    hrt.trans (congrArg (fun c => Chronicle.log c pid event detail) hc)
  rw [Notes, hafter]
  exact .single hnote

theorem procMarkExited_notes {procs : ProcTable} {code : ℤ}
    (hmark : procMarkExited rt.procs pid code rt.tick = some procs) (event detail : CString)
    (hok : ok code)
    (hevent : reportedState (truncateTo 24 event) = some .exited)
    (hrt : rt'.chronicle =
      (({ rt with procs := procs } : Runtime).log pid event detail).chronicle) :
    Notes ok 1 rt rt' := by
  obtain ⟨⟨p, hp, hne⟩, rfl⟩ := procMarkExited_eq_some.mp hmark
  have hv : procIsValidTransition p.state .exited = true := by
    cases hst : p.state <;> first | rfl | exact absurd hst hne
  have hc := chronicle_modify rt (keepsId_markExited code rt.tick) hp
  have hnote : Note ok rt.chronicle _ :=
    .leave pid p.state p.exitCode code event detail (chronicle_proc hp) hv hok hevent
  have hafter : rt'.chronicle = (rt.chronicle.set pid .exited code).log pid event detail :=
    hrt.trans (congrArg (fun c => Chronicle.log c pid event detail) hc)
  rw [Notes, hafter]
  exact .single hnote

/-! ### Waking and dispatching -/

theorem enqueueReady_notes (rt : Runtime) (pid : ℤ) : Notes ok 1 rt (enqueueReady rt pid) := by
  rw [enqueueReady]
  cases hset : procSetState rt.procs pid .ready rt.tick with
  | none => exact Notes.refl
  | some procs => exact procSetState_notes hset _ _ (by decide) rfl

theorem wakePid_notes (rt : Runtime) (pid : ℤ) (why : CString) :
    Notes ok 2 rt (wakePid rt pid why) := by
  rw [wakePid]
  cases procGet rt.procs pid with
  | none => exact Notes.refl
  | some p =>
    dsimp only
    split_ifs
    · exact (enqueueReady_notes rt pid).trans (log_notes _ pid "WAKE" why (by decide))
    · exact Notes.refl

theorem wakeBlockedByTime_notes (rt : Runtime) (i : ℕ) :
    Notes ok 2 rt (wakeBlockedByTime rt i) := by
  rw [wakeBlockedByTime]
  dsimp only
  split_ifs
  · refine Notes.before ?_ (wakePid_notes _ _ _)
    exact congrArg (fun g => { rt.chronicle with proc := g }) (funext fun pid =>
      procGet_entry_map (g := Pcb.standing)
        (q := (rt.procs.entries i).setWakeup 0) i rfl rfl rfl pid)
  · exact Notes.refl

theorem wakeTimers_notes (rt : Runtime) : Notes ok (2 * mosrtMaxProcs) rt (wakeTimers rt) := by
  have hfold : ∀ (l : List ℕ) (rt : Runtime),
      Notes ok (2 * l.length) rt (l.foldl wakeBlockedByTime rt) := by
    intro l
    induction l with
    | nil => exact fun rt => Notes.refl
    | cons i l ih =>
      intro rt
      refine ((wakeBlockedByTime_notes rt i).trans (ih _)).mono ?_
      rw [List.length_cons]
      omega
  rw [wakeTimers]
  simpa using hfold (List.range mosrtMaxProcs) rt

theorem chronicle_rebuild (rt : Runtime) : (rebuildReadyQueues rt).chronicle = rt.chronicle := by
  rw [rebuildReadyQueues]
  generalize (List.range mosrtMaxProcs).foldl (rebuildOneReady rt.procs)
    (schedClear rt.scheduler) = s
  rfl

theorem chronicle_ageReady (rt : Runtime) : (ageReady rt).chronicle = rt.chronicle := by
  rw [ageReady, schedAgeReady]
  split_ifs
  · refine chronicle_forEach_keeps rt (keeps_ageOne rt.tick).id fun p => ?_
    rw [ageOne]
    split_ifs <;> rfl
  · rfl

theorem chronicle_rebuildPrio (rt : Runtime) : (rebuildPrio rt).chronicle = rt.chronicle := by
  rw [rebuildPrio]
  split_ifs
  · exact chronicle_rebuild rt
  · rfl

theorem boostMlfq_notes (rt : Runtime) : Notes ok 1 rt (boostMlfq rt) := by
  rw [boostMlfq]
  split_ifs with hdue
  · refine Notes.before ?_ (log_notes _ (-1) "BOOST" "mlfq" (by decide))
    have hboost : schedPriorityBoost rt.procs rt.scheduler = procForEach rt.procs boostOne := by
      rw [schedPriorityBoost, if_pos hdue.1]
    rw [hboost, chronicle_rebuild]
    refine chronicle_forEach_keeps rt keepsId_boostOne fun p => ?_
    rw [boostOne]
    split_ifs <;> rfl
  · exact Notes.refl

theorem passPrepare_notes (rt : Runtime) :
    Notes ok (2 * mosrtMaxProcs + 1) rt (passPrepare rt) := by
  rw [passPrepare]
  refine (wakeTimers_notes rt).trans (Notes.before ?_ (boostMlfq_notes _))
  rw [chronicle_rebuildPrio, chronicle_ageReady]

theorem dispatch_notes (rt : Runtime) : Notes ok 2 rt (dispatch rt).2 := by
  rw [dispatch]
  split_ifs
  · exact Notes.refl
  · dsimp only
    split_ifs
    · exact Notes.refl
    · generalize (schedPickNext rt.procs rt.scheduler).1 = pid
      generalize (schedPickNext rt.procs rt.scheduler).2 = sched
      cases hset : procSetState rt.procs pid .running rt.tick with
      | none => exact Notes.refl
      | some procs =>
        dsimp only
        obtain ⟨r, hr⟩ : ∃ r : Runtime, Runtime.log { rt with
            scheduler := sched
            procs := procs
            currentPid := pid } pid "DISPATCH" (runtimeSchedulerName { rt with
              scheduler := sched
              procs := procs
              currentPid := pid }) = r := ⟨_, rfl⟩
        have hnotes : Notes ok 1 rt r :=
          procSetState_notes hset "DISPATCH" _ (by decide) (by rw [← hr]; rfl)
        rw [hr]
        split_ifs
        · exact hnotes.trans (log_notes _ pid "CTXSW" _ (by decide))
        · exact hnotes.mono (by omega)

/-! ### Instructions -/

theorem exitCurrent_notes (rt : Runtime) {code : ℤ} (hok : ok code) :
    Notes ok 1 rt (exitCurrent rt code) := by
  rw [exitCurrent]
  split_ifs
  · exact Notes.refl
  · cases hmark : procMarkExited rt.procs rt.currentPid code rt.tick with
    | none => exact Notes.refl
    | some procs => exact procMarkExited_notes hmark _ _ hok (by decide) rfl

theorem blockCurrent_notes (rt : Runtime) (why : CString) :
    Notes ok 1 rt (blockCurrent rt why) := by
  rw [blockCurrent]
  split_ifs
  · exact Notes.refl
  · cases hset : procSetState rt.procs rt.currentPid .blocked rt.tick with
    | none => exact Notes.refl
    | some procs => exact procSetState_notes hset _ _ (by decide) rfl

theorem maybePreempt_notes (rt : Runtime) : Notes ok 2 rt (maybePreempt rt) := by
  rw [maybePreempt]
  dsimp only
  split_ifs
  · exact Notes.refl
  · obtain ⟨r, hr⟩ : ∃ r : Runtime, { rt with
      procs := schedDemoteAfterQuantum rt.procs rt.scheduler rt.currentPid
      needResched := false
      timerResched := false } = r := ⟨_, rfl⟩
    have hc : r.chronicle = rt.chronicle := by
      rw [← hr]
      show ({ rt with procs := schedDemoteAfterQuantum rt.procs rt.scheduler rt.currentPid } :
        Runtime).chronicle = _
      rw [schedDemoteAfterQuantum]
      split_ifs
      · refine chronicle_modify_keeps rt ?_ ?_ _
        · intro q
          dsimp only
          split_ifs <;> exact ⟨rfl, rfl⟩
        · intro q
          split_ifs <;> rfl
      · rfl
    rw [hr]
    exact .before hc ((enqueueReady_notes r _).trans (log_notes _ _ "YIELD" _ (by decide)))
  · exact Notes.refl

theorem wakeAndComplete_notes (rt : Runtime) (idx : ℕ) (wake : ℤ) (why : CString) :
    Notes ok 2 rt (wakeAndComplete rt idx wake why) := by
  rw [wakeAndComplete]
  split_ifs
  · exact wakePid_notes rt wake why
  · exact Notes.refl

theorem standing_accountReadyWait (p : Pcb) : (accountReadyWait p).standing = p.standing := by
  rw [accountReadyWait]
  split_ifs <;> rfl

theorem idleTick_notes (rt : Runtime) : Notes ok 1 rt (idleTick rt) := by
  rw [idleTick]
  obtain ⟨r, hr⟩ : ∃ r : Runtime, { rt with
    procs := procForEach rt.procs accountReadyWait
    idleTicks := incr64 rt.idleTicks
    tick := incr64 rt.tick } = r := ⟨_, rfl⟩
  have hproc : r.chronicle.proc = rt.chronicle.proc := by
    rw [← hr]
    exact funext (procGet_forEach_map keeps_accountReadyWait.id standing_accountReadyWait)
  have hafter : r.chronicle = { rt.chronicle with tick := incr64 rt.chronicle.tick } := by
    dsimp only
    rw [← hproc, ← hr]
    rfl
  rw [hr]
  exact tick_notes hafter (-1) "IDLE" _ (by decide)

theorem accountTick_chronicle (rt : Runtime) (pid : ℤ) : (accountTick rt pid).chronicle =
    { rt.chronicle with tick := incr64 rt.chronicle.tick } := by
  have hproc : (accountTick rt pid).chronicle.proc = rt.chronicle.proc := by
    funext q
    refine (procGet_modify_map (g := Pcb.standing) ?_ ?_ pid q).trans ?_
    · exact fun _ => ⟨rfl, rfl⟩
    · exact fun _ => rfl
    · exact procGet_forEach_map keeps_accountReadyWait.id standing_accountReadyWait q
  exact congrArg (fun g => Chronicle.mk g rt.trace (incr64 rt.tick)) hproc

theorem execCpu_notes (rt : Runtime) (pid : ℤ) (idx : ℕ) (insn : WorkloadInsn)
    (herr : (procGet rt.procs pid).isNone = true ∨ burstOf rt idx insn = 0 → ok 1) :
    Notes ok 3 rt (execCpu rt pid idx insn).2 := by
  by_cases hbad : (procGet rt.procs pid).isNone = true ∨ burstOf rt idx insn = 0
  · have heq : execCpu rt pid idx insn =
        (false, exitCurrent (loadBurst rt idx (burstOf rt idx insn)) 1) := if_pos hbad
    rw [heq]
    exact (exitCurrent_notes (loadBurst rt idx (burstOf rt idx insn)) (herr hbad)).mono
      (by omega)
  · have heq : execCpu rt pid idx insn = (true, maybePreempt
        (((accountTick (loadBurst rt idx (burstOf rt idx insn)) pid).setSlot idx fun s =>
          { s with
            remaining := burstOf rt idx insn - 1
            pc := if burstOf rt idx insn - 1 = 0 then s.pc + 1 else s.pc }).log
              pid "CPU" "tick")) := if_neg hbad
    rw [heq]
    have htick := accountTick_chronicle (loadBurst rt idx (burstOf rt idx insn)) pid
    generalize accountTick (loadBurst rt idx (burstOf rt idx insn)) pid = r at htick
    obtain ⟨r', hr'⟩ : ∃ r' : Runtime, (r.setSlot idx fun s =>
      { s with
        remaining := burstOf rt idx insn - 1
        pc := if burstOf rt idx insn - 1 = 0 then s.pc + 1 else s.pc }) = r' := ⟨_, rfl⟩
    have hslot : r'.chronicle = { rt.chronicle with tick := incr64 rt.chronicle.tick } := by
      rw [← hr']
      exact htick
    rw [hr']
    exact (tick_notes hslot pid "CPU" "tick" (by decide)).trans (maybePreempt_notes _)

theorem execIo_notes (rt : Runtime) (pid : ℤ) (idx : ℕ) (insn : WorkloadInsn)
    (herr : (procGet rt.procs pid).isNone = true → ok 1) :
    Notes ok 1 rt (execIo rt pid idx insn) := by
  rw [execIo]
  split_ifs with hnone
  · exact exitCurrent_notes rt (herr hnone)
  · dsimp only
    generalize (rt.tick + insn.ticks) % 2 ^ 64 = w
    obtain ⟨r, hr⟩ : ∃ r : Runtime, completeImmediate { rt with
      procs := rt.procs.modify pid fun p => p.setWakeup w } idx = r := ⟨_, rfl⟩
    have hc : r.chronicle = rt.chronicle := by
      rw [← hr]
      exact chronicle_setWakeup rt pid w
    rw [hr]
    exact .before hc (blockCurrent_notes r _)

section Codes

variable (hok : CodesOk ok)

include hok

theorem Settled.notes (h : Settled rt idx rt') : Notes ok 2 rt rt' := by
  cases h with
  | error q t code hcode =>
    exact (exitCurrent_notes { rt with queues := q, sems := t }
      (hok code (by omega) (by omega))).mono (by omega)
  | blocked q t why =>
    exact (blockCurrent_notes { rt with queues := q, sems := t } why).mono (by omega)
  | done q t wake why => exact wakeAndComplete_notes { rt with queues := q, sems := t } idx wake why

theorem execMmap_notes (hex : execMmap fuel rt pid idx insn = some rt') : Notes ok 1 rt rt' := by
  rw [execMmap] at hex
  split_ifs at hex
  · rw [← Option.some.inj hex]
    exact exitCurrent_notes rt (hok 5 (by decide) (by decide))
  · obtain ⟨addr, -, heq⟩ := Option.map_eq_some_iff.mp hex
    generalize (vmAllocMalloc (vmHeapOps pid rt.tick) fuel (insn.arg0 % 2 ^ 64).toNat rt.vm).2 = vm
      at heq
    dsimp only at heq
    split_ifs at heq
    · rw [← heq]
      exact exitCurrent_notes { rt with vm := vm } (hok 5 (by decide) (by decide))
    · rw [← heq]
      exact .before (chronicle_setLastAlloc rt pid addr)
        (log_notes { rt with procs := rt.procs.modify pid fun p => { p with vmLastAlloc := addr } }
          pid "MMAP" _ (by decide))

theorem execAccess_notes (rt : Runtime) (pid : ℤ) (idx : ℕ) (insn : WorkloadInsn) :
    Notes ok 2 rt (execAccess rt pid idx insn) := by
  rw [execAccess]
  split_ifs
  · exact (exitCurrent_notes rt (hok 5 (by decide) (by decide))).mono (by omega)
  · dsimp only
    generalize (accessMem rt pid insn).2 = vm
    obtain ⟨r, hr⟩ : ∃ r : Runtime,
      ({ rt with vm := vm } : Runtime).log pid "ACCESS" (accessDetail rt pid insn) = r := ⟨_, rfl⟩
    have hlogged : Notes ok 1 rt r := by
      rw [← hr]
      exact log_notes rt pid "ACCESS" _ (by decide)
    rw [hr]
    split_ifs
    · exact (exitCurrent_notes { rt with vm := vm } (hok 6 (by decide) (by decide))).mono
        (by omega)
    · exact hlogged.trans (.before (chronicle_setWakeup r pid _) (blockCurrent_notes _ _))
    · exact hlogged.mono (by omega)

theorem execMfree_notes (rt : Runtime) (pid : ℤ) (idx : ℕ) :
    Notes ok 1 rt (execMfree rt pid idx) := by
  rw [execMfree]
  split_ifs
  · exact exitCurrent_notes rt (hok 5 (by decide) (by decide))
  · dsimp only
    generalize (vmAllocFree (vmHeapOps pid rt.tick) (vmLastAlloc rt pid) rt.vm).2 = vm
    obtain ⟨r, hr⟩ : ∃ r : Runtime, ({ rt with vm := vm } : Runtime).log pid "MFREE"
      (mfreeDetail (vmLastAlloc rt pid)) = r := ⟨_, rfl⟩
    have hlogged : Notes ok 1 rt r := by
      rw [← hr]
      exact log_notes rt pid "MFREE" _ (by decide)
    rw [hr]
    exact hlogged.after (chronicle_setLastAlloc r pid 0)

end Codes

/-- The branches of `execute_instruction` for what should not happen: no slot, a program counter
behind the last instruction, no PCB, a burst without ticks.  (An opcode is one of the twelve.) -/
def internalError (rt : Runtime) : Bool :=
  match currentInsn rt rt.currentPid with
  | some (idx, some insn) =>
    (insn.op = .cpu ∨ insn.op = .io) ∧ (procGet rt.procs rt.currentPid).isNone ∨
      insn.op = .cpu ∧ burstOf rt idx insn = 0
  | _ => true

theorem internalError_eq (hcur : currentInsn rt rt.currentPid = some (idx, some insn)) :
    internalError rt = decide ((insn.op = .cpu ∨ insn.op = .io) ∧
      (procGet rt.procs rt.currentPid).isNone = true ∨ insn.op = .cpu ∧
        burstOf rt idx insn = 0) := by
  rw [internalError, hcur]

theorem executeInstruction_notes {r : Bool × Runtime} (hok : CodesOk ok)
    (herr : internalError rt = true → ok 1) (hr : executeInstruction fuel rt = some r) :
    Notes ok 3 rt r.2 := by
  have hexec := hr
  rw [executeInstruction] at hr
  cases hcur : currentInsn rt rt.currentPid with
  | none =>
    rw [hcur] at hr
    cases hr
    exact (exitCurrent_notes rt (herr (by rw [internalError, hcur]))).mono (by omega)
  | some c =>
    obtain ⟨idx, o⟩ := c
    rw [hcur] at hr
    cases o with
    | none =>
      cases hr
      exact (exitCurrent_notes rt (hok 0 (by decide) (by decide))).mono (by omega)
    | some insn =>
      have herr' := internalError_eq hcur
      dsimp only at hr
      cases hop : insn.op with
      | cpu =>
        rw [hop] at hr herr'
        rw [← Option.some.inj hr]
        refine execCpu_notes rt rt.currentPid idx insn fun hbad => herr ?_
        rw [herr', decide_eq_true_iff]
        exact hbad.imp (fun h => ⟨.inl rfl, h⟩) fun h => ⟨rfl, h⟩
      | io =>
        rw [hop] at hr herr'
        rw [← Option.some.inj hr]
        refine (execIo_notes rt rt.currentPid idx insn fun hbad => herr ?_).mono (by omega)
        rw [herr', decide_eq_true_iff]
        exact .inl ⟨.inr rfl, hbad⟩
      | mmap =>
        rw [hop] at hr
        obtain ⟨rt', hmmap, rfl⟩ := Option.map_eq_some_iff.mp hr
        exact (execMmap_notes hok hmmap).mono (by omega)
      | send | recv | semWait | semPost | lock | unlock =>
        have hset := (executeInstruction_settled hcur (by rw [hop]; rfl) hexec).2
        exact (hset.notes hok).mono (by omega)
      | access =>
        rw [hop] at hr
        rw [← Option.some.inj hr]
        exact (execAccess_notes hok rt _ idx insn).mono (by omega)
      | mfree =>
        rw [hop] at hr
        rw [← Option.some.inj hr]
        exact (execMfree_notes hok rt _ idx).mono (by omega)
      | exit =>
        rw [hop] at hr
        rw [← Option.some.inj hr]
        exact (exitCurrent_notes rt (hok 0 (by decide) (by decide))).mono (by omega)

/-! ### Operations -/

/-- The next pass would run into an internal error. -/
def failsNext (rt : Runtime) : Bool :=
  let d := dispatch (passPrepare rt)
  d.1 && internalError d.2

theorem failsNext_eq (rt : Runtime) : failsNext rt =
    ((dispatch (passPrepare rt)).1 && internalError (dispatch (passPrepare rt)).2) := by
  rw [failsNext]

theorem runtimePass_notes {r : Bool × Runtime} (hok : CodesOk ok)
    (herr : failsNext rt = true → ok 1)
    (hr : runtimePass fuel rt = some r) : Notes ok (2 * mosrtMaxProcs + 6) rt r.2 := by
  have hstart : Notes ok (2 * mosrtMaxProcs + 3) rt (dispatch (passPrepare rt)).2 :=
    (passPrepare_notes rt).trans (dispatch_notes _)
  rw [runtimePass] at hr
  rw [failsNext_eq] at herr
  generalize dispatch (passPrepare rt) = d at hstart herr hr
  split_ifs at hr with hd
  · refine hstart.trans (executeInstruction_notes hok (fun hbad => herr ?_) hr)
    rw [hd, hbad]
    rfl
  · rw [← Option.some.inj hr]
    exact (hstart.trans (idleTick_notes d.2)).mono (by omega)

theorem runtimeRunWorkload_notes (h : rt.Sound) (workload : Workload) (priority : ℤ) :
    Notes ok 3 rt (runtimeRunWorkload rt workload priority).2 := by
  rcases runtimeRunWorkload_eq workload h priority with ⟨heq, -⟩ | ⟨n, t, i, vm, -, hroom, heq⟩
  · rw [heq]
    exact Notes.refl
  · rw [heq]
    have habsent : rt.chronicle.proc (n + 1) = none := by
      show (procGet rt.procs (n + 1)).map _ = none
      rw [hroom.absent]
      rfl
    have hcreated : (rt.create n t i workload vm).chronicle = rt.chronicle.set (n + 1) .new 0 := by
      refine congrArg (fun g => { rt.chronicle with proc := g }) (funext fun q => ?_)
      rw [Function.update_apply]
      split_ifs with hq
      · show (procGet t q).map _ = _
        rw [hq, hroom.created]
        rfl
      · show (procGet t q).map _ = _
        rw [hroom.others q hq]
        rfl
    have hspawn : Notes ok 1 rt (rt.create n t i workload vm) := by
      rw [Notes, hcreated]
      exact .single (.spawn (n + 1) habsent)
    exact hspawn.trans ((enqueueReady_notes _ _).trans (log_notes _ _ "CREATE" _ (by decide)))

theorem chronicle_releaseSlot (rt : Runtime) (pid : ℤ) :
    (releaseSlot rt pid).chronicle = rt.chronicle := by
  rw [releaseSlot]
  cases slotIndex rt pid <;> rfl

theorem runtimeKill_notes (hok : CodesOk ok) (rt : Runtime) (pid : ℤ) :
    Notes ok 1 rt (runtimeKill rt pid).2 := by
  rw [runtimeKill]
  by_cases hget : (procGet rt.procs pid).isNone = true
  · rw [if_pos hget]
    exact Notes.refl
  rw [if_neg hget]
  dsimp only
  obtain ⟨r, hr⟩ : ∃ r : Runtime,
    (if rt.currentPid = pid then { rt with currentPid := -1 } else rt) = r := ⟨_, rfl⟩
  have hc : r.chronicle = rt.chronicle := by
    rw [← hr]
    split_ifs <;> rfl
  rw [hr]
  refine .before hc ?_
  cases hmark : procMarkExited r.procs pid 130 r.tick with
  | none => exact Notes.refl
  | some procs =>
    refine procMarkExited_notes hmark "KILL" "requested" (hok 130 (by decide) (by decide))
      (by decide) ?_
    rw [chronicle_rebuild]
    -- the slot that is released does not show
    have hreleased := chronicle_releaseSlot { r with procs := procs } pid
    exact congrArg (fun c => Chronicle.log c pid "KILL" "requested") hreleased

/-- Every operation only adds to the chronicle. -/
theorem RtOp.notes (h : rt.Sound) (hok : CodesOk ok) (herr : failsNext rt = true → ok 1)
    (op : RtOp) : Notes ok (2 * mosrtMaxProcs + 6) rt (RtOp.exec rt op) := by
  cases op with
  | runWorkload workload priority =>
    exact (runtimeRunWorkload_notes h workload priority).mono (by omega)
  | pass fuel =>
    rw [RtOp.exec]
    cases hr : runtimePass fuel rt with
    | none => exact Notes.refl
    | some r => exact runtimePass_notes hok herr hr
  | kill pid => exact (runtimeKill_notes hok rt pid).mono (by omega)
  | setScheduler algo =>
    refine Notes.of_eq ?_
    rw [RtOp.exec, runtimeSetScheduler, chronicle_rebuild]
    rfl
  | setNice pid niceValue =>
    rw [RtOp.exec, runtimeSetNice]
    split_ifs
    · exact Notes.refl
    · refine Notes.of_eq (chronicle_modify_keeps rt ?_ ?_ pid)
      · exact fun _ => ⟨rfl, rfl⟩
      · exact fun _ => rfl
  | setPriority pid priority =>
    rw [RtOp.exec, runtimeSetPriority]
    split_ifs
    · exact Notes.refl
    · refine Notes.of_eq (chronicle_modify_keeps rt ?_ ?_ pid)
      · exact fun _ => ⟨rfl, rfl⟩
      · exact fun _ => rfl
  | setQuantum | setPolicy | yield | timerSignal => exact Notes.refl

end Mosrt
