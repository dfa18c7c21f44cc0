/-
Processes, wait lists and messages: the runtime without its clock, its scheduler
and its memory.

A `Core` says of every process its state, its wakeup tick and the instruction it
stands at; of every message queue what is in it; of every semaphore or mutex who
waits.  Its moves are those of the runtime: `Quiet` ones, which precede the
execution of an instruction, `Exec`, the execution of one instruction by the
process on the CPU, and the creation and the killing of a process.

* `Moved` — what an instruction can do to the states of processes;
* `Placed` — the CPU and the process states agree; every move keeps this;
* `Moved.exited`, `Quiet.exited`, … — an EXITED process stays so.
-/
import Mosrt.Proc
import Mosrt.Ipc
import Mosrt.Workload

namespace Mosrt

@[ext] structure Core where
  /-- State and wakeup tick of each process. -/
  proc : ℤ → Option (ProcState × ℕ)
  /-- The process on the CPU, `-1` for none. -/
  current : ℤ
  queue : ℤ → IpcQueue
  /-- Who waits for a semaphore or mutex. -/
  semWaiters : ℤ → List ℤ
  /-- The instruction a process stands at. -/
  insn : ℤ → Option WorkloadInsn

namespace Core

def stateOf (c : Core) (pid : ℤ) : Option ProcState := (c.proc pid).map Prod.fst

/-! ### Small changes -/

def setProc (c : Core) (pid : ℤ) (st : ProcState) (wakeup : ℕ) : Core :=
  { c with proc := Function.update c.proc pid (some (st, wakeup)) }

/-- The process on the CPU leaves it. -/
def leave (c : Core) (st : ProcState) (wakeup : ℕ) : Core :=
  { c.setProc c.current st wakeup with current := -1 }

/-- The process on the CPU goes to another instruction. -/
def goto (c : Core) (next : Option WorkloadInsn) : Core :=
  { c with insn := Function.update c.insn c.current next }

def setQueue (c : Core) (id : ℤ) (q : IpcQueue) : Core :=
  { c with queue := Function.update c.queue id q }

def setSemWaiters (c : Core) (id : ℤ) (ws : List ℤ) : Core :=
  { c with semWaiters := Function.update c.semWaiters id ws }

/-- Wake a process if it is BLOCKED. -/
def wake (c : Core) (pid : ℤ) : Core :=
  match c.proc pid with
  | some (.blocked, w) => c.setProc pid .ready w
  | _ => c

/-- The wait list of a semaphore after `pid` was entered. -/
def enlist (ws : List ℤ) (pid : ℤ) : List ℤ := if pid ∈ ws then ws else ws ++ [pid]

/-! ### Moves -/

/-- What happens before an instruction is executed. -/
inductive Quiet (c : Core) : Core → Prop
  | timer (pid : ℤ) (w : ℕ) : c.proc pid = some (.blocked, w) → 0 < w →
      Quiet c (c.setProc pid .ready 0)
  | dispatch (pid : ℤ) (w : ℕ) : c.current = -1 → c.proc pid = some (.ready, w) →
      Quiet c { c.setProc pid .running w with current := pid }

/-- The process on the CPU stands at neither a `SEND` nor a `RECV`. -/
def Plain (c : Core) : Prop :=
  ∀ insn, c.insn c.current = some insn → insn.op ≠ .send ∧ insn.op ≠ .recv

/-- What `SEND` makes of its queue. -/
def sent (c : Core) (insn : WorkloadInsn) : SendBranch × IpcQueue :=
  queueSend (c.queue insn.arg0) c.current insn.arg1

/-- What `RECV` makes of its queue. -/
def received (c : Core) (insn : WorkloadInsn) : RecvBranch × IpcQueue :=
  queueRecv (c.queue insn.arg0) c.current

/-- The core after a `SEND` that succeeded. -/
def afterSend (c : Core) (insn : WorkloadInsn) : Core :=
  let q := (c.sent insn).2
  (c.setQueue insn.arg0 { q with recvWaiters := (waitqPop q.recvWaiters).2 }).wake
    (waitqPop q.recvWaiters).1

/-- The core after a `RECV` that succeeded. -/
def afterRecv (c : Core) (insn : WorkloadInsn) : Core :=
  let q := (c.received insn).2
  (c.setQueue insn.arg0 { q with sendWaiters := (waitqPop q.sendWaiters).2 }).wake
    (waitqPop q.sendWaiters).1

/-- The queue after a `SEND` that found it full. -/
def sendBlocked (c : Core) (insn : WorkloadInsn) : Core :=
  let q := (c.sent insn).2
  c.setQueue insn.arg0 { q with sendWaiters := waitqAdd q.sendWaiters c.current }

/-- The queue after a `RECV` that found nothing. -/
def recvBlocked (c : Core) (insn : WorkloadInsn) : Core :=
  let q := (c.received insn).2
  c.setQueue insn.arg0 { q with recvWaiters := waitqAdd q.recvWaiters c.current }

/-- The process on the CPU executes the instruction it stands at.  A process can only leave
for good (`sleep` without a wakeup tick, a wait list without room) if `safe` fails. -/
inductive Exec (safe : Prop) (c : Core) : Core → Prop
  | goto (next : Option WorkloadInsn) : c.Plain → Exec safe c (c.goto next)
  | preempt (next : Option WorkloadInsn) (w : ℕ) : c.Plain →
      c.proc c.current = some (.running, w) → Exec safe c ((c.goto next).leave .ready w)
  | sleep (next : Option WorkloadInsn) (w : ℕ) : c.Plain → (safe → 0 < w) →
      Exec safe c ((c.goto next).leave .blocked w)
  | exit : c.Plain → Exec safe c (c.leave .exited 0)
  | acquire (id : ℤ) (w : ℕ) : c.Plain → c.proc c.current = some (.running, w) →
      Exec safe c
        ((c.setSemWaiters id (enlist (c.semWaiters id) c.current)).leave .blocked w)
  | release (id pid : ℤ) (rest : List ℤ) (next : Option WorkloadInsn) : c.Plain →
      c.semWaiters id = pid :: rest →
      Exec safe c (((c.setSemWaiters id rest).wake pid).goto next)
  | sendOk (insn : WorkloadInsn) (next : Option WorkloadInsn) :
      c.insn c.current = some insn → insn.op = .send → (c.sent insn).1.result = .ok →
      Exec safe c ((c.afterSend insn).goto next)
  | sendBlock (insn : WorkloadInsn) (w : ℕ) :
      c.insn c.current = some insn → insn.op = .send → (c.sent insn).1.result = .wouldBlock →
      c.proc c.current = some (.running, w) →
      (safe → (c.queue insn.arg0).sendWaiters.length < mosrtWaitqCapacity) →
      Exec safe c ((c.sendBlocked insn).leave .blocked w)
  | sendError (insn : WorkloadInsn) :
      c.insn c.current = some insn → insn.op = .send → (c.sent insn).1.result = .error →
      Exec safe c ((c.setQueue insn.arg0 (c.sent insn).2).leave .exited 0)
  | recvOk (insn : WorkloadInsn) (next : Option WorkloadInsn) :
      c.insn c.current = some insn → insn.op = .recv → (c.received insn).1.result = .ok →
      Exec safe c ((c.afterRecv insn).goto next)
  | recvBlock (insn : WorkloadInsn) (w : ℕ) :
      c.insn c.current = some insn → insn.op = .recv →
      (c.received insn).1.result = .wouldBlock → c.proc c.current = some (.running, w) →
      (safe → (c.queue insn.arg0).recvWaiters.length < mosrtWaitqCapacity) →
      Exec safe c ((c.recvBlocked insn).leave .blocked w)
  | noQueue (insn : WorkloadInsn) :
      c.insn c.current = some insn → c.queue insn.arg0 = newQueue insn.arg0 →
      Exec safe c (c.leave .exited 0)

/-- A new process, READY at its first instruction. -/
def spawn (c : Core) (pid : ℤ) (first : Option WorkloadInsn) : Core :=
  { c.setProc pid .ready 0 with insn := Function.update c.insn pid first }

/-- A killed process. -/
def kill (c : Core) (pid : ℤ) : Core :=
  { c.setProc pid .exited 0 with
    insn := Function.update c.insn pid none
    current := if c.current = pid then -1 else c.current }

/-! ### Process states -/

variable {c c' : Core} {pid pid' : ℤ} {st : ProcState} {w : ℕ} {safe : Prop}

theorem stateOf_eq (h : c.proc pid = some (st, w)) : c.stateOf pid = some st := by
  rw [stateOf, h]
  rfl

theorem proc_of_stateOf (h : c.stateOf pid = some st) : ∃ w, c.proc pid = some (st, w) := by
  obtain ⟨⟨st', w⟩, hp, rfl⟩ := Option.map_eq_some_iff.mp h
  exact ⟨w, hp⟩

theorem proc_setProc : (c.setProc pid st w).proc pid' =
    if pid' = pid then some (st, w) else c.proc pid' := by
  rw [setProc]
  exact Function.update_apply _ _ _ _

theorem stateOf_setProc : (c.setProc pid st w).stateOf pid' =
    if pid' = pid then some st else c.stateOf pid' := by
  rw [stateOf, proc_setProc, stateOf]
  split_ifs <;> rfl

theorem stateOf_leave : (c.leave st w).stateOf pid' =
    if pid' = c.current then some st else c.stateOf pid' := by
  show (c.setProc c.current st w).stateOf pid' = _
  exact stateOf_setProc

theorem wake_of_blocked (h : c.proc pid = some (.blocked, w)) :
    c.wake pid = c.setProc pid .ready w := by
  rw [wake, h]

/-- Leaving overwrites what was written about the process on the CPU. -/
theorem leave_setProc {st' : ProcState} {w' : ℕ} :
    (c.setProc c.current st w).leave st' w' = c.leave st' w' := by
  rw [leave, leave, setProc, setProc]
  dsimp only [setProc]
  rw [Function.update_idem]

theorem goto_self : c.goto (c.insn c.current) = c := by
  rw [goto, Function.update_eq_self]

theorem setSemWaiters_self {id : ℤ} : c.setSemWaiters id (c.semWaiters id) = c := by
  rw [setSemWaiters, Function.update_eq_self]

/-- Clearing the wakeup tick of a BLOCKED process and waking it. -/
theorem wake_setProc : (c.setProc pid .blocked w).wake pid = c.setProc pid .ready w := by
  have hp : (c.setProc pid .blocked w).proc pid = some (.blocked, w) := by
    rw [proc_setProc, if_pos rfl]
  rw [wake_of_blocked hp, setProc, setProc, setProc]
  dsimp only
  rw [Function.update_idem]

theorem wake_of_not_blocked (h : c.stateOf pid ≠ some .blocked) : c.wake pid = c := by
  rw [wake]
  split
  · next w hp => exact absurd (stateOf_eq hp) h
  · rfl

/-- Waking touches the process that is woken, and its state only. -/
theorem wake_fields : (c.wake pid).current = c.current ∧ (c.wake pid).queue = c.queue ∧
    (c.wake pid).semWaiters = c.semWaiters ∧ (c.wake pid).insn = c.insn := by
  rw [wake]
  split <;> exact ⟨rfl, rfl, rfl, rfl⟩

/-- Whom a wake touches depends on the process states alone. -/
theorem wake_proc {d : Core} (h : d.proc = c.proc) : (d.wake pid).proc = (c.wake pid).proc := by
  rw [wake, wake, h]
  split
  · rw [setProc, setProc, h]
  · exact h

theorem proc_wake (c : Core) (pid pid' : ℤ) : (c.wake pid).proc pid' = c.proc pid' ∨
    pid' = pid ∧ ∃ w, c.proc pid = some (.blocked, w) ∧
      (c.wake pid).proc pid' = some (.ready, w) := by
  by_cases hb : c.stateOf pid = some .blocked
  · obtain ⟨w, hp⟩ := proc_of_stateOf hb
    rw [wake_of_blocked hp, proc_setProc]
    by_cases hpid : pid' = pid
    · rw [if_pos hpid]
      exact .inr ⟨hpid, w, hp, rfl⟩
    · rw [if_neg hpid]
      exact .inl rfl
  · rw [wake_of_not_blocked hb]
    exact .inl rfl

theorem stateOf_wake (c : Core) (pid pid' : ℤ) : (c.wake pid).stateOf pid' = c.stateOf pid' ∨
    c.stateOf pid' = some .blocked ∧ (c.wake pid).stateOf pid' = some .ready := by
  rcases proc_wake c pid pid' with h | ⟨rfl, w, hp, h⟩
  · exact .inl (by rw [stateOf, stateOf, h])
  · exact .inr ⟨stateOf_eq hp, stateOf_eq h⟩

theorem queue_setQueue {id qid : ℤ} {q : IpcQueue} :
    (c.setQueue id q).queue qid = if qid = id then q else c.queue qid := by
  rw [setQueue]
  exact Function.update_apply _ _ _ _

theorem queue_afterSend {insn : WorkloadInsn} {qid : ℤ} : (c.afterSend insn).queue qid =
    if qid = insn.arg0 then
      { (c.sent insn).2 with recvWaiters := (waitqPop (c.sent insn).2.recvWaiters).2 }
    else c.queue qid := by
  rw [afterSend]
  dsimp only
  rw [wake_fields.2.1, queue_setQueue]

theorem queue_afterRecv {insn : WorkloadInsn} {qid : ℤ} : (c.afterRecv insn).queue qid =
    if qid = insn.arg0 then
      { (c.received insn).2 with sendWaiters := (waitqPop (c.received insn).2.sendWaiters).2 }
    else c.queue qid := by
  rw [afterRecv]
  dsimp only
  rw [wake_fields.2.1, queue_setQueue]

/-- An instruction that is neither `SEND` nor `RECV` leaves the queues alone. -/
theorem Exec.queue_of_plain (h : Exec safe c c') (hp : c.Plain) : c'.queue = c.queue := by
  cases h with
  | goto | preempt | sleep | exit | acquire | noQueue => rfl
  | release id pid rest next _ _ => exact wake_fields.2.1
  | sendOk insn _ hinsn hop | sendBlock insn _ hinsn hop | sendError insn hinsn hop =>
    exact absurd hop (hp insn hinsn).1
  | recvOk insn _ hinsn hop | recvBlock insn _ hinsn hop => exact absurd hop (hp insn hinsn).2

theorem Quiet.fields (h : Quiet c c') : c'.queue = c.queue ∧ c'.semWaiters = c.semWaiters ∧
    c'.insn = c.insn := by
  cases h <;> exact ⟨rfl, rfl, rfl⟩

theorem Quiet.fields_of_steps (h : Relation.ReflTransGen Quiet c c') :
    c'.queue = c.queue ∧ c'.semWaiters = c.semWaiters ∧ c'.insn = c.insn := by
  induction h with
  | refl => exact ⟨rfl, rfl, rfl⟩
  | tail _ hstep ih =>
    obtain ⟨h1, h2, h3⟩ := hstep.fields
    exact ⟨h1.trans ih.1, h2.trans ih.2.1, h3.trans ih.2.2⟩

/-- The CPU and the process states agree, and pids are positive. -/
structure Placed (c : Core) : Prop where
  current : c.current = -1 ∨ c.stateOf c.current = some .running
  running : ∀ pid, c.stateOf pid = some .running → pid = c.current
  positive : ∀ pid, c.stateOf pid ≠ none → 0 < pid

/-- What an instruction does to states: processes other than the one on the CPU may be woken,
and that one stays where it is or leaves. -/
structure Moved (c c' : Core) : Prop where
  others : ∀ pid, pid ≠ c.current → c'.stateOf pid = c.stateOf pid ∨
    c.stateOf pid = some .blocked ∧ c'.stateOf pid = some .ready
  current : c'.current = c.current ∧ c'.stateOf c.current = some .running ∨
    c'.current = -1 ∧ ∃ st, c'.stateOf c.current = some st ∧ st ≠ .running ∧ st ≠ .new

theorem Moved.leave {d : Core} (hcur : d.current = c.current)
    (hst : ∀ pid, d.stateOf pid = c.stateOf pid) (hr : st ≠ .running) (hn : st ≠ .new) :
    Moved c (d.leave st w) where
  others := fun pid hpid => .inl (by rw [stateOf_leave, hcur, if_neg hpid, hst])
  current := .inr ⟨rfl, st, by rw [stateOf_leave, hcur, if_pos rfl], hr, hn⟩

theorem Moved.wake {d : Core} (hrun : c.stateOf c.current = some .running)
    (hcur : d.current = c.current) (hst : ∀ pid, d.stateOf pid = c.stateOf pid) :
    Moved c (d.wake pid) := by
  have hw : ∀ pid', (d.wake pid).stateOf pid' = c.stateOf pid' ∨
      c.stateOf pid' = some .blocked ∧ (d.wake pid).stateOf pid' = some .ready := by
    intro pid'
    have := stateOf_wake d pid pid'
    rwa [hst] at this
  refine ⟨fun pid' _ => hw pid', .inl ⟨wake_fields.1.trans hcur, ?_⟩⟩
  -- a RUNNING process cannot be woken
  rcases hw c.current with h | ⟨h, -⟩
  · rw [h, hrun]
  · rw [hrun] at h
    cases h

theorem Moved.goto {next : Option WorkloadInsn} (h : Moved c c') : Moved c (c'.goto next) :=
  ⟨h.others, h.current⟩

theorem Exec.moved (h : Exec safe c c') (hrun : c.stateOf c.current = some .running) :
    Moved c c' := by
  cases h with
  | goto next => exact ⟨fun _ _ => .inl rfl, .inl ⟨rfl, hrun⟩⟩
  | preempt | sleep | exit | acquire | sendBlock | sendError | recvBlock | noQueue =>
    exact .leave rfl (fun _ => rfl) nofun nofun
  | release id pid rest next _ _ =>
    exact (Moved.wake (d := c.setSemWaiters id rest) hrun rfl fun _ => rfl).goto
  | sendOk insn next _ _ _ =>
    exact (Moved.wake (d := c.setQueue insn.arg0 _) hrun rfl fun _ => rfl).goto
  | recvOk insn next _ _ _ =>
    exact (Moved.wake (d := c.setQueue insn.arg0 _) hrun rfl fun _ => rfl).goto

theorem Moved.placed (h : Moved c c') (hc : c.Placed) (hrun : c.stateOf c.current = some .running) :
    c'.Placed := by
  have hold : ∀ pid, pid ≠ c.current → c'.stateOf pid = some .running → False := by
    intro pid hpid hr
    rcases h.others pid hpid with heq | ⟨-, heq⟩
    · exact hpid (hc.running pid (heq ▸ hr))
    · rw [hr] at heq
      cases heq
  constructor
  · rcases h.current with ⟨hcur, hst⟩ | ⟨hcur, -⟩
    · exact .inr (hcur ▸ hst)
    · exact .inl hcur
  · intro pid hr
    by_cases hpid : pid = c.current
    · rcases h.current with ⟨hcur, -⟩ | ⟨-, st, hst, hne, -⟩
      · rw [hpid, hcur]
      · rw [hpid, hst] at hr
        exact absurd (Option.some.inj hr) hne
    · exact (hold pid hpid hr).elim
  · intro pid hne
    by_cases hpid : pid = c.current
    · rw [hpid]
      exact hc.positive _ (by rw [hrun]; exact Option.some_ne_none _)
    · rcases h.others pid hpid with heq | ⟨heq, -⟩
      · exact hc.positive pid (heq ▸ hne)
      · exact hc.positive pid (by rw [heq]; exact Option.some_ne_none _)

theorem Moved.exited (h : Moved c c') (hrun : c.stateOf c.current = some .running)
    (hx : c.stateOf pid = some .exited) : c'.stateOf pid = some .exited := by
  by_cases hpid : pid = c.current
  · rw [hpid, hrun] at hx
    cases hx
  · rcases h.others pid hpid with heq | ⟨heq, -⟩
    · rw [heq, hx]
    · rw [hx] at heq
      cases heq

theorem Quiet.placed (h : Quiet c c') (hc : c.Placed) : c'.Placed := by
  cases h with
  | timer pid w hp _ =>
    have hb := stateOf_eq hp
    refine ⟨?_, fun pid' hr => ?_, fun pid' hne => ?_⟩
    · rcases hc.current with hcur | hcur
      · exact .inl hcur
      · refine .inr ?_
        have hne : c.current ≠ pid := by
          rintro heq
          rw [heq, hb] at hcur
          cases hcur
        show (c.setProc pid .ready 0).stateOf c.current = _
        rw [stateOf_setProc, if_neg hne, hcur]
    · rw [stateOf_setProc] at hr
      split_ifs at hr with heq
      · cases hr
      · exact hc.running pid' hr
    · rw [stateOf_setProc] at hne
      split_ifs at hne with heq
      · rw [heq]
        exact hc.positive pid (by rw [hb]; exact Option.some_ne_none _)
      · exact hc.positive pid' hne
  | dispatch pid w hidle hp =>
    have hready := stateOf_eq hp
    have hst : ∀ pid', ({ c.setProc pid .running w with current := pid } : Core).stateOf pid' =
        if pid' = pid then some .running else c.stateOf pid' := fun _ => stateOf_setProc
    refine ⟨.inr ?_, fun pid' hr => ?_, fun pid' hne => ?_⟩
    · rw [hst, if_pos rfl]
    · rw [hst] at hr
      split_ifs at hr with heq
      · exact heq
      · -- nobody was RUNNING: the CPU was idle
        have h1 := hc.running pid' hr
        have h2 := hc.positive pid' (by rw [hr]; exact Option.some_ne_none _)
        omega
    · rw [hst] at hne
      split_ifs at hne with heq
      · rw [heq]
        exact hc.positive pid (by rw [hready]; exact Option.some_ne_none _)
      · exact hc.positive pid' hne

theorem Quiet.exited (h : Quiet c c') (hx : c.stateOf pid = some .exited) :
    c'.stateOf pid = some .exited := by
  cases h with
  | timer pid' w hp _ | dispatch pid' w _ hp =>
    have hne : pid ≠ pid' := by
      rintro rfl
      rw [stateOf_eq hp] at hx
      cases hx
    exact (stateOf_setProc.trans (if_neg hne)).trans hx

theorem Moved.exists_of (h : Moved c c') (hrun : c.stateOf c.current = some .running)
    (hpid : c'.stateOf pid ≠ none) : c.stateOf pid ≠ none := by
  by_cases heq : pid = c.current
  · rw [heq, hrun]
    exact Option.some_ne_none _
  · rcases h.others pid heq with hst | ⟨hst, -⟩
    · rwa [hst] at hpid
    · rw [hst]
      exact Option.some_ne_none _

theorem Quiet.exists_of (h : Quiet c c') (hpid : c'.stateOf pid ≠ none) :
    c.stateOf pid ≠ none := by
  cases h with
  | timer pid' w hp _ | dispatch pid' w _ hp =>
    by_cases heq : pid = pid'
    · rw [heq, stateOf_eq hp]
      exact Option.some_ne_none _
    · intro hnone
      exact hpid (stateOf_setProc.trans ((if_neg heq).trans hnone))

theorem Quiet.exists_of_steps (h : Relation.ReflTransGen Quiet c c')
    (hpid : c'.stateOf pid ≠ none) :
    c.stateOf pid ≠ none := by
  induction h with
  | refl => exact hpid
  | tail _ hlast ih => exact ih (hlast.exists_of hpid)

theorem Quiet.exited_of_steps (h : Relation.ReflTransGen Quiet c c')
    (hx : c.stateOf pid = some .exited) : c'.stateOf pid = some .exited := by
  induction h with
  | refl => exact hx
  | tail _ hlast ih => exact hlast.exited ih

theorem placed_spawn (hc : c.Placed) {first : Option WorkloadInsn} (hnew : c.stateOf pid = none)
    (hpos : 0 < pid) : (c.spawn pid first).Placed := by
  have hst : ∀ pid', (c.spawn pid first).stateOf pid' =
      if pid' = pid then some .ready else c.stateOf pid' := fun _ => stateOf_setProc
  refine ⟨?_, fun pid' hr => ?_, fun pid' hne => ?_⟩
  · rcases hc.current with hcur | hcur
    · exact .inl hcur
    · refine .inr ?_
      have hne : c.current ≠ pid := by
        rintro heq
        rw [heq, hnew] at hcur
        cases hcur
      show (c.spawn pid first).stateOf c.current = _
      rw [hst, if_neg hne, hcur]
  · rw [hst] at hr
    split_ifs at hr
    · cases hr
    · exact hc.running pid' hr
  · rw [hst] at hne
    split_ifs at hne with heq
    · rw [heq]
      exact hpos
    · exact hc.positive pid' hne

theorem placed_kill (hc : c.Placed) (hex : c.stateOf pid ≠ none) : (c.kill pid).Placed := by
  have hst : ∀ pid', (c.kill pid).stateOf pid' =
      if pid' = pid then some .exited else c.stateOf pid' := fun _ => stateOf_setProc
  have hcur : (c.kill pid).current = if c.current = pid then -1 else c.current := rfl
  refine ⟨?_, fun pid' hr => ?_, fun pid' hne => ?_⟩
  · rw [hcur]
    split_ifs with heq
    · exact .inl rfl
    · rw [hst, if_neg heq]
      exact hc.current
  · rw [hst] at hr
    split_ifs at hr with heq
    · cases hr
    · have := hc.running pid' hr
      rw [hcur, if_neg (fun h => heq (this.trans h)), this]
  · rw [hst] at hne
    split_ifs at hne with heq
    · rw [heq]
      exact hc.positive pid hex
    · exact hc.positive pid' hne

theorem exited_kill (hx : c.stateOf pid' = some .exited) :
    (c.kill pid).stateOf pid' = some .exited := by
  refine stateOf_setProc.trans ?_
  split_ifs
  · rfl
  · exact hx

theorem exited_spawn {first : Option WorkloadInsn} (hnew : c.stateOf pid = none)
    (hx : c.stateOf pid' = some .exited) : (c.spawn pid first).stateOf pid' = some .exited := by
  have hne : pid' ≠ pid := by
    rintro rfl
    rw [hnew] at hx
    cases hx
  exact (stateOf_setProc.trans (if_neg hne)).trans hx

end Core

end Mosrt
