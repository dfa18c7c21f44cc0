/-
Who is on the CPU, who is next, and why: the runtime as its scheduler sees it.

A `Roster` says of every process its state, its priority, since when it is READY, its MLFQ
level and its wakeup tick; who is on the CPU and whom the scheduler charges for it; and, in
order, who stands in the rings of the FIFO policies.  The heap of SCHED_PRIO is left out, as
its order has no meaning between two passes.

* `ready`, `expire`, `age`, `rebuild`, `boost` — the changes before an instruction;
* `Dispatches` — the choice of a process;
* `Exec` — one instruction, with its tick if it takes one;
* `Queued` — the rings hold the READY processes, each once.
-/
import Mosrt.Sched

namespace Mosrt

/-- What decisions about a process go by. -/
structure RosterEntry where
  state : ProcState
  priority : ℤ
  /-- `last_ready_tick`. -/
  since : ℕ
  level : ℕ
  wakeup : ℕ

namespace RosterEntry

def turn (e : RosterEntry) (st : ProcState) (now : ℕ) : RosterEntry :=
  { e with state := st, since := if st = .ready then now else e.since }

/-- The ring that takes a process. -/
def ring (a : SchedAlgo) (e : RosterEntry) : ℕ :=
  if a = .mlfq then if mosrtMlfqLevels ≤ e.level then mosrtMlfqLevels - 1 else e.level else 0

/-- READY since a positive multiple of the aging interval, with a priority to gain. -/
def DueAge (now : ℕ) (e : RosterEntry) : Prop :=
  e.state = .ready ∧ mosrtMinPrio < e.priority ∧ e.since < now ∧
    (now - e.since) % agingInterval = 0

instance (now : ℕ) (e : RosterEntry) : Decidable (e.DueAge now) := by
  unfold DueAge
  infer_instance

def age (now : ℕ) (e : RosterEntry) : RosterEntry :=
  if e.DueAge now then { e with priority := e.priority - 1 } else e

def boost (e : RosterEntry) : RosterEntry := if e.state ≠ .exited then { e with level := 0 } else e

/-- One level down, if there is one. -/
def demote (e : RosterEntry) : RosterEntry :=
  if e.level + 1 < mosrtMlfqLevels then { e with level := e.level + 1 } else e

end RosterEntry

@[ext] structure Roster where
  tick : ℕ
  /-- The process on the CPU, `-1` for none. -/
  current : ℤ
  proc : ℤ → Option RosterEntry
  algo : SchedAlgo
  quantum : ℕ
  /-- `scheduler.current_pid`: whose ticks are counted. -/
  charged : ℤ
  consumed : ℕ
  /-- `last_boost_tick`. -/
  boosted : ℕ
  /-- The pids in each ring, in order; none under SCHED_PRIO. -/
  ring : ℕ → List ℤ
  /-- One of the two resched flags is up. -/
  resched : Bool

/-- All pids that a process can have, in the order of the table. -/
def allPids : List ℤ := (List.range mosrtMaxProcs).map fun i : ℕ => (i : ℤ) + 1

theorem pairwise_allPids : allPids.Pairwise (· < ·) := by
  refine List.pairwise_map.mpr (List.pairwise_lt_range.imp fun hlt => ?_)
  omega

namespace Roster

variable {r r' : Roster} {pid q : ℤ} {e : RosterEntry} {st : ProcState} {l w : ℕ}

/-! ### Changes -/

def setProc (r : Roster) (pid : ℤ) (e : RosterEntry) : Roster :=
  { r with proc := Function.update r.proc pid (some e) }

def mapProc (r : Roster) (f : RosterEntry → RosterEntry) : Roster :=
  { r with proc := fun pid => (r.proc pid).map f }

/-- Behind all others of its ring. -/
def enqueue (r : Roster) (pid : ℤ) (l : ℕ) : Roster :=
  { r with
    ring := if r.algo = .prio then r.ring else Function.update r.ring l (r.ring l ++ [pid]) }

/-- A process becomes READY. -/
def ready (r : Roster) (pid : ℤ) (e : RosterEntry) : Roster :=
  (r.setProc pid (e.turn .ready r.tick)).enqueue pid (e.ring r.algo)

/-- A process becomes READY if it is BLOCKED. -/
def wake (r : Roster) (pid : ℤ) : Roster :=
  match r.proc pid with
  | none => r
  | some e => if e.state = .blocked then r.ready pid e else r

/-- The wakeup tick of a BLOCKED process has come. -/
def Due (r : Roster) (e : RosterEntry) : Prop :=
  e.state = .blocked ∧ 0 < e.wakeup ∧ e.wakeup ≤ r.tick

instance (r : Roster) (e : RosterEntry) : Decidable (r.Due e) := by
  unfold Due
  infer_instance

/-- A process becomes READY if its wakeup tick has come. -/
def expire (r : Roster) (pid : ℤ) : Roster :=
  match r.proc pid with
  | none => r
  | some e => if r.Due e then r.ready pid { e with wakeup := 0 } else r

/-- The pass over the table for processes whose time has come. -/
def expireAll (r : Roster) : Roster := allPids.foldl expire r

def age (r : Roster) : Roster := if r.algo = .prio then r.mapProc (.age r.tick) else r

/-- The process is READY and belongs to the ring. -/
def readyIn (r : Roster) (pid : ℤ) (l : ℕ) : Bool :=
  match r.proc pid with
  | none => false
  | some e => e.state == .ready && e.ring r.algo == l

/-- The rings filled again from the table. -/
def rebuilt (r : Roster) (l : ℕ) : List ℤ :=
  if r.algo = .prio then [] else allPids.filter fun pid => r.readyIn pid l

/-- What is left of a scheduler that is rebuilt: the time of the last boost is not. -/
def rebuild (r : Roster) : Roster :=
  { r with
    ring := r.rebuilt
    quantum := if r.quantum = 0 then 1 else r.quantum
    boosted := 0 }

/-- The heap of SCHED_PRIO is rebuilt in every pass. -/
def rebuildPrio (r : Roster) : Roster := if r.algo = .prio then r.rebuild else r

/-- A boost is due. -/
def DueBoost (interval : ℕ) (r : Roster) : Prop :=
  r.algo = .mlfq ∧ interval ≤ sub64 r.tick r.boosted

instance (interval : ℕ) (r : Roster) : Decidable (r.DueBoost interval) := by
  unfold DueBoost
  infer_instance

def boost (interval : ℕ) (r : Roster) : Roster :=
  if r.DueBoost interval then (r.mapProc .boost).rebuild else r

/-- The part of a pass before a process is chosen. -/
def prepare (interval : ℕ) (r : Roster) : Roster := boost interval r.expireAll.age.rebuildPrio

/-- The process on the CPU leaves it. -/
def leave (r : Roster) (e : RosterEntry) (st : ProcState) (w : ℕ) : Roster :=
  { r.setProc r.current { e with state := st, wakeup := w } with current := -1 }

/-- A tick of the process on the CPU. -/
def spend (r : Roster) : Roster :=
  { r with
    tick := incr64 r.tick
    consumed := if r.charged = r.current then (r.consumed + 1) % 2 ^ 32 else r.consumed }

/-- The process on the CPU goes back to its ring, under MLFQ one level down. -/
def preempt (r : Roster) (e : RosterEntry) : Roster :=
  { ({ r with resched := false } : Roster).ready r.current
      (if r.algo = .mlfq then e.demote else e) with current := -1 }

def kill (r : Roster) (pid : ℤ) (e : RosterEntry) : Roster :=
  ({ r.setProc pid { e with state := .exited, wakeup := 0 } with
    current := if r.current = pid then -1 else r.current } : Roster).rebuild

/-- A new process. -/
def spawn (r : Roster) (pid priority : ℤ) : Roster :=
  r.ready pid ⟨.new, clampPrio priority, r.tick, 0, 0⟩

/-- Another policy: the scheduler forgets who is on the CPU. -/
def setAlgo (r : Roster) (a : SchedAlgo) : Roster :=
  ({ r with algo := a, charged := -1, consumed := 0 } : Roster).rebuild

/-- A process is put on the CPU: the first of the first ring that has one. -/
def pick (r : Roster) (pid : ℤ) (e : RosterEntry) (l : ℕ) (rest : List ℤ) : Roster :=
  { r.setProc pid (e.turn .running r.tick) with
    current := pid
    charged := pid
    consumed := 0
    ring := if r.algo = .prio then r.ring else Function.update r.ring l rest }

inductive Dispatches (r : Roster) : Bool → Roster → Prop
  | stays : 0 ≤ r.current → Dispatches r true r
  | nobody : r.current < 0 → (∀ pid e, r.proc pid = some e → e.state ≠ .ready) →
      Dispatches r false { r with charged := -1, consumed := 0 }
  | picks (pid : ℤ) (e : RosterEntry) (l : ℕ) (rest : List ℤ) : r.current < 0 → 0 ≤ pid →
      r.proc pid = some e → e.state = .ready → (r.algo ≠ .prio → r.ring l = pid :: rest) →
      Dispatches r true (r.pick pid e l rest)

/-- The process on the CPU executes an instruction; the flag says whether it takes a tick. -/
inductive Exec (r : Roster) : Bool → Roster → Prop
  | stay : Exec r false r
  | wake (pid : ℤ) : Exec r false (r.wake pid)
  | leave (e : RosterEntry) (st : ProcState) (w : ℕ) : r.proc r.current = some e →
      st = .blocked ∨ st = .exited → Exec r false (r.leave e st w)
  | tick : r.resched = false → (r.algo ≠ .fcfs → r.spend.consumed < r.quantum) →
      Exec r true r.spend
  | preempt (e : RosterEntry) : r.proc r.current = some e →
      r.resched = true ∨ r.algo ≠ .fcfs ∧ (r.quantum ≤ r.spend.consumed ∨ r.algo = .prio) →
      Exec r true (r.spend.preempt e)

theorem Dispatches.algo {b : Bool} (h : r.Dispatches b r') : r'.algo = r.algo := by
  cases h <;> rfl

theorem Dispatches.tick {b : Bool} (h : r.Dispatches b r') : r'.tick = r.tick := by
  cases h <;> rfl

theorem Dispatches.quantum {b : Bool} (h : r.Dispatches b r') : r'.quantum = r.quantum := by
  cases h <;> rfl

theorem Dispatches.resched {b : Bool} (h : r.Dispatches b r') : r'.resched = r.resched := by
  cases h <;> rfl

theorem Dispatches.current_nonneg (h : r.Dispatches true r') : 0 ≤ r'.current := by
  cases h with
  | stays hpos => exact hpos
  | picks pid e l rest hidle hpos => exact hpos

theorem Dispatches.idle (h : r.Dispatches false r') :
    r.current < 0 ∧ r' = { r with charged := -1, consumed := 0 } := by
  cases h with
  | nobody hidle => exact ⟨hidle, rfl⟩

/-! ### What changes leave alone -/

/-- The fields that waking and aging do not touch. -/
structure Same (r r' : Roster) : Prop where
  tick : r'.tick = r.tick
  current : r'.current = r.current
  algo : r'.algo = r.algo
  charged : r'.charged = r.charged
  consumed : r'.consumed = r.consumed
  resched : r'.resched = r.resched
  quantum : r.quantum ≠ 0 → r'.quantum = r.quantum

theorem Same.refl (r : Roster) : Same r r := ⟨rfl, rfl, rfl, rfl, rfl, rfl, fun _ => rfl⟩

theorem Same.trans {r'' : Roster} (h : Same r r') (h' : Same r' r'') : Same r r'' :=
  ⟨h'.tick.trans h.tick, h'.current.trans h.current, h'.algo.trans h.algo,
    h'.charged.trans h.charged, h'.consumed.trans h.consumed, h'.resched.trans h.resched,
    fun hq => (h'.quantum (by rwa [h.quantum hq])).trans (h.quantum hq)⟩

theorem same_ready (r : Roster) (pid : ℤ) (e : RosterEntry) : Same r (r.ready pid e) :=
  ⟨rfl, rfl, rfl, rfl, rfl, rfl, fun _ => rfl⟩

theorem same_wake (r : Roster) (pid : ℤ) : Same r (r.wake pid) := by
  rw [wake]
  split
  · exact .refl r
  · split_ifs
    · exact same_ready r pid _
    · exact .refl r

theorem same_expire (r : Roster) (pid : ℤ) : Same r (r.expire pid) := by
  rw [expire]
  split
  · exact .refl r
  · split_ifs
    · exact same_ready r pid _
    · exact .refl r

/-- What one expiry preserves, the pass over the table preserves. -/
theorem expireAll_invariant {I : Roster → Prop} (hr : I r)
    (hstep : ∀ r pid e, I r → r.proc pid = some e → r.Due e →
      I (r.ready pid { e with wakeup := 0 })) : I r.expireAll := by
  rw [expireAll]
  refine List.foldlRecOn allPids _ hr fun r hr pid _ => ?_
  rw [expire]
  split
  · exact hr
  · next e he =>
    split_ifs with hdue
    · exact hstep r pid e hr he hdue
    · exact hr

theorem same_expireAll (r : Roster) : Same r r.expireAll :=
  expireAll_invariant (I := Same r) (.refl r) fun _ pid _ h _ _ => h.trans (same_ready _ pid _)

theorem same_rebuild (r : Roster) : Same r r.rebuild :=
  ⟨rfl, rfl, rfl, rfl, rfl, rfl, fun hq => if_neg hq⟩

theorem same_mapProc (r : Roster) (f : RosterEntry → RosterEntry) : Same r (r.mapProc f) :=
  ⟨rfl, rfl, rfl, rfl, rfl, rfl, fun _ => rfl⟩

theorem same_age (r : Roster) : Same r r.age := by
  rw [age]
  split_ifs
  · exact same_mapProc r _
  · exact .refl r

theorem same_rebuildPrio (r : Roster) : Same r r.rebuildPrio := by
  rw [rebuildPrio]
  split_ifs
  · exact same_rebuild r
  · exact .refl r

theorem same_boost (interval : ℕ) (r : Roster) : Same r (r.boost interval) := by
  rw [boost]
  split_ifs
  · exact (same_mapProc r _).trans (same_rebuild _)
  · exact .refl r

theorem same_prepare (interval : ℕ) (r : Roster) : Same r (r.prepare interval) :=
  (((same_expireAll r).trans (same_age _)).trans (same_rebuildPrio _)).trans (same_boost _ _)

theorem Exec.algo {b : Bool} (h : r.Exec b r') : r'.algo = r.algo := by
  cases h with
  | wake pid => exact (same_wake r pid).algo
  | stay | leave | tick | preempt => rfl

theorem wake_quantum (r : Roster) (pid : ℤ) : (r.wake pid).quantum = r.quantum := by
  rw [wake]
  split
  · rfl
  · split_ifs <;> rfl

theorem Exec.quantum {b : Bool} (h : r.Exec b r') : r'.quantum = r.quantum := by
  cases h with
  | wake pid => exact wake_quantum r pid
  | stay | leave | tick | preempt => rfl

theorem Exec.tick_eq {b : Bool} (h : r.Exec b r') :
    r'.tick = if b then incr64 r.tick else r.tick := by
  cases h with
  | wake pid => exact (same_wake r pid).tick
  | stay | leave | tick | preempt => rfl

/-! ### The rings -/

/-- The rings hold the READY processes, each once and in its ring. -/
def Queued (r : Roster) : Prop :=
  r.algo ≠ .prio → ∀ l, (r.ring l).Nodup ∧ ∀ pid, pid ∈ r.ring l ↔ r.readyIn pid l = true

theorem readyIn_iff : r.readyIn pid l = true ↔
    ∃ e, r.proc pid = some e ∧ e.state = .ready ∧ e.ring r.algo = l := by
  rw [readyIn]
  cases r.proc pid with
  | none => simp
  | some e => simp

end Roster

end Mosrt
