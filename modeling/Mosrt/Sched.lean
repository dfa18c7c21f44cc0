/-
The scheduler (`sched.c`): four policies over three ready structures.

FCFS and RR share a ring, PRIO uses a heap ordered by the priorities in the
process table, MLFQ has a ring per level.  The structures skip processes that are
not READY when they are popped, so popping reads the process table.

`Scheduler.Tracks` is the purpose of the component: the active structure holds
the pids it is meant to hold, each once and at its level.

* `schedClear_tracks` — an empty scheduler tracks nobody;
* `schedEnqueue_tracks` — enqueueing adds one pid;
* `schedPickNext_tracks` — picking removes a tracked pid, or finds that there is none.
-/
import Mosrt.Proc
import Mosrt.RingBuffer
import Mosrt.BinaryHeap

namespace Mosrt

abbrev mosrtMlfqLevels : ℕ := 4
abbrev agingInterval : ℕ := 5

/-- `sched_algo_t`. -/
inductive SchedAlgo where
  | fcfs | rr | prio | mlfq
deriving DecidableEq, Repr

abbrev ReadyQueue := RingBuffer ℤ mosrtMaxProcs
abbrev ReadyHeap := BinaryHeap ℤ mosrtMaxProcs

/-- `scheduler_t`. -/
structure Scheduler where
  algo : SchedAlgo
  quantumTicks : ℕ
  consumedTicks : ℕ := 0
  currentPid : ℤ
  rr : ReadyQueue := .empty 0
  heap : ReadyHeap := .empty 0
  mlfq : ℕ → ReadyQueue := fun _ => .empty 0
  lastBoostTick : ℕ := 0

/-! ### Ready structures -/

def queueContains (q : ReadyQueue) (pid : ℤ) : Bool := q.toList.contains pid

def queuePush (q : ReadyQueue) (pid : ℤ) : Bool × ReadyQueue :=
  if mosrtMaxProcs ≤ q.len ∨ queueContains q pid then (false, q) else (true, q.push pid)

/-- The test `p != NULL && p->state == PROC_READY` of both pop loops. -/
def isReady (t : ProcTable) (pid : ℤ) : Bool :=
  match procGet t pid with
  | none => false
  | some p => p.state == .ready

/-- The loop of `queue_pop` and `heap_pop`: pop until a READY pid comes, `-1` if none does.
Every round shortens the structure, so its length is enough fuel. -/
def popReady {β : Type} (t : ProcTable) (pop : β → Option (ℤ × β)) : ℕ → β → ℤ × β
  | 0, q => (-1, q)
  | fuel + 1, q =>
    match pop q with
    | none => (-1, q)
    | some (pid, q') => if isReady t pid then (pid, q') else popReady t pop fuel q'

def queuePop (t : ProcTable) (q : ReadyQueue) : ℤ × ReadyQueue :=
  popReady t RingBuffer.pop q.len q

def prioLess (t : ProcTable) (leftPid rightPid : ℤ) : Bool :=
  match procGet t leftPid, procGet t rightPid with
  | none, _ => false
  | some _, none => true
  | some a, some b =>
    if a.priority ≠ b.priority then a.priority < b.priority else a.lastReadyTick < b.lastReadyTick

def heapContains (h : ReadyHeap) (pid : ℤ) : Bool := h.toList.contains pid

def heapPush (t : ProcTable) (h : ReadyHeap) (pid : ℤ) : Bool × ReadyHeap :=
  if mosrtMaxProcs ≤ h.len ∨ heapContains h pid then (false, h)
  else (true, h.push (prioLess t) pid)

def heapPop (t : ProcTable) (h : ReadyHeap) : ℤ × ReadyHeap :=
  popReady t (BinaryHeap.pop (prioLess t)) h.len h

/-! ### The scheduler -/

def schedInit (algo : SchedAlgo) (quantumTicks : ℕ) : Scheduler where
  algo := algo
  quantumTicks := if quantumTicks = 0 then 1 else quantumTicks
  currentPid := -1

def schedClear (s : Scheduler) : Scheduler := schedInit s.algo s.quantumTicks

def schedSetAlgo (s : Scheduler) (algo : SchedAlgo) : Scheduler := schedInit algo s.quantumTicks

def schedSetQuantum (s : Scheduler) (quantumTicks : ℕ) : Scheduler :=
  { s with quantumTicks := if quantumTicks = 0 then 1 else quantumTicks }

def schedAlgoName : SchedAlgo → String
  | .fcfs => "fcfs"
  | .rr => "rr"
  | .prio => "prio"
  | .mlfq => "mlfq"

/-- The level of the MLFQ ring that takes a process. -/
def mlfqLevel (p : Pcb) : ℕ :=
  if mosrtMlfqLevels ≤ p.mlfqLevel then mosrtMlfqLevels - 1 else p.mlfqLevel

def schedEnqueue (t : ProcTable) (s : Scheduler) (pid : ℤ) : Bool × Scheduler :=
  match procGet t pid with
  | none => (false, s)
  | some p =>
    match s.algo with
    | .prio =>
      let r := heapPush t s.heap pid
      (r.1, { s with heap := r.2 })
    | .mlfq =>
      let r := queuePush (s.mlfq (mlfqLevel p)) pid
      (r.1, { s with mlfq := Function.update s.mlfq (mlfqLevel p) r.2 })
    | _ =>
      let r := queuePush s.rr pid
      (r.1, { s with rr := r.2 })

/-- The loop over the MLFQ levels in `sched_pick_next`. -/
def mlfqPop (t : ProcTable) : List ℕ → (ℕ → ReadyQueue) → ℤ × (ℕ → ReadyQueue)
  | [], mlfq => (-1, mlfq)
  | q :: qs, mlfq =>
    let r := queuePop t (mlfq q)
    let mlfq := Function.update mlfq q r.2
    if 0 ≤ r.1 then (r.1, mlfq) else mlfqPop t qs mlfq

/-- `sched_pick_next`; `-1` when no process is ready. -/
def schedPickNext (t : ProcTable) (s : Scheduler) : ℤ × Scheduler :=
  match s.algo with
  | .prio =>
    let r := heapPop t s.heap
    (r.1, { s with heap := r.2, currentPid := r.1, consumedTicks := 0 })
  | .mlfq =>
    let r := mlfqPop t (List.range mosrtMlfqLevels) s.mlfq
    (r.1, { s with mlfq := r.2, currentPid := r.1, consumedTicks := 0 })
  | _ =>
    let r := queuePop t s.rr
    (r.1, { s with rr := r.2, currentPid := r.1, consumedTicks := 0 })

def schedOnTick (s : Scheduler) (pid : ℤ) : Scheduler :=
  if s.currentPid = pid then { s with consumedTicks := (s.consumedTicks + 1) % 2 ^ 32 } else s

def schedShouldPreempt (t : ProcTable) (s : Scheduler) (currentPid : ℤ) : Bool :=
  if currentPid < 0 then false
  else if s.algo = .fcfs then false
  else if s.algo = .prio ∧ s.heap.toList.any fun pid => prioLess t pid currentPid then true
  else s.quantumTicks ≤ s.consumedTicks

def ageOne (nowTick : ℕ) (p : Pcb) : Pcb :=
  if p.state = .ready ∧ mosrtMinPrio < p.priority ∧ p.lastReadyTick < nowTick ∧
      (nowTick - p.lastReadyTick) % agingInterval = 0 then
    { p with priority := p.priority - 1 }
  else p

def schedAgeReady (t : ProcTable) (s : Scheduler) (nowTick : ℕ) : ProcTable :=
  if s.algo = .prio then procForEach t (ageOne nowTick) else t

def schedDemoteAfterQuantum (t : ProcTable) (s : Scheduler) (pid : ℤ) : ProcTable :=
  if s.algo = .mlfq then
    t.modify pid fun p =>
      if p.mlfqLevel + 1 < mosrtMlfqLevels then { p with mlfqLevel := p.mlfqLevel + 1 } else p
  else t

def boostOne (p : Pcb) : Pcb := if p.state ≠ .exited then { p with mlfqLevel := 0 } else p

def schedPriorityBoost (t : ProcTable) (s : Scheduler) : ProcTable :=
  if s.algo = .mlfq then procForEach t boostOne else t

/-! ### Who is tracked -/

variable {t : ProcTable} {s : Scheduler} {pid : ℤ} {p : Pcb} {l : ℕ}

/-- The pids in the active structure, by level; a policy without levels has level `0` only. -/
def Scheduler.active (s : Scheduler) (l : ℕ) : List ℤ :=
  match s.algo with
  | .mlfq => (s.mlfq l).toList
  | .prio => if l = 0 then s.heap.toList else []
  | _ => if l = 0 then s.rr.toList else []

/-- The level at which a policy keeps a process. -/
def SchedAlgo.levelOf (a : SchedAlgo) (p : Pcb) : ℕ := if a = .mlfq then mlfqLevel p else 0

/-- The active structure holds exactly the pids of `ready`, each once and at its level. -/
def Scheduler.Tracks (s : Scheduler) (ready : ℤ → Option ℕ) : Prop :=
  ∀ l, (s.active l).Nodup ∧ ∀ pid, pid ∈ s.active l ↔ ready pid = some l

/-- The READY processes and the levels they belong to. -/
def readyLevel (a : SchedAlgo) (t : ProcTable) (pid : ℤ) : Option ℕ :=
  match procGet t pid with
  | none => none
  | some p => if p.state = .ready then some (a.levelOf p) else none

theorem readyLevel_eq_some {a : SchedAlgo} :
    readyLevel a t pid = some l ↔
      ∃ p, procGet t pid = some p ∧ p.state = .ready ∧ a.levelOf p = l := by
  rw [readyLevel]
  cases procGet t pid with
  | none => simp
  | some p => by_cases hp : p.state = .ready <;> simp [hp]

theorem readyLevel_eq_none {a : SchedAlgo} :
    readyLevel a t pid = none ↔ ∀ p, procGet t pid = some p → p.state ≠ .ready := by
  rw [readyLevel]
  cases procGet t pid with
  | none => simp
  | some p => by_cases hp : p.state = .ready <;> simp [hp]

theorem mlfqLevel_lt (p : Pcb) : mlfqLevel p < mosrtMlfqLevels := by
  rw [mlfqLevel]
  split_ifs with h
  · exact Nat.lt_succ_self 3
  · exact Nat.lt_of_not_le h

theorem SchedAlgo.levelOf_lt (a : SchedAlgo) (p : Pcb) : a.levelOf p < mosrtMlfqLevels := by
  rw [SchedAlgo.levelOf]
  split_ifs
  · exact mlfqLevel_lt p
  · exact Nat.succ_pos 3

theorem schedInit_tracks (algo : SchedAlgo) (quantumTicks : ℕ) :
    (schedInit algo quantumTicks).Tracks fun _ => none := by
  intro l
  have hnil : (schedInit algo quantumTicks).active l = [] := by
    cases algo <;> simp [Scheduler.active, schedInit]
  simp [hnil]

theorem schedClear_tracks (s : Scheduler) : (schedClear s).Tracks fun _ => none :=
  schedInit_tracks _ _

/-! ### Enqueueing -/

/-- A structure that holds other pids only has room for one more. -/
theorem length_lt_of_pids {xs : List ℤ} (hnodup : xs.Nodup)
    (hxs : ∀ x ∈ xs, 1 ≤ x ∧ x ≤ mosrtMaxProcs) (hpid : 1 ≤ pid ∧ pid ≤ mosrtMaxProcs)
    (hnot : pid ∉ xs) : xs.length < mosrtMaxProcs := by
  have hsub : (pid :: xs).toFinset ⊆ Finset.Icc 1 (mosrtMaxProcs : ℤ) := by
    intro x hx
    rcases List.mem_cons.mp (List.mem_toFinset.mp hx) with rfl | hx
    · exact Finset.mem_Icc.mpr hpid
    · exact Finset.mem_Icc.mpr (hxs x hx)
  have hcard := Finset.card_le_card hsub
  rw [List.toFinset_card_of_nodup (List.nodup_cons.mpr ⟨hnot, hnodup⟩), Int.card_Icc,
    List.length_cons] at hcard
  omega

theorem queuePush_toList {q : ReadyQueue} (hlen : q.len < mosrtMaxProcs) (hnot : pid ∉ q.toList) :
    (queuePush q pid).1 = true ∧ (queuePush q pid).2.toList = q.toList ++ [pid] := by
  have hc : ¬ (mosrtMaxProcs ≤ q.len ∨ queueContains q pid = true) := by
    simp only [queueContains, List.contains_iff_mem]
    rintro (h | h)
    · omega
    · exact hnot h
  rw [queuePush, if_neg hc]
  exact ⟨rfl, RingBuffer.toList_push hlen⟩

open scoped List in
theorem heapPush_toList {h : ReadyHeap} (hlen : h.len < mosrtMaxProcs) (hnot : pid ∉ h.toList) :
    (heapPush t h pid).1 = true ∧ (heapPush t h pid).2.toList ~ pid :: h.toList := by
  have hc : ¬ (mosrtMaxProcs ≤ h.len ∨ heapContains h pid = true) := by
    simp only [heapContains, List.contains_iff_mem]
    rintro (h | h)
    · omega
    · exact hnot h
  rw [heapPush, if_neg hc]
  exact ⟨rfl, BinaryHeap.toList_push hlen⟩

open scoped List in
/-- Enqueueing succeeds and changes one level of the active structure, by one pid. -/
theorem schedEnqueue_active (hp : procGet t pid = some p)
    (hlen : (s.active (s.algo.levelOf p)).length < mosrtMaxProcs)
    (hnot : pid ∉ s.active (s.algo.levelOf p)) :
    (schedEnqueue t s pid).1 = true ∧ (schedEnqueue t s pid).2.algo = s.algo ∧
      (schedEnqueue t s pid).2.active (s.algo.levelOf p) ~ pid :: s.active (s.algo.levelOf p) ∧
      ∀ l, l ≠ s.algo.levelOf p → (schedEnqueue t s pid).2.active l = s.active l := by
  rw [schedEnqueue, hp]
  cases ha : s.algo with
  | prio =>
    simp only [Scheduler.active, ha, SchedAlgo.levelOf, reduceCtorEq, if_false, if_true,
      BinaryHeap.length_toList] at hlen hnot ⊢
    obtain ⟨hok, hperm⟩ := heapPush_toList (t := t) hlen hnot
    exact ⟨hok, trivial, hperm, fun l hl => by simp [hl]⟩
  | mlfq =>
    simp only [Scheduler.active, ha, SchedAlgo.levelOf, if_true,
      RingBuffer.length_toList] at hlen hnot ⊢
    obtain ⟨hok, hlist⟩ := queuePush_toList hlen hnot
    refine ⟨hok, trivial, ?_, fun l hl => by rw [Function.update_of_ne hl]⟩
    rw [Function.update_self, hlist]
    exact List.perm_append_singleton pid _
  | fcfs | rr =>
    simp only [Scheduler.active, ha, SchedAlgo.levelOf, reduceCtorEq, if_false, if_true,
      RingBuffer.length_toList] at hlen hnot ⊢
    obtain ⟨hok, hlist⟩ := queuePush_toList hlen hnot
    refine ⟨hok, trivial, ?_, fun l hl => by simp [hl]⟩
    rw [hlist]
    exact List.perm_append_singleton pid _

theorem schedEnqueue_tracks {ready : ℤ → Option ℕ} (hs : s.Tracks ready)
    (hrange : ∀ pid, ready pid ≠ none → 1 ≤ pid ∧ pid ≤ mosrtMaxProcs)
    (hp : procGet t pid = some p) (hnew : ready pid = none) :
    (schedEnqueue t s pid).2.algo = s.algo ∧
      (schedEnqueue t s pid).2.Tracks
        (Function.update ready pid (some (s.algo.levelOf p))) := by
  have hnot : ∀ l, pid ∉ s.active l := fun l hmem => by
    have := ((hs l).2 pid).mp hmem
    rw [hnew] at this
    cases this
  have hlen : (s.active (s.algo.levelOf p)).length < mosrtMaxProcs := by
    refine length_lt_of_pids (hs _).1 (fun x hx => hrange x ?_) (procGet_range hp) (hnot _)
    rw [((hs _).2 x).mp hx]
    exact Option.some_ne_none _
  obtain ⟨-, halgo, hperm, hother⟩ := schedEnqueue_active hp hlen (hnot _)
  refine ⟨halgo, fun l => ?_⟩
  by_cases hl : l = s.algo.levelOf p
  · subst hl
    refine ⟨hperm.nodup_iff.mpr (List.nodup_cons.mpr ⟨hnot _, (hs _).1⟩), fun x => ?_⟩
    rw [hperm.mem_iff, List.mem_cons, (hs _).2 x]
    by_cases hx : x = pid
    · subst hx
      simp
    · rw [Function.update_of_ne hx]
      simp [hx]
  · rw [hother l hl]
    refine ⟨(hs l).1, fun x => ?_⟩
    by_cases hx : x = pid
    · subst hx
      rw [Function.update_self]
      simp [hnot l, Ne.symm hl]
    · rw [Function.update_of_ne hx, (hs l).2 x]

/-! ### Picking -/

theorem isReady_iff : isReady t pid = true ↔ ∃ p, procGet t pid = some p ∧ p.state = .ready := by
  rw [isReady]
  cases procGet t pid with
  | none => simp
  | some p => simp

theorem isReady_pos (h : isReady t pid = true) : 0 ≤ pid := by
  obtain ⟨p, hp, -⟩ := isReady_iff.mp h
  have := procGet_range hp
  omega

section PopReady

variable {β : Type} {pop : β → Option (ℤ × β)} {q q' : β} {fuel : ℕ}

theorem popReady_some (hpop : pop q = some (pid, q')) (hready : isReady t pid = true)
    (hfuel : 0 < fuel) : popReady t pop fuel q = (pid, q') := by
  obtain ⟨n, rfl⟩ : ∃ n, fuel = n + 1 := ⟨fuel - 1, by omega⟩
  rw [popReady, hpop]
  exact if_pos hready

theorem popReady_none (hpop : pop q = none) : popReady t pop fuel q = (-1, q) := by
  cases fuel with
  | zero => rfl
  | succ n => rw [popReady, hpop]

end PopReady

/-- A ring of READY pids loses its first one. -/
theorem queuePop_cases {q : ReadyQueue} (hall : ∀ pid ∈ q.toList, isReady t pid = true) :
    (q.toList = [] ∧ queuePop t q = (-1, q)) ∨
      ∃ pid q', queuePop t q = (pid, q') ∧ 0 ≤ pid ∧ q.toList = pid :: q'.toList := by
  rw [queuePop]
  cases hpop : q.pop with
  | none =>
    have hlen := RingBuffer.pop_eq_none.mp hpop
    exact .inl ⟨RingBuffer.toList_eq_nil.mpr hlen, popReady_none hpop⟩
  | some r =>
    obtain ⟨pid, q'⟩ := r
    have hlist := RingBuffer.toList_pop hpop
    have hready := hall pid (by rw [hlist]; exact List.mem_cons_self)
    have hlen := RingBuffer.len_pop hpop
    exact .inr ⟨pid, q', popReady_some hpop hready (by omega), isReady_pos hready, hlist⟩

open scoped List in
/-- A heap of READY pids loses one of them. -/
theorem heapPop_cases {h : ReadyHeap} (hall : ∀ pid ∈ h.toList, isReady t pid = true) :
    (h.toList = [] ∧ heapPop t h = (-1, h)) ∨
      ∃ pid h', heapPop t h = (pid, h') ∧ h.toList ~ pid :: h'.toList := by
  rw [heapPop]
  cases hpop : h.pop (prioLess t) with
  | none =>
    have hlen := BinaryHeap.pop_eq_none.mp hpop
    exact .inl ⟨by rw [← List.length_eq_zero_iff, BinaryHeap.length_toList, hlen],
      popReady_none hpop⟩
  | some r =>
    obtain ⟨pid, h'⟩ := r
    have hperm := BinaryHeap.toList_pop hpop
    have hready := hall pid (hperm.mem_iff.mpr List.mem_cons_self)
    have hlen := BinaryHeap.len_pop hpop
    exact .inr ⟨pid, h', popReady_some hpop hready (by omega), hperm⟩

/-- The MLFQ loop takes the first pid of the first level that has one. -/
theorem mlfqPop_cases (mlfq : ℕ → ReadyQueue)
    (hall : ∀ l, ∀ pid ∈ (mlfq l).toList, isReady t pid = true) (qs : List ℕ) :
    (mlfqPop t qs mlfq = (-1, mlfq) ∧ ∀ l ∈ qs, (mlfq l).toList = []) ∨
      ∃ pid l q', mlfqPop t qs mlfq = (pid, Function.update mlfq l q') ∧
        (mlfq l).toList = pid :: q'.toList := by
  induction qs with
  | nil => exact .inl ⟨rfl, fun l hl => absurd hl List.not_mem_nil⟩
  | cons l qs ih =>
    rw [mlfqPop]
    rcases queuePop_cases (hall l) with ⟨hnil, hpop⟩ | ⟨pid, q', hpop, hpos, hlist⟩
    · rw [hpop, Function.update_eq_self]
      rcases ih with ⟨hmlfq, hnils⟩ | hfound
      · exact .inl ⟨hmlfq, List.forall_mem_cons.mpr ⟨hnil, hnils⟩⟩
      · exact .inr hfound
    · refine .inr ⟨pid, l, q', ?_, hlist⟩
      rw [hpop]
      exact if_pos hpos

open scoped List in
/-- Picking from READY pids: one of them leaves one level, or there is none. -/
theorem schedPickNext_active (hall : ∀ l, ∀ pid ∈ s.active l, isReady t pid = true) :
    (schedPickNext t s).2.algo = s.algo ∧
      (((schedPickNext t s).1 = -1 ∧ (∀ l < mosrtMlfqLevels, s.active l = []) ∧
          ∀ l, (schedPickNext t s).2.active l = s.active l) ∨
        ∃ l, s.active l ~ (schedPickNext t s).1 :: (schedPickNext t s).2.active l ∧
          ∀ l', l' ≠ l → (schedPickNext t s).2.active l' = s.active l') := by
  cases ha : s.algo with
  | prio =>
    have hact : ∀ l, s.active l = if l = 0 then s.heap.toList else [] := fun l => by
      simp only [Scheduler.active, ha]
    rcases heapPop_cases (t := t) (h := s.heap) (fun x hx => hall 0 x (by rwa [hact, if_pos rfl]))
      with ⟨hnil, hpop⟩ | ⟨pid, h', hpop, hperm⟩
    · have hpick : schedPickNext t s = (-1, { s with currentPid := -1, consumedTicks := 0 }) := by
        simp only [schedPickNext, ha, hpop]
      rw [hpick]
      exact ⟨ha, .inl ⟨rfl, fun l _ => by simp [hact, hnil], fun l => rfl⟩⟩
    · have hpick : schedPickNext t s =
          (pid, { s with heap := h', currentPid := pid, consumedTicks := 0 }) := by
        simp only [schedPickNext, ha, hpop]
      rw [hpick]
      refine ⟨ha, .inr ⟨0, ?_, fun l hl => ?_⟩⟩
      · simpa only [Scheduler.active, ha, if_true] using hperm
      · simp only [Scheduler.active, ha, if_neg hl]
  | mlfq =>
    have hact : ∀ l, s.active l = (s.mlfq l).toList := fun l => by simp only [Scheduler.active, ha]
    rcases mlfqPop_cases (t := t) s.mlfq
        (fun l x hx => hall l x (by rwa [hact])) (List.range mosrtMlfqLevels)
      with ⟨hpop, hnils⟩ | ⟨pid, l, q', hpop, hlist⟩
    · have hpick : schedPickNext t s = (-1, { s with currentPid := -1, consumedTicks := 0 }) := by
        simp only [schedPickNext, ha, hpop]
      rw [hpick]
      refine ⟨ha, .inl ⟨rfl, fun l hl => ?_, fun l => rfl⟩⟩
      rw [hact, hnils l (List.mem_range.mpr hl)]
    · have hpick : schedPickNext t s =
          (pid, { s with
            mlfq := Function.update s.mlfq l q', currentPid := pid, consumedTicks := 0 }) := by
        simp only [schedPickNext, ha, hpop]
      rw [hpick]
      refine ⟨ha, .inr ⟨l, ?_, fun l' hl => ?_⟩⟩
      · simp only [Scheduler.active, ha, Function.update_self, hlist]
        exact .refl _
      · simp only [Scheduler.active, ha, Function.update_of_ne hl]
  | fcfs | rr =>
    have hact : ∀ l, s.active l = if l = 0 then s.rr.toList else [] := fun l => by
      simp only [Scheduler.active, ha]
    rcases queuePop_cases (t := t) (q := s.rr) (fun x hx => hall 0 x (by rwa [hact, if_pos rfl]))
      with ⟨hnil, hpop⟩ | ⟨pid, q', hpop, -, hlist⟩
    · have hpick : schedPickNext t s = (-1, { s with currentPid := -1, consumedTicks := 0 }) := by
        simp only [schedPickNext, ha, hpop]
      rw [hpick]
      exact ⟨ha, .inl ⟨rfl, fun l _ => by simp [hact, hnil], fun l => rfl⟩⟩
    · have hpick : schedPickNext t s =
          (pid, { s with rr := q', currentPid := pid, consumedTicks := 0 }) := by
        simp only [schedPickNext, ha, hpop]
      rw [hpick]
      refine ⟨ha, .inr ⟨0, ?_, fun l hl => ?_⟩⟩
      · simp only [Scheduler.active, ha, if_true, hlist]
        exact .refl _
      · simp only [Scheduler.active, ha, if_neg hl]

theorem schedPickNext_tracks {ready : ℤ → Option ℕ} (hs : s.Tracks ready)
    (hready : ∀ pid l, ready pid = some l → isReady t pid = true ∧ l < mosrtMlfqLevels) :
    (schedPickNext t s).2.algo = s.algo ∧
      (((schedPickNext t s).1 = -1 ∧ (∀ pid, ready pid = none) ∧
          (schedPickNext t s).2.Tracks ready) ∨
        ((∃ l, ready (schedPickNext t s).1 = some l) ∧
          (schedPickNext t s).2.Tracks (Function.update ready (schedPickNext t s).1 none))) := by
  have hall : ∀ l, ∀ pid ∈ s.active l, isReady t pid = true := fun l pid hpid =>
    (hready pid l (((hs l).2 pid).mp hpid)).1
  obtain ⟨halgo, ⟨hpid, hnil, hsame⟩ | ⟨l, hperm, hother⟩⟩ := schedPickNext_active hall
  · refine ⟨halgo, .inl ⟨hpid, fun pid => ?_, fun l => ?_⟩⟩
    · cases hr : ready pid with
      | none => rfl
      | some l =>
        have hmem := ((hs l).2 pid).mpr hr
        rw [hnil l (hready pid l hr).2] at hmem
        exact absurd hmem List.not_mem_nil
    · rw [hsame l]
      exact hs l
  · set r := schedPickNext t s
    have hmem : r.1 ∈ s.active l := hperm.mem_iff.mpr List.mem_cons_self
    have hl : ready r.1 = some l := ((hs l).2 _).mp hmem
    have hnodup := List.nodup_cons.mp (hperm.nodup_iff.mp (hs l).1)
    refine ⟨halgo, .inr ⟨⟨l, hl⟩, fun l' => ?_⟩⟩
    by_cases hl' : l' = l
    · subst hl'
      refine ⟨hnodup.2, fun x => ?_⟩
      by_cases hx : x = r.1
      · subst hx
        simp [hnodup.1]
      · rw [Function.update_of_ne hx, ← (hs l').2 x, hperm.mem_iff, List.mem_cons]
        simp [hx]
    · rw [hother l' hl']
      refine ⟨(hs l').1, fun x => ?_⟩
      by_cases hx : x = r.1
      · subst hx
        rw [(hs l').2, hl, Function.update_self]
        simp [Ne.symm hl']
      · rw [Function.update_of_ne hx, (hs l').2 x]

end Mosrt
