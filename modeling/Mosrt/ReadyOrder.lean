/-
The ready structures of the scheduler as abstract data types.

A ring queue is a list without duplicates.  Pids that are no longer READY stay in it until a
pop comes to them, so popping drops a prefix.  The heap of SCHED_PRIO is a priority queue as
long as the ranks of the queued pids stay what they are; states may change under it.

* `ring_refines_list` — a ring queue and the list stay in step along every run, and there is
  always room;
* `heapPop_least` — what a pop takes from a heap in order;
* `prio_queue` — along every run that leaves the ranks of queued pids alone, picks are least
  and a drained heap comes out in order.
-/
import Mosrt.PriorityDispatch

namespace Mosrt

variable {t t' : ProcTable} {q : ReadyQueue} {h : ReadyHeap} {s : Scheduler} {l : List ℤ}
  {pid : ℤ} {fuel : ℕ}

/-! ### Rings -/

/-- Append a pid, unless it is in the list. -/
def listPush (l : List ℤ) (pid : ℤ) : Bool × List ℤ :=
  if pid ∈ l then (false, l) else (true, l ++ [pid])

/-- Remove the prefix up to the first READY pid, and return that; `-1` if there is none. -/
def listPop (t : ProcTable) (l : List ℤ) : ℤ × List ℤ :=
  match l.dropWhile fun pid => !isReady t pid with
  | [] => (-1, [])
  | pid :: rest => (pid, rest)

/-- Calls on one ready queue; a pop reads the process table as it is then. -/
inductive QueueOp where
  | push (pid : ℤ)
  | pop (t : ProcTable)

def QueueOp.exec (q : ReadyQueue) : QueueOp → ReadyQueue
  | .push pid => (queuePush q pid).2
  | .pop t => (queuePop t q).2

/-- What a call returns. -/
def QueueOp.result (q : ReadyQueue) : QueueOp → List (Bool ⊕ ℤ)
  | .push pid => [.inl (queuePush q pid).1]
  | .pop t => [.inr (queuePop t q).1]

def QueueOp.execList (l : List ℤ) : QueueOp → List ℤ
  | .push pid => (listPush l pid).2
  | .pop t => (listPop t l).2

def QueueOp.resultList (l : List ℤ) : QueueOp → List (Bool ⊕ ℤ)
  | .push pid => [.inl (listPush l pid).1]
  | .pop t => [.inr (listPop t l).1]

/-- A pushed pid is one that the process table can hold. -/
def QueueOp.valid : QueueOp → Prop
  | .push pid => 1 ≤ pid ∧ pid ≤ mosrtMaxProcs
  | .pop _ => True

/-- The ring holds the list, and the list holds each of its pids once. -/
structure RingHolds (q : ReadyQueue) (l : List ℤ) : Prop where
  content : q.toList = l
  nodup : l.Nodup
  pids : ∀ pid ∈ l, 1 ≤ pid ∧ pid ≤ mosrtMaxProcs

theorem listPop_cons_ready (hready : isReady t pid = true) : listPop t (pid :: l) = (pid, l) := by
  rw [listPop, List.dropWhile_cons_of_neg (by simp [hready])]

theorem listPop_cons_skip (hready : isReady t pid = false) :
    listPop t (pid :: l) = listPop t l := by
  rw [listPop, List.dropWhile_cons_of_pos (by simp [hready]), listPop]

theorem listPop_sublist (t : ProcTable) (l : List ℤ) : (listPop t l).2.Sublist l := by
  induction l with
  | nil => exact .refl _
  | cons pid l ih =>
    by_cases hready : isReady t pid = true
    · rw [listPop_cons_ready hready]
      exact List.sublist_cons_self pid l
    · rw [listPop_cons_skip (by simpa using hready)]
      exact ih.cons pid

/-- A pop fails exactly if no pid of the list is READY. -/
theorem listPop_fails (t : ProcTable) (l : List ℤ) :
    (listPop t l).1 = -1 ↔ ∀ pid ∈ l, isReady t pid = false := by
  induction l with
  | nil => exact ⟨fun _ _ hx => absurd hx List.not_mem_nil, fun _ => rfl⟩
  | cons pid l ih =>
    by_cases hready : isReady t pid = true
    · have hpos := isReady_pos hready
      rw [listPop_cons_ready hready]
      refine ⟨fun heq => by omega, fun hall => ?_⟩
      have hnot := hall pid List.mem_cons_self
      rw [hready] at hnot
      cases hnot
    · have hready : isReady t pid = false := by simpa using hready
      rw [listPop_cons_skip hready, ih, List.forall_mem_cons]
      exact ⟨fun hall => ⟨hready, hall⟩, fun hall => hall.2⟩

/-- The loop of `queue_pop`, by the number of its rounds. -/
theorem popReady_ring (hfuel : q.len ≤ fuel) :
    (popReady t RingBuffer.pop fuel q).1 = (listPop t q.toList).1 ∧
      (popReady t RingBuffer.pop fuel q).2.toList = (listPop t q.toList).2 := by
  induction fuel generalizing q with
  | zero =>
    have hnil : q.toList = [] := RingBuffer.toList_eq_nil.mpr (Nat.le_zero.mp hfuel)
    rw [popReady, hnil]
    exact ⟨rfl, rfl⟩
  | succ fuel ih =>
    cases hpop : q.pop with
    | none =>
      have hnil : q.toList = [] := RingBuffer.toList_eq_nil.mpr (RingBuffer.pop_eq_none.mp hpop)
      rw [popReady_none hpop, hnil]
      exact ⟨rfl, rfl⟩
    | some r =>
      obtain ⟨pid, q'⟩ := r
      have hlen := RingBuffer.len_pop hpop
      rw [popReady, hpop, RingBuffer.toList_pop hpop]
      dsimp only
      by_cases hready : isReady t pid = true
      · rw [if_pos hready, listPop_cons_ready hready]
        exact ⟨rfl, rfl⟩
      · rw [if_neg hready, listPop_cons_skip (by simpa using hready)]
        exact ih (by omega)

theorem RingHolds.push (hq : RingHolds q l) (hpid : 1 ≤ pid ∧ pid ≤ mosrtMaxProcs) :
    RingHolds (queuePush q pid).2 (listPush l pid).2 ∧
      (queuePush q pid).1 = (listPush l pid).1 := by
  have hcontains : queueContains q pid = true ↔ pid ∈ l := by
    rw [queueContains, List.contains_iff_mem, hq.content]
  by_cases hmem : pid ∈ l
  · rw [queuePush, if_pos (.inr (hcontains.mpr hmem)), listPush, if_pos hmem]
    exact ⟨hq, rfl⟩
  · -- the other pids leave room for this one
    have hlen : q.len < mosrtMaxProcs := by
      rw [← RingBuffer.length_toList, hq.content]
      exact length_lt_of_pids hq.nodup hq.pids hpid hmem
    obtain ⟨htrue, hlist⟩ := queuePush_toList hlen (by rwa [hq.content])
    rw [htrue, listPush, if_neg hmem]
    refine ⟨⟨by rw [hlist, hq.content], ?_, ?_⟩, rfl⟩
    · exact hq.nodup.append (List.nodup_singleton pid) (List.disjoint_singleton.mpr hmem)
    · intro x hx
      rcases List.mem_append.mp hx with hx | hx
      · exact hq.pids x hx
      · rw [List.mem_singleton.mp hx]
        exact hpid

theorem RingHolds.pop (hq : RingHolds q l) (t : ProcTable) :
    RingHolds (queuePop t q).2 (listPop t l).2 ∧ (queuePop t q).1 = (listPop t l).1 := by
  obtain ⟨hpid, hlist⟩ := popReady_ring (t := t) (q := q) le_rfl
  have hsub := listPop_sublist t l
  rw [hq.content] at hpid hlist
  exact ⟨⟨hlist, hq.nodup.sublist hsub, fun x hx => hq.pids x (hsub.subset hx)⟩, hpid⟩

/-- **Ring queues refine lists.**  Along every run of pushes and pops, with process states
that change in between as they like, the ring holds what the list holds and every call returns
what the list returns: a pid that is not queued is always accepted, and a pop fails only if no
queued pid is READY. -/
theorem ring_refines_list (ops : List QueueOp) (hops : ∀ op ∈ ops, op.valid) :
    (Runs.run QueueOp.exec (.empty 0) ops).toList = Runs.run QueueOp.execList [] ops ∧
      (Runs.run QueueOp.execList [] ops).Nodup ∧
      Runs.history QueueOp.exec QueueOp.result (.empty 0) ops =
        Runs.history QueueOp.execList QueueOp.resultList [] ops ∧
      ∀ t, (queuePop t (Runs.run QueueOp.exec (.empty 0) ops)).1 = -1 ↔
        ∀ pid ∈ Runs.run QueueOp.execList [] ops, isReady t pid = false := by
  have hstep : ∀ q l op, RingHolds q l → QueueOp.valid op →
      RingHolds (QueueOp.exec q op) (QueueOp.execList l op) ∧
        QueueOp.result q op = QueueOp.resultList l op := by
    intro q l op hq hop
    cases op with
    | push pid =>
      obtain ⟨hnext, hresult⟩ := hq.push hop
      exact ⟨hnext, by rw [QueueOp.result, QueueOp.resultList, hresult]⟩
    | pop t =>
      obtain ⟨hnext, hresult⟩ := hq.pop t
      exact ⟨hnext, by rw [QueueOp.result, QueueOp.resultList, hresult]⟩
  have hinit : RingHolds (.empty 0) [] := ⟨rfl, List.nodup_nil, nofun⟩
  obtain ⟨hend, hhist⟩ := Runs.run_simulation hstep hinit hops
  refine ⟨hend.content, hend.nodup, hhist, fun t => ?_⟩
  rw [(hend.pop t).2]
  exact listPop_fails t _

/-- Nobody is READY in an empty process table: the pop empties the ring. -/
theorem ring_refines_list_empties :
    (Runs.run QueueOp.exec (.empty 0)
      [.push 1, .push 2, .push 1, .pop procTableInit, .push 3]).toList =
      [3] :=
  (ring_refines_list [.push 1, .push 2, .push 1, .pop procTableInit, .push 3]
    (by simp [QueueOp.valid])).1.trans (by decide)

/-! ### The heap -/

open scoped List in
/-- A pop from a heap in order takes out pids that are not READY, and then a READY one that no
pid left in the heap outranks; or there was none. -/
theorem heapPop_least (hord : h.Ordered (prioKey t)) :
    (heapPop t h).2.Ordered (prioKey t) ∧
      (((heapPop t h).1 = -1 ∧ (heapPop t h).2.toList = [] ∧
          ∀ x ∈ h.toList, isReady t x = false) ∨
        ∃ dropped, h.toList ~ dropped ++ (heapPop t h).1 :: (heapPop t h).2.toList ∧
          (∀ x ∈ dropped, isReady t x = false) ∧ isReady t (heapPop t h).1 = true ∧
          ∀ x ∈ (heapPop t h).2.toList, prioKey t (heapPop t h).1 ≤ prioKey t x) := by
  rw [heapPop]
  obtain ⟨fuel, hfuel⟩ : ∃ fuel, h.len = fuel := ⟨_, rfl⟩
  have hle : h.len ≤ fuel := hfuel.le
  rw [hfuel]
  clear hfuel
  induction fuel generalizing h with
  | zero =>
    have hnil : h.toList = [] := by
      rw [← List.length_eq_zero_iff, BinaryHeap.length_toList]
      omega
    rw [popReady, hnil]
    exact ⟨hord, .inl ⟨rfl, rfl, fun _ hx => absurd hx List.not_mem_nil⟩⟩
  | succ fuel ih =>
    cases hpop : h.pop (prioLess t) with
    | none =>
      have hnil : h.toList = [] := by
        rw [← List.length_eq_zero_iff, BinaryHeap.length_toList, BinaryHeap.pop_eq_none.mp hpop]
      rw [popReady_none hpop, hnil]
      exact ⟨hord, .inl ⟨rfl, rfl, fun _ hx => absurd hx List.not_mem_nil⟩⟩
    | some r =>
      obtain ⟨pid, h'⟩ := r
      have hlen := BinaryHeap.len_pop hpop
      have hperm := BinaryHeap.toList_pop hpop
      have hless : ∀ x y, prioLess t x y = true ↔ prioKey t x < prioKey t y :=
        fun _ _ => prioLess_iff
      obtain ⟨hord', hroot⟩ := BinaryHeap.pop_ordered hless hord hpop
      rw [popReady, hpop]
      dsimp only
      by_cases hready : isReady t pid = true
      · rw [if_pos hready]
        refine ⟨hord', .inr ⟨[], hperm, fun x hx => absurd hx List.not_mem_nil, hready,
          fun x hx => ?_⟩⟩
        exact hroot x (hperm.mem_iff.mpr (List.mem_cons_of_mem _ hx))
      · rw [if_neg hready]
        have hready : isReady t pid = false := by simpa using hready
        obtain ⟨hord'', hrest⟩ := ih hord' (by omega)
        refine ⟨hord'', hrest.imp ?_ ?_⟩
        · rintro ⟨hfail, hnil, hnone⟩
          refine ⟨hfail, hnil, fun x hx => ?_⟩
          rcases List.mem_cons.mp (hperm.mem_iff.mp hx) with rfl | hx
          · exact hready
          · exact hnone x hx
        · rintro ⟨dropped, hperm', hskip, hfound, hleast⟩
          exact ⟨pid :: dropped, hperm.trans (hperm'.cons pid),
            List.forall_mem_cons.mpr ⟨hready, hskip⟩, hfound, hleast⟩

/-- Calls under SCHED_PRIO, each with the process table as it is then. -/
inductive PrioOp where
  | enqueue (t : ProcTable) (pid : ℤ)
  | pick (t : ProcTable)

def PrioOp.table : PrioOp → ProcTable
  | .enqueue t _ | .pick t => t

/-- The scheduler, and the process table of the last call. -/
def PrioOp.exec (s : Scheduler × ProcTable) : PrioOp → Scheduler × ProcTable
  | .enqueue t pid => ((schedEnqueue t s.1 pid).2, t)
  | .pick t => ((schedPickNext t s.1).2, t)

/-- Since the last call, priority and `last_ready_tick` of no queued pid have changed. -/
def keepsRanks (s : Scheduler × ProcTable) (op : PrioOp) : Prop :=
  ∀ pid ∈ s.1.heap.toList, prioKey op.table pid = prioKey s.2 pid

/-- The priority of the process that is picked. -/
def PrioOp.picked (s : Scheduler × ProcTable) : PrioOp → List ℤ
  | .enqueue _ _ => []
  | .pick t => ((procGet t (schedPickNext t s.1).1).map (·.priority)).toList

/-- What a pick does: it returns a READY queued pid that no READY queued pid outranks, removes
it and otherwise only pids that are not READY; or it returns `-1`, and none was READY. -/
structure PicksLeast (t : ProcTable) (s : Scheduler) : Prop where
  ready : (schedPickNext t s).1 ≠ -1 →
    (schedPickNext t s).1 ∈ s.heap.toList ∧ isReady t (schedPickNext t s).1 = true ∧
      ∀ x ∈ s.heap.toList, isReady t x = true → ¬ prioKey t x < prioKey t (schedPickNext t s).1
  none : (schedPickNext t s).1 = -1 → ∀ x ∈ s.heap.toList, isReady t x = false
  taken : (schedPickNext t s).1 ∉ (schedPickNext t s).2.heap.toList
  kept : (schedPickNext t s).2.heap.toList ⊆ s.heap.toList
  dropped : ∀ x ∈ s.heap.toList, x ∉ (schedPickNext t s).2.heap.toList →
    x = (schedPickNext t s).1 ∨ isReady t x = false

/-- The state of the priority queue between two calls. -/
structure PrioOk (s : Scheduler × ProcTable) : Prop where
  algo : s.1.algo = .prio
  ordered : s.1.heap.Ordered (prioKey s.2)
  nodup : s.1.heap.toList.Nodup

theorem PrioOk.enqueue {s : Scheduler × ProcTable} (hs : PrioOk s) (pid : ℤ)
    (hkeep : keepsRanks s (.enqueue t pid)) : PrioOk (PrioOp.exec s (.enqueue t pid)) := by
  have hord := schedEnqueue_ordered (hs.ordered.congr hkeep) pid
  have hnext : (schedEnqueue t s.1 pid).2.algo = .prio ∧
      (schedEnqueue t s.1 pid).2.heap.toList.Nodup := by
    rw [schedEnqueue]
    cases hp : procGet t pid with
    | none => exact ⟨hs.algo, hs.nodup⟩
    | some p =>
      rw [hs.algo]
      refine ⟨rfl, ?_⟩
      show (heapPush t s.1.heap pid).2.toList.Nodup
      rw [heapPush]
      split_ifs with hfull
      · exact hs.nodup
      · rw [not_or, not_le, heapContains, List.contains_iff_mem] at hfull
        rw [(BinaryHeap.toList_push hfull.1).nodup_iff, List.nodup_cons]
        exact ⟨hfull.2, hs.nodup⟩
  exact ⟨hnext.1, hord, hnext.2⟩

theorem schedPickNext_prio (ha : s.algo = .prio) (t : ProcTable) :
    (schedPickNext t s).1 = (heapPop t s.heap).1 ∧
      (schedPickNext t s).2.heap = (heapPop t s.heap).2 ∧ (schedPickNext t s).2.algo = .prio := by
  rw [schedPickNext, ha]
  exact ⟨rfl, rfl, rfl⟩

theorem PrioOk.pick {s : Scheduler × ProcTable} (hs : PrioOk s) (hkeep : keepsRanks s (.pick t)) :
    PrioOk (PrioOp.exec s (.pick t)) ∧ PicksLeast t s.1 ∧
      ((schedPickNext t s.1).1 ≠ -1 → ∀ x ∈ (schedPickNext t s.1).2.heap.toList,
        prioKey t (schedPickNext t s.1).1 ≤ prioKey t x) := by
  have hkeep : ∀ pid ∈ s.1.heap.toList, prioKey t pid = prioKey s.2 pid := hkeep
  obtain ⟨hpid, hheap, halgo⟩ := schedPickNext_prio hs.algo t
  obtain ⟨hord, hcases⟩ := heapPop_least (hs.ordered.congr hkeep)
  rw [← hpid, ← hheap] at hcases
  rw [← hheap] at hord
  rcases hcases with ⟨hfail, hnil, hnone⟩ | ⟨dropped, hperm, hskip, hready, hleast⟩
  · have hnodup : (schedPickNext t s.1).2.heap.toList.Nodup := by
      rw [hnil]
      exact List.nodup_nil
    refine ⟨⟨halgo, hord, hnodup⟩, ⟨fun hne => absurd hfail hne, fun _ => hnone, ?_, ?_,
      fun x hx _ => .inr (hnone x hx)⟩, fun hne => absurd hfail hne⟩
    · rw [hnil]
      exact List.not_mem_nil
    · rw [hnil]
      exact List.nil_subset _
  · have hpos := isReady_pos hready
    have hnodup := hperm.nodup_iff.mp hs.nodup
    obtain ⟨htaken, hnodup'⟩ := List.nodup_cons.mp hnodup.of_append_right
    have hmem : ∀ x, x ∈ s.1.heap.toList ↔ x ∈ dropped ∨ x = (schedPickNext t s.1).1 ∨
        x ∈ (schedPickNext t s.1).2.heap.toList := by
      intro x
      rw [hperm.mem_iff, List.mem_append, List.mem_cons]
    refine ⟨⟨halgo, hord, hnodup'⟩, ⟨fun _ => ⟨?_, hready, fun x hx hxready => ?_⟩, fun hfail => ?_,
      htaken, fun x hx => ?_, fun x hx hgone => ?_⟩, fun _ => hleast⟩
    · exact (hmem _).mpr (.inr (.inl rfl))
    · rcases (hmem x).mp hx with hx | rfl | hx
      · rw [hskip x hx] at hxready
        cases hxready
      · exact lt_irrefl _
      · exact not_lt.mpr (hleast x hx)
    · omega
    · exact (hmem x).mpr (.inr (.inr hx))
    · rcases (hmem x).mp hx with hx | rfl | hx
      · exact .inr (hskip x hx)
      · exact .inl rfl
      · exact absurd hx hgone

theorem PrioOk.exec {s : Scheduler × ProcTable} {op : PrioOp} (hs : PrioOk s)
    (hkeep : keepsRanks s op) : PrioOk (PrioOp.exec s op) := by
  cases op with
  | enqueue t pid => exact hs.enqueue pid hkeep
  | pick t => exact (hs.pick hkeep).1

theorem prioInit_ok (quantumTicks : ℕ) (t : ProcTable) : PrioOk (schedInit .prio quantumTicks, t) :=
  ⟨rfl, BinaryHeap.empty_ordered, List.nodup_nil⟩

/-- A process picked has the priority in its rank; `-1` is no process. -/
theorem picked_eq {s : Scheduler × ProcTable} (hpick : PicksLeast t s.1) :
    ((schedPickNext t s.1).1 = -1 ∧ PrioOp.picked s (.pick t) = []) ∨
      (schedPickNext t s.1).1 ≠ -1 ∧ ∃ p, prioKey t (schedPickNext t s.1).1 = ↑(Pcb.rank p) ∧
        PrioOp.picked s (.pick t) = [p.priority] := by
  rw [PrioOp.picked]
  by_cases hfail : (schedPickNext t s.1).1 = -1
  · refine .inl ⟨hfail, ?_⟩
    cases hp : procGet t (schedPickNext t s.1).1 with
    | none => rfl
    | some p =>
      have := procGet_range hp
      omega
  · obtain ⟨p, hp, -⟩ := isReady_iff.mp (hpick.ready hfail).2.1
    refine .inr ⟨hfail, p, prioKey_of_get hp, ?_⟩
    rw [hp]
    rfl

/-- Picks in a row: the priorities do not decrease, and start above any bound of the heap. -/
theorem drain_sorted {s : Scheduler × ProcTable} {ts : List ProcTable} (hs : PrioOk s)
    (hts : Runs.Along PrioOp.exec keepsRanks s (ts.map .pick)) :
    (Runs.history PrioOp.exec PrioOp.picked s (ts.map .pick)).Pairwise (· ≤ ·) ∧
      ∀ b : ℤ ×ₗ ℕ, (∀ x ∈ s.1.heap.toList, ↑b ≤ prioKey s.2 x) →
        ∀ y ∈ Runs.history PrioOp.exec PrioOp.picked s (ts.map .pick), (ofLex b).1 ≤ y := by
  induction ts generalizing s with
  | nil => exact ⟨List.Pairwise.nil, fun _ _ _ hy => absurd hy List.not_mem_nil⟩
  | cons t ts ih =>
    obtain ⟨hkeep, hrest⟩ := hts
    obtain ⟨hnext, hpick, hleast⟩ := hs.pick hkeep
    obtain ⟨hsorted, hbound⟩ := ih hnext hrest
    -- what is left in the heap has the ranks it had
    have hkept : ∀ b : ℤ ×ₗ ℕ, (∀ x ∈ s.1.heap.toList, ↑b ≤ prioKey s.2 x) →
        ∀ x ∈ (schedPickNext t s.1).2.heap.toList, ↑b ≤ prioKey t x := by
      intro b hb x hx
      have hx' := hpick.kept hx
      have hkey : prioKey t x = prioKey s.2 x := hkeep x hx'
      rw [hkey]
      exact hb x hx'
    rw [List.map_cons, Runs.history]
    rcases picked_eq hpick with ⟨-, hnil⟩ | ⟨hfound, p, hkey, hpicked⟩
    · rw [hnil, List.nil_append]
      exact ⟨hsorted, fun b hb => hbound b (hkept b hb)⟩
    · rw [hpicked, List.singleton_append, List.pairwise_cons]
      have hp := hleast hfound
      rw [hkey] at hp
      refine ⟨⟨hbound p.rank hp, hsorted⟩, fun b hb y hy => ?_⟩
      rcases List.mem_cons.mp hy with rfl | hy
      · have hmem := (hpick.ready hfound).1
        have hle := hb _ hmem
        have hsame : prioKey t (schedPickNext t s.1).1 = prioKey s.2 (schedPickNext t s.1).1 :=
          hkeep _ hmem
        rw [← hsame, hkey, WithTop.coe_le_coe, Prod.Lex.le_iff] at hle
        have hfst : (ofLex p.rank).1 = p.priority := rfl
        omega
      · exact hbound b (hkept b hb) y hy

/-- **The heap is a priority queue.**  Along every run of calls that find the ranks of the queued
pids as they were, the heap is in order and holds no pid twice; a known pid that is not queued is
put into it, if there is room, and nothing else changes; every pick is least, and picks in a row
return priorities that do not decrease. -/
theorem prio_queue (quantumTicks : ℕ) (t₀ : ProcTable) (ops : List PrioOp) (ts : List ProcTable)
    (hops : Runs.Along PrioOp.exec keepsRanks (schedInit .prio quantumTicks, t₀)
      (ops ++ ts.map .pick)) (s : Scheduler × ProcTable)
    (hs : s = Runs.run PrioOp.exec (schedInit .prio quantumTicks, t₀) ops) :
    s.1.heap.Ordered (prioKey s.2) ∧ s.1.heap.toList.Nodup ∧
      (∀ t pid p, procGet t pid = some p → pid ∉ s.1.heap.toList → s.1.heap.len < mosrtMaxProcs →
        (schedEnqueue t s.1 pid).1 = true ∧
          (schedEnqueue t s.1 pid).2.heap.toList.Perm (pid :: s.1.heap.toList)) ∧
      (∀ t, ts.head? = some t → PicksLeast t s.1) ∧
      (Runs.history PrioOp.exec PrioOp.picked s (ts.map .pick)).Pairwise (· ≤ ·) := by
  obtain ⟨hbefore, hpicks⟩ := Runs.along_append.mp hops
  have hok : PrioOk s := by
    rw [hs]
    exact Runs.run_invariant (I := PrioOk) (fun _ _ h hkeep => h.exec hkeep)
      (prioInit_ok quantumTicks t₀) hbefore
  rw [← hs] at hpicks
  refine ⟨hok.ordered, hok.nodup, fun t pid p hp hnot hlen => ?_, fun t ht => ?_,
    (drain_sorted hok hpicks).1⟩
  · simp only [schedEnqueue, hp, hok.algo]
    exact heapPush_toList hlen hnot
  · obtain ⟨rest, rfl⟩ := List.head?_eq_some_iff.mp ht
    exact (hok.pick hpicks.1).2.1

/-- Two READY processes, of priority 5 and 3. -/
def twoReady : ProcTable where
  entries := fun i =>
    if i = 0 then { newPcb 1 0 5 0 with state := .ready }
    else if i = 1 then { newPcb 2 0 3 0 with state := .ready } else {}
  nextPid := 3
  pidToSlot := fun i => if i < 2 then some i else none

/-- Queued in one order and drained in the other. -/
theorem prio_queue_two :
    Runs.history PrioOp.exec PrioOp.picked (Runs.run PrioOp.exec (schedInit .prio 1, twoReady)
        [.enqueue twoReady 1, .enqueue twoReady 2]) [.pick twoReady, .pick twoReady] = [3, 5] ∧
      (Runs.history PrioOp.exec PrioOp.picked (Runs.run PrioOp.exec (schedInit .prio 1, twoReady)
        [.enqueue twoReady 1, .enqueue twoReady 2]) [.pick twoReady, .pick twoReady]).Pairwise
          (· ≤ ·) :=
  ⟨by decide +kernel, (prio_queue 1 twoReady [.enqueue twoReady 1, .enqueue twoReady 2]
    [twoReady, twoReady]
    ⟨fun _ _ => rfl, fun _ _ => rfl, fun _ _ => rfl, fun _ _ => rfl, trivial⟩ _ rfl).2.2.2.2⟩

end Mosrt
