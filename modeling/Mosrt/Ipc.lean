/-
Message queues (`ipc.c`).

A queue is a ring of messages, a list of messages granted to blocked receivers
and two lists of waiting pids.  The arrays `grant_pids` and `grants` are one list
of pairs; a pid of `-1` stands for nobody.  `ipcSend` and `ipcRecv` return the
branch they took, of which `result` is the value the C functions return.

Queues are used through their ids: `queueOf` is the queue an access finds, an
unknown id being that of a queue still to be made.

* `ipcOpen_spec` — looking a queue up, and making it if need be, changes no queue;
* `ipcSend_spec`, `ipcRecv_spec`, … — each call changes the queue it names, as the
  function on one queue says, and no other.
-/
import Mosrt.RingBuffer
import Mosrt.KeyedTable

namespace Mosrt

abbrev mosrtMaxMsgQueues : ℕ := 16
abbrev mosrtMsgCapacity : ℕ := 16
abbrev mosrtWaitqCapacity : ℕ := 128

/-- `ipc_result_t`. -/
inductive IpcResult where
  | ok | wouldBlock | error
deriving DecidableEq, Repr

/-- `ipc_message_t`. -/
structure IpcMessage where
  senderPid : ℤ
  value : ℤ
deriving DecidableEq, Repr

/-- `ipc_queue_t`; `items`, `head` and `len` are the ring. -/
structure IpcQueue where
  used : Bool := false
  id : ℤ := 0
  ring : RingBuffer IpcMessage mosrtMsgCapacity := .empty ⟨0, 0⟩
  grants : List (ℤ × IpcMessage) := []
  sendWaiters : List ℤ := []
  recvWaiters : List ℤ := []

/-- `g_queues`. -/
abbrev QueueTable := ℕ → IpcQueue

def findQueue (t : QueueTable) (id : ℤ) : Option ℕ :=
  KeyedTable.find IpcQueue.used IpcQueue.id mosrtMaxMsgQueues t id

/-! ### Waiters and grants -/

def waitqAdd (waiters : List ℤ) (pid : ℤ) : List ℤ :=
  if pid ∈ waiters then waiters
  else if waiters.length < mosrtWaitqCapacity then waiters ++ [pid]
  else waiters

def waitqPop : List ℤ → ℤ × List ℤ
  | [] => (-1, [])
  | pid :: waiters => (pid, waiters)

def waitqPeek (waiters : List ℤ) : ℤ := waiters.headD (-1)

def waitqRemove (waiters : List ℤ) (pid : ℤ) : List ℤ := waiters.erase pid

def grantAdd (q : IpcQueue) (pid : ℤ) (msg : IpcMessage) : Bool × IpcQueue :=
  if mosrtWaitqCapacity ≤ q.grants.length then (false, q)
  else (true, { q with grants := q.grants ++ [(pid, msg)] })

/-- `grant_take`; `none` is the return of `false`. -/
def grantTake (q : IpcQueue) (pid : ℤ) : Option (IpcMessage × IpcQueue) :=
  match q.grants.find? fun g => g.1 == pid with
  | none => none
  | some g => some (g.2, { q with grants := q.grants.eraseP fun g => g.1 == pid })

/-! ### Sending and receiving on one queue -/

/-- The branches of `ipc_send` on a queue that was found. -/
inductive SendBranch where
  | granted (receiver : ℤ)
  | grantsFull
  | full
  | stored
deriving DecidableEq, Repr

/-- The branches of `ipc_recv` on a queue that was found. -/
inductive RecvBranch where
  | collected (msg : IpcMessage)
  | notFirst
  | empty
  | dequeued (msg : IpcMessage)
deriving DecidableEq, Repr

def SendBranch.result : SendBranch → IpcResult
  | .granted _ | .stored => .ok
  | .full => .wouldBlock
  | .grantsFull => .error

def RecvBranch.result : RecvBranch → IpcResult
  | .collected _ | .dequeued _ => .ok
  | .notFirst | .empty => .wouldBlock

/-- The value of a call; without a queue it is `IPC_ERROR`. -/
def sendResult (r : Option SendBranch) : IpcResult := (r.map SendBranch.result).getD .error

def recvResult (r : Option RecvBranch) : IpcResult := (r.map RecvBranch.result).getD .error

/-- `ipc_send` on a queue that was found. -/
def queueSend (q : IpcQueue) (senderPid value : ℤ) : SendBranch × IpcQueue :=
  if 0 ≤ waitqPeek q.recvWaiters then
    let receiver := waitqPeek q.recvWaiters
    let r := grantAdd q receiver ⟨senderPid, value⟩
    (if r.1 then .granted receiver else .grantsFull, r.2)
  else if mosrtMsgCapacity ≤ q.ring.len then (.full, q)
  else (.stored, { q with ring := q.ring.push ⟨senderPid, value⟩ })

/-- `ipc_recv` on a queue that was found. -/
def queueRecv (q : IpcQueue) (receiverPid : ℤ) : RecvBranch × IpcQueue :=
  match grantTake q receiverPid with
  | some (msg, q) =>
    (.collected msg, { q with recvWaiters := waitqRemove q.recvWaiters receiverPid })
  | none =>
    if 0 ≤ waitqPeek q.recvWaiters ∧ waitqPeek q.recvWaiters ≠ receiverPid then (.notFirst, q)
    else
      match q.ring.pop with
      | none => (.empty, q)
      | some (msg, ring) => (.dequeued msg, { q with ring := ring })

/-! ### The functions of the module -/

def ipcInit : QueueTable := fun _ => {}

/-- A queue just made. -/
def newQueue (id : ℤ) : IpcQueue := { used := true, id := id }

/-- `ipc_create_queue`: resets the queue if it exists. -/
def ipcCreateQueue (t : QueueTable) (id : ℤ) : Bool × QueueTable :=
  match (findQueue t id).orElse fun _ => KeyedTable.free IpcQueue.used mosrtMaxMsgQueues t with
  | none => (false, t)
  | some i => (true, Function.update t i (newQueue id))

/-- Look a queue up, and make it if there is none; `none` if it cannot be made. -/
def ipcOpen (t : QueueTable) (id : ℤ) : Option ℕ × QueueTable :=
  match findQueue t id with
  | some i => (some i, t)
  | none =>
    let t := (ipcCreateQueue t id).2
    (findQueue t id, t)

def ipcSend (t : QueueTable) (qid senderPid value : ℤ) : Option SendBranch × QueueTable :=
  match ipcOpen t qid with
  | (none, t) => (none, t)
  | (some i, t) =>
    let r := queueSend (t i) senderPid value
    (some r.1, Function.update t i r.2)

def ipcRecv (t : QueueTable) (qid receiverPid : ℤ) : Option RecvBranch × QueueTable :=
  match ipcOpen t qid with
  | (none, t) => (none, t)
  | (some i, t) =>
    let r := queueRecv (t i) receiverPid
    (some r.1, Function.update t i r.2)

def ipcWaitSender (t : QueueTable) (qid pid : ℤ) : QueueTable :=
  match ipcOpen t qid with
  | (none, t) => t
  | (some i, t) =>
    Function.update t i { t i with sendWaiters := waitqAdd (t i).sendWaiters pid }

def ipcWaitReceiver (t : QueueTable) (qid pid : ℤ) : QueueTable :=
  match ipcOpen t qid with
  | (none, t) => t
  | (some i, t) =>
    Function.update t i { t i with recvWaiters := waitqAdd (t i).recvWaiters pid }

def ipcPopSenderWaiter (t : QueueTable) (qid : ℤ) : ℤ × QueueTable :=
  match findQueue t qid with
  | none => (-1, t)
  | some i =>
    let r := waitqPop (t i).sendWaiters
    (r.1, Function.update t i { t i with sendWaiters := r.2 })

def ipcPopReceiverWaiter (t : QueueTable) (qid : ℤ) : ℤ × QueueTable :=
  match findQueue t qid with
  | none => (-1, t)
  | some i =>
    let r := waitqPop (t i).recvWaiters
    (r.1, Function.update t i { t i with recvWaiters := r.2 })

/-! ### Queues by id -/

/-- The queue that a call with this id works on. -/
def queueOf (t : QueueTable) (id : ℤ) : IpcQueue :=
  KeyedTable.get IpcQueue.used IpcQueue.id mosrtMaxMsgQueues newQueue t id

/-- The table in which the queue `id` has become `q` and the others are what they were. -/
def QueueSet (t t' : QueueTable) (id : ℤ) (q : IpcQueue) : Prop :=
  findQueue t' id ≠ none ∧ ∀ id', queueOf t' id' = if id' = id then q else queueOf t id'

variable {t t' : QueueTable} {id qid pid value : ℤ} {i : ℕ} {q : IpcQueue}

theorem queueOf_init (id : ℤ) : queueOf ipcInit id = newQueue id := by
  have hnone : findQueue ipcInit id = none := by
    rw [findQueue, KeyedTable.find, List.find?_eq_none]
    simp [ipcInit]
  exact KeyedTable.get_of_none _ _ _ hnone

theorem queueOf_of_find (h : findQueue t id = some i) : queueOf t id = t i :=
  KeyedTable.get_of_find _ _ _ h

theorem QueueSet.self (h : QueueSet t t' id q) : queueOf t' id = q := by
  rw [h.2, if_pos rfl]

theorem QueueSet.other (h : QueueSet t t' id q) (hne : qid ≠ id) :
    queueOf t' qid = queueOf t qid := by
  rw [h.2, if_neg hne]

theorem QueueSet.update (h : findQueue t id = some i) (hu : q.used = (t i).used)
    (hid : q.id = (t i).id) : QueueSet t (Function.update t i q) id q := by
  constructor
  · have : findQueue (Function.update t i q) id = some i := by
      rw [← h]
      exact KeyedTable.find_update _ _ _ hu hid
    rw [this]
    exact Option.some_ne_none i
  · exact KeyedTable.get_update _ _ _ h hu hid

theorem QueueSet.trans {u : QueueTable} {q' : IpcQueue} (h : QueueSet t t' id q)
    (h' : QueueSet t' u id q') : QueueSet t u id q' := by
  refine ⟨h'.1, fun id' => ?_⟩
  rw [h'.2, h.2]
  split_ifs <;> rfl

/-- Looking a queue up changes no queue, and finds the one that belongs to the id. -/
theorem ipcOpen_spec (t : QueueTable) (id : ℤ) :
    (ipcOpen t id = (none, t) ∧ findQueue t id = none) ∨
      ∃ i t', ipcOpen t id = (some i, t') ∧ findQueue t' id = some i ∧ t' i = queueOf t id ∧
        ∀ id', queueOf t' id' = queueOf t id' := by
  rw [ipcOpen]
  cases hfind : findQueue t id with
  | some i => exact .inr ⟨i, t, rfl, hfind, (queueOf_of_find hfind).symm, fun _ => rfl⟩
  | none =>
    dsimp only
    cases hfree : KeyedTable.free IpcQueue.used mosrtMaxMsgQueues t with
    | none =>
      have hcreate : ipcCreateQueue t id = (false, t) := by
        simp [ipcCreateQueue, hfind, hfree]
      rw [hcreate, hfind]
      exact .inl ⟨rfl, rfl⟩
    | some j =>
      have hcreate : ipcCreateQueue t id = (true, Function.update t j (newQueue id)) := by
        simp [ipcCreateQueue, hfind, hfree]
      have hself : findQueue (Function.update t j (newQueue id)) id = some j :=
        KeyedTable.find_new_self _ _ _ hfind hfree rfl rfl
      have hnew : queueOf t id = newQueue id := KeyedTable.get_of_none _ _ _ hfind
      rw [hcreate]
      dsimp only
      rw [hself]
      refine .inr ⟨j, _, rfl, hself, ?_, fun id' => ?_⟩
      · rw [Function.update_self, hnew]
      · have := KeyedTable.get_new IpcQueue.used IpcQueue.id mosrtMaxMsgQueues (d := newQueue)
          hfind hfree (a := newQueue id) rfl rfl id'
        rw [queueOf, this]
        split_ifs with hid
        · rw [hid, hnew]
        · rfl

/-- Changing the queue that a lookup found. -/
theorem QueueSet.of_open (hopen : ∀ id', queueOf t' id' = queueOf t id')
    (hset : QueueSet t' (Function.update t' i q) id q) :
    QueueSet t (Function.update t' i q) id q :=
  ⟨hset.1, fun id' => by rw [hset.2, hopen]⟩

theorem grantAdd_name (msg : IpcMessage) :
    (grantAdd q pid msg).2.used = q.used ∧ (grantAdd q pid msg).2.id = q.id := by
  rw [grantAdd]
  split_ifs <;> exact ⟨rfl, rfl⟩

theorem queueSend_name : (queueSend q pid value).2.used = q.used ∧
    (queueSend q pid value).2.id = q.id := by
  rw [queueSend]
  split_ifs
  · exact grantAdd_name _
  · exact ⟨rfl, rfl⟩
  · exact ⟨rfl, rfl⟩

theorem queueRecv_name : (queueRecv q pid).2.used = q.used ∧ (queueRecv q pid).2.id = q.id := by
  rw [queueRecv, grantTake]
  cases q.grants.find? fun g => g.1 == pid with
  | some g => exact ⟨rfl, rfl⟩
  | none =>
    dsimp only
    split_ifs
    · exact ⟨rfl, rfl⟩
    · cases q.ring.pop with
      | none => exact ⟨rfl, rfl⟩
      | some r => exact ⟨rfl, rfl⟩

/-- Sending: no queue could be made, or the queue of this id takes the step. -/
theorem ipcSend_spec (t : QueueTable) (qid pid value : ℤ) :
    ((ipcSend t qid pid value).1 = none ∧ (ipcSend t qid pid value).2 = t ∧
        findQueue t qid = none) ∨
      (ipcSend t qid pid value).1 = some (queueSend (queueOf t qid) pid value).1 ∧
        QueueSet t (ipcSend t qid pid value).2 qid (queueSend (queueOf t qid) pid value).2 := by
  rw [ipcSend]
  rcases ipcOpen_spec t qid with ⟨hopen, hfind⟩ | ⟨i, t', hopen, hi, hq, hall⟩
  · rw [hopen]
    exact .inl ⟨rfl, rfl, hfind⟩
  · rw [hopen, ← hq]
    exact .inr ⟨rfl, .of_open hall (.update hi queueSend_name.1 queueSend_name.2)⟩

theorem ipcRecv_spec (t : QueueTable) (qid pid : ℤ) :
    ((ipcRecv t qid pid).1 = none ∧ (ipcRecv t qid pid).2 = t ∧ findQueue t qid = none) ∨
      (ipcRecv t qid pid).1 = some (queueRecv (queueOf t qid) pid).1 ∧
        QueueSet t (ipcRecv t qid pid).2 qid (queueRecv (queueOf t qid) pid).2 := by
  rw [ipcRecv]
  rcases ipcOpen_spec t qid with ⟨hopen, hfind⟩ | ⟨i, t', hopen, hi, hq, hall⟩
  · rw [hopen]
    exact .inl ⟨rfl, rfl, hfind⟩
  · rw [hopen, ← hq]
    exact .inr ⟨rfl, .of_open hall (.update hi queueRecv_name.1 queueRecv_name.2)⟩

/-! The remaining calls are made on queues that exist. -/

theorem ipcWaitSender_spec (pid : ℤ) (h : findQueue t qid ≠ none) :
    QueueSet t (ipcWaitSender t qid pid) qid
      { queueOf t qid with sendWaiters := waitqAdd (queueOf t qid).sendWaiters pid } := by
  obtain ⟨i, hi⟩ := Option.ne_none_iff_exists'.mp h
  rw [ipcWaitSender, ipcOpen, hi, queueOf_of_find hi]
  exact .update hi rfl rfl

theorem ipcWaitReceiver_spec (pid : ℤ) (h : findQueue t qid ≠ none) :
    QueueSet t (ipcWaitReceiver t qid pid) qid
      { queueOf t qid with recvWaiters := waitqAdd (queueOf t qid).recvWaiters pid } := by
  obtain ⟨i, hi⟩ := Option.ne_none_iff_exists'.mp h
  rw [ipcWaitReceiver, ipcOpen, hi, queueOf_of_find hi]
  exact .update hi rfl rfl

theorem ipcPopSenderWaiter_spec (h : findQueue t qid ≠ none) :
    (ipcPopSenderWaiter t qid).1 = (waitqPop (queueOf t qid).sendWaiters).1 ∧
      QueueSet t (ipcPopSenderWaiter t qid).2 qid
        { queueOf t qid with sendWaiters := (waitqPop (queueOf t qid).sendWaiters).2 } := by
  obtain ⟨i, hi⟩ := Option.ne_none_iff_exists'.mp h
  rw [ipcPopSenderWaiter, hi, queueOf_of_find hi]
  exact ⟨rfl, .update hi rfl rfl⟩

theorem ipcPopReceiverWaiter_spec (h : findQueue t qid ≠ none) :
    (ipcPopReceiverWaiter t qid).1 = (waitqPop (queueOf t qid).recvWaiters).1 ∧
      QueueSet t (ipcPopReceiverWaiter t qid).2 qid
        { queueOf t qid with recvWaiters := (waitqPop (queueOf t qid).recvWaiters).2 } := by
  obtain ⟨i, hi⟩ := Option.ne_none_iff_exists'.mp h
  rw [ipcPopReceiverWaiter, hi, queueOf_of_find hi]
  exact ⟨rfl, .update hi rfl rfl⟩

/-! ### The branches -/

/-- What `ipc_send` does on a queue, branch by branch. -/
inductive SendCase (q : IpcQueue) (senderPid value : ℤ) : SendBranch × IpcQueue → Prop
  | granted (receiver : ℤ) (rest : List ℤ) : q.recvWaiters = receiver :: rest → 0 ≤ receiver →
      q.grants.length < mosrtWaitqCapacity →
      SendCase q senderPid value
        (.granted receiver, { q with grants := q.grants ++ [(receiver, ⟨senderPid, value⟩)] })
  | grantsFull : mosrtWaitqCapacity ≤ q.grants.length →
      SendCase q senderPid value (.grantsFull, q)
  | full : waitqPeek q.recvWaiters < 0 → mosrtMsgCapacity ≤ q.ring.len →
      SendCase q senderPid value (.full, q)
  | stored : waitqPeek q.recvWaiters < 0 → q.ring.len < mosrtMsgCapacity →
      SendCase q senderPid value (.stored, { q with ring := q.ring.push ⟨senderPid, value⟩ })

theorem queueSend_case (q : IpcQueue) (senderPid value : ℤ) :
    SendCase q senderPid value (queueSend q senderPid value) := by
  rw [queueSend]
  by_cases hpeek : 0 ≤ waitqPeek q.recvWaiters
  · rw [if_pos hpeek]
    dsimp only
    rw [grantAdd]
    by_cases hroom : mosrtWaitqCapacity ≤ q.grants.length
    · rw [if_pos hroom]
      exact .grantsFull hroom
    · obtain ⟨receiver, rest, hws⟩ : ∃ receiver rest, q.recvWaiters = receiver :: rest := by
        refine List.exists_cons_of_ne_nil fun hnil => ?_
        rw [hnil] at hpeek
        exact absurd hpeek (by decide)
      have hfirst : waitqPeek q.recvWaiters = receiver := by
        rw [hws]
        rfl
      rw [if_neg hroom]
      rw [hfirst] at hpeek ⊢
      exact .granted receiver rest hws hpeek (not_le.mp hroom)
  · rw [if_neg hpeek]
    split_ifs with hfull
    · exact .full (not_le.mp hpeek) hfull
    · exact .stored (not_le.mp hpeek) (not_le.mp hfull)

/-- What `ipc_recv` does on a queue, branch by branch. -/
inductive RecvCase (q : IpcQueue) (pid : ℤ) : RecvBranch × IpcQueue → Prop
  | collected (msg : IpcMessage) : (q.grants.find? fun g => g.1 == pid) = some (pid, msg) →
      RecvCase q pid (.collected msg, { q with
        grants := q.grants.eraseP fun g => g.1 == pid
        recvWaiters := waitqRemove q.recvWaiters pid })
  | notFirst : (∀ g ∈ q.grants, g.1 ≠ pid) → 0 ≤ waitqPeek q.recvWaiters →
      waitqPeek q.recvWaiters ≠ pid → RecvCase q pid (.notFirst, q)
  | empty : (∀ g ∈ q.grants, g.1 ≠ pid) → q.ring.len = 0 → RecvCase q pid (.empty, q)
  | dequeued (msg : IpcMessage) (ring : RingBuffer IpcMessage mosrtMsgCapacity) :
      (∀ g ∈ q.grants, g.1 ≠ pid) →
      ¬ (0 ≤ waitqPeek q.recvWaiters ∧ waitqPeek q.recvWaiters ≠ pid) →
      q.ring.pop = some (msg, ring) → RecvCase q pid (.dequeued msg, { q with ring := ring })

theorem queueRecv_case (q : IpcQueue) (pid : ℤ) : RecvCase q pid (queueRecv q pid) := by
  rw [queueRecv, grantTake]
  cases hfind : q.grants.find? fun g => g.1 == pid with
  | some g =>
    have hpid : g.1 = pid := by simpa using List.find?_some hfind
    subst hpid
    exact .collected g.2 hfind
  | none =>
    have hnone : ∀ g ∈ q.grants, g.1 ≠ pid := by
      simpa using List.find?_eq_none.mp hfind
    dsimp only
    by_cases hfirst : 0 ≤ waitqPeek q.recvWaiters ∧ waitqPeek q.recvWaiters ≠ pid
    · rw [if_pos hfirst]
      exact .notFirst hnone hfirst.1 hfirst.2
    · rw [if_neg hfirst]
      cases hpop : q.ring.pop with
      | none => exact .empty hnone (RingBuffer.pop_eq_none.mp hpop)
      | some r => exact .dequeued r.1 r.2 hnone hfirst hpop

end Mosrt
