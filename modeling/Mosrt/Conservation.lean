/-
Conservation and order of messages.

`IpcEvent` records what the `SEND` and `RECV` instructions of a run do to a queue.
`Logged` relates the events on a queue to what is in it; `SEND` and `RECV` keep this
(`Logged.send`, `Logged.recv`), nothing else touches a queue, and so it holds in every
run (`messages_conserved`): messages leave in the order in which they were accepted,
none is lost or duplicated, and blocked receivers are served in turn.
-/
import Mosrt.Operations

namespace Mosrt

/-- What can happen on a queue. -/
inductive IpcEvent where
  /-- `ipc_send` took the message. -/
  | accepted (msg : IpcMessage)
  /-- The message was granted to a blocked receiver. -/
  | granted (receiver : ℤ) (msg : IpcMessage)
  /-- `ipc_recv` handed a message from the ring to the receiver. -/
  | dequeued (receiver : ℤ) (msg : IpcMessage)
  /-- `ipc_recv` handed a message that was granted before to the receiver. -/
  | collected (receiver : ℤ) (msg : IpcMessage)
  /-- The receiver was entered in `recv_waiters`. -/
  | registered (receiver : ℤ)
deriving DecidableEq, Repr

namespace IpcEvent

def accepts (evs : List IpcEvent) : List IpcMessage :=
  evs.filterMap fun | .accepted msg => some msg | _ => none

/-- The messages that left the hands of the queue, in order. -/
def handOuts (evs : List IpcEvent) : List IpcMessage :=
  evs.filterMap fun | .granted _ msg => some msg | .dequeued _ msg => some msg | _ => none

def grants (evs : List IpcEvent) : List (ℤ × IpcMessage) :=
  evs.filterMap fun | .granted receiver msg => some (receiver, msg) | _ => none

def collects (evs : List IpcEvent) : List (ℤ × IpcMessage) :=
  evs.filterMap fun | .collected receiver msg => some (receiver, msg) | _ => none

/-- The successful returns of `ipc_recv`. -/
def receipts (evs : List IpcEvent) : List (ℤ × IpcMessage) :=
  evs.filterMap fun
    | .dequeued receiver msg => some (receiver, msg)
    | .collected receiver msg => some (receiver, msg)
    | _ => none

def registers (evs : List IpcEvent) : List ℤ :=
  evs.filterMap fun | .registered receiver => some receiver | _ => none

/-- Each grant and each dequeue is a hand-out; each dequeue and each collection a receipt. -/
theorem length_handOuts (evs : List IpcEvent) :
    (handOuts evs).length + (collects evs).length =
      (grants evs).length + (receipts evs).length := by
  rw [handOuts, collects, grants, receipts]
  induction evs with
  | nil => rfl
  | cons e evs ih =>
    cases e with
    | accepted | registered => simpa using ih
    | granted | dequeued | collected =>
      simp only [List.filterMap_cons, List.length_cons]
      omega

end IpcEvent

/-! ### Events of an instruction -/

def sendEvents (senderPid value : ℤ) : Option SendBranch → List IpcEvent
  | some (.granted receiver) =>
    [.accepted ⟨senderPid, value⟩, .granted receiver ⟨senderPid, value⟩]
  | some .stored => [.accepted ⟨senderPid, value⟩]
  | _ => []

/-- The events of a `RECV`; a receiver that blocks may be registered already. -/
def recvEvents (q : IpcQueue) (receiverPid : ℤ) : Option RecvBranch → List IpcEvent
  | some (.collected msg) => [.collected receiverPid msg]
  | some (.dequeued msg) => [.dequeued receiverPid msg]
  | some _ =>
    if waitqAdd q.recvWaiters receiverPid = q.recvWaiters then [] else [.registered receiverPid]
  | none => []

/-- What the instruction that `rt` is about to execute does on the queue `qid`. -/
def ipcEvents (qid : ℤ) (rt : Runtime) : List IpcEvent :=
  match rt.insnOf rt.currentPid with
  | none => []
  | some insn =>
    if insn.arg0 = qid then
      match insn.op with
      | .send => sendEvents rt.currentPid insn.arg1
          (ipcSend rt.queues qid rt.currentPid insn.arg1).1
      | .recv => recvEvents (queueOf rt.queues qid) rt.currentPid
          (ipcRecv rt.queues qid rt.currentPid).1
      | _ => []
    else []

/-- What an operation does on the queue `qid`. -/
def RtOp.ipcEvents (qid : ℤ) (rt : Runtime) (op : RtOp) : List IpcEvent :=
  (op.executing rt).elim [] (Mosrt.ipcEvents qid)

/-! ### One queue -/

/-- The first match and what is left without it. -/
theorem perm_cons_eraseP {α : Type*} {P : α → Bool} {l : List α} {a : α}
    (h : l.find? P = some a) : l.Perm (a :: l.eraseP P) := by
  induction l with
  | nil => cases h
  | cons b l ih =>
    by_cases hb : P b = true
    · rw [List.find?_cons_of_pos hb] at h
      rw [List.eraseP_cons_of_pos hb, Option.some.inj h]
    · rw [List.find?_cons_of_neg hb] at h
      rw [List.eraseP_cons_of_neg hb]
      exact ((ih h).cons b).trans (List.Perm.swap a b _)

open IpcEvent in
/-- The events on a queue so far, and what is in it. -/
structure Logged (evs : List IpcEvent) (q : IpcQueue) : Prop where
  fifo : accepts evs = handOuts evs ++ q.ring.toList
  granted : (grants evs).Perm (collects evs ++ q.grants)
  order : registers evs = (grants evs).map Prod.fst ++ q.recvWaiters
  idle : q.recvWaiters ≠ [] → q.ring.toList = []
  nodup : q.recvWaiters.Nodup
  positive : ∀ pid ∈ q.recvWaiters, 0 ≤ pid
  apart : ∀ g ∈ q.grants, g.1 ∉ q.recvWaiters

variable {evs : List IpcEvent} {q q' : IpcQueue} {pid value qid : ℤ}

/-- Senders that wait are not part of it. -/
theorem Logged.withSenders (h : Logged evs q) (ws : List ℤ) :
    Logged evs { q with sendWaiters := ws } :=
  ⟨h.fifo, h.granted, h.order, h.idle, h.nodup, h.positive, h.apart⟩

theorem Logged.waiters_nil (h : Logged evs q) (hpeek : waitqPeek q.recvWaiters < 0) :
    q.recvWaiters = [] := by
  cases hws : q.recvWaiters with
  | nil => rfl
  | cons w rest =>
    have hpos := h.positive w (by rw [hws]; exact List.mem_cons_self)
    rw [hws] at hpeek
    exact absurd hpos (not_le.mpr hpeek)

open IpcEvent in
/-- The first waiter is granted the message and leaves the list. -/
theorem Logged.grant {receiver : ℤ} {rest : List ℤ} (h : Logged evs q) (msg : IpcMessage)
    (hws : q.recvWaiters = receiver :: rest) :
    Logged (evs ++ [.accepted msg, .granted receiver msg])
      { q with grants := q.grants ++ [(receiver, msg)], recvWaiters := rest } := by
  have hnodup := h.nodup
  have horder := h.order
  have hfifo := h.fifo
  rw [hws] at hnodup horder
  rw [h.idle (by rw [hws]; exact List.cons_ne_nil _ _), List.append_nil] at hfifo
  obtain ⟨hnot, hrest⟩ := List.nodup_cons.mp hnodup
  have hring : q.ring.toList = [] := h.idle (by rw [hws]; exact List.cons_ne_nil _ _)
  refine ⟨?_, ?_, ?_, fun _ => hring, hrest, fun pid hpid => ?_, fun g hg => ?_⟩
  · simp [accepts, handOuts, List.filterMap_append, hring] at hfifo ⊢
    exact hfifo
  · have hg := h.granted.append_right [(receiver, msg)]
    simp [grants, collects, List.filterMap_append] at hg ⊢
    exact hg
  · simp [registers, grants, List.filterMap_append] at horder ⊢
    exact horder
  · exact h.positive pid (by rw [hws]; exact List.mem_cons_of_mem _ hpid)
  · rcases List.mem_append.mp hg with hg | hg
    · have := h.apart g hg
      rw [hws] at this
      exact fun hmem => this (List.mem_cons_of_mem _ hmem)
    · rw [List.mem_singleton.mp hg]
      exact hnot

open IpcEvent in
/-- The message goes to the end of the ring. -/
theorem Logged.store (h : Logged evs q) (msg : IpcMessage) (hws : q.recvWaiters = [])
    (hroom : q.ring.len < mosrtMsgCapacity) :
    Logged (evs ++ [.accepted msg]) { q with ring := q.ring.push msg } := by
  have hfifo := h.fifo
  have hgranted := h.granted
  have horder := h.order
  refine ⟨?_, ?_, ?_, fun hne => absurd hws hne, h.nodup, h.positive, h.apart⟩
  · simp [accepts, handOuts, List.filterMap_append, RingBuffer.toList_push hroom] at hfifo ⊢
    rw [hfifo, List.append_assoc]
  · simpa [grants, collects, List.filterMap_append] using hgranted
  · simpa [registers, grants, List.filterMap_append] using horder

open IpcEvent in
/-- A granted message is received by the process it was granted to. -/
theorem Logged.collect {msg : IpcMessage} (h : Logged evs q)
    (hfind : (q.grants.find? fun g => g.1 == pid) = some (pid, msg)) :
    Logged (evs ++ [.collected pid msg])
      { q with
        grants := q.grants.eraseP fun g => g.1 == pid
        recvWaiters := waitqRemove q.recvWaiters pid } := by
  have hmem := List.mem_of_find?_eq_some hfind
  -- a process that holds a grant does not wait
  have hwaiters : waitqRemove q.recvWaiters pid = q.recvWaiters :=
    List.erase_of_not_mem (h.apart _ hmem)
  have hperm : q.grants.Perm ((pid, msg) :: q.grants.eraseP fun g => g.1 == pid) :=
    perm_cons_eraseP hfind
  have hfifo := h.fifo
  have horder := h.order
  rw [hwaiters]
  refine ⟨?_, ?_, ?_, h.idle, h.nodup, h.positive, fun g hg => h.apart g ?_⟩
  · simpa [accepts, handOuts, List.filterMap_append] using hfifo
  · have hgranted := h.granted.trans (hperm.append_left _)
    simpa [grants, collects, List.filterMap_append] using hgranted
  · simpa [registers, grants, List.filterMap_append] using horder
  · exact List.mem_of_mem_eraseP hg

open IpcEvent in
/-- The first message of the ring is received. -/
theorem Logged.dequeue {msg : IpcMessage} {ring : RingBuffer IpcMessage mosrtMsgCapacity}
    (h : Logged evs q) (hpop : q.ring.pop = some (msg, ring)) :
    Logged (evs ++ [.dequeued pid msg]) { q with ring := ring } := by
  have hlist := RingBuffer.toList_pop hpop
  have hfifo := h.fifo
  have hgranted := h.granted
  have horder := h.order
  refine ⟨?_, ?_, ?_, fun hne => ?_, h.nodup, h.positive, h.apart⟩
  · rw [hlist] at hfifo
    simpa [accepts, handOuts, List.filterMap_append] using hfifo
  · simpa [grants, collects, List.filterMap_append] using hgranted
  · simpa [registers, grants, List.filterMap_append] using horder
  · have := h.idle hne
    rw [hlist] at this
    cases this

open IpcEvent in
/-- A receiver that finds nothing is registered, unless it is already or there is no room. -/
theorem Logged.register (h : Logged evs q) (hpos : 0 ≤ pid) (hnone : ∀ g ∈ q.grants, g.1 ≠ pid)
    (hring : q.ring.toList = []) :
    Logged (evs ++ if waitqAdd q.recvWaiters pid = q.recvWaiters then [] else [.registered pid])
      { q with recvWaiters := waitqAdd q.recvWaiters pid } := by
  by_cases hsame : waitqAdd q.recvWaiters pid = q.recvWaiters
  · rw [if_pos hsame, hsame, List.append_nil]
    exact h
  · have hadd : pid ∉ q.recvWaiters ∧ waitqAdd q.recvWaiters pid = q.recvWaiters ++ [pid] := by
      rw [waitqAdd] at hsame ⊢
      split_ifs at hsame ⊢ with hmem hroom
      · exact absurd rfl hsame
      · exact ⟨hmem, rfl⟩
      · exact absurd rfl hsame
    have hfifo := h.fifo
    have hgranted := h.granted
    have horder := h.order
    rw [if_neg hsame, hadd.2]
    refine ⟨?_, ?_, ?_, fun _ => hring, ?_, fun w hw => ?_, fun g hg hmem => ?_⟩
    · simpa [accepts, handOuts, List.filterMap_append] using hfifo
    · simpa [grants, collects, List.filterMap_append] using hgranted
    · simp [registers, grants, List.filterMap_append] at horder ⊢
      rw [horder, List.append_assoc]
    · exact List.nodup_append.mpr ⟨h.nodup, List.nodup_singleton pid, fun a ha b hb hab => by
        rw [hab, List.mem_singleton.mp hb] at ha
        exact hadd.1 ha⟩
    · rcases List.mem_append.mp hw with hw | hw
      · exact h.positive w hw
      · rw [List.mem_singleton.mp hw]
        exact hpos
    · rcases List.mem_append.mp hmem with hmem | hmem
      · exact h.apart g hg hmem
      · exact hnone g hg (List.mem_singleton.mp hmem)

/-! ### Sending and receiving -/

/-- A `SEND` that succeeds, with the receiver it wakes taken from the list. -/
theorem Logged.send (h : Logged evs q) (hr : (queueSend q pid value).1.result = .ok) :
    Logged (evs ++ sendEvents pid value (some (queueSend q pid value).1))
      { (queueSend q pid value).2 with
        recvWaiters := (waitqPop (queueSend q pid value).2.recvWaiters).2 } := by
  have hcase := queueSend_case q pid value
  generalize queueSend q pid value = r at hcase hr ⊢
  cases hcase with
  | granted receiver rest hws _ _ =>
    have := h.grant ⟨pid, value⟩ hws
    rw [hws]
    exact this
  | stored hpeek hroom =>
    have hnil := h.waiters_nil hpeek
    have hstore := h.store ⟨pid, value⟩ hnil hroom
    have hpop : (waitqPop q.recvWaiters).2 = q.recvWaiters := by
      rw [hnil]
      rfl
    dsimp only
    rw [hpop]
    exact hstore
  | grantsFull | full => cases hr

/-- A `SEND` that fails leaves no trace on the queue. -/
theorem queueSend_not_ok (hr : (queueSend q pid value).1.result ≠ .ok) :
    (queueSend q pid value).2 = q ∧
      sendEvents pid value (some (queueSend q pid value).1) = [] := by
  have hcase := queueSend_case q pid value
  generalize queueSend q pid value = r at hcase hr ⊢
  cases hcase with
  | granted | stored => exact absurd rfl hr
  | grantsFull | full => exact ⟨rfl, rfl⟩

theorem Logged.recv (h : Logged evs q) (hr : (queueRecv q pid).1.result = .ok) :
    Logged (evs ++ recvEvents q pid (some (queueRecv q pid).1)) (queueRecv q pid).2 := by
  have hcase := queueRecv_case q pid
  generalize queueRecv q pid = r at hcase hr ⊢
  cases hcase with
  | collected msg hfind => exact h.collect hfind
  | dequeued msg ring _ _ hpop => exact h.dequeue hpop
  | notFirst | empty => cases hr

/-- A `RECV` that finds nothing registers its process. -/
theorem Logged.recvBlock (h : Logged evs q) (hpos : 0 ≤ pid)
    (hr : (queueRecv q pid).1.result = .wouldBlock) :
    Logged (evs ++ recvEvents q pid (some (queueRecv q pid).1))
      { (queueRecv q pid).2 with
        recvWaiters := waitqAdd (queueRecv q pid).2.recvWaiters pid } := by
  have hcase := queueRecv_case q pid
  generalize queueRecv q pid = r at hcase hr ⊢
  cases hcase with
  | collected | dequeued => cases hr
  | notFirst hnone hpeek _ =>
    -- others wait, so the ring is empty
    refine h.register hpos hnone (h.idle ?_)
    intro hnil
    rw [hnil] at hpeek
    exact absurd hpeek (by decide)
  | empty hnone hlen => exact h.register hpos hnone (RingBuffer.toList_eq_nil.mpr hlen)

/-! ### One instruction -/

variable {rt rt' : Runtime} {p : Pcb} {idx : ℕ} {insn : WorkloadInsn} {c : Core}

theorem ipcEvents_other (hinsn : rt.insnOf rt.currentPid = some insn) (hne : insn.arg0 ≠ qid) :
    ipcEvents qid rt = [] := by
  rw [ipcEvents, hinsn]
  exact if_neg hne

theorem Logged.sendOutcome (h : Logged evs (rt.abs.queue qid)) (hop : insn.op = .send)
    (hinsn : rt.insnOf rt.currentPid = some insn) (hout : SendOutcome rt p insn c) :
    Logged (evs ++ ipcEvents qid rt) (c.queue qid) := by
  by_cases hq : insn.arg0 = qid
  · have hevents : ipcEvents qid rt = sendEvents rt.currentPid insn.arg1
        (ipcSend rt.queues insn.arg0 rt.currentPid insn.arg1).1 := by
      rw [ipcEvents, hinsn]
      dsimp only
      rw [if_pos hq, hop, hq]
    -- a `SEND` that does not succeed
    have hfailed : (rt.abs.sent insn).1.result ≠ .ok →
        (rt.abs.sent insn).2 = rt.abs.queue insn.arg0 ∧
          sendEvents rt.currentPid insn.arg1 (some (rt.abs.sent insn).1) = [] := queueSend_not_ok
    subst hq
    rw [hevents]
    cases hout with
    | noQueue hnone _ hc =>
      rw [hnone, hc]
      show Logged (evs ++ []) (rt.abs.queue insn.arg0)
      rw [List.append_nil]
      exact h
    | error hsome hr hc =>
      obtain ⟨hsame, hnil⟩ := hfailed (by rw [hr]; exact nofun)
      rw [hsome, hnil, hc, List.append_nil]
      show Logged _ ((rt.abs.setQueue insn.arg0 (rt.abs.sent insn).2).queue insn.arg0)
      rw [Core.queue_setQueue, if_pos rfl, hsame]
      exact h
    | blocked hsome hr hc =>
      obtain ⟨hsame, hnil⟩ := hfailed (by rw [hr]; exact nofun)
      rw [hsome, hnil, hc, List.append_nil]
      show Logged _ ((rt.abs.sendBlocked insn).queue insn.arg0)
      rw [Core.sendBlocked, Core.queue_setQueue, if_pos rfl, hsame]
      exact h.withSenders _
    | ok next hsome hr hc =>
      rw [hsome, hc]
      show Logged _ ((rt.abs.afterSend insn).queue insn.arg0)
      rw [Core.queue_afterSend, if_pos rfl]
      exact h.send hr
  · have hsame : c.queue qid = rt.abs.queue qid := by
      have hne : qid ≠ insn.arg0 := fun heq => hq heq.symm
      cases hout with
      | noQueue _ _ hc =>
        rw [hc]
        rfl
      | error _ _ hc | blocked _ _ hc =>
        rw [hc]
        exact Core.queue_setQueue.trans (if_neg hne)
      | ok next _ _ hc =>
        rw [hc]
        exact Core.queue_afterSend.trans (if_neg hne)
    rw [ipcEvents_other hinsn hq, List.append_nil, hsame]
    exact h

theorem Logged.recvOutcome (h : Logged evs (rt.abs.queue qid)) (hpos : 0 ≤ rt.currentPid)
    (hop : insn.op = .recv) (hinsn : rt.insnOf rt.currentPid = some insn)
    (hout : RecvOutcome rt p insn c) : Logged (evs ++ ipcEvents qid rt) (c.queue qid) := by
  by_cases hq : insn.arg0 = qid
  · have hevents : ipcEvents qid rt = recvEvents (rt.abs.queue insn.arg0) rt.currentPid
        (ipcRecv rt.queues insn.arg0 rt.currentPid).1 := by
      rw [ipcEvents, hinsn]
      dsimp only
      rw [if_pos hq, hop, ← hq]
      rfl
    subst hq
    rw [hevents]
    cases hout with
    | noQueue hnone _ hc =>
      rw [hnone, hc, recvEvents, List.append_nil]
      exact h
    | blocked hsome hr hc =>
      rw [hsome, hc]
      show Logged _ ((rt.abs.recvBlocked insn).queue insn.arg0)
      rw [Core.recvBlocked, Core.queue_setQueue, if_pos rfl]
      exact h.recvBlock hpos hr
    | ok next hsome hr hc =>
      rw [hsome, hc]
      show Logged _ ((rt.abs.afterRecv insn).queue insn.arg0)
      rw [Core.queue_afterRecv, if_pos rfl]
      exact (h.recv hr).withSenders _
  · have hsame : c.queue qid = rt.abs.queue qid := by
      have hne : qid ≠ insn.arg0 := fun heq => hq heq.symm
      cases hout with
      | noQueue _ _ hc =>
        rw [hc]
        rfl
      | blocked _ _ hc =>
        rw [hc]
        exact Core.queue_setQueue.trans (if_neg hne)
      | ok next _ _ hc =>
        rw [hc]
        exact Core.queue_afterRecv.trans (if_neg hne)
    rw [ipcEvents_other hinsn hq, List.append_nil, hsame]
    exact h

/-- Whatever is executed: the log of a queue stays true. -/
theorem Logged.execute {fuel : ℕ} {consumed : Bool} (hd : Consistent rt) (hpos : 0 ≤ rt.currentPid)
    (hexec : executeInstruction fuel rt = some (consumed, rt'))
    (h : Logged evs (rt.abs.queue qid)) :
    Logged (evs ++ ipcEvents qid rt) (rt'.abs.queue qid) := by
  obtain ⟨-, hmove⟩ := executeInstruction_spec hd.sound hd.placed hpos hexec
  -- an instruction that is no `SEND` or `RECV`, or no instruction
  have hquiet : rt.abs.Plain → ipcEvents qid rt = [] →
      Logged (evs ++ ipcEvents qid rt) (rt'.abs.queue qid) := by
    intro hplain hnil
    rw [hnil, List.append_nil, hmove.queue_of_plain hplain]
    exact h
  cases hinsn : rt.insnOf rt.currentPid with
  | none =>
    refine hquiet (fun insn hi => ?_) (by rw [ipcEvents, hinsn])
    have hi : rt.insnOf rt.currentPid = some insn := hi
    rw [hinsn] at hi
    cases hi
  | some insn =>
    obtain ⟨p, idx, hat⟩ := atInsn hd.sound hd.placed hpos hinsn
    by_cases hsend : insn.op = .send
    · rw [hat.execute_send hsend] at hexec
      cases hexec
      exact h.sendOutcome hsend hinsn (execSend_outcome hat).2
    by_cases hrecv : insn.op = .recv
    · rw [hat.execute_recv hrecv] at hexec
      cases hexec
      exact h.recvOutcome hpos hrecv hinsn (execRecv_outcome hat).2
    · refine hquiet (hat.plain hsend hrecv) ?_
      rw [ipcEvents, hinsn]
      dsimp only
      split_ifs
      · split
        · next hop => exact absurd hop hsend
        · next hop => exact absurd hop hrecv
        · rfl
      · rfl

theorem Logged.operation {op : RtOp} (hd : Consistent rt) (h : Logged evs (rt.abs.queue qid)) :
    Logged (evs ++ op.ipcEvents qid rt) ((RtOp.exec rt op).abs.queue qid) := by
  obtain ⟨-, hmove⟩ := op.moves hd
  rw [RtOp.ipcEvents]
  cases hmove with
  | quiet hop hsteps =>
    rw [hop, Option.elim_none, List.append_nil, (Core.Quiet.fields_of_steps hsteps).1]
    exact h
  | exec d fuel consumed hop hsteps hd' hpos hexec =>
    rw [hop, Option.elim_some]
    refine Logged.execute hd' hpos hexec ?_
    rw [(Core.Quiet.fields_of_steps hsteps).1]
    exact h
  | spawn pid first hop _ _ _ habs =>
    rw [hop, Option.elim_none, List.append_nil, habs]
    exact h
  | kill pid st hop _ _ habs =>
    rw [habs, hop]
    show Logged (evs ++ []) _
    rw [List.append_nil]
    exact h

/-! ### Runs -/

theorem logged_init (qid : ℤ) : Logged [] (runtimeInit.abs.queue qid) := by
  have hq : runtimeInit.abs.queue qid = newQueue qid := queueOf_init qid
  rw [hq]
  exact ⟨rfl, .nil, rfl, fun h => absurd rfl h, List.nodup_nil, nofun, nofun⟩

/-- The log of a queue is true after every run. -/
theorem logged_run (ops : List RtOp) (qid : ℤ) :
    Logged (Runs.history RtOp.exec (fun rt op => op.ipcEvents qid rt) runtimeInit ops)
      ((Runs.run RtOp.exec runtimeInit ops).abs.queue qid) := by
  have hrun : Consistent (Runs.run RtOp.exec runtimeInit ops) ∧
      Logged ([] ++ Runs.history RtOp.exec (fun rt op => op.ipcEvents qid rt) runtimeInit ops)
        ((Runs.run RtOp.exec runtimeInit ops).abs.queue qid) :=
    Runs.run_history (I := fun rt evs => Consistent rt ∧ Logged evs (rt.abs.queue qid))
      (fun rt evs op h _ => ⟨RtOp.consistent h.1 op, Logged.operation h.1 h.2⟩)
      ⟨runtimeInit_consistent, logged_init qid⟩ (Runs.along_true _ _)
  exact hrun.2

open IpcEvent in
/-- **Conservation and order.**  In every run of the runtime, on every queue: the messages
accepted are those handed out, in that order, followed by the ring; their number is that of the
messages received, stored and granted; the grants made are those collected, by the process they
were made to, and those outstanding; the receivers registered are those served, in that order,
followed by those that wait; and while a receiver waits the ring is empty. -/
theorem messages_conserved (ops : List RtOp) (qid : ℤ) :
    let q := queueOf (Runs.run RtOp.exec runtimeInit ops).queues qid
    let evs := Runs.history RtOp.exec (fun rt op => op.ipcEvents qid rt) runtimeInit ops
    accepts evs = handOuts evs ++ q.ring.toList ∧
      (accepts evs).length = (receipts evs).length + q.ring.len + q.grants.length ∧
      (grants evs).Perm (collects evs ++ q.grants) ∧
      registers evs = (grants evs).map Prod.fst ++ q.recvWaiters ∧
      (q.recvWaiters ≠ [] → q.ring.len = 0) := by
  intro q evs
  have h : Logged evs q := logged_run ops qid
  have hlength : (accepts evs).length = (handOuts evs).length + q.ring.len := by
    rw [h.fifo, List.length_append, RingBuffer.length_toList]
  have hgrants : (grants evs).length = (collects evs).length + q.grants.length := by
    rw [h.granted.length_eq, List.length_append]
  have hout := length_handOuts evs
  refine ⟨h.fifo, by omega, h.granted, h.order, fun hne => ?_⟩
  exact RingBuffer.toList_eq_nil.mp (h.idle hne)

end Mosrt
