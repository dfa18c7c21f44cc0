/-
No lost wakeup.

A process that is blocked in `SEND` waits for room, one that is blocked in `RECV` for
a message.  A woken process has nothing yet: it executes its instruction again, and
others may come before it.  What makes this work is a count: while senders wait, the
messages in the ring, the messages granted and the processes that can run and stand
at a `SEND` to the queue are together at least as many as the ring has slots.

* `Core.Served` — this count, and who waits for and who was granted what;
* `Exec.served` — every instruction keeps it;
* `Recorded` — whoever was last seen blocking in a `SEND` or `RECV` is in its list;
* `no_lost_wakeup` — when nobody can run, a sender that waits finds the ring full,
  and a receiver that waits finds it empty.
-/
import Mosrt.Conservation
import Mosrt.WaitLists

namespace Mosrt

namespace Core

/-- The process stands at a `SEND` to the queue. -/
def AtSend (c : Core) (pid qid : ℤ) : Prop :=
  ∃ insn, c.insn pid = some insn ∧ insn.op = .send ∧ insn.arg0 = qid

/-- The process stands at a `RECV` from the queue. -/
def AtRecv (c : Core) (pid qid : ℤ) : Prop :=
  ∃ insn, c.insn pid = some insn ∧ insn.op = .recv ∧ insn.arg0 = qid

/-- The process can run. -/
def Active (c : Core) (pid : ℤ) : Prop :=
  c.stateOf pid = some .ready ∨ c.stateOf pid = some .running

/-- Who is concerned with a queue, and the count that keeps its senders awake. -/
structure Served (c : Core) (qid : ℤ) (q : IpcQueue) : Prop where
  senders : ∀ pid ∈ q.sendWaiters, c.AtSend pid qid
  receivers : ∀ pid ∈ q.recvWaiters, c.AtRecv pid qid
  granted : ∀ g ∈ q.grants, c.Active g.1 ∧ c.AtRecv g.1 qid
  once : (q.grants.map Prod.fst).Nodup
  pending : q.sendWaiters ≠ [] → ∃ T : Finset ℤ, (∀ pid ∈ T, c.Active pid ∧ c.AtSend pid qid) ∧
    mosrtMsgCapacity ≤ q.ring.len + q.grants.length + T.card

/-- The process stands where it stood, and can run if it could. -/
def Unmoved (c c' : Core) (pid : ℤ) : Prop :=
  c'.insn pid = c.insn pid ∧ (c.Active pid → c'.Active pid)

variable {c c' : Core} {pid qid : ℤ} {q : IpcQueue} {safe : Prop} {insn : WorkloadInsn}

theorem AtSend.of_insn (ha : c.AtSend pid qid) (h : c'.insn pid = c.insn pid) :
    c'.AtSend pid qid := by
  rw [AtSend, h]
  exact ha

theorem AtRecv.of_insn (ha : c.AtRecv pid qid) (h : c'.insn pid = c.insn pid) :
    c'.AtRecv pid qid := by
  rw [AtRecv, h]
  exact ha

theorem AtSend.not_atRecv {qid' : ℤ} (h : c.AtSend pid qid) : ¬ c.AtRecv pid qid' := by
  rintro ⟨insn', hinsn', hrecv, -⟩
  obtain ⟨insn, hinsn, hsend, -⟩ := h
  rw [hinsn] at hinsn'
  cases hinsn'
  rw [hsend] at hrecv
  cases hrecv

theorem Active.not_blocked (h : c.Active pid) : c.stateOf pid ≠ some .blocked := by
  intro hb
  rcases h with h | h <;>
  · rw [hb] at h
    cases h

/-! ### One queue -/

/-- A queue nobody touches, as long as those concerned with it are kept. -/
theorem Served.frame (h : Served c qid q)
    (hex : ∀ pid, pid ∈ q.sendWaiters ∨ pid ∈ q.recvWaiters → c.stateOf pid ≠ none)
    (hk : ∀ pid, c.AtSend pid qid ∨ c.AtRecv pid qid → c.stateOf pid ≠ none → Unmoved c c' pid) :
    Served c' qid q := by
  have hactive : ∀ {pid}, c.Active pid → c.stateOf pid ≠ none := by
    intro pid ha hnone
    rcases ha with ha | ha <;>
    · rw [hnone] at ha
      cases ha
  refine ⟨fun pid hpid => ?_, fun pid hpid => ?_, fun g hg => ?_, h.once, fun hne => ?_⟩
  · have hat := h.senders pid hpid
    exact hat.of_insn (hk pid (.inl hat) (hex pid (.inl hpid))).1
  · have hat := h.receivers pid hpid
    exact hat.of_insn (hk pid (.inr hat) (hex pid (.inr hpid))).1
  · obtain ⟨ha, hat⟩ := h.granted g hg
    have hkept := hk g.1 (.inr hat) (hactive ha)
    exact ⟨hkept.2 ha, hat.of_insn hkept.1⟩
  · obtain ⟨T, hT, hcard⟩ := h.pending hne
    refine ⟨T, fun pid hpid => ?_, hcard⟩
    obtain ⟨ha, hat⟩ := hT pid hpid
    have hkept := hk pid (.inl hat) (hactive ha)
    exact ⟨hkept.2 ha, hat.of_insn hkept.1⟩

section Instruction

variable (h : Served c qid q) (hk : ∀ pid, pid ≠ c.current → Unmoved c c' pid)
  (hout : c.current ∉ q.sendWaiters ∧ c.current ∉ q.recvWaiters)

include h hk

/-- Without the process on the CPU the count may be one short. -/
theorem Served.pending_sender (hne : q.sendWaiters ≠ []) : ∃ T : Finset ℤ,
    (∀ pid ∈ T, c'.Active pid ∧ c'.AtSend pid qid) ∧
      mosrtMsgCapacity ≤ q.ring.len + q.grants.length + T.card + 1 := by
  obtain ⟨T, hT, hcard⟩ := h.pending hne
  refine ⟨T.erase c.current, fun pid hpid => ?_, ?_⟩
  · obtain ⟨hpid, hmem⟩ := Finset.mem_erase.mp hpid
    obtain ⟨ha, hat⟩ := hT pid hmem
    exact ⟨(hk pid hpid).2 ha, hat.of_insn (hk pid hpid).1⟩
  · have := Finset.pred_card_le_card_erase (s := T) (a := c.current)
    omega

/-- A receiver is not part of the count. -/
theorem Served.pending_receiver (hat : c.AtRecv c.current qid) (hne : q.sendWaiters ≠ []) :
    ∃ T : Finset ℤ, (∀ pid ∈ T, c.Active pid ∧ c'.Active pid ∧ c'.AtSend pid qid) ∧
      mosrtMsgCapacity ≤ q.ring.len + q.grants.length + T.card := by
  obtain ⟨T, hT, hcard⟩ := h.pending hne
  refine ⟨T, fun pid hpid => ?_, hcard⟩
  obtain ⟨ha, hsend⟩ := hT pid hpid
  have hpid : pid ≠ c.current := by
    rintro rfl
    exact hsend.not_atRecv hat
  exact ⟨ha, (hk pid hpid).2 ha, hsend.of_insn (hk pid hpid).1⟩

/-- A sender is granted nothing. -/
theorem Served.granted_sender (hat : c.AtSend c.current qid) {g : ℤ × IpcMessage}
    (hg : g ∈ q.grants) : c'.Active g.1 ∧ c'.AtRecv g.1 qid := by
  obtain ⟨ha, hrecv⟩ := h.granted g hg
  have hpid : g.1 ≠ c.current := by
    intro heq
    rw [heq] at hrecv
    exact hat.not_atRecv hrecv
  exact ⟨(hk g.1 hpid).2 ha, hrecv.of_insn (hk g.1 hpid).1⟩

include hout

theorem Served.senders_kept {pid : ℤ} (hpid : pid ∈ q.sendWaiters) : c'.AtSend pid qid := by
  have hne : pid ≠ c.current := by
    rintro rfl
    exact hout.1 hpid
  exact (h.senders pid hpid).of_insn (hk pid hne).1

theorem Served.receivers_kept {pid : ℤ} (hpid : pid ∈ q.recvWaiters) : c'.AtRecv pid qid := by
  have hne : pid ≠ c.current := by
    rintro rfl
    exact hout.2 hpid
  exact (h.receivers pid hpid).of_insn (hk pid hne).1

/-- A `SEND` that succeeds: the sender goes, and its message comes. -/
theorem Served.send {value : ℤ} (hat : c.AtSend c.current qid)
    (hb : ∀ pid ∈ q.recvWaiters, c.stateOf pid = some .blocked)
    (hwoken : ∀ pid rest, q.recvWaiters = pid :: rest → c'.Active pid)
    (hr : (queueSend q c.current value).1.result = .ok) :
    Served c' qid { (queueSend q c.current value).2 with
      recvWaiters := (waitqPop (queueSend q c.current value).2.recvWaiters).2 } := by
  have hcase := queueSend_case q c.current value
  generalize queueSend q c.current value = r at hcase hr ⊢
  have htail : ∀ pid, pid ∈ (waitqPop q.recvWaiters).2 → pid ∈ q.recvWaiters := by
    intro pid hpid
    cases hws : q.recvWaiters with
    | nil => rw [hws] at hpid; exact hpid
    | cons w rest => rw [hws] at hpid; exact List.mem_cons_of_mem _ hpid
  cases hcase with
  | grantsFull | full => cases hr
  | stored _ hlen =>
    refine ⟨fun pid => h.senders_kept hk hout, fun pid hpid => ?_, fun g => h.granted_sender hk hat,
      h.once, fun hne => ?_⟩
    · exact h.receivers_kept hk hout (htail pid hpid)
    · obtain ⟨T, hT, hcard⟩ := h.pending_sender hk hne
      refine ⟨T, hT, ?_⟩
      show mosrtMsgCapacity ≤ (q.ring.push _).len + q.grants.length + T.card
      rw [RingBuffer.len_push hlen]
      omega
  | granted receiver rest hws _ _ =>
    have hmem : receiver ∈ q.recvWaiters := by
      rw [hws]
      exact List.mem_cons_self
    refine ⟨fun pid => h.senders_kept hk hout, fun pid hpid => ?_, fun g hg => ?_, ?_,
      fun hne => ?_⟩
    · exact h.receivers_kept hk hout (htail pid hpid)
    · rcases List.mem_append.mp hg with hg | hg
      · exact h.granted_sender hk hat hg
      · rw [List.mem_singleton.mp hg]
        exact ⟨hwoken receiver rest hws, h.receivers_kept hk hout hmem⟩
    · -- whoever holds a grant can run, and the receiver was BLOCKED
      have hnew : receiver ∉ q.grants.map Prod.fst := by
        intro hin
        obtain ⟨g, hg, heq⟩ := List.mem_map.mp hin
        have ha := (h.granted g hg).1
        rw [heq] at ha
        exact ha.not_blocked (hb receiver hmem)
      show ((q.grants ++ [(receiver, _)]).map Prod.fst).Nodup
      rw [List.map_append]
      refine List.nodup_append.mpr ⟨h.once, List.nodup_singleton _, fun a ha b hb heq => ?_⟩
      rw [heq, List.mem_singleton.mp hb] at ha
      exact hnew ha
    · obtain ⟨T, hT, hcard⟩ := h.pending_sender hk hne
      refine ⟨T, hT, ?_⟩
      show mosrtMsgCapacity ≤ q.ring.len + (q.grants ++ [(receiver, _)]).length + T.card
      rw [List.length_append, List.length_singleton]
      omega

/-- A sender that finds the ring full. -/
theorem Served.sendBlock (hat : c'.AtSend c.current qid) (hcur : c.AtSend c.current qid)
    (hfull : mosrtMsgCapacity ≤ q.ring.len) :
    Served c' qid { q with sendWaiters := q.sendWaiters ++ [c.current] } := by
  refine ⟨fun pid hpid => ?_, fun pid => h.receivers_kept hk hout,
    fun g => h.granted_sender hk hcur, h.once, fun _ => ⟨∅, by simp, ?_⟩⟩
  · rcases List.mem_append.mp hpid with hpid | hpid
    · exact h.senders_kept hk hout hpid
    · rw [List.mem_singleton.mp hpid]
      exact hat
  · show mosrtMsgCapacity ≤ q.ring.len + q.grants.length + _
    omega

/-- The first sender that waits is woken, and joins those that make the count. -/
theorem Served.pending_woken (hat : c.AtRecv c.current qid)
    (hb : ∀ pid ∈ q.sendWaiters, c.stateOf pid = some .blocked)
    (hwoken : ∀ pid rest, q.sendWaiters = pid :: rest → c'.Active pid)
    (hne : (waitqPop q.sendWaiters).2 ≠ []) : ∃ T : Finset ℤ,
    (∀ pid ∈ T, c'.Active pid ∧ c'.AtSend pid qid) ∧
      mosrtMsgCapacity + 1 ≤ q.ring.len + q.grants.length + T.card := by
  obtain ⟨w, rest, hws⟩ : ∃ w rest, q.sendWaiters = w :: rest := by
    refine List.exists_cons_of_ne_nil fun hnil => ?_
    rw [hnil] at hne
    exact hne rfl
  have hmem : w ∈ q.sendWaiters := by
    rw [hws]
    exact List.mem_cons_self
  obtain ⟨T, hT, hcard⟩ := h.pending_receiver hk hat (by rw [hws]; exact List.cons_ne_nil _ _)
  have hnew : w ∉ T := fun hw => (hT w hw).1.not_blocked (hb w hmem)
  refine ⟨insert w T, fun pid hpid => ?_, ?_⟩
  · rcases Finset.mem_insert.mp hpid with rfl | hpid
    · exact ⟨hwoken pid rest hws, h.senders_kept hk hout hmem⟩
    · exact (hT pid hpid).2
  · rw [Finset.card_insert_of_notMem hnew]
    omega

/-- A `RECV` that succeeds. -/
theorem Served.recv (hat : c.AtRecv c.current qid)
    (hb : ∀ pid ∈ q.sendWaiters, c.stateOf pid = some .blocked)
    (hwoken : ∀ pid rest, q.sendWaiters = pid :: rest → c'.Active pid)
    (hr : (queueRecv q c.current).1.result = .ok) :
    Served c' qid { (queueRecv q c.current).2 with
      sendWaiters := (waitqPop (queueRecv q c.current).2.sendWaiters).2 } := by
  have hpending := h.pending_woken hk hout hat hb hwoken
  have htail : ∀ pid, pid ∈ (waitqPop q.sendWaiters).2 → pid ∈ q.sendWaiters := by
    intro pid hpid
    cases hws : q.sendWaiters with
    | nil => rw [hws] at hpid; exact hpid
    | cons w rest => rw [hws] at hpid; exact List.mem_cons_of_mem _ hpid
  have hgranted : ∀ g ∈ q.grants, g.1 ≠ c.current → c'.Active g.1 ∧ c'.AtRecv g.1 qid := by
    intro g hg hne
    obtain ⟨ha, hrecv⟩ := h.granted g hg
    exact ⟨(hk g.1 hne).2 ha, hrecv.of_insn (hk g.1 hne).1⟩
  have hcase := queueRecv_case q c.current
  generalize queueRecv q c.current = r at hcase hr ⊢
  cases hcase with
  | notFirst | empty => cases hr
  | dequeued msg ring hnone _ hpop =>
    refine ⟨fun pid hpid => ?_, fun pid => h.receivers_kept hk hout,
      fun g hg => hgranted g hg (hnone g hg), h.once, fun hne => ?_⟩
    · exact h.senders_kept hk hout (htail pid hpid)
    · obtain ⟨T, hT, hcard⟩ := hpending hne
      have hlen := RingBuffer.len_pop hpop
      refine ⟨T, hT, ?_⟩
      show mosrtMsgCapacity ≤ ring.len + q.grants.length + T.card
      omega
  | collected msg hfind =>
    have hperm : q.grants.Perm ((c.current, msg) :: q.grants.eraseP fun g => g.1 == c.current) :=
      perm_cons_eraseP hfind
    -- the process had one grant, and now has none
    have honce : (c.current :: (q.grants.eraseP fun g => g.1 == c.current).map Prod.fst).Nodup :=
      (hperm.map Prod.fst).nodup_iff.mp h.once
    obtain ⟨hnone, hnodup⟩ := List.nodup_cons.mp honce
    refine ⟨fun pid hpid => ?_, fun pid hpid => ?_, fun g hg => ?_, hnodup, fun hne => ?_⟩
    · exact h.senders_kept hk hout (htail pid hpid)
    · exact h.receivers_kept hk hout (List.mem_of_mem_erase hpid)
    · exact hgranted g (List.mem_of_mem_eraseP hg) fun heq => hnone (List.mem_map.mpr ⟨g, hg, heq⟩)
    · obtain ⟨T, hT, hcard⟩ := hpending hne
      have hlen := hperm.length_eq
      rw [List.length_cons] at hlen
      refine ⟨T, hT, ?_⟩
      show mosrtMsgCapacity ≤ q.ring.len + (q.grants.eraseP _).length + T.card
      omega

/-- A receiver that finds nothing. -/
theorem Served.recvBlock (hat : c'.AtRecv c.current qid) (hcur : c.AtRecv c.current qid)
    (hnone : ∀ g ∈ q.grants, g.1 ≠ c.current) :
    Served c' qid { q with recvWaiters := q.recvWaiters ++ [c.current] } := by
  refine ⟨fun pid => h.senders_kept hk hout, fun pid hpid => ?_, fun g hg => ?_, h.once,
    fun hne => ?_⟩
  · rcases List.mem_append.mp hpid with hpid | hpid
    · exact h.receivers_kept hk hout hpid
    · rw [List.mem_singleton.mp hpid]
      exact hat
  · obtain ⟨ha, hrecv⟩ := h.granted g hg
    have hk := hk g.1 (hnone g hg)
    exact ⟨hk.2 ha, hrecv.of_insn hk.1⟩
  · obtain ⟨T, hT, hcard⟩ := h.pending_receiver hk hcur hne
    exact ⟨T, fun pid hpid => (hT pid hpid).2, hcard⟩

end Instruction

/-! ### Every instruction -/

/-- Whoever waits exists. -/
theorem Waits.waiting_exists (hw : c.Waits) {l : WaitList} (hpid : pid ∈ c.waiters l) :
    c.stateOf pid ≠ none := by
  rcases hw.member l pid hpid with hm | hm
  · rw [stateOf_eq hm]
    exact Option.some_ne_none _
  · rw [hm]
    exact Option.some_ne_none _

theorem Waits.concerned_exists (hw : c.Waits) (qid pid : ℤ)
    (hpid : pid ∈ (c.queue qid).sendWaiters ∨ pid ∈ (c.queue qid).recvWaiters) :
    c.stateOf pid ≠ none := by
  rcases hpid with hpid | hpid
  · exact hw.waiting_exists (l := .send qid) hpid
  · exact hw.waiting_exists (l := .recv qid) hpid

/-- Waking somebody and going on moves nobody else. -/
theorem insn_goto_wake {d : Core} {pid' : ℤ} {next : Option WorkloadInsn}
    (hcur : d.current = c.current) (hinsn : d.insn = c.insn) (hpid : pid ≠ c.current) :
    ((d.wake pid').goto next).insn pid = c.insn pid := by
  have hne : pid ≠ (d.wake pid').current := by
    rw [wake_fields.1, hcur]
    exact hpid
  show Function.update (d.wake pid').insn (d.wake pid').current next pid = _
  rw [Function.update_of_ne hne, wake_fields.2.2.2, hinsn]

/-- Everybody but the process on the CPU is kept by what that process does. -/
theorem Exec.unmoved (h : Exec safe c c') (hrun : c.stateOf c.current = some .running) (pid : ℤ)
    (hpid : pid ≠ c.current) : Unmoved c c' pid := by
  have hmoved := h.moved hrun
  constructor
  · cases h with
    | goto next | preempt next | sleep next => exact Function.update_of_ne hpid _ _
    | exit | acquire | sendBlock | sendError | recvBlock | noQueue => rfl
    | release id pid' rest next _ _ =>
      exact insn_goto_wake (d := c.setSemWaiters id rest) rfl rfl hpid
    | sendOk insn next _ _ _ => exact insn_goto_wake (d := c.setQueue insn.arg0 _) rfl rfl hpid
    | recvOk insn next _ _ _ => exact insn_goto_wake (d := c.setQueue insn.arg0 _) rfl rfl hpid
  · intro ha
    rcases hmoved.others pid hpid with heq | ⟨hb, -⟩
    · rw [Active, heq]
      exact ha
    · exact absurd hb ha.not_blocked

/-- What is woken can run. -/
theorem active_wake {d : Core} {next : Option WorkloadInsn} (hproc : d.proc = c.proc)
    (hb : c.stateOf pid = some .blocked) : ((d.wake pid).goto next).Active pid := by
  obtain ⟨w, hp⟩ := proc_of_stateOf hb
  refine .inl (stateOf_eq (w := w) ?_)
  show (d.wake pid).proc pid = _
  rw [wake_proc hproc, wake_of_blocked hp, proc_setProc, if_pos rfl]

theorem waitqAdd_new {ws : List ℤ} (h : pid ∉ ws) (hroom : ws.length < mosrtWaitqCapacity) :
    waitqAdd ws pid = ws ++ [pid] := by
  rw [waitqAdd, if_neg h, if_pos hroom]

/-- A `SEND` that would block found the ring full. -/
theorem sent_wouldBlock (hr : (c.sent insn).1.result = .wouldBlock) :
    (c.sent insn).2 = c.queue insn.arg0 ∧
      mosrtMsgCapacity ≤ (c.queue insn.arg0).ring.len := by
  have hcase := queueSend_case (c.queue insn.arg0) c.current insn.arg1
  rw [sent] at hr ⊢
  generalize queueSend (c.queue insn.arg0) c.current insn.arg1 = r at hcase hr ⊢
  cases hcase with
  | granted | grantsFull | stored => cases hr
  | full _ hlen => exact ⟨rfl, hlen⟩

/-- A `SEND` that fails found the list of grants full. -/
theorem sent_error (hr : (c.sent insn).1.result = .error) :
    (c.sent insn).2 = c.queue insn.arg0 ∧
      mosrtWaitqCapacity ≤ (c.queue insn.arg0).grants.length := by
  have hcase := queueSend_case (c.queue insn.arg0) c.current insn.arg1
  rw [sent] at hr ⊢
  generalize queueSend (c.queue insn.arg0) c.current insn.arg1 = r at hcase hr ⊢
  cases hcase with
  | granted | full | stored => cases hr
  | grantsFull hlen => exact ⟨rfl, hlen⟩

/-- A `RECV` that would block was granted nothing. -/
theorem received_wouldBlock (hr : (c.received insn).1.result = .wouldBlock) :
    (c.received insn).2 = c.queue insn.arg0 ∧
      ∀ g ∈ (c.queue insn.arg0).grants, g.1 ≠ c.current := by
  have hcase := queueRecv_case (c.queue insn.arg0) c.current
  rw [received] at hr ⊢
  generalize queueRecv (c.queue insn.arg0) c.current = r at hcase hr ⊢
  cases hcase with
  | collected | dequeued => cases hr
  | notFirst hnone | empty hnone => exact ⟨rfl, hnone⟩

/-- Whatever is executed, every queue stays served. -/
theorem Exec.served (h : Exec safe c c') (hw : c.Waits) (ha : c.Alive)
    (hrun : c.stateOf c.current = some .running)
    (hroom : ∀ l, (c.waiters l).length < mosrtWaitqCapacity)
    (hs : ∀ qid, Served c qid (c.queue qid)) (qid : ℤ) : Served c' qid (c'.queue qid) := by
  have hk := h.unmoved hrun
  have hnot := hw.not_waiting hrun nofun nofun
  have hb : ∀ l, ∀ pid ∈ c.waiters l, c.stateOf pid = some .blocked :=
    fun l pid hmem => ha.blocked hw hmem
  have hout : c.current ∉ (c.queue qid).sendWaiters ∧ c.current ∉ (c.queue qid).recvWaiters :=
    ⟨hnot (.send qid), hnot (.recv qid)⟩
  -- the process on the CPU has nothing to do with this queue
  have hframe : ¬ c.AtSend c.current qid → ¬ c.AtRecv c.current qid →
      Served c' qid (c.queue qid) := by
    intro hsend hrecv
    refine (hs qid).frame (hw.concerned_exists qid) fun pid hat _ => hk pid ?_
    rintro rfl
    rcases hat with hat | hat
    · exact hsend hat
    · exact hrecv hat
  have hother : ∀ insn, c.insn c.current = some insn → qid ≠ insn.arg0 →
      Served c' qid (c.queue qid) := by
    intro insn hinsn hne
    refine hframe ?_ ?_ <;>
    · rintro ⟨insn', hinsn', -, heq⟩
      rw [hinsn] at hinsn'
      cases hinsn'
      exact hne heq.symm
  have hplain : c.Plain → Served c' qid (c'.queue qid) := by
    intro hp
    rw [h.queue_of_plain hp]
    refine hframe ?_ ?_
    · rintro ⟨insn, hinsn, hop, -⟩
      exact (hp insn hinsn).1 hop
    · rintro ⟨insn, hinsn, hop, -⟩
      exact (hp insn hinsn).2 hop
  cases h with
  | goto _ hp | preempt _ _ hp | sleep _ _ hp | exit hp | acquire _ _ hp | release _ _ _ _ hp =>
    exact hplain hp
  | noQueue insn hinsn hnew =>
    by_cases hq : qid = insn.arg0
    · subst hq
      show Served _ _ (c.queue insn.arg0)
      rw [hnew]
      exact ⟨nofun, nofun, nofun, List.nodup_nil, fun hne => absurd rfl hne⟩
    · exact hother insn hinsn hq
  | sendOk insn next hinsn hop hr =>
    show Served _ qid ((c.afterSend insn).queue qid)
    rw [queue_afterSend]
    by_cases hq : qid = insn.arg0
    · subst hq
      rw [if_pos rfl]
      refine (hs _).send hk hout ⟨insn, hinsn, hop, rfl⟩ (hb (.recv _)) (fun pid rest hws => ?_) hr
      have hrecv : (c.sent insn).2.recvWaiters = pid :: rest :=
        (queueSend_waiters _ _ _).2.trans hws
      have hmem : pid ∈ c.waiters (.recv insn.arg0) := by
        show pid ∈ (c.queue insn.arg0).recvWaiters
        rw [hws]
        exact List.mem_cons_self
      rw [afterSend, hrecv]
      exact active_wake (c := c) rfl (hb _ pid hmem)
    · rw [if_neg hq]
      exact hother insn hinsn hq
  | sendBlock insn w hinsn hop hr _ _ =>
    show Served _ qid ((c.sendBlocked insn).queue qid)
    rw [sendBlocked, queue_setQueue]
    by_cases hq : qid = insn.arg0
    · subst hq
      have hat : c.AtSend c.current insn.arg0 := ⟨insn, hinsn, hop, rfl⟩
      obtain ⟨hsame, hfull⟩ := sent_wouldBlock hr
      rw [if_pos rfl, hsame, waitqAdd_new hout.1 (hroom (.send insn.arg0))]
      exact (hs _).sendBlock hk hout (hat.of_insn rfl) hat hfull
    · rw [if_neg hq]
      exact hother insn hinsn hq
  | sendError insn hinsn hop hr =>
    show Served _ qid ((c.setQueue insn.arg0 (c.sent insn).2).queue qid)
    rw [queue_setQueue]
    by_cases hq : qid = insn.arg0
    · subst hq
      have hat : c.AtSend c.current insn.arg0 := ⟨insn, hinsn, hop, rfl⟩
      obtain ⟨hsame, hfull⟩ := sent_error hr
      rw [if_pos rfl, hsame]
      refine ⟨fun pid => (hs _).senders_kept hk hout, fun pid => (hs _).receivers_kept hk hout,
        fun g => (hs _).granted_sender hk hat, (hs _).once, fun _ => ⟨∅, by simp, ?_⟩⟩
      have : mosrtMsgCapacity ≤ mosrtWaitqCapacity := by decide
      omega
    · rw [if_neg hq]
      exact hother insn hinsn hq
  | recvOk insn next hinsn hop hr =>
    show Served _ qid ((c.afterRecv insn).queue qid)
    rw [queue_afterRecv]
    by_cases hq : qid = insn.arg0
    · subst hq
      rw [if_pos rfl]
      refine (hs _).recv hk hout ⟨insn, hinsn, hop, rfl⟩ (hb (.send _)) (fun pid rest hws => ?_) hr
      have hsend : (c.received insn).2.sendWaiters = pid :: rest :=
        (queueRecv_waiters hout.2).1.trans hws
      have hmem : pid ∈ c.waiters (.send insn.arg0) := by
        show pid ∈ (c.queue insn.arg0).sendWaiters
        rw [hws]
        exact List.mem_cons_self
      rw [afterRecv, hsend]
      exact active_wake (c := c) rfl (hb _ pid hmem)
    · rw [if_neg hq]
      exact hother insn hinsn hq
  | recvBlock insn w hinsn hop hr _ _ =>
    show Served _ qid ((c.recvBlocked insn).queue qid)
    rw [recvBlocked, queue_setQueue]
    by_cases hq : qid = insn.arg0
    · subst hq
      have hat : c.AtRecv c.current insn.arg0 := ⟨insn, hinsn, hop, rfl⟩
      obtain ⟨hsame, hnone⟩ := received_wouldBlock hr
      rw [if_pos rfl, hsame, waitqAdd_new hout.2 (hroom (.recv insn.arg0))]
      exact (hs _).recvBlock hk hout (hat.of_insn rfl) hat hnone
    · rw [if_neg hq]
      exact hother insn hinsn hq

/-! ### Quiet moves and creations -/

/-- What can run before a quiet move can run after it. -/
theorem Quiet.active (h : Quiet c c') (ha : c.Active pid) : c'.Active pid := by
  cases h with
  | timer pid' w hp _ =>
    by_cases heq : pid = pid'
    · exact .inl (stateOf_setProc.trans (if_pos heq))
    · have hst : (c.setProc pid' .ready 0).stateOf pid = c.stateOf pid :=
        stateOf_setProc.trans (if_neg heq)
      rw [Active, hst]
      exact ha
  | dispatch pid' w _ hp =>
    by_cases heq : pid = pid'
    · exact .inr (stateOf_setProc.trans (if_pos heq))
    · have hst : ({ c.setProc pid' .running w with current := pid' } : Core).stateOf pid =
        c.stateOf pid := stateOf_setProc.trans (if_neg heq)
      rw [Active, hst]
      exact ha

theorem Quiet.served (h : Quiet c c') (hw : c.Waits)
    (hs : ∀ qid, Served c qid (c.queue qid)) (qid : ℤ) : Served c' qid (c'.queue qid) := by
  obtain ⟨hq, -, hinsn⟩ := h.fields
  rw [hq]
  exact (hs qid).frame (hw.concerned_exists qid) fun pid _ _ => ⟨congrFun hinsn pid, h.active⟩

/-- A new process concerns no queue. -/
theorem served_spawn {first : Option WorkloadInsn} (hw : c.Waits) (hnew : c.stateOf pid = none)
    (hs : ∀ qid, Served c qid (c.queue qid)) (qid : ℤ) :
    Served (c.spawn pid first) qid ((c.spawn pid first).queue qid) := by
  refine (hs qid).frame (hw.concerned_exists qid) fun pid' _ hex => ?_
  have hne : pid' ≠ pid := by
    rintro rfl
    exact hex hnew
  refine ⟨Function.update_of_ne hne _ _, fun ha => ?_⟩
  have hst : (c.spawn pid first).stateOf pid' = c.stateOf pid' :=
    stateOf_setProc.trans (if_neg hne)
  rw [Active, hst]
  exact ha

/-! ### How many processes there are -/

/-- There are at most `n` processes. -/
def AtMost (c : Core) (n : ℕ) : Prop :=
  ∃ S : Finset ℤ, S.card ≤ n ∧ ∀ pid, c.stateOf pid ≠ none → pid ∈ S

variable {n : ℕ}

theorem AtMost.of_exists (h : c.AtMost n)
    (hex : ∀ pid, c'.stateOf pid ≠ none → c.stateOf pid ≠ none) : c'.AtMost n := by
  obtain ⟨S, hcard, hS⟩ := h
  exact ⟨S, hcard, fun pid hpid => hS pid (hex pid hpid)⟩

theorem AtMost.steps (h : Relation.ReflTransGen Quiet c c') (hc : c.AtMost n) : c'.AtMost n :=
  Quiet.steps (P := fun c => c.AtMost n)
    (fun hstep hc => hc.of_exists fun _ => hstep.exists_of) h hc

theorem AtMost.spawn {first : Option WorkloadInsn} (h : c.AtMost n) :
    (c.spawn pid first).AtMost (n + 1) := by
  obtain ⟨S, hcard, hS⟩ := h
  refine ⟨insert pid S, (Finset.card_insert_le _ _).trans (by omega), fun pid' hpid => ?_⟩
  by_cases heq : pid' = pid
  · rw [heq]
    exact Finset.mem_insert_self _ _
  · have hst : (c.spawn pid first).stateOf pid' = c.stateOf pid' :=
      stateOf_setProc.trans (if_neg heq)
    rw [hst] at hpid
    exact Finset.mem_insert_of_mem (hS pid' hpid)

/-- While somebody is on the CPU, not everybody can wait. -/
theorem AtMost.room (h : c.AtMost n) (hw : c.Waits) (hrun : c.stateOf c.current = some .running)
    (l : WaitList) : (c.waiters l).length < n := by
  obtain ⟨S, hcard, hS⟩ := h
  have hnodup : (c.current :: c.waiters l).Nodup :=
    List.nodup_cons.mpr ⟨hw.not_waiting hrun nofun nofun l, hw.nodup l⟩
  have hsub : (c.current :: c.waiters l).toFinset ⊆ S := by
    intro pid hpid
    rcases List.mem_cons.mp (List.mem_toFinset.mp hpid) with rfl | hpid
    · exact hS _ (by rw [hrun]; exact Option.some_ne_none _)
    · exact hS _ (hw.waiting_exists hpid)
  have hle := Finset.card_le_card hsub
  rw [List.toFinset_card_of_nodup hnodup, List.length_cons] at hle
  omega

/-! ### Who is blocked where -/

/-- The wait list in which an instruction may block its process. -/
def ipcList (insn : WorkloadInsn) : Option WaitList :=
  match insn.op with
  | .send => some (.send insn.arg0)
  | .recv => some (.recv insn.arg0)
  | _ => none

/-- Others that are still BLOCKED are still in their list. -/
theorem Flow.still_waiting {l : WaitList} (h : Flow safe c c')
    (hb : c'.stateOf pid = some .blocked) (hmem : pid ∈ c.waiters l) : pid ∈ c'.waiters l := by
  cases h with
  | stay hl _ | leave _ _ hl | dropped _ hl =>
    rw [hl]
    exact hmem
  | enter l' hl =>
    rw [hl, Function.update_apply]
    split_ifs with heq
    · rw [← heq]
      exact List.mem_append_left _ hmem
    · exact hmem
  | pop l' pid' rest hws hl hp =>
    rw [hl, Function.update_apply]
    split_ifs with heq
    · rw [heq, hws] at hmem
      rcases List.mem_cons.mp hmem with rfl | hmem
      · -- the process taken out is no longer BLOCKED
        have hst : c'.stateOf pid = (c.wake pid).stateOf pid := by
          rw [stateOf, hp]
          rfl
        rw [hst] at hb
        by_cases hold : c.stateOf pid = some .blocked
        · obtain ⟨w, hpw⟩ := proc_of_stateOf hold
          rw [wake_of_blocked hpw, stateOf_setProc, if_pos rfl] at hb
          cases hb
        · rw [wake_of_not_blocked hold] at hb
          exact absurd hb hold
      · exact hmem
    · exact hmem

/-- A `SEND` or `RECV` that blocks its process enters it in the list. -/
theorem Exec.enters (h : Exec safe c c') (hw : c.Waits)
    (hrun : c.stateOf c.current = some .running)
    (hroom : ∀ l, (c.waiters l).length < mosrtWaitqCapacity) {l : WaitList}
    (hinsn : c.insn c.current = some insn) (hl : ipcList insn = some l)
    (hb : c'.stateOf c.current = some .blocked) : c.current ∈ c'.waiters l := by
  have hnot := hw.not_waiting hrun nofun nofun
  have hplain : ¬ c.Plain := by
    intro hp
    obtain ⟨hsend, hrecv⟩ := hp insn hinsn
    rw [ipcList] at hl
    split at hl
    · next hop => exact hsend hop
    · next hop => exact hrecv hop
    · cases hl
  have hexit : ∀ d : Core, d.current = c.current → c' = d.leave .exited 0 → False := by
    intro d hcur heq
    rw [heq, stateOf_leave, hcur, if_pos rfl] at hb
    cases hb
  -- who goes on is not BLOCKED
  have hgo : ∀ d : Core, ∀ next pid', c' = (d.wake pid').goto next → d.proc = c.proc → False := by
    intro d next pid' heq hproc
    have hst : c'.stateOf c.current = (c.wake pid').stateOf c.current := by
      rw [heq]
      show ((d.wake pid').proc c.current).map _ = _
      rw [wake_proc hproc]
      rfl
    rw [hst] at hb
    rcases stateOf_wake c pid' c.current with hsame | ⟨-, hready⟩
    · rw [hsame, hrun] at hb
      cases hb
    · rw [hready] at hb
      cases hb
  cases h with
  | goto _ hp | preempt _ _ hp | sleep _ _ hp | exit hp | acquire _ _ hp | release _ _ _ _ hp =>
    exact absurd hp hplain
  | noQueue => exact (hexit c rfl rfl).elim
  | sendError => exact (hexit (c.setQueue _ _) rfl rfl).elim
  | sendOk insn' next => exact (hgo (c.setQueue insn'.arg0 _) next _ rfl rfl).elim
  | recvOk insn' next => exact (hgo (c.setQueue insn'.arg0 _) next _ rfl rfl).elim
  | sendBlock insn' w hinsn' hop hr _ _ =>
    rw [hinsn] at hinsn'
    cases hinsn'
    have hlist : l = .send insn.arg0 := by
      rw [ipcList, hop] at hl
      exact (Option.some.inj hl).symm
    subst hlist
    have hnew : c.current ∉ (c.queue insn.arg0).sendWaiters := hnot (.send insn.arg0)
    show _ ∈ ((c.sendBlocked insn).queue insn.arg0).sendWaiters
    rw [sendBlocked, queue_setQueue, if_pos rfl, (sent_wouldBlock hr).1,
      waitqAdd_new hnew (hroom (.send insn.arg0))]
    exact List.mem_append_right _ List.mem_cons_self
  | recvBlock insn' w hinsn' hop hr _ _ =>
    rw [hinsn] at hinsn'
    cases hinsn'
    have hlist : l = .recv insn.arg0 := by
      rw [ipcList, hop] at hl
      exact (Option.some.inj hl).symm
    subst hlist
    have hnew : c.current ∉ (c.queue insn.arg0).recvWaiters := hnot (.recv insn.arg0)
    show _ ∈ ((c.recvBlocked insn).queue insn.arg0).recvWaiters
    rw [recvBlocked, queue_setQueue, if_pos rfl, (received_wouldBlock hr).1,
      waitqAdd_new hnew (hroom (.recv insn.arg0))]
    exact List.mem_append_right _ List.mem_cons_self

/-- The instruction in which a process was last seen blocking. -/
def blockedIn (evs : List (ℤ × Option WorkloadInsn)) (pid : ℤ) : Option WorkloadInsn :=
  (evs.reverse.find? fun e => e.1 == pid).bind Prod.snd

/-- Whoever is blocked in a `SEND` or `RECV` is in its list. -/
def Recorded (evs : List (ℤ × Option WorkloadInsn)) (c : Core) : Prop :=
  ∀ pid insn l, c.stateOf pid = some .blocked → blockedIn evs pid = some insn →
    ipcList insn = some l → pid ∈ c.waiters l

variable {evs : List (ℤ × Option WorkloadInsn)}

theorem blockedIn_concat {i : Option WorkloadInsn} {pid' : ℤ} :
    blockedIn (evs ++ [(pid, i)]) pid' = if pid = pid' then i else blockedIn evs pid' := by
  rw [blockedIn, List.reverse_append, List.reverse_singleton, List.singleton_append]
  by_cases h : pid = pid'
  · rw [List.find?_cons_of_pos (by simpa using h), if_pos h]
    rfl
  · rw [List.find?_cons_of_neg (by simpa using h), if_neg h]
    rfl

/-- Nobody new is BLOCKED, and the lists stay. -/
theorem Recorded.of_blocked (h : Recorded evs c) (hl : c'.waiters = c.waiters)
    (hb : ∀ pid, c'.stateOf pid = some .blocked → c.stateOf pid = some .blocked) :
    Recorded evs c' := by
  intro pid insn l hpid hin hlist
  rw [hl]
  exact h pid insn l (hb pid hpid) hin hlist

theorem Quiet.blocked_of (h : Quiet c c') (hb : c'.stateOf pid = some .blocked) :
    c.stateOf pid = some .blocked := by
  have hst : ∀ pid' st w, st ≠ .blocked → (c.setProc pid' st w).stateOf pid = some .blocked →
      c.stateOf pid = some .blocked := by
    intro pid' st w hne hpid
    rw [stateOf_setProc] at hpid
    split_ifs at hpid
    · exact absurd (Option.some.inj hpid) hne
    · exact hpid
  cases h with
  | timer pid' w _ _ => exact hst pid' .ready 0 nofun hb
  | dispatch pid' w _ _ => exact hst pid' .running w nofun hb

theorem Recorded.steps (h : Relation.ReflTransGen Quiet c c') (hc : Recorded evs c) :
    Recorded evs c' :=
  Quiet.steps (P := Recorded evs)
    (fun hstep hc => hc.of_blocked hstep.waiters fun _ => hstep.blocked_of) h hc

/-- What a process blocks in is recorded when it blocks. -/
theorem Exec.recorded (h : Exec safe c c') (hc : c.Placed) (hw : c.Waits)
    (hrun : c.stateOf c.current = some .running)
    (hroom : ∀ l, (c.waiters l).length < mosrtWaitqCapacity) (hr : Recorded evs c) :
    Recorded (evs ++ if c'.stateOf c.current = some .blocked
      then [(c.current, c.insn c.current)] else []) c' := by
  intro pid insn l hb hin hlist
  by_cases hpid : pid = c.current
  · subst hpid
    rw [if_pos hb, blockedIn_concat, if_pos rfl] at hin
    exact h.enters hw hrun hroom hin hlist hb
  · have hold : c.stateOf pid = some .blocked := by
      rcases (h.moved hrun).others pid hpid with heq | ⟨-, hready⟩
      · rwa [heq] at hb
      · rw [hb] at hready
        cases hready
    have hin : blockedIn evs pid = some insn := by
      split_ifs at hin
      · rwa [blockedIn_concat, if_neg fun heq => hpid heq.symm] at hin
      · rwa [List.append_nil] at hin
    exact (h.flow hc hw hrun).still_waiting hb (hr pid insn l hold hin hlist)

end Core

/-! ### Operations -/

variable {rt rt' : Runtime} {op : RtOp} {evs : List (ℤ × Option WorkloadInsn)}

/-- Which process an operation blocks, and in which instruction. -/
def RtOp.blocks (rt : Runtime) (op : RtOp) : List (ℤ × Option WorkloadInsn) :=
  (op.executing rt).elim [] fun d =>
    if (procGet (RtOp.exec rt op).procs d.currentPid).map Pcb.state = some .blocked
    then [(d.currentPid, d.insnOf d.currentPid)] else []

/-- What holds as long as nobody is killed and no list runs out of room. -/
structure Attended (evs : List (ℤ × Option WorkloadInsn)) (rt : Runtime) : Prop where
  consistent : Consistent rt
  waits : rt.abs.Waits
  alive : rt.abs.Alive
  served : ∀ qid, rt.abs.Served qid (rt.abs.queue qid)
  recorded : Core.Recorded evs rt.abs

theorem Core.Quiet.served_of_steps {c c' : Core} (h : Relation.ReflTransGen Core.Quiet c c')
    (hw : c.Waits) (hs : ∀ qid, Core.Served c qid (c.queue qid)) :
    c'.Waits ∧ ∀ qid, Core.Served c' qid (c'.queue qid) :=
  Core.Quiet.steps (P := fun c => c.Waits ∧ ∀ qid, Core.Served c qid (c.queue qid))
    (fun hstep hc => ⟨hstep.waits hc.1, hstep.served hc.1 hc.2⟩) h ⟨hw, hs⟩

theorem Attended.operation (h : Attended evs rt) (hmost : rt.abs.AtMost mosrtWaitqCapacity)
    (hkill : ∀ pid, op ≠ .kill pid) : Attended (evs ++ op.blocks rt) (RtOp.exec rt op) := by
  have hmove := (op.moves h.consistent).2
  have halive := hmove.alive (fun pid hop => absurd hop (hkill pid)) h.waits h.alive
  have hwaits := hmove.waits h.waits
  refine ⟨RtOp.consistent h.consistent op, hwaits, halive, ?_, ?_⟩
  · cases hmove with
    | quiet _ hsteps => exact (Core.Quiet.served_of_steps hsteps h.waits h.served).2
    | exec d fuel consumed hop hsteps hd hpos hexec =>
      obtain ⟨hwd, hsd⟩ := Core.Quiet.served_of_steps hsteps h.waits h.served
      have had := Core.Quiet.steps Core.Quiet.alive hsteps h.alive
      have hmd := Core.AtMost.steps hsteps hmost
      obtain ⟨p, hcpu⟩ := hd.placed.onCpu hpos
      have hrun := Core.stateOf_eq hcpu.proc
      have hx := (executeInstruction_spec hd.sound hd.placed hpos hexec).2
      exact hx.served hwd had hrun (hmd.room hwd hrun) hsd
    | spawn pid first _ hnew _ _ habs =>
      rw [habs]
      exact Core.served_spawn h.waits hnew h.served
    | kill pid st hop => exact absurd hop (hkill pid)
  · rw [RtOp.blocks]
    cases hmove with
    | quiet hop hsteps =>
      rw [hop, Option.elim_none, List.append_nil]
      exact Core.Recorded.steps hsteps h.recorded
    | exec d fuel consumed hop hsteps hd hpos hexec =>
      have hwd := Core.Quiet.steps Core.Quiet.waits hsteps h.waits
      have hmd := Core.AtMost.steps hsteps hmost
      have hrd := Core.Recorded.steps hsteps h.recorded
      obtain ⟨p, hcpu⟩ := hd.placed.onCpu hpos
      have hrun := Core.stateOf_eq hcpu.proc
      have hx := (executeInstruction_spec hd.sound hd.placed hpos hexec).2
      have hrec := hx.recorded hd.placed hwd hrun (hmd.room hwd hrun) hrd
      have hst : (RtOp.exec rt op).abs.stateOf d.abs.current =
          (procGet (RtOp.exec rt op).procs d.currentPid).map Pcb.state := Option.map_map _ _ _
      rw [hst] at hrec
      rw [hop]
      exact hrec
    | spawn pid first hop hnew _ _ habs =>
      rw [hop, Option.elim_none, List.append_nil, habs]
      refine h.recorded.of_blocked rfl fun pid' hb => ?_
      have hst : (rt.abs.spawn pid first).stateOf pid' =
          if pid' = pid then some .ready else rt.abs.stateOf pid' := Core.stateOf_setProc
      rw [hst] at hb
      split_ifs at hb
      · cases hb
      · exact hb
    | kill pid st hop => exact absurd hop (hkill pid)

/-! ### Runs -/

/-- There are at most as many processes as were created. -/
theorem atMost_run (ops : List RtOp) :
    (Runs.run RtOp.exec runtimeInit ops).abs.AtMost (ops.countP RtOp.creates) := by
  induction ops using List.reverseRecOn with
  | nil =>
    refine ⟨∅, le_rfl, fun pid hpid => absurd ?_ hpid⟩
    rw [Core.stateOf]
    exact congrArg (Option.map Prod.fst) (runtimeInit_proc pid)
  | append_singleton ops op ih =>
    rw [Runs.run_append, List.countP_append, List.countP_singleton]
    have hrt := RtOp.run_consistent ops
    show (RtOp.exec (Runs.run RtOp.exec runtimeInit ops) op).abs.AtMost _
    generalize Runs.run RtOp.exec runtimeInit ops = rt at ih hrt ⊢
    have hmore : ∀ n, rt.abs.AtMost n → rt.abs.AtMost (n + if op.creates = true then 1 else 0) := by
      rintro n ⟨S, hcard, hS⟩
      exact ⟨S, hcard.trans (Nat.le_add_right _ _), hS⟩
    cases (op.moves hrt).2 with
    | quiet _ hsteps => exact Core.AtMost.steps hsteps (hmore _ ih)
    | exec d fuel consumed _ hsteps hd hpos hexec =>
      have hmd := Core.AtMost.steps hsteps (hmore _ ih)
      obtain ⟨p, hcpu⟩ := hd.placed.onCpu hpos
      have hrun := Core.stateOf_eq hcpu.proc
      have hx := (executeInstruction_spec hd.sound hd.placed hpos hexec).2
      exact hmd.of_exists fun pid => (hx.moved hrun).exists_of hrun
    | spawn pid first _ _ _ _ habs hcreates =>
      rw [habs, if_pos hcreates]
      exact ih.spawn
    | kill pid st _ hst _ habs =>
      rw [habs]
      refine (hmore _ ih).of_exists fun pid' hpid => ?_
      by_cases heq : pid' = pid
      · rw [heq, hst]
        exact Option.some_ne_none _
      · have hsame : (rt.abs.kill pid).stateOf pid' = rt.abs.stateOf pid' :=
          Core.stateOf_setProc.trans (if_neg heq)
        rwa [hsame] at hpid

theorem attended_init : Attended [] runtimeInit := by
  refine ⟨runtimeInit_consistent, runtimeInit_waits, fun l pid hmem => ?_, fun qid => ?_, ?_⟩
  · rw [runtimeInit_waiters] at hmem
    cases hmem
  · have hq : runtimeInit.abs.queue qid = newQueue qid := queueOf_init qid
    rw [hq]
    exact ⟨nofun, nofun, nofun, List.nodup_nil, fun hne => absurd rfl hne⟩
  · intro pid insn l hb
    rw [Core.stateOf, runtimeInit_proc] at hb
    cases hb

/-- **No lost wakeup.**  In every run with at most 128 creations and no kill, when nobody is
READY or RUNNING, a process that is blocked in a `SEND` finds the ring full, and a process that
is blocked in a `RECV` finds it empty and is granted no message. -/
theorem no_lost_wakeup (ops : List RtOp) (hcreate : ops.countP RtOp.creates ≤ 128)
    (hkill : ∀ pid, .kill pid ∉ ops) (pid : ℤ) (p : Pcb) (insn : WorkloadInsn) :
    let rt := Runs.run RtOp.exec runtimeInit ops
    let q := queueOf rt.queues insn.arg0
    (∀ pid p, procGet rt.procs pid = some p → p.state ≠ .ready ∧ p.state ≠ .running) →
    procGet rt.procs pid = some p → p.state = .blocked →
    Core.blockedIn (Runs.history RtOp.exec RtOp.blocks runtimeInit ops) pid = some insn →
    (insn.op = .send → q.ring.len = mosrtMsgCapacity) ∧
    (insn.op = .recv → q.ring.len = 0 ∧ ∀ g ∈ q.grants, g.1 ≠ pid) := by
  intro rt q hidle hp hb hin
  have hok : Runs.Along RtOp.exec
      (fun rt op => rt.abs.AtMost mosrtWaitqCapacity ∧ ∀ pid, op ≠ .kill pid) runtimeInit ops := by
    refine Runs.along_of_split fun ops₁ op ops₂ hops => ⟨?_, fun pid heq => ?_⟩
    · obtain ⟨S, hcard, hS⟩ := atMost_run ops₁
      have hle : ops₁.countP RtOp.creates ≤ ops.countP RtOp.creates := by
        rw [hops, List.countP_append]
        exact Nat.le_add_right _ _
      exact ⟨S, hcard.trans (hle.trans hcreate), hS⟩
    · refine hkill pid ?_
      rw [hops, heq]
      exact List.mem_append_right _ List.mem_cons_self
  have h : Attended ([] ++ Runs.history RtOp.exec RtOp.blocks runtimeInit ops) rt :=
    Runs.run_history (I := fun rt evs => Attended evs rt)
      (fun rt evs op h hop => h.operation hop.1 hop.2) attended_init hok
  rw [List.nil_append] at h
  have hlogged : Logged _ q := logged_run ops insn.arg0
  have hblocked : rt.abs.stateOf pid = some .blocked := by
    rw [← hb]
    exact abs_stateOf hp
  -- nobody can run, so nobody was granted a message and nobody makes the count
  have hnobody : ∀ pid, ¬ rt.abs.Active pid := by
    rintro pid (hst | hst) <;> obtain ⟨p, hp, hst⟩ := procGet_of_stateOf hst
    · exact (hidle pid p hp).1 hst
    · exact (hidle pid p hp).2 hst
  have hgrants : q.grants = [] := by
    refine List.eq_nil_iff_forall_not_mem.mpr fun g hg => ?_
    exact hnobody g.1 ((h.served insn.arg0).granted g hg).1
  constructor
  · intro hop
    have hmem : pid ∈ rt.abs.waiters (.send insn.arg0) :=
      h.recorded pid insn _ hblocked hin (by rw [Core.ipcList, hop])
    obtain ⟨T, hT, hcard⟩ := (h.served insn.arg0).pending (List.ne_nil_of_mem hmem)
    have hempty : T = ∅ :=
      Finset.eq_empty_of_forall_notMem fun pid hpid => hnobody pid (hT pid hpid).1
    have hcard : mosrtMsgCapacity ≤ q.ring.len + q.grants.length + T.card := hcard
    rw [hgrants, hempty] at hcard
    exact le_antisymm (RingBuffer.len_le _) hcard
  · intro hop
    have hmem : pid ∈ rt.abs.waiters (.recv insn.arg0) :=
      h.recorded pid insn _ hblocked hin (by rw [Core.ipcList, hop])
    refine ⟨RingBuffer.toList_eq_nil.mp (hlogged.idle (List.ne_nil_of_mem hmem)), fun g hg => ?_⟩
    rw [hgrants] at hg
    cases hg

/-- A receiver blocks, is handed a message by a sender, which ends, and blocks again. -/
def handedRun : List RtOp :=
  [.runWorkload ⟨"receiver", [⟨.recv, 1, 0, 0⟩, ⟨.recv, 1, 0, 0⟩]⟩ 20,
    .runWorkload ⟨"sender", [⟨.send, 1, 7, 0⟩, ⟨.exit, 0, 0, 0⟩]⟩ 20,
    .pass 0, .pass 0, .pass 0, .pass 0, .pass 0]

set_option maxRecDepth 100000 in
theorem handedRun_end :
    ([1, 2].map fun pid => (procGet (Runs.run RtOp.exec runtimeInit handedRun).procs pid).map
        Pcb.state, (Runs.run RtOp.exec runtimeInit handedRun).procs.nextPid,
        Core.blockedIn (Runs.history RtOp.exec RtOp.blocks runtimeInit handedRun) 1) =
      ([some .blocked, some .exited], 3, some ⟨.recv, 1, 0, 0⟩) := by
  decide +kernel

theorem no_lost_wakeup_receiver :
    let rt := Runs.run RtOp.exec runtimeInit handedRun
    (procGet rt.procs 1).map Pcb.state = some .blocked ∧ (queueOf rt.queues 1).ring.len = 0 := by
  have hend := handedRun_end
  simp only [List.map_cons, List.map_nil, Prod.mk.injEq, List.cons.injEq, and_true] at hend
  obtain ⟨⟨hone, htwo⟩, hnext, hin⟩ := hend
  obtain ⟨p, hp, hb⟩ := Option.map_eq_some_iff.mp hone
  have happly := no_lost_wakeup handedRun (by decide) (by simp [handedRun]) 1 p ⟨.recv, 1, 0, 0⟩
  dsimp only at happly ⊢
  generalize Runs.run RtOp.exec runtimeInit handedRun = rt at *
  have hidle : ∀ pid q, procGet rt.procs pid = some q →
      q.state ≠ .ready ∧ q.state ≠ .running := by
    intro pid q hq
    obtain ⟨slot, hslot, -⟩ := procGet_eq_some.mp hq
    obtain ⟨hpos, hlt, -⟩ := (findSlotByPid_eq_some.mp hslot).1
    obtain rfl | rfl : pid = 1 ∨ pid = 2 := by omega
    · rw [hq] at hone
      rw [Option.some.inj hone]
      decide
    · rw [hq] at htwo
      rw [Option.some.inj htwo]
      decide
  exact ⟨hone, ((happly hidle hp hb hin).2 rfl).1⟩

end Mosrt
