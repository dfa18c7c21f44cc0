/-
Wait lists: who is in them, and that nobody is left out.

A blocked process waits for a tick or stands in a wait list of some queue, semaphore
or mutex.  `Core.Flow` says what an instruction does to the wait lists: nothing, or
the process on the CPU enters one and blocks, or the first process of one is taken out
and woken.  From this:

* `Core.Waits` — wait lists are duplicate-free and disjoint, and hold only processes
  that are BLOCKED without a wakeup tick, or were killed;
* `blocked_has_waker` — a BLOCKED process has a wakeup tick or is in exactly one
  list, as long as no instruction blocks its process without leaving it one of both;
* `handoff_to_blocked` — what is taken from a wait list is BLOCKED, as long as nobody
  kills a process that waits.
-/
import Mosrt.Operations

namespace Mosrt

/-- The wait lists of the system. -/
inductive WaitList where
  /-- `send_waiters` of a queue. -/
  | send (qid : ℤ)
  /-- `recv_waiters` of a queue. -/
  | recv (qid : ℤ)
  /-- `waiters` of a semaphore or mutex. -/
  | sem (id : ℤ)
deriving DecidableEq, Repr

namespace Core

def waiters (c : Core) : WaitList → List ℤ
  | .send qid => (c.queue qid).sendWaiters
  | .recv qid => (c.queue qid).recvWaiters
  | .sem id => c.semWaiters id

variable {c c' : Core} {safe : Prop} {pid id : ℤ} {q : IpcQueue}

theorem waiters_wake : (c.wake pid).waiters = c.waiters := by
  funext l
  cases l with
  | send | recv => rw [waiters, waiters, wake_fields.2.1]
  | sem => rw [waiters, waiters, wake_fields.2.2.1]

/-- A queue whose senders stay. -/
theorem waiters_setQueue_recv (h : q.sendWaiters = (c.queue id).sendWaiters) :
    (c.setQueue id q).waiters = Function.update c.waiters (.recv id) q.recvWaiters := by
  funext l
  cases l with
  | send qid =>
    rw [Function.update_apply, if_neg (by exact nofun), waiters, queue_setQueue]
    split_ifs with hid
    · rw [h, hid]
      rfl
    · rfl
  | recv qid =>
    simp only [waiters, queue_setQueue, Function.update_apply, WaitList.recv.injEq]
    split_ifs <;> rfl
  | sem => rw [Function.update_apply, if_neg (by exact nofun)]; rfl

/-- A queue whose receivers stay. -/
theorem waiters_setQueue_send (h : q.recvWaiters = (c.queue id).recvWaiters) :
    (c.setQueue id q).waiters = Function.update c.waiters (.send id) q.sendWaiters := by
  funext l
  cases l with
  | recv qid =>
    rw [Function.update_apply, if_neg (by exact nofun), waiters, queue_setQueue]
    split_ifs with hid
    · rw [h, hid]
      rfl
    · rfl
  | send qid =>
    simp only [waiters, queue_setQueue, Function.update_apply, WaitList.send.injEq]
    split_ifs <;> rfl
  | sem => rw [Function.update_apply, if_neg (by exact nofun)]; rfl

theorem waiters_setSemWaiters {ws : List ℤ} :
    (c.setSemWaiters id ws).waiters = Function.update c.waiters (.sem id) ws := by
  funext l
  cases l with
  | send | recv => rw [Function.update_apply, if_neg (by exact nofun)]; rfl
  | sem id' =>
    show Function.update c.semWaiters id ws id' = _
    simp only [Function.update_apply, WaitList.sem.injEq]
    split_ifs <;> rfl

/-! ### What an instruction does to the lists -/

/-- Wait lists and the states that go with them, before and after an instruction. -/
inductive Flow (safe : Prop) (c c' : Core) : Prop
  | stay : c'.waiters = c.waiters → c'.proc = c.proc → Flow safe c c'
  | leave (st : ProcState) (w : ℕ) : c'.waiters = c.waiters →
      c'.proc = Function.update c.proc c.current (some (st, w)) → (st ≠ .blocked → w = 0) →
      (st = .blocked → safe → 0 < w) → Flow safe c c'
  | enter (l : WaitList) : c'.waiters = Function.update c.waiters l (c.waiters l ++ [c.current]) →
      c'.proc = Function.update c.proc c.current (some (.blocked, 0)) → Flow safe c c'
  | dropped : ¬ safe → c'.waiters = c.waiters →
      c'.proc = Function.update c.proc c.current (some (.blocked, 0)) → Flow safe c c'
  | pop (l : WaitList) (pid : ℤ) (rest : List ℤ) : c.waiters l = pid :: rest →
      c'.waiters = Function.update c.waiters l rest → c'.proc = (c.wake pid).proc →
      Flow safe c c'

/-- Who is in a wait list, and what a wakeup tick means. -/
structure Waits (c : Core) : Prop where
  nodup : ∀ l, (c.waiters l).Nodup
  unique : ∀ l l' pid, pid ∈ c.waiters l → pid ∈ c.waiters l' → l = l'
  member : ∀ l, ∀ pid ∈ c.waiters l,
    c.proc pid = some (.blocked, 0) ∨ c.stateOf pid = some .exited
  awake : ∀ pid st w, c.proc pid = some (st, w) → st ≠ .blocked → w = 0

theorem Waits.not_waiting {st : ProcState} (h : c.Waits) (hst : c.stateOf pid = some st)
    (hb : st ≠ .blocked) (hx : st ≠ .exited) (l : WaitList) : pid ∉ c.waiters l := by
  intro hmem
  rcases h.member l pid hmem with hp | hp
  · rw [stateOf_eq hp] at hst
    exact hb (Option.some.inj hst).symm
  · rw [hp] at hst
    exact hx (Option.some.inj hst).symm

/-- The list after an entry was tried. -/
theorem waitqAdd_cases {ws : List ℤ} (h : pid ∉ ws) :
    waitqAdd ws pid = ws ++ [pid] ∨ waitqAdd ws pid = ws ∧ ¬ ws.length < mosrtWaitqCapacity := by
  rw [waitqAdd, if_neg h]
  split_ifs with hroom
  · exact .inl rfl
  · exact .inr ⟨rfl, hroom⟩

/-- Entering a list, or being left out of it for want of room. -/
theorem Flow.entering {l : WaitList} {ws : List ℤ} {w : ℕ} (hnot : c.current ∉ c.waiters l)
    (hws : ws = waitqAdd (c.waiters l) c.current)
    (hsafe : safe → (c.waiters l).length < mosrtWaitqCapacity)
    (hwaiters : c'.waiters = Function.update c.waiters l ws)
    (hproc : c'.proc = Function.update c.proc c.current (some (.blocked, w))) (hw : w = 0) :
    Flow safe c c' := by
  subst hw
  rcases waitqAdd_cases hnot with hadd | ⟨hadd, hfull⟩
  · rw [hws, hadd] at hwaiters
    exact .enter l hwaiters hproc
  · rw [hws, hadd, Function.update_eq_self] at hwaiters
    exact .dropped (fun hs => hfull (hsafe hs)) hwaiters hproc

/-- Taking the first process of a list, if there is one. -/
theorem Flow.popping {l : WaitList} (hpos : ∀ pid, c.stateOf pid ≠ none → 0 < pid)
    (hwaiters : c'.waiters = Function.update c.waiters l (waitqPop (c.waiters l)).2)
    (hproc : c'.proc = (c.wake (waitqPop (c.waiters l)).1).proc) : Flow safe c c' := by
  cases hws : c.waiters l with
  | nil =>
    rw [hws] at hwaiters hproc
    refine .stay ?_ ?_
    · rw [hwaiters]
      show Function.update c.waiters l [] = _
      rw [← hws, Function.update_eq_self]
    · have hnobody : c.stateOf (-1) ≠ some .blocked := by
        intro hb
        have := hpos (-1) (by rw [hb]; exact Option.some_ne_none _)
        omega
      rw [hproc]
      exact congrArg Core.proc (wake_of_not_blocked hnobody)
  | cons pid rest =>
    rw [hws] at hwaiters hproc
    exact .pop l pid rest hws hwaiters hproc

theorem queueSend_waiters (q : IpcQueue) (pid value : ℤ) :
    (queueSend q pid value).2.sendWaiters = q.sendWaiters ∧
      (queueSend q pid value).2.recvWaiters = q.recvWaiters := by
  have hcase := queueSend_case q pid value
  generalize queueSend q pid value = r at hcase ⊢
  cases hcase <;> exact ⟨rfl, rfl⟩

/-- A process that does not wait cannot be removed from the receivers. -/
theorem queueRecv_waiters (h : pid ∉ q.recvWaiters) :
    (queueRecv q pid).2.sendWaiters = q.sendWaiters ∧
      (queueRecv q pid).2.recvWaiters = q.recvWaiters := by
  have hcase := queueRecv_case q pid
  generalize queueRecv q pid = r at hcase ⊢
  cases hcase with
  | collected => exact ⟨rfl, List.erase_of_not_mem h⟩
  | notFirst | empty | dequeued => exact ⟨rfl, rfl⟩

/-- Every instruction moves processes in one of these ways. -/
theorem Exec.flow (h : Exec safe c c') (hc : c.Placed) (hw : c.Waits)
    (hrun : c.stateOf c.current = some .running) : Flow safe c c' := by
  have hnot := hw.not_waiting hrun nofun nofun
  have hzero : ∀ w, c.proc c.current = some (.running, w) → w = 0 :=
    fun w hp => hw.awake _ _ _ hp nofun
  cases h with
  | goto next => exact .stay rfl rfl
  | preempt next w _ hp => exact .leave .ready w rfl rfl (fun _ => hzero w hp) nofun
  | sleep next w _ hsafe =>
    exact .leave .blocked w rfl rfl (fun hne => absurd rfl hne) fun _ => hsafe
  | exit => exact .leave .exited 0 rfl rfl (fun _ => rfl) nofun
  | noQueue => exact .leave .exited 0 rfl rfl (fun _ => rfl) nofun
  | acquire id w _ hp =>
    refine .enter (.sem id) ?_ ?_
    · have hnew : c.current ∉ c.semWaiters id := hnot (.sem id)
      show (c.setSemWaiters id _).waiters = _
      rw [waiters_setSemWaiters, enlist, if_neg hnew]
      rfl
    · rw [← hzero w hp]
      rfl
  | release id pid rest next _ hws =>
    refine .pop (.sem id) pid rest hws ?_ ?_
    · show ((c.setSemWaiters id rest).wake pid).waiters = _
      rw [waiters_wake, waiters_setSemWaiters]
    · exact wake_proc rfl
  | sendOk insn next _ _ _ =>
    obtain ⟨hs, hr⟩ := queueSend_waiters (c.queue insn.arg0) c.current insn.arg1
    have hr : (c.sent insn).2.recvWaiters = c.waiters (.recv insn.arg0) := hr
    refine .popping (l := .recv insn.arg0) hc.positive ?_ ?_
    · show (c.afterSend insn).waiters = _
      rw [afterSend, waiters_wake, waiters_setQueue_recv (by exact hs), hr]
    · show (c.afterSend insn).proc = _
      rw [afterSend, hr]
      exact wake_proc rfl
  | sendBlock insn w _ _ _ hp hsafe =>
    obtain ⟨hs, hr⟩ := queueSend_waiters (c.queue insn.arg0) c.current insn.arg1
    have hs : (c.sent insn).2.sendWaiters = c.waiters (.send insn.arg0) := hs
    refine .entering (l := .send insn.arg0) (hnot _) rfl hsafe ?_ rfl (hzero w hp)
    show (c.sendBlocked insn).waiters = _
    rw [sendBlocked, waiters_setQueue_send (by exact hr), hs]
  | sendError insn _ _ _ =>
    obtain ⟨hs, hr⟩ := queueSend_waiters (c.queue insn.arg0) c.current insn.arg1
    refine .leave .exited 0 ?_ rfl (fun _ => rfl) nofun
    show (c.setQueue insn.arg0 (c.sent insn).2).waiters = _
    have hs : (c.sent insn).2.sendWaiters = c.waiters (.send insn.arg0) := hs
    rw [waiters_setQueue_send (by exact hr), hs, Function.update_eq_self]
  | recvOk insn next _ _ _ =>
    obtain ⟨hs, hr⟩ := queueRecv_waiters (q := c.queue insn.arg0) (hnot (.recv insn.arg0))
    have hs : (c.received insn).2.sendWaiters = c.waiters (.send insn.arg0) := hs
    refine .popping (l := .send insn.arg0) hc.positive ?_ ?_
    · show (c.afterRecv insn).waiters = _
      rw [afterRecv, waiters_wake, waiters_setQueue_send (by exact hr), hs]
    · show (c.afterRecv insn).proc = _
      rw [afterRecv, hs]
      exact wake_proc rfl
  | recvBlock insn w _ _ _ hp hsafe =>
    obtain ⟨hs, hr⟩ := queueRecv_waiters (q := c.queue insn.arg0) (hnot (.recv insn.arg0))
    have hr : (c.received insn).2.recvWaiters = c.waiters (.recv insn.arg0) := hr
    refine .entering (l := .recv insn.arg0) (hnot _) rfl hsafe ?_ rfl (hzero w hp)
    show (c.recvBlocked insn).waiters = _
    rw [recvBlocked, waiters_setQueue_recv (by exact hs), hr]

/-! ### What every move keeps -/

/-- Writing the state of a process that is in no list, or marking one as exited. -/
theorem Waits.write {st : ProcState} {w : ℕ} (pid : ℤ) (hw : c.Waits) (hl : c'.waiters = c.waiters)
    (hp : c'.proc = Function.update c.proc pid (some (st, w))) (hzero : st ≠ .blocked → w = 0)
    (hout : st = .exited ∨ ∀ l, pid ∉ c.waiters l) : c'.Waits := by
  refine ⟨fun l => ?_, fun l l' pid' => ?_, fun l pid' hmem => ?_, fun pid' st' w' hst hb => ?_⟩
  · rw [hl]
    exact hw.nodup l
  · rw [hl]
    exact hw.unique l l' pid'
  · rw [hl] at hmem
    by_cases hpid : pid' = pid
    · subst hpid
      rcases hout with rfl | hnot
      · exact .inr (stateOf_eq (by rw [hp, Function.update_self]))
      · exact absurd hmem (hnot l)
    · rw [stateOf, hp, Function.update_of_ne hpid]
      exact hw.member l pid' hmem
  · rw [hp, Function.update_apply] at hst
    split_ifs at hst with hpid
    · cases hst
      exact hzero hb
    · exact hw.awake pid' st' w' hst hb

theorem Flow.waits (h : Flow safe c c') (hw : c.Waits)
    (hrun : c.stateOf c.current = some .running) : c'.Waits := by
  have hnot := hw.not_waiting hrun nofun nofun
  cases h with
  | stay hl hp =>
    refine ⟨fun l => ?_, fun l l' pid => ?_, fun l pid hmem => ?_, fun pid st w hst => ?_⟩
    · rw [hl]
      exact hw.nodup l
    · rw [hl]
      exact hw.unique l l' pid
    · rw [hl] at hmem
      rw [stateOf, hp]
      exact hw.member l pid hmem
    · rw [hp] at hst
      exact hw.awake pid st w hst
  | leave st w hl hp hzero _ => exact hw.write _ hl hp hzero (.inr hnot)
  | dropped _ hl hp => exact hw.write _ hl hp (fun _ => rfl) (.inr hnot)
  | enter l₀ hl hp =>
    have hne : ∀ l, ∀ pid ∈ c.waiters l, pid ≠ c.current := by
      rintro l pid hmem rfl
      exact hnot l hmem
    -- whoever is in a list now was there before, or has just entered `l₀`
    have hmem : ∀ l pid, pid ∈ c'.waiters l →
        pid ∈ c.waiters l ∨ l = l₀ ∧ pid = c.current := by
      intro l pid hmem
      rw [hl, Function.update_apply] at hmem
      split_ifs at hmem with heq
      · rcases List.mem_append.mp hmem with hmem | hmem
        · exact .inl (heq ▸ hmem)
        · exact .inr ⟨heq, List.mem_singleton.mp hmem⟩
      · exact .inl hmem
    refine ⟨fun l => ?_, fun l l' pid h1 h2 => ?_, fun l pid h1 => ?_, fun pid st w hst hb => ?_⟩
    · rw [hl, Function.update_apply]
      split_ifs
      · refine List.nodup_append.mpr ⟨hw.nodup l₀, List.nodup_singleton _, fun a ha b hb => ?_⟩
        rw [List.mem_singleton.mp hb]
        exact hne l₀ a ha
      · exact hw.nodup l
    · rcases hmem l pid h1 with h1 | ⟨hl1, hpid1⟩
      · rcases hmem l' pid h2 with h2 | ⟨-, hpid2⟩
        · exact hw.unique l l' pid h1 h2
        · exact absurd hpid2 (hne l pid h1)
      · rcases hmem l' pid h2 with h2 | ⟨hl2, -⟩
        · exact absurd hpid1 (hne l' pid h2)
        · rw [hl1, hl2]
    · rcases hmem l pid h1 with h1 | ⟨-, rfl⟩
      · rw [stateOf, hp, Function.update_of_ne (hne l pid h1)]
        exact hw.member l pid h1
      · rw [hp, Function.update_self]
        exact .inl rfl
    · rw [hp, Function.update_apply] at hst
      split_ifs at hst
      · cases hst
        rfl
      · exact hw.awake pid st w hst hb
  | pop l₀ pid₀ rest hws hl hp =>
    have hfirst : pid₀ ∈ c.waiters l₀ := by
      rw [hws]
      exact List.mem_cons_self
    have hnodup := hw.nodup l₀
    rw [hws] at hnodup
    obtain ⟨hnew, hrest⟩ := List.nodup_cons.mp hnodup
    -- whoever is in a list now was there before, and is not the one taken out
    have hmem : ∀ l pid, pid ∈ c'.waiters l → pid ∈ c.waiters l ∧ pid ≠ pid₀ := by
      intro l pid hmem
      rw [hl, Function.update_apply] at hmem
      split_ifs at hmem with heq
      · refine ⟨?_, fun h => hnew (h ▸ hmem)⟩
        rw [heq, hws]
        exact List.mem_cons_of_mem _ hmem
      · exact ⟨hmem, fun h => heq (hw.unique l l₀ pid₀ (h ▸ hmem) hfirst)⟩
    refine ⟨fun l => ?_, fun l l' pid h1 h2 => ?_, fun l pid h1 => ?_, fun pid st w hst hb => ?_⟩
    · rw [hl, Function.update_apply]
      split_ifs
      · exact hrest
      · exact hw.nodup l
    · exact hw.unique l l' pid (hmem l pid h1).1 (hmem l' pid h2).1
    · obtain ⟨hold, hpid⟩ := hmem l pid h1
      rw [stateOf, hp]
      rcases proc_wake c pid₀ pid with hsame | ⟨heq, -⟩
      · rw [hsame]
        exact hw.member l pid hold
      · exact absurd heq hpid
    · rw [hp] at hst
      rcases proc_wake c pid₀ pid with hsame | ⟨-, w', hblocked, hready⟩
      · rw [hsame] at hst
        exact hw.awake pid st w hst hb
      · -- the process taken out was BLOCKED without a wakeup tick
        rw [hready] at hst
        cases hst
        rcases hw.member l₀ pid₀ hfirst with hm | hm
        · rw [hblocked] at hm
          cases hm
          rfl
        · rw [stateOf_eq hblocked] at hm
          cases hm

theorem Quiet.waiters (h : Quiet c c') : c'.waiters = c.waiters := by
  obtain ⟨hq, hs, -⟩ := h.fields
  funext l
  cases l with
  | send | recv => rw [Core.waiters, Core.waiters, hq]
  | sem => rw [Core.waiters, Core.waiters, hs]

theorem Quiet.waits (h : Quiet c c') (hw : c.Waits) : c'.Waits := by
  have hl := h.waiters
  cases h with
  | timer pid w hp hpos =>
    refine hw.write _ hl rfl (fun _ => rfl) (.inr fun l hmem => ?_)
    rcases hw.member l pid hmem with hm | hm
    · rw [hp] at hm
      cases hm
      exact absurd hpos (lt_irrefl 0)
    · rw [stateOf_eq hp] at hm
      cases hm
  | dispatch pid w _ hp =>
    exact hw.write _ hl rfl (fun _ => hw.awake pid _ _ hp nofun)
      (.inr (hw.not_waiting (stateOf_eq hp) nofun nofun))

theorem Waits.spawn {first : Option WorkloadInsn} (hw : c.Waits) (hnew : c.stateOf pid = none) :
    (c.spawn pid first).Waits := by
  refine hw.write pid rfl rfl (fun _ => rfl) (.inr fun l hmem => ?_)
  rcases hw.member l pid hmem with hm | hm
  · rw [stateOf_eq hm] at hnew
    cases hnew
  · rw [hm] at hnew
    cases hnew

theorem Waits.kill (hw : c.Waits) : (c.kill pid).Waits :=
  hw.write pid rfl rfl (fun _ => rfl) (.inl rfl)

/-! ### Nobody is forgotten -/

/-- A BLOCKED process has a wakeup tick or is in a list. -/
def Awaited (c : Core) : Prop :=
  ∀ pid, c.proc pid = some (.blocked, 0) → ∃ l, pid ∈ c.waiters l

/-- Writing a state that needs no list. -/
theorem Awaited.write {st : ProcState} {w : ℕ} (pid : ℤ) (h : c.Awaited)
    (hl : c'.waiters = c.waiters)
    (hp : c'.proc = Function.update c.proc pid (some (st, w))) (hst : st = .blocked → 0 < w) :
    c'.Awaited := by
  intro pid' hb
  rw [hp, Function.update_apply] at hb
  rw [hl]
  split_ifs at hb
  · cases hb
    exact absurd (hst rfl) (lt_irrefl 0)
  · exact h pid' hb

theorem Flow.awaited (h : Flow safe c c') (hsafe : safe) (ha : c.Awaited) : c'.Awaited := by
  cases h with
  | stay hl hp =>
    intro pid hb
    rw [hp] at hb
    rw [hl]
    exact ha pid hb
  | leave st w hl hp _ hpos => exact ha.write _ hl hp fun hst => hpos hst hsafe
  | dropped hno => exact absurd hsafe hno
  | enter l hl hp =>
    intro pid hb
    rw [hp, Function.update_apply] at hb
    rw [hl]
    split_ifs at hb with hpid
    · refine ⟨l, ?_⟩
      rw [Function.update_self, hpid]
      exact List.mem_append_right _ List.mem_cons_self
    · obtain ⟨l', hmem⟩ := ha pid hb
      refine ⟨l', ?_⟩
      rw [Function.update_apply]
      split_ifs with heq
      · rw [← heq]
        exact List.mem_append_left _ hmem
      · exact hmem
  | pop l pid₀ rest hws hl hp =>
    intro pid hb
    rw [hp] at hb
    rcases proc_wake c pid₀ pid with hsame | ⟨-, w, -, hready⟩
    · rw [hsame] at hb
      obtain ⟨l', hmem⟩ := ha pid hb
      refine ⟨l', ?_⟩
      rw [hl, Function.update_apply]
      split_ifs with heq
      · rw [heq, hws] at hmem
        rcases List.mem_cons.mp hmem with rfl | hmem
        · -- the process taken out was woken
          rw [wake_of_blocked hb, proc_setProc, if_pos rfl, hb] at hsame
          cases hsame
        · exact hmem
      · exact hmem
    · rw [hready] at hb
      cases hb

theorem Quiet.awaited (h : Quiet c c') (ha : c.Awaited) : c'.Awaited := by
  have hl := h.waiters
  cases h with
  | timer pid w hp hpos => exact ha.write pid hl rfl nofun
  | dispatch pid w _ hp => exact ha.write pid hl rfl nofun

/-! ### Nobody in a list has exited -/

def Alive (c : Core) : Prop := ∀ l, ∀ pid ∈ c.waiters l, c.stateOf pid ≠ some .exited

theorem Alive.blocked {l : WaitList} (h : c.Alive) (hw : c.Waits) (hmem : pid ∈ c.waiters l) :
    c.stateOf pid = some .blocked := by
  rcases hw.member l pid hmem with hm | hm
  · exact stateOf_eq hm
  · exact absurd hm (h l pid hmem)

/-- Writing the state of a process that is in no list. -/
theorem Alive.write {st : ProcState} {w : ℕ} (pid : ℤ) (h : c.Alive) (hl : c'.waiters = c.waiters)
    (hp : c'.proc = Function.update c.proc pid (some (st, w))) (hnot : ∀ l, pid ∉ c.waiters l) :
    c'.Alive := by
  intro l pid' hmem
  rw [hl] at hmem
  have hne : pid' ≠ pid := by
    rintro rfl
    exact hnot l hmem
  rw [stateOf, hp, Function.update_of_ne hne]
  exact h l pid' hmem

theorem Flow.alive (h : Flow safe c c') (hw : c.Waits)
    (hrun : c.stateOf c.current = some .running) (ha : c.Alive) : c'.Alive := by
  have hnot := hw.not_waiting hrun (by decide) (by decide)
  cases h with
  | stay hl hp =>
    intro l pid hmem
    rw [hl] at hmem
    rw [stateOf, hp]
    exact ha l pid hmem
  | leave st w hl hp => exact ha.write _ hl hp hnot
  | dropped _ hl hp => exact ha.write _ hl hp hnot
  | enter l₀ hl hp =>
    intro l pid hmem
    rw [stateOf, hp, Function.update_apply]
    split_ifs with hpid
    · simp
    · rw [hl, Function.update_apply] at hmem
      split_ifs at hmem with heq
      · rcases List.mem_append.mp hmem with hmem | hmem
        · exact ha l₀ pid hmem
        · exact absurd (List.mem_singleton.mp hmem) hpid
      · exact ha l pid hmem
  | pop l₀ pid₀ rest hws hl hp =>
    intro l pid hmem
    have hold : pid ∈ c.waiters l := by
      rw [hl, Function.update_apply] at hmem
      split_ifs at hmem with heq
      · rw [heq, hws]
        exact List.mem_cons_of_mem _ hmem
      · exact hmem
    rw [stateOf, hp]
    rcases proc_wake c pid₀ pid with hsame | ⟨-, w, -, hready⟩
    · rw [hsame]
      exact ha l pid hold
    · rw [hready]
      simp

theorem Quiet.alive (h : Quiet c c') (ha : c.Alive) : c'.Alive := by
  intro l pid hmem
  rw [h.waiters] at hmem
  have hold := ha l pid hmem
  cases h with
  | timer pid' w hp hpos =>
    rw [stateOf_setProc]
    split_ifs
    · exact nofun
    · exact hold
  | dispatch pid' w _ hp =>
    show (c.setProc pid' .running w).stateOf pid ≠ _
    rw [stateOf_setProc]
    split_ifs
    · exact nofun
    · exact hold

end Core

/-! ### Operations -/

variable {rt rt' : Runtime} {op : RtOp} {pid : ℤ}

/-- The wait lists of a runtime. -/
def Runtime.waiters (rt : Runtime) : WaitList → List ℤ
  | .send qid => (queueOf rt.queues qid).sendWaiters
  | .recv qid => (queueOf rt.queues qid).recvWaiters
  | .sem id => semWaiters rt.sems id

theorem abs_waiters : rt.abs.waiters = rt.waiters := by
  funext l
  cases l <;> rfl

open Relation

/-- A property of the abstract state that every quiet move keeps. -/
theorem Core.Quiet.steps {P : Core → Prop} {c c' : Core}
    (hstep : ∀ {c c' : Core}, c.Quiet c' → P c → P c') (h : ReflTransGen Core.Quiet c c')
    (hc : P c) : P c' := by
  induction h with
  | refl => exact hc
  | tail _ hs ih => exact hstep hs ih

/-- The wait lists in the state in which an instruction is executed, and after it. -/
theorem executed_flow {d : Runtime} {fuel : ℕ} {consumed : Bool} (hd : Consistent d)
    (hpos : 0 ≤ d.currentPid) (hexec : executeInstruction fuel d = some (consumed, rt'))
    (hw : d.abs.Waits) :
    d.abs.stateOf d.abs.current = some .running ∧
      Core.Flow (blocksSafely d = true) d.abs rt'.abs := by
  obtain ⟨p, hcpu⟩ := hd.placed.onCpu hpos
  have hrun := Core.stateOf_eq hcpu.proc
  have hmove := (executeInstruction_spec hd.sound hd.placed hpos hexec).2
  exact ⟨hrun, hmove.flow hd.placed hw hrun⟩

theorem Moves.waits (h : Moves rt op rt') (hw : rt.abs.Waits) : rt'.abs.Waits := by
  cases h with
  | quiet _ hsteps => exact Core.Quiet.steps Core.Quiet.waits hsteps hw
  | exec d fuel consumed _ hsteps hd hpos hexec =>
    have hwd := Core.Quiet.steps Core.Quiet.waits hsteps hw
    obtain ⟨hrun, hflow⟩ := executed_flow hd hpos hexec hwd
    exact hflow.waits hwd hrun
  | spawn pid first _ hnew _ _ habs =>
    rw [habs]
    exact hw.spawn hnew
  | kill pid st _ _ _ habs =>
    rw [habs]
    exact hw.kill

/-- The instruction that an operation executes does not strand its process. -/
def RtOp.safe (rt : Runtime) (op : RtOp) : Bool := (op.executing rt).all blocksSafely

theorem Moves.awaited (h : Moves rt op rt') (hsafe : op.safe rt = true) (hw : rt.abs.Waits)
    (ha : rt.abs.Awaited) : rt'.abs.Awaited := by
  cases h with
  | quiet _ hsteps => exact Core.Quiet.steps Core.Quiet.awaited hsteps ha
  | exec d fuel consumed hop hsteps hd hpos hexec =>
    have hwd := Core.Quiet.steps Core.Quiet.waits hsteps hw
    obtain ⟨-, hflow⟩ := executed_flow hd hpos hexec hwd
    rw [RtOp.safe, hop] at hsafe
    exact hflow.awaited hsafe (Core.Quiet.steps Core.Quiet.awaited hsteps ha)
  | spawn pid first _ _ _ _ habs =>
    rw [habs]
    exact ha.write pid rfl rfl nofun
  | kill pid st _ _ _ habs =>
    rw [habs]
    exact ha.write pid rfl rfl nofun

/-- No process that waits is killed. -/
def RtOp.sparesWaiters (rt : Runtime) (op : RtOp) : Prop :=
  ∀ pid, op = .kill pid → ∀ l, pid ∉ rt.waiters l

theorem Moves.alive (h : Moves rt op rt') (hspare : op.sparesWaiters rt) (hw : rt.abs.Waits)
    (ha : rt.abs.Alive) : rt'.abs.Alive := by
  cases h with
  | quiet _ hsteps => exact Core.Quiet.steps Core.Quiet.alive hsteps ha
  | exec d fuel consumed _ hsteps hd hpos hexec =>
    have hwd := Core.Quiet.steps Core.Quiet.waits hsteps hw
    obtain ⟨hrun, hflow⟩ := executed_flow hd hpos hexec hwd
    exact hflow.alive hwd hrun (Core.Quiet.steps Core.Quiet.alive hsteps ha)
  | spawn pid first _ hnew _ _ habs =>
    rw [habs]
    refine ha.write pid rfl rfl fun l hmem => ?_
    rcases hw.member l pid hmem with hm | hm
    · rw [Core.stateOf_eq hm] at hnew
      cases hnew
    · rw [hm] at hnew
      cases hnew
  | kill pid st hop _ _ habs =>
    rw [habs]
    refine ha.write pid rfl rfl ?_
    rw [abs_waiters]
    exact hspare pid hop

/-! ### Runs -/

theorem runtimeInit_waiters (l : WaitList) : runtimeInit.abs.waiters l = [] := by
  cases l with
  | send qid =>
    show (queueOf ipcInit qid).sendWaiters = []
    rw [queueOf_init]
    rfl
  | recv qid =>
    show (queueOf ipcInit qid).recvWaiters = []
    rw [queueOf_init]
    rfl
  | sem id => exact semWaiters_init id

theorem runtimeInit_proc (pid : ℤ) : runtimeInit.abs.proc pid = none := by
  show (procGet runtimeInit.procs pid).map _ = none
  rw [procGet_init]
  rfl

theorem runtimeInit_waits : runtimeInit.abs.Waits := by
  refine ⟨fun l => ?_, fun l l' pid hmem => ?_, fun l pid hmem => ?_, fun pid st w hp => ?_⟩
  · rw [runtimeInit_waiters]
    exact List.nodup_nil
  · rw [runtimeInit_waiters] at hmem
    cases hmem
  · rw [runtimeInit_waiters] at hmem
    cases hmem
  · rw [runtimeInit_proc] at hp
    cases hp

theorem RtOp.run_waits (ops : List RtOp) : (Runs.run RtOp.exec runtimeInit ops).abs.Waits :=
  RtOp.run_keeps (I := fun rt => rt.abs.Waits) (fun _ op hrt h _ => (op.moves hrt).2.waits h)
    runtimeInit_waits (Runs.along_true _ _)

theorem RtOp.run_awaited {ops : List RtOp}
    (hsafe : Runs.Along RtOp.exec (fun rt op => op.safe rt = true) runtimeInit ops) :
    (Runs.run RtOp.exec runtimeInit ops).abs.Awaited := by
  have hinit : runtimeInit.abs.Waits ∧ runtimeInit.abs.Awaited := by
    refine ⟨runtimeInit_waits, fun pid hb => ?_⟩
    rw [runtimeInit_proc] at hb
    cases hb
  refine (RtOp.run_keeps (I := fun rt => rt.abs.Waits ∧ rt.abs.Awaited) ?_ hinit hsafe).2
  intro rt op hrt h hok
  have hmove := (op.moves hrt).2
  exact ⟨hmove.waits h.1, hmove.awaited hok h.1 h.2⟩

/-- **No process is stranded.**  In every run whose instructions block safely, a BLOCKED process
has a wakeup tick or is in exactly one wait list. -/
theorem blocked_has_waker (ops : List RtOp) (pid : ℤ) (p : Pcb)
    (hsafe : Runs.Along RtOp.exec (fun rt op => op.safe rt = true) runtimeInit ops)
    (hp : procGet (Runs.run RtOp.exec runtimeInit ops).procs pid = some p)
    (hb : p.state = .blocked) :
    0 < p.wakeupTick ∨ ∃! l, pid ∈ (Runs.run RtOp.exec runtimeInit ops).waiters l := by
  have hw := RtOp.run_waits ops
  have ha := RtOp.run_awaited hsafe
  generalize Runs.run RtOp.exec runtimeInit ops = rt at hp hw ha ⊢
  rcases Nat.eq_zero_or_pos p.wakeupTick with hzero | hpos
  · have hproc := abs_proc hp
    rw [hb, hzero] at hproc
    obtain ⟨l, hmem⟩ := ha pid hproc
    refine .inr ⟨l, ?_, fun l' hmem' => ?_⟩
    · rw [← abs_waiters]
      exact hmem
    · rw [← abs_waiters] at hmem'
      exact hw.unique l' l pid hmem' hmem
  · exact .inl hpos

set_option maxRecDepth 100000 in
theorem blocked_has_waker_receiver :
    ∃! l, 1 ∈ (Runs.run RtOp.exec runtimeInit
      [.runWorkload ⟨"receiver", [⟨.recv, 1, 0, 0⟩]⟩ 20, .pass 0]).waiters l := by
  have hproc : (procGet (Runs.run RtOp.exec runtimeInit
      [.runWorkload ⟨"receiver", [⟨.recv, 1, 0, 0⟩]⟩ 20, .pass 0]).procs 1).map
        (fun p => (p.state, p.wakeupTick)) = some (.blocked, 0) := by
    decide +kernel
  obtain ⟨p, hp, hst⟩ := Option.map_eq_some_iff.mp hproc
  obtain ⟨hb, hzero⟩ := Prod.mk.inj hst
  have hsafe : Runs.Along RtOp.exec (fun rt op => op.safe rt = true) runtimeInit
      [.runWorkload ⟨"receiver", [⟨.recv, 1, 0, 0⟩]⟩ 20, .pass 0] := by
    decide +kernel
  rcases blocked_has_waker _ 1 p hsafe hp hb with hpos | hex
  · omega
  · exact hex

/-- Without queues and semaphores there are no wait lists. -/
theorem waiters_of_unused (hq : ∀ i < mosrtMaxMsgQueues, (rt.queues i).used = false)
    (hs : ∀ i < mosrtMaxSemaphores, (rt.sems i).used = false) (l : WaitList) :
    rt.waiters l = [] := by
  have hqueue : ∀ qid, queueOf rt.queues qid = newQueue qid := by
    intro qid
    refine KeyedTable.get_of_none _ _ _ ?_
    rw [KeyedTable.find, List.find?_eq_none]
    intro i hi
    simp [hq i (List.mem_range.mp hi)]
  cases l with
  | send qid =>
    show (queueOf rt.queues qid).sendWaiters = []
    rw [hqueue]
    rfl
  | recv qid =>
    show (queueOf rt.queues qid).recvWaiters = []
    rw [hqueue]
    rfl
  | sem id =>
    show semWaiters rt.sems id = []
    have hnone : findSem rt.sems id = none := by
      rw [findSem, KeyedTable.find, List.find?_eq_none]
      intro i hi
      simp [hs i (List.mem_range.mp hi)]
    rw [semWaiters, KeyedTable.get_of_none _ _ _ hnone]

set_option maxRecDepth 100000 in
/-- After one tick, an `IO` of `2 ^ 64 - 1` ticks sets the wakeup tick to `0`, which stands for
none: its process waits for nothing. -/
theorem io_wakeup_wraps :
    (procGet (Runs.run RtOp.exec runtimeInit
        [.runWorkload ⟨"io", [⟨.cpu, 0, 0, 1⟩, ⟨.io, 0, 0, 2 ^ 64 - 1⟩]⟩ 20,
          .pass 0, .pass 0]).procs 1).map (fun p => (p.state, p.wakeupTick)) =
      some (.blocked, 0) ∧
    ∀ l, 1 ∉ (Runs.run RtOp.exec runtimeInit
        [.runWorkload ⟨"io", [⟨.cpu, 0, 0, 1⟩, ⟨.io, 0, 0, 2 ^ 64 - 1⟩]⟩ 20,
          .pass 0, .pass 0]).waiters l := by
  refine ⟨by decide +kernel, fun l => ?_⟩
  rw [waiters_of_unused (by decide +kernel) (by decide +kernel)]
  exact List.not_mem_nil

/-! ### Hand-offs -/

/-- The process that the instruction about to be executed takes from a wait list, `-1` for none:
the value of `wake` in `execute_instruction`. -/
def popped (rt : Runtime) : ℤ :=
  match rt.insnOf rt.currentPid with
  | none => -1
  | some insn =>
    match insn.op with
    | .send =>
      let r := ipcSend rt.queues insn.arg0 rt.currentPid insn.arg1
      if sendResult r.1 = .ok then (ipcPopReceiverWaiter r.2 insn.arg0).1 else -1
    | .recv =>
      let r := ipcRecv rt.queues insn.arg0 rt.currentPid
      if recvResult r.1 = .ok then (ipcPopSenderWaiter r.2 insn.arg0).1 else -1
    | .semPost | .unlock =>
      let r := syncPost rt.sems insn.arg0 rt.currentPid
      if r.1 = .ok then r.2.1 else -1
    | _ => -1

theorem woken_mem {ws : List ℤ} (h : 0 ≤ woken ws) : woken ws ∈ ws := by
  rw [woken] at h ⊢
  split_ifs at h ⊢ with hhead
  · cases ws with
    | nil => exact absurd hhead (by decide)
    | cons w ws => exact List.mem_cons_self
  · exact absurd h (by decide)

theorem waitqPop_mem {ws : List ℤ} (h : 0 ≤ (waitqPop ws).1) : (waitqPop ws).1 ∈ ws := by
  cases ws with
  | nil => exact absurd h (by decide)
  | cons w ws => exact List.mem_cons_self

/-- What is taken from a wait list was in it. -/
theorem popped_waiting (hcur : ∀ l, rt.currentPid ∉ rt.waiters l) (hpos : 0 ≤ popped rt) :
    ∃ l, popped rt ∈ rt.waiters l := by
  have hno : ¬ (0 : ℤ) ≤ -1 := by decide
  rw [popped] at hpos ⊢
  cases hinsn : rt.insnOf rt.currentPid with
  | none =>
    rw [hinsn] at hpos
    exact absurd hpos hno
  | some insn =>
    rw [hinsn] at hpos
    dsimp only at hpos ⊢
    have hpost : (syncPost rt.sems insn.arg0 rt.currentPid).1 = .ok →
        0 ≤ (syncPost rt.sems insn.arg0 rt.currentPid).2.1 →
        ∃ l, (syncPost rt.sems insn.arg0 rt.currentPid).2.1 ∈ rt.waiters l := by
      intro hok hpos
      rcases syncPost_waiters rt.sems insn.arg0 rt.currentPid with ⟨herr, -⟩ | ⟨-, hwoken, -⟩
      · rw [hok] at herr
        cases herr
      · rw [hwoken] at hpos ⊢
        exact ⟨.sem insn.arg0, woken_mem hpos⟩
    cases hop : insn.op with
    | send =>
      rw [hop] at hpos
      dsimp only at hpos ⊢
      split_ifs at hpos ⊢ with hok
      · rcases ipcSend_spec rt.queues insn.arg0 rt.currentPid insn.arg1 with
          ⟨hnone, -, -⟩ | ⟨-, hset⟩
        · rw [hnone] at hok
          cases hok
        · obtain ⟨hpop, -⟩ := ipcPopReceiverWaiter_spec hset.1
          rw [hset.self, (Core.queueSend_waiters _ _ _).2] at hpop
          rw [hpop] at hpos ⊢
          exact ⟨.recv insn.arg0, waitqPop_mem hpos⟩
      · exact absurd hpos hno
    | recv =>
      rw [hop] at hpos
      dsimp only at hpos ⊢
      split_ifs at hpos ⊢ with hok
      · rcases ipcRecv_spec rt.queues insn.arg0 rt.currentPid with ⟨hnone, -, -⟩ | ⟨-, hset⟩
        · rw [hnone] at hok
          cases hok
        · obtain ⟨hpop, -⟩ := ipcPopSenderWaiter_spec hset.1
          have hnot : rt.currentPid ∉ (queueOf rt.queues insn.arg0).recvWaiters :=
            hcur (.recv insn.arg0)
          rw [hset.self, (Core.queueRecv_waiters hnot).1] at hpop
          rw [hpop] at hpos ⊢
          exact ⟨.send insn.arg0, waitqPop_mem hpos⟩
      · exact absurd hpos hno
    | semPost | unlock =>
      rw [hop] at hpos
      dsimp only at hpos ⊢
      split_ifs at hpos ⊢ with hok
      · exact hpost hok hpos
      · exact absurd hpos hno
    | cpu | io | semWait | lock | mmap | access | mfree | exit =>
      rw [hop] at hpos
      exact absurd hpos hno

/-- What is taken from a wait list is woken. -/
theorem popped_wakes {fuel : ℕ} {r : Bool × Runtime} (h : AtInsn rt p idx insn)
    (hexec : executeInstruction fuel rt = some r) (hpos : 0 ≤ popped rt) :
    ∃ queues sems why, r.2 = wakeAndComplete { rt with queues := queues, sems := sems } idx
      (popped rt) why := by
  have hno : ¬ (0 : ℤ) ≤ -1 := by decide
  rw [executeInstruction, h.current] at hexec
  rw [popped, h.insn] at hpos ⊢
  dsimp only at hexec hpos ⊢
  cases hop : insn.op with
  | send =>
    rw [hop] at hexec hpos
    dsimp only at hexec hpos ⊢
    split_ifs at hpos ⊢ with hok
    · rw [← Option.some.inj hexec, execSend, hok]
      exact ⟨_, _, _, rfl⟩
    · exact absurd hpos hno
  | recv =>
    rw [hop] at hexec hpos
    dsimp only at hexec hpos ⊢
    split_ifs at hpos ⊢ with hok
    · rw [← Option.some.inj hexec, execRecv, hok]
      exact ⟨_, _, _, rfl⟩
    · exact absurd hpos hno
  | semPost | unlock =>
    rw [hop] at hexec hpos
    dsimp only at hexec hpos ⊢
    split_ifs at hpos ⊢ with hok
    · have hne : ¬ (syncPost rt.sems insn.arg0 rt.currentPid).1 = .error := by
        rw [hok]
        decide
      rw [← Option.some.inj hexec]
      exact ⟨_, _, _, if_neg hne⟩
    · exact absurd hpos hno
  | cpu | io | semWait | lock | mmap | access | mfree | exit =>
    rw [hop] at hpos
    exact absurd hpos hno

/-- If it was BLOCKED it is READY afterwards. -/
theorem popped_ready {fuel : ℕ} {r : Bool × Runtime} (hrt : Consistent rt)
    (hcur : 0 ≤ rt.currentPid) (hexec : executeInstruction fuel rt = some r) (hpos : 0 ≤ popped rt)
    (hb : rt.abs.stateOf (popped rt) = some .blocked) :
    r.2.abs.stateOf (popped rt) = some .ready := by
  cases hinsn : rt.insnOf rt.currentPid with
  | none =>
    rw [popped, hinsn] at hpos
    exact absurd (show (0 : ℤ) ≤ -1 from hpos) (by decide)
  | some insn =>
    obtain ⟨p, idx, h⟩ := atInsn hrt.sound hrt.placed hcur hinsn
    obtain ⟨queues, sems, why, heq⟩ := popped_wakes h hexec hpos
    obtain ⟨-, next, habs⟩ := wakeAndComplete_spec { rt with queues := queues, sems := sems }
      hrt.sound hrt.placed.positive h.slot (popped rt) why
    obtain ⟨w, hproc⟩ := Core.proc_of_stateOf hb
    have hproc : (Runtime.abs { rt with queues := queues, sems := sems }).proc (popped rt) =
      some (.blocked, w) := hproc
    rw [heq, habs]
    show (Core.wake _ _).stateOf _ = _
    rw [Core.wake_of_blocked hproc, Core.stateOf_setProc, if_pos rfl]

theorem RtOp.run_alive {ops : List RtOp}
    (hspare : Runs.Along RtOp.exec (fun rt op => op.sparesWaiters rt) runtimeInit ops) :
    (Runs.run RtOp.exec runtimeInit ops).abs.Alive := by
  have hinit : runtimeInit.abs.Waits ∧ runtimeInit.abs.Alive := by
    refine ⟨runtimeInit_waits, fun l pid hmem => ?_⟩
    rw [runtimeInit_waiters] at hmem
    cases hmem
  refine (RtOp.run_keeps (I := fun rt => rt.abs.Waits ∧ rt.abs.Alive) ?_ hinit hspare).2
  intro rt op hrt h hok
  have hmove := (op.moves hrt).2
  exact ⟨hmove.waits h.1, hmove.alive hok h.1 h.2⟩

/-- **Hand-offs go to live waiters.**  In every run in which no process that waits is killed,
whatever an instruction takes from a wait list is BLOCKED when it is taken, and READY after the
operation. -/
theorem handoff_to_blocked (ops : List RtOp) (op : RtOp) (d : Runtime)
    (hspare : Runs.Along RtOp.exec (fun rt op => op.sparesWaiters rt) runtimeInit ops) :
    let rt := Runs.run RtOp.exec runtimeInit ops
    op.executing rt = some d → 0 ≤ popped d →
    (∃ p, procGet d.procs (popped d) = some p ∧ p.state = .blocked) ∧
      ∃ p, procGet (RtOp.exec rt op).procs (popped d) = some p ∧ p.state = .ready := by
  have hrt := RtOp.run_consistent ops
  have hw := RtOp.run_waits ops
  have ha := RtOp.run_alive hspare
  dsimp only
  generalize Runs.run RtOp.exec runtimeInit ops = rt at hrt hw ha ⊢
  intro hop hpos
  cases (op.moves hrt).2 with
  | exec d' fuel consumed hop' hsteps hd hcur hexec =>
    -- the invariants hold up to the state in which the instruction is executed
    rw [hop] at hop'
    cases hop'
    obtain ⟨p, hcpu⟩ := hd.placed.onCpu hcur
    have hwd := Core.Quiet.steps Core.Quiet.waits hsteps hw
    have had := Core.Quiet.steps Core.Quiet.alive hsteps ha
    obtain ⟨l, hmem⟩ := popped_waiting (fun l hmem =>
      hwd.not_waiting (Core.stateOf_eq hcpu.proc) nofun nofun l (abs_waiters ▸ hmem)) hpos
    have hb := had.blocked hwd (by rw [abs_waiters]; exact hmem)
    exact ⟨procGet_of_stateOf hb, procGet_of_stateOf (popped_ready hd hcur hexec hpos hb)⟩
  | quiet hnone | spawn _ _ hnone =>
    rw [hop] at hnone
    cases hnone
  | kill pid st hkill =>
    rw [hkill] at hop
    cases hop

/-- A receiver waits, and a sender has come. -/
def waitingReceiver : List RtOp :=
  [.runWorkload ⟨"receiver", [⟨.recv, 1, 0, 0⟩]⟩ 20, .pass 0,
    .runWorkload ⟨"sender", [⟨.send, 1, 5, 0⟩]⟩ 20]

set_option maxRecDepth 100000 in
theorem handoff_to_blocked_receiver :
    ∃ d, (RtOp.pass 0).executing (Runs.run RtOp.exec runtimeInit waitingReceiver) = some d ∧
      popped d = 1 ∧ (∃ p, procGet d.procs 1 = some p ∧ p.state = .blocked) ∧
      ∃ p, procGet (RtOp.exec (Runs.run RtOp.exec runtimeInit waitingReceiver) (.pass 0)).procs 1 =
        some p ∧ p.state = .ready := by
  have hmap : ((RtOp.pass 0).executing (Runs.run RtOp.exec runtimeInit waitingReceiver)).map
      popped = some 1 := by
    decide +kernel
  obtain ⟨d, hd, hpop⟩ := Option.map_eq_some_iff.mp hmap
  have hhanded := handoff_to_blocked waitingReceiver (.pass 0) d ⟨nofun, nofun, nofun, trivial⟩ hd
    (by rw [hpop]; decide)
  rw [hpop] at hhanded
  exact ⟨d, hd, hpop, hhanded⟩

set_option maxRecDepth 100000 in
/-- Two receivers wait, the first is killed, and then a message is sent: it is granted to the
killed receiver, and the other one stays BLOCKED. -/
theorem message_for_killed_receiver :
    ((RtOp.pass 0).executing (Runs.run RtOp.exec runtimeInit
        [.runWorkload ⟨"receiver", [⟨.recv, 1, 0, 0⟩]⟩ 20,
          .runWorkload ⟨"receiver", [⟨.recv, 1, 0, 0⟩]⟩ 20, .pass 0, .pass 0, .kill 1,
          .runWorkload ⟨"sender", [⟨.send, 1, 5, 0⟩]⟩ 20])).map
        (fun d => (popped d, (procGet d.procs 1).map (·.state),
          (procGet d.procs 2).map (·.state))) =
      some (1, some .exited, some .blocked) ∧
    (queueOf (Runs.run RtOp.exec runtimeInit
        [.runWorkload ⟨"receiver", [⟨.recv, 1, 0, 0⟩]⟩ 20,
          .runWorkload ⟨"receiver", [⟨.recv, 1, 0, 0⟩]⟩ 20, .pass 0, .pass 0, .kill 1,
          .runWorkload ⟨"sender", [⟨.send, 1, 5, 0⟩]⟩ 20, .pass 0]).queues 1).grants =
      [(1, ⟨3, 5⟩)] ∧
    (procGet (Runs.run RtOp.exec runtimeInit
        [.runWorkload ⟨"receiver", [⟨.recv, 1, 0, 0⟩]⟩ 20,
          .runWorkload ⟨"receiver", [⟨.recv, 1, 0, 0⟩]⟩ 20, .pass 0, .pass 0, .kill 1,
          .runWorkload ⟨"sender", [⟨.send, 1, 5, 0⟩]⟩ 20, .pass 0]).procs 2).map (·.state) =
      some .blocked := by
  refine ⟨by decide +kernel, by decide +kernel, by decide +kernel⟩

end Mosrt
