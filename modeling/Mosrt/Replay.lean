/-
The trace as a log of the processes' states.

* `replay` — the state of a process according to its events;
* `Chronicle.Faithful` — replaying gives the state that every process is in, each step of it
  is a legal transition, and the events stand in the order of their ticks;
* `trace_faithful` — so it is in every run in which no event is dropped.
-/
import Mosrt.Chronicle

namespace Mosrt

/-! ### Replaying -/

/-- What an event changes of the state of `pid`. -/
def replayEvent (pid : ℤ) (st : ProcState) (e : TraceEvent) : ProcState :=
  if e.pid = pid then (reportedState e.event).getD st else st

/-- The state of `pid` after its lifecycle events. -/
def replay (pid : ℤ) (events : List TraceEvent) : ProcState :=
  events.foldl (replayEvent pid) .new

/-- Every event of `pid` that reports a state reports a legal transition. -/
def LegalReplay (pid : ℤ) (events : List TraceEvent) : Prop :=
  ∀ earlier e later st, events = earlier ++ e :: later → e.pid = pid →
    reportedState e.event = some st → procIsValidTransition (replay pid earlier) st = true

theorem replay_concat (pid : ℤ) (events : List TraceEvent) (e : TraceEvent) :
    replay pid (events ++ [e]) = replayEvent pid (replay pid events) e := by
  simp [replay]

theorem LegalReplay.concat {pid : ℤ} {events : List TraceEvent} {e : TraceEvent}
    (h : LegalReplay pid events)
    (he : e.pid = pid → ∀ st, reportedState e.event = some st →
      procIsValidTransition (replay pid events) st = true) : LegalReplay pid (events ++ [e]) := by
  intro earlier d later st heq hd hst
  rcases Runs.concat_eq_append_cons heq with ⟨rfl, rfl⟩ | ⟨rest, hrest⟩
  · exact he hd st hst
  · exact h earlier d rest st hrest hd hst

namespace Chronicle

variable {ok : ℤ → Prop} {c c' : Chronicle}

/-- The state of a process; one that does not exist yet will be new. -/
def stateAt (c : Chronicle) (pid : ℤ) : ProcState := ((c.proc pid).map Prod.fst).getD .new

theorem stateAt_of_proc {pid : ℤ} {st : ProcState} {code : ℤ} (h : c.proc pid = some (st, code)) :
    c.stateAt pid = st := by
  rw [stateAt, h]
  rfl

theorem stateAt_set (c : Chronicle) (pid : ℤ) (st : ProcState) (code q : ℤ) :
    (c.set pid st code).stateAt q = if q = pid then st else c.stateAt q := by
  simp only [stateAt, set, Function.update_apply]
  split_ifs <;> rfl

/-- `c'` differs from `c` by an event and what the event says. -/
structure Recorded (c c' : Chronicle) (pid : ℤ) (event detail : CString) : Prop where
  trace : c'.trace = traceEvent c.trace c'.tick pid event detail
  clock : c'.tick = c.tick ∨ c'.tick = incr64 c.tick
  state : ∀ q, c'.stateAt q =
    if q = pid then (reportedState (truncateTo 24 event)).getD (c.stateAt q) else c.stateAt q
  legal : ∀ st, reportedState (truncateTo 24 event) = some st →
    procIsValidTransition (c.stateAt pid) st = true

/-- An event without a state. -/
theorem Recorded.plain {pid : ℤ} {event detail : CString}
    (htrace : c'.trace = traceEvent c.trace c'.tick pid event detail)
    (hclock : c'.tick = c.tick ∨ c'.tick = incr64 c.tick) (hproc : c'.proc = c.proc)
    (hevent : reportedState (truncateTo 24 event) = none) : Recorded c c' pid event detail := by
  refine ⟨htrace, hclock, fun q => ?_, fun st hst => ?_⟩
  · rw [hevent, stateAt, hproc]
    exact (ite_self _).symm
  · rw [hevent] at hst
    cases hst

/-- An event and the change that it reports. -/
theorem Recorded.change {pid : ℤ} {old st : ProcState} {before code : ℤ} {event : CString}
    (detail : CString) (hproc : c.proc pid = some (old, before))
    (hlegal : procIsValidTransition old st = true)
    (hevent : reportedState (truncateTo 24 event) = some st) :
    Recorded c ((c.set pid st code).log pid event detail) pid event detail := by
  refine ⟨rfl, .inl rfl, fun q => ?_, fun st' hst' => ?_⟩
  · rw [hevent]
    exact stateAt_set c pid st code q
  · rw [hevent] at hst'
    rw [stateAt_of_proc hproc, ← Option.some.inj hst']
    exact hlegal

/-- A note creates a process, which nobody sees, or adds an event. -/
theorem Note.recorded (h : Note ok c c') :
    (c'.trace = c.trace ∧ c'.tick = c.tick ∧ c'.stateAt = c.stateAt) ∨
      ∃ pid event detail, Recorded c c' pid event detail := by
  cases h with
  | remark pid event detail hevent =>
    exact .inr ⟨pid, event, detail, .plain rfl (.inl rfl) rfl hevent⟩
  | turn pid old st code event detail hproc hlegal hevent =>
    exact .inr ⟨pid, event, detail, .change detail hproc hlegal hevent⟩
  | leave pid old before code event detail hproc hlegal hcode hevent =>
    exact .inr ⟨pid, event, detail, .change detail hproc hlegal hevent⟩
  | spawn pid hnone =>
    refine .inl ⟨rfl, rfl, funext fun q => ?_⟩
    rw [stateAt_set]
    split_ifs with hq
    · rw [hq, stateAt, hnone]
      rfl
    · rfl
  | tick pid event detail hevent =>
    exact .inr ⟨pid, event, detail, .plain rfl (.inr rfl) rfl hevent⟩

/-! ### Faithful traces -/

structure Faithful (c : Chronicle) : Prop where
  state : ∀ pid, replay pid c.trace.events = c.stateAt pid
  legal : ∀ pid, LegalReplay pid c.trace.events
  ordered : c.trace.events.Pairwise fun e e' => e.tick ≤ e'.tick
  past : ∀ e ∈ c.trace.events, e.tick ≤ c.tick
  -- every tick has its event, so the clock is far from its wrap-around
  clock : c.tick ≤ c.trace.events.length

/-- An event for which there is room. -/
theorem Faithful.recorded {pid : ℤ} {event detail : CString} (h : c.Faithful)
    (hrec : Recorded c c' pid event detail) (hroom : c.trace.events.length < mosrtMaxTraceEvents) :
    c'.Faithful := by
  have hevents : c'.trace.events =
      c.trace.events ++ [⟨c'.tick, pid, truncateTo 24 event, truncateTo 96 detail⟩] := by
    rw [hrec.trace, traceEvent, if_pos hroom]
  have hclock : c.tick ≤ c'.tick ∧ c'.tick ≤ c.tick + 1 := by
    have hsmall : c.tick < 4096 := h.clock.trans_lt hroom
    rcases hrec.clock with heq | heq
    · omega
    · rw [heq, incr64, Nat.mod_eq_of_lt (by omega)]
      omega
  refine ⟨fun q => ?_, fun q => ?_, ?_, fun d hd => ?_, ?_⟩
  · rw [hevents, replay_concat, h.state, hrec.state, replayEvent]
    simp only [eq_comm]
  · rw [hevents]
    refine (h.legal q).concat ?_
    rintro rfl st hst
    rw [h.state]
    exact hrec.legal st hst
  · rw [hevents, List.pairwise_append]
    refine ⟨h.ordered, List.pairwise_singleton _ _, fun d hd d' hd' => ?_⟩
    rw [List.mem_singleton.mp hd']
    exact (h.past d hd).trans hclock.1
  · rw [hevents, List.mem_append, List.mem_singleton] at hd
    rcases hd with hd | rfl
    · exact (h.past d hd).trans hclock.1
    · exact le_rfl
  · rw [hevents, List.length_append, List.length_singleton]
    exact hclock.2.trans (Nat.add_le_add_right h.clock 1)

/-- After at most `k` notes; the count of dropped events cannot have come back to 0 before they
are 2⁶⁴. -/
def FaithfulWithin (k : ℕ) (c : Chronicle) : Prop :=
  k < 2 ^ 64 → c.trace.overflow ≤ k ∧ (c.trace.overflow = 0 → c.Faithful)

theorem FaithfulWithin.note {k : ℕ} (h : FaithfulWithin k c) (hnote : Note ok c c') :
    FaithfulWithin (k + 1) c' := by
  intro hk
  obtain ⟨hle, hfaithful⟩ := h (by omega)
  rcases hnote.recorded with ⟨htrace, htick, hstate⟩ | ⟨pid, event, detail, hrec⟩
  · rw [htrace]
    refine ⟨by omega, fun h0 => ?_⟩
    have hf := hfaithful h0
    exact ⟨by rw [htrace, hstate]; exact hf.state, by rw [htrace]; exact hf.legal,
      by rw [htrace]; exact hf.ordered, by rw [htrace, htick]; exact hf.past,
      by rw [htrace, htick]; exact hf.clock⟩
  · by_cases hroom : c.trace.events.length < mosrtMaxTraceEvents
    · have hover : c'.trace.overflow = c.trace.overflow := by
        rw [hrec.trace, traceEvent, if_pos hroom]
      rw [hover]
      exact ⟨by omega, fun h0 => (hfaithful h0).recorded hrec hroom⟩
    · have hover : c'.trace.overflow = c.trace.overflow + 1 := by
        rw [hrec.trace, traceEvent, if_neg hroom]
        exact Nat.mod_eq_of_lt (by omega)
      rw [hover]
      exact ⟨by omega, fun h0 => absurd h0 (Nat.succ_ne_zero _)⟩

end Chronicle

/-- An operation that drops no event. -/
theorem RtOp.faithful {rt : Runtime} (h : rt.Sound) (hf : rt.chronicle.Faithful)
    (hbefore : rt.trace.overflow = 0) (op : RtOp) (hafter : (RtOp.exec rt op).trace.overflow = 0) :
    (RtOp.exec rt op).chronicle.Faithful := by
  have hnotes : Notes (fun _ => True) _ rt (RtOp.exec rt op) :=
    RtOp.notes h (fun _ _ _ => trivial) (fun _ => trivial) op
  have hend := Runs.Within.invariant (I := Chronicle.FaithfulWithin) hnotes
    (fun k c hc hk => ⟨(hc (by omega)).1.trans (Nat.le_succ k), (hc (by omega)).2⟩)
    (fun k c c' hc hnote => hc.note hnote) (fun _ => ⟨hbefore.le, fun _ => hf⟩)
  exact (hend (by decide)).2 hafter

theorem faithful_init : runtimeInit.chronicle.Faithful := by
  have hstate (pid : ℤ) : runtimeInit.chronicle.stateAt pid = .new := by
    simp [Chronicle.stateAt, Runtime.chronicle, procGet_init]
  refine ⟨fun pid => (hstate pid).symm, fun pid earlier e later st heq => ?_, List.Pairwise.nil,
    fun e he => ?_, le_rfl⟩
  · exact absurd heq (by simp [runtimeInit, Runtime.chronicle])
  · exact absurd he List.not_mem_nil

/-- **The trace is a faithful log.**  In every run in which no event is dropped, the state of every
process is the one that its events report last, each of them reports a legal transition, and
the ticks of the events never decrease.  (The count of dropped events is a 64-bit number, which
in principle comes back to 0; hence the condition on every state of the run.) -/
theorem trace_faithful (ops : List RtOp)
    (hkept : ∀ before, before <+: ops →
      (Runs.run RtOp.exec runtimeInit before).trace.overflow = 0) :
    (∀ pid p, procGet (Runs.run RtOp.exec runtimeInit ops).procs pid = some p →
      p.state = replay pid (Runs.run RtOp.exec runtimeInit ops).trace.events ∧
      LegalReplay pid (Runs.run RtOp.exec runtimeInit ops).trace.events) ∧
    (Runs.run RtOp.exec runtimeInit ops).trace.events.Pairwise fun e e' => e.tick ≤ e'.tick := by
  have hfaithful : (Runs.run RtOp.exec runtimeInit ops).chronicle.Faithful := by
    induction ops using List.reverseRecOn with
    | nil => exact faithful_init
    | append_singleton ops op ih =>
      have hbefore := hkept ops (List.prefix_append ops [op])
      have hafter := hkept (ops ++ [op]) List.prefix_rfl
      have hprev := ih fun before hpre => hkept before (hpre.trans (List.prefix_append ops [op]))
      rw [Runs.run_append] at hafter ⊢
      exact RtOp.faithful (RtOp.run_consistent ops).sound hprev hbefore op hafter
  refine ⟨fun pid p hp => ⟨?_, hfaithful.legal pid⟩, hfaithful.ordered⟩
  exact ((hfaithful.state pid).trans (Chronicle.stateAt_of_proc (chronicle_proc hp))).symm

/-- A process runs for one tick and is killed. -/
def killedJob : List RtOp := [.runWorkload ⟨"job", [⟨.cpu, 0, 0, 2⟩]⟩ 0, .pass 0, .kill 1]

set_option maxRecDepth 100000 in
theorem trace_faithful_killed :
    let events := (Runs.run RtOp.exec runtimeInit killedJob).trace.events
    replay 1 events = .exited ∧ LegalReplay 1 events := by
  have hkept : ∀ before ∈ killedJob.inits,
      (Runs.run RtOp.exec runtimeInit before).trace.overflow = 0 := by
    decide +kernel
  have hget : (procGet (Runs.run RtOp.exec runtimeInit killedJob).procs 1).map (·.state) =
      some .exited := by
    decide +kernel
  obtain ⟨p, hp, hst⟩ := Option.map_eq_some_iff.mp hget
  have h := (trace_faithful killedJob fun before hpre =>
    hkept before ((List.mem_inits _ _).mpr hpre)).1 1 p hp
  exact ⟨h.1.symm.trans hst, h.2⟩

end Mosrt
