/-
The runtime refines the abstract machine of `Core`.

`Runtime.abs` forgets clock, scheduler, trace and memory.  `Sound` is what holds of
the parts it forgets: the process table is packed, slots belong to processes, and
the active ready structure tracks exactly the READY processes.  Each function of the
runtime keeps `Sound` and changes `abs` by a move of the abstract machine:

* `passPrepare_spec`, `dispatch_spec` — `Quiet` moves;
* `executeInstruction_spec` — one `Exec` move;
* everything else leaves `abs` alone.
-/
import Mosrt.Runtime
import Mosrt.Core

namespace Mosrt

/-! ### The abstract state -/

/-- The instruction a process stands at. -/
def Runtime.insnOf (rt : Runtime) (pid : ℤ) : Option WorkloadInsn :=
  (currentInsn rt pid).bind Prod.snd

def Runtime.abs (rt : Runtime) : Core where
  proc := fun pid => (procGet rt.procs pid).map fun p => (p.state, p.wakeupTick)
  current := rt.currentPid
  queue := queueOf rt.queues
  semWaiters := semWaiters rt.sems
  insn := rt.insnOf

/-- Every slot in use belongs to one of the first `n` processes, which finds it. -/
def SlotsOk (slots : ℕ → Slot) (slotByPid : ℕ → Option ℕ) (n : ℕ) : Prop :=
  ∀ i < mosrtMaxProcs, (slots i).used = true →
    (1 ≤ (slots i).pid ∧ (slots i).pid ≤ n) ∧ slotByPid ((slots i).pid - 1).toNat = some i

/-- The tables as they are at any time. -/
structure Shape (t : ProcTable) (slots : ℕ → Slot) (slotByPid : ℕ → Option ℕ) : Prop where
  packed : ∃ n, t.Packed n ∧ SlotsOk slots slotByPid n
  level : ∀ pid p, procGet t pid = some p → p.mlfqLevel < mosrtMlfqLevels

/-- The tables, and a scheduler that tracks the READY processes. -/
structure Sound (t : ProcTable) (s : Scheduler) (slots : ℕ → Slot) (slotByPid : ℕ → Option ℕ) :
    Prop where
  shape : Shape t slots slotByPid
  tracked : s.Tracks (readyLevel s.algo t)

def Runtime.Sound (rt : Runtime) : Prop :=
  Mosrt.Sound rt.procs rt.scheduler rt.slots rt.slotByPid

variable {t : ProcTable} {s : Scheduler} {slots : ℕ → Slot} {slotByPid : ℕ → Option ℕ}
  {pid : ℤ} {p : Pcb} {f : Pcb → Pcb} {rt rt' : Runtime} {now : ℕ}

theorem Runtime.Sound.log {event detail : CString} (h : rt.Sound) :
    (rt.log pid event detail).Sound := h

theorem abs_log {event detail : CString} : (rt.log pid event detail).abs = rt.abs := rfl

theorem abs_proc (h : procGet rt.procs pid = some p) :
    rt.abs.proc pid = some (p.state, p.wakeupTick) := by
  show (procGet rt.procs pid).map _ = _
  rw [h, Option.map_some]

theorem abs_stateOf (h : procGet rt.procs pid = some p) : rt.abs.stateOf pid = some p.state :=
  Core.stateOf_eq (abs_proc h)

theorem procGet_of_stateOf {st : ProcState} (h : rt.abs.stateOf pid = some st) :
    ∃ p, procGet rt.procs pid = some p ∧ p.state = st := by
  obtain ⟨w, hw⟩ := Core.proc_of_stateOf h
  obtain ⟨p, hp, heq⟩ := Option.map_eq_some_iff.mp hw
  exact ⟨p, hp, (Prod.mk.inj heq).1⟩

theorem procGet_of_abs_proc {st : ProcState} {w : ℕ} (h : rt.abs.proc pid = some (st, w)) :
    ∃ p, procGet rt.procs pid = some p ∧ p.state = st ∧ p.wakeupTick = w := by
  obtain ⟨p, hp, heq⟩ := Option.map_eq_some_iff.mp h
  exact ⟨p, hp, (Prod.mk.inj heq).1, (Prod.mk.inj heq).2⟩

/-! ### Bookkeeping on PCBs -/

/-- A write that no other part of the runtime can notice. -/
structure Keeps (f : Pcb → Pcb) : Prop where
  id : KeepsId f
  state : ∀ p, (f p).state = p.state
  wakeup : ∀ p, (f p).wakeupTick = p.wakeupTick
  level : ∀ p, (f p).mlfqLevel = p.mlfqLevel

theorem levelOf_congr {a : SchedAlgo} {p q : Pcb} (h : q.mlfqLevel = p.mlfqLevel) :
    a.levelOf q = a.levelOf p := by
  rw [SchedAlgo.levelOf, SchedAlgo.levelOf, mlfqLevel, mlfqLevel, h]

theorem readyLevel_forEach (hf : Keeps f) (a : SchedAlgo) :
    readyLevel a (procForEach t f) = readyLevel a t := by
  funext pid
  rw [readyLevel, readyLevel, procGet_forEach hf.id]
  cases procGet t pid with
  | none => rfl
  | some p =>
    simp only [Option.map_some, hf.state, levelOf_congr (hf.level p)]

theorem readyLevel_modify (hf : KeepsId f) (hp : procGet t pid = some p) (a : SchedAlgo) :
    readyLevel a (t.modify pid f) =
      Function.update (readyLevel a t) pid
        (if (f p).state = .ready then some (a.levelOf (f p)) else none) := by
  funext pid'
  rw [readyLevel, procGet_modify hf, Function.update_apply]
  split_ifs with hpid hready
  · rw [hp]
    simp [hready]
  · rw [hp]
    simp [hready]
  · rfl

theorem Shape.forEach (h : Shape t slots slotByPid) (hf : KeepsId f)
    (hlevel : ∀ p, p.mlfqLevel < mosrtMlfqLevels → (f p).mlfqLevel < mosrtMlfqLevels) :
    Shape (procForEach t f) slots slotByPid := by
  obtain ⟨⟨n, hn, hslots⟩, hl⟩ := h
  refine ⟨⟨n, hn.forEach hf, hslots⟩, fun pid p hp => ?_⟩
  rw [procGet_forEach hf] at hp
  obtain ⟨q, hq, rfl⟩ := Option.map_eq_some_iff.mp hp
  exact hlevel q (hl pid q hq)

theorem Shape.modify (h : Shape t slots slotByPid) (pid : ℤ) (hf : KeepsId f)
    (hlevel : ∀ p, p.mlfqLevel < mosrtMlfqLevels → (f p).mlfqLevel < mosrtMlfqLevels) :
    Shape (t.modify pid f) slots slotByPid := by
  obtain ⟨⟨n, hn, hslots⟩, hl⟩ := h
  refine ⟨⟨n, hn.modify hf, hslots⟩, fun pid' p hp => ?_⟩
  rw [procGet_modify hf] at hp
  split_ifs at hp
  · obtain ⟨q, hq, rfl⟩ := Option.map_eq_some_iff.mp hp
    exact hlevel q (hl pid q hq)
  · exact hl pid' p hp

theorem Keeps.level_lt (hf : Keeps f) (p : Pcb) (h : p.mlfqLevel < mosrtMlfqLevels) :
    (f p).mlfqLevel < mosrtMlfqLevels := by
  rw [hf.level p]
  exact h

theorem Sound.forEach (h : Sound t s slots slotByPid) (hf : Keeps f) :
    Sound (procForEach t f) s slots slotByPid :=
  ⟨h.shape.forEach hf.id hf.level_lt, by rw [readyLevel_forEach hf]; exact h.tracked⟩

/-- Writing the PCB of a process that is not READY, and not made READY. -/
theorem Sound.modify (h : Sound t s slots slotByPid) (hf : KeepsId f)
    (hlevel : ∀ p, p.mlfqLevel < mosrtMlfqLevels → (f p).mlfqLevel < mosrtMlfqLevels)
    (hp : procGet t pid = some p) (hst : p.state ≠ .ready) (hst' : (f p).state ≠ .ready) :
    Sound (t.modify pid f) s slots slotByPid := by
  refine ⟨h.shape.modify pid hf hlevel, ?_⟩
  have hnone : readyLevel s.algo t pid = none :=
    readyLevel_eq_none.mpr fun q hq => by rw [hp] at hq; exact (Option.some.inj hq) ▸ hst
  rw [readyLevel_modify hf hp, if_neg hst', ← hnone, Function.update_eq_self]
  exact h.tracked

theorem Sound.modify_keeps (h : Sound t s slots slotByPid) (hf : Keeps f) (pid : ℤ) :
    Sound (t.modify pid f) s slots slotByPid := by
  refine ⟨h.shape.modify pid hf.id hf.level_lt, ?_⟩
  have hsame : readyLevel s.algo (t.modify pid f) = readyLevel s.algo t := by
    funext pid'
    rw [readyLevel, readyLevel, procGet_modify hf.id]
    split_ifs with hpid
    · subst hpid
      cases procGet t pid' with
      | none => rfl
      | some p => simp only [Option.map_some, hf.state, levelOf_congr (hf.level p)]
    · rfl
  rw [hsame]
  exact h.tracked

/-- Making a process READY and enqueueing it. -/
theorem Sound.ready (h : Sound t s slots slotByPid) (hp : procGet t pid = some p)
    (hst : p.state ≠ .ready) :
    Sound (t.modify pid fun p => p.setState .ready now)
      (schedEnqueue (t.modify pid fun p => p.setState .ready now) s pid).2 slots slotByPid := by
  have hid := keepsId_setState .ready now
  have hp' := procGet_modify_self hid hp
  have hnone : readyLevel s.algo t pid = none :=
    readyLevel_eq_none.mpr fun q hq => by rw [hp] at hq; exact (Option.some.inj hq) ▸ hst
  have hrange : ∀ pid', readyLevel s.algo t pid' ≠ none → 1 ≤ pid' ∧ pid' ≤ mosrtMaxProcs := by
    intro pid' hne
    obtain ⟨l, hl⟩ := Option.ne_none_iff_exists'.mp hne
    obtain ⟨q, hq, -⟩ := readyLevel_eq_some.mp hl
    exact procGet_range hq
  obtain ⟨halgo, htracks⟩ := schedEnqueue_tracks h.tracked hrange hp' hnone
  refine ⟨h.shape.modify pid hid fun _ hl => hl, ?_⟩
  rw [halgo, readyLevel_modify hid hp]
  exact htracks

/-! ### Rebuilding -/

/-- The READY processes in the first `k` slots. -/
def readyBelow (a : SchedAlgo) (t : ProcTable) (k : ℕ) (pid : ℤ) : Option ℕ :=
  if pid ≤ k then readyLevel a t pid else none

theorem rebuildOneReady_tracks {n k : ℕ} (h : t.Packed n) (hk : k < mosrtMaxProcs)
    (hs : s.Tracks (readyBelow s.algo t k)) :
    (rebuildOneReady t s k).algo = s.algo ∧
      (rebuildOneReady t s k).Tracks (readyBelow s.algo t (k + 1)) := by
  -- the next slot adds its own pid or nothing
  have hstep : readyBelow s.algo t (k + 1) =
      Function.update (readyBelow s.algo t k) (k + 1) (readyLevel s.algo t (k + 1)) := by
    funext pid
    rw [Function.update_apply, readyBelow, readyBelow]
    split_ifs with h1 h2 h3 <;> first | rfl | omega | (subst h2; rfl)
  have hnone : readyBelow s.algo t k (k + 1) = none := if_neg (by omega)
  rw [rebuildOneReady]
  by_cases hused : k < n
  · have hget := h.get k hused
    by_cases hready : (t.entries k).state = .ready
    · rw [if_pos ⟨(h.used k hk).mpr hused, hready⟩, h.pid k hused, hstep]
      have hrange : ∀ pid, readyBelow s.algo t k pid ≠ none → 1 ≤ pid ∧ pid ≤ mosrtMaxProcs := by
        intro pid hne
        rw [readyBelow] at hne
        split_ifs at hne
        · obtain ⟨l, hl⟩ := Option.ne_none_iff_exists'.mp hne
          obtain ⟨q, hq, -⟩ := readyLevel_eq_some.mp hl
          exact procGet_range hq
        · exact absurd rfl hne
      have hlevel : readyLevel s.algo t (k + 1) = some (s.algo.levelOf (t.entries k)) :=
        readyLevel_eq_some.mpr ⟨_, hget, hready, rfl⟩
      rw [hlevel]
      exact schedEnqueue_tracks hs hrange hget hnone
    · have hlevel : readyLevel s.algo t (k + 1) = none :=
        readyLevel_eq_none.mpr fun q hq => by
          rw [hget] at hq
          exact (Option.some.inj hq) ▸ hready
      rw [if_neg (fun hc => hready hc.2), hstep, hlevel, ← hnone, Function.update_eq_self]
      exact ⟨rfl, hs⟩
  · have hunused : ¬ ((t.entries k).used = true ∧ (t.entries k).state = .ready) := fun hc =>
      hused ((h.used k hk).mp hc.1)
    have hlevel : readyLevel s.algo t (k + 1) = none :=
      readyLevel_eq_none.mpr fun q hq => by
        obtain ⟨i, hi, heq, -⟩ := h.get_eq_some hq
        omega
    rw [if_neg hunused, hstep, hlevel, ← hnone, Function.update_eq_self]
    exact ⟨rfl, hs⟩

/-- Rebuilding makes the scheduler track the READY processes, whatever it held before. -/
theorem rebuild_tracks {n : ℕ} (h : t.Packed n) (s : Scheduler) :
    ((List.range mosrtMaxProcs).foldl (rebuildOneReady t) (schedClear s)).algo = s.algo ∧
      ((List.range mosrtMaxProcs).foldl (rebuildOneReady t) (schedClear s)).Tracks
        (readyLevel s.algo t) := by
  have hprefix : ∀ k ≤ mosrtMaxProcs,
      ((List.range k).foldl (rebuildOneReady t) (schedClear s)).algo = s.algo ∧
        ((List.range k).foldl (rebuildOneReady t) (schedClear s)).Tracks
          (readyBelow s.algo t k) := by
    intro k
    induction k with
    | zero =>
      intro _
      have hzero : readyBelow s.algo t 0 = fun _ => none := by
        funext pid
        rw [readyBelow]
        split_ifs with hpid
        · refine readyLevel_eq_none.mpr fun q hq => ?_
          have := procGet_range hq
          omega
        · rfl
      rw [hzero]
      exact ⟨rfl, schedClear_tracks s⟩
    | succ k ih =>
      intro hk
      obtain ⟨halgo, htracks⟩ := ih (by omega)
      rw [List.range_succ, List.foldl_append, List.foldl_cons, List.foldl_nil]
      rw [← halgo] at htracks
      obtain ⟨halgo', htracks'⟩ := rebuildOneReady_tracks h (by omega) htracks
      rw [halgo] at halgo' htracks'
      exact ⟨halgo', htracks'⟩
  obtain ⟨halgo, htracks⟩ := hprefix mosrtMaxProcs le_rfl
  have hall : readyBelow s.algo t mosrtMaxProcs = readyLevel s.algo t := by
    funext pid
    rw [readyBelow]
    split_ifs with hpid
    · rfl
    · refine (readyLevel_eq_none.mpr fun q hq => ?_).symm
      have := procGet_range hq
      omega
  rw [hall] at htracks
  exact ⟨halgo, htracks⟩

theorem rebuildReadyQueues_sound (h : Shape rt.procs rt.slots rt.slotByPid) :
    (rebuildReadyQueues rt).Sound := by
  obtain ⟨n, hn, -⟩ := h.packed
  obtain ⟨halgo, htracks⟩ := rebuild_tracks hn rt.scheduler
  rw [rebuildReadyQueues]
  generalize (List.range mosrtMaxProcs).foldl (rebuildOneReady rt.procs)
    (schedClear rt.scheduler) = s at halgo htracks ⊢
  rw [← halgo] at htracks
  exact ⟨h, htracks⟩

theorem abs_rebuild : (rebuildReadyQueues rt).abs = rt.abs := by
  rw [rebuildReadyQueues]
  generalize (List.range mosrtMaxProcs).foldl (rebuildOneReady rt.procs)
    (schedClear rt.scheduler) = s
  rfl

/-! ### The abstract state after a change of the table -/

theorem abs_modify (rt : Runtime) (hf : KeepsId f) (hp : procGet rt.procs pid = some p) :
    ({ rt with procs := rt.procs.modify pid f } : Runtime).abs =
      rt.abs.setProc pid (f p).state (f p).wakeupTick := by
  have hproc : (fun pid' => (procGet (rt.procs.modify pid f) pid').map
        fun p => (p.state, p.wakeupTick)) =
      Function.update rt.abs.proc pid (some ((f p).state, (f p).wakeupTick)) := by
    funext pid'
    rw [procGet_modify hf, Function.update_apply]
    split_ifs
    · rw [hp]
      rfl
    · rfl
  exact congrArg (fun g => { rt.abs with proc := g }) hproc

theorem abs_forEach (hf : KeepsId f) (hst : ∀ p, (f p).state = p.state)
    (hw : ∀ p, (f p).wakeupTick = p.wakeupTick) :
    ({ rt with procs := procForEach rt.procs f } : Runtime).abs = rt.abs := by
  have hproc : (fun pid => (procGet (procForEach rt.procs f) pid).map
      fun p => (p.state, p.wakeupTick)) = rt.abs.proc := by
    funext pid
    rw [procGet_forEach hf, Option.map_map]
    show _ = (procGet rt.procs pid).map _
    congr 1
    funext p
    simp only [Function.comp, hst, hw]
  exact congrArg (fun g => { rt.abs with proc := g }) hproc

theorem abs_modify_keeps (rt : Runtime) (hf : Keeps f) (pid : ℤ) :
    ({ rt with procs := rt.procs.modify pid f } : Runtime).abs = rt.abs := by
  cases hp : procGet rt.procs pid with
  | none =>
    have hsame : rt.procs.modify pid f = rt.procs := by
      rw [ProcTable.modify]
      cases hslot : findSlotByPid rt.procs pid with
      | none => rfl
      | some slot =>
        rw [procGet, hslot] at hp
        cases hp
    rw [hsame]
  | some p =>
    rw [abs_modify _ hf.id hp, hf.state, hf.wakeup, Core.setProc]
    have : rt.abs.proc pid = some (p.state, p.wakeupTick) := abs_proc hp
    rw [← this, Function.update_eq_self]

/-! ### Waking -/

theorem enqueueReady_eq (hp : procGet rt.procs pid = some p)
    (hv : procIsValidTransition p.state .ready = true) :
    enqueueReady rt pid =
      ({ rt with
        procs := rt.procs.modify pid fun p => p.setState .ready rt.tick
        scheduler := (schedEnqueue (rt.procs.modify pid fun p => p.setState .ready rt.tick)
          rt.scheduler pid).2 } : Runtime).log pid "READY"
        (schedAlgoName (schedEnqueue (rt.procs.modify pid fun p => p.setState .ready rt.tick)
          rt.scheduler pid).2.algo) := by
  have hset := procSetState_eq_some.mpr
    ⟨⟨p, hp, hv⟩, rfl (a := rt.procs.modify pid fun p => p.setState .ready rt.tick)⟩
  rw [enqueueReady, hset]
  rfl

theorem enqueueReady_spec (h : rt.Sound) (hp : procGet rt.procs pid = some p)
    (hv : procIsValidTransition p.state .ready = true) :
    (enqueueReady rt pid).Sound ∧
      (enqueueReady rt pid).abs = rt.abs.setProc pid .ready p.wakeupTick := by
  have hst : p.state ≠ .ready := by
    intro hr
    rw [hr] at hv
    cases hv
  rw [enqueueReady_eq hp hv]
  exact ⟨Sound.ready h hp hst, abs_modify _ (keepsId_setState _ _) hp⟩

theorem wakePid_spec (h : rt.Sound) (pid : ℤ) (why : CString) :
    (wakePid rt pid why).Sound ∧ (wakePid rt pid why).abs = rt.abs.wake pid := by
  rw [wakePid]
  cases hp : procGet rt.procs pid with
  | none =>
    refine ⟨h, (Core.wake_of_not_blocked ?_).symm⟩
    intro hb
    obtain ⟨q, hq, -⟩ := procGet_of_stateOf hb
    rw [hp] at hq
    cases hq
  | some p =>
    dsimp only
    split_ifs with hb
    · have hproc := abs_proc hp
      rw [hb] at hproc
      rw [Core.wake_of_blocked hproc]
      exact enqueueReady_spec h hp (by rw [hb]; rfl)
    · refine ⟨h, (Core.wake_of_not_blocked ?_).symm⟩
      rw [abs_stateOf hp]
      exact fun heq => hb (Option.some.inj heq)

open Relation in
theorem wakeBlockedByTime_spec {i : ℕ} (h : rt.Sound) (hi : i < mosrtMaxProcs) :
    (wakeBlockedByTime rt i).Sound ∧
      ReflTransGen Core.Quiet rt.abs (wakeBlockedByTime rt i).abs := by
  rw [wakeBlockedByTime]
  dsimp only
  split_ifs with hc
  · obtain ⟨hused, hb, hpos, -⟩ := hc
    obtain ⟨n, hn, -⟩ := h.shape.packed
    have hin := (hn.used i hi).mp hused
    -- the PCB in slot `i` is the one that its pid finds
    have hget : procGet rt.procs (rt.procs.entries i).pid = some (rt.procs.entries i) := by
      rw [hn.pid i hin]
      exact hn.get i hin
    have hfind : findSlotByPid rt.procs (rt.procs.entries i).pid = some i := by
      rw [hn.pid i hin]
      exact hn.find i hin
    have hid : KeepsId fun p => p.setWakeup 0 := fun _ => ⟨rfl, rfl⟩
    have htable : ({ rt.procs with
        entries := Function.update rt.procs.entries i ((rt.procs.entries i).setWakeup 0) } :
        ProcTable) = rt.procs.modify (rt.procs.entries i).pid fun p => p.setWakeup 0 := by
      rw [ProcTable.modify, hfind]
    rw [htable]
    have hnot : (rt.procs.entries i).state ≠ .ready := by
      rw [hb]
      decide
    have hsound : ({ rt with
        procs := rt.procs.modify (rt.procs.entries i).pid fun p => p.setWakeup 0 } :
        Runtime).Sound :=
      Sound.modify h hid (fun _ hl => hl) hget hnot hnot
    obtain ⟨hsound', habs'⟩ := wakePid_spec hsound (rt.procs.entries i).pid "timer"
    refine ⟨hsound', ?_⟩
    have habs : ({ rt with
        procs := rt.procs.modify (rt.procs.entries i).pid fun p => p.setWakeup 0 } :
        Runtime).abs = rt.abs.setProc (rt.procs.entries i).pid .blocked 0 := by
      rw [← hb]
      exact abs_modify _ hid hget
    rw [habs', habs, Core.wake_setProc]
    have hproc := abs_proc hget
    rw [hb] at hproc
    exact ReflTransGen.single (.timer _ _ hproc hpos)
  · exact ⟨h, .refl⟩

open Relation in
theorem wakeTimers_spec (h : rt.Sound) :
    (wakeTimers rt).Sound ∧ ReflTransGen Core.Quiet rt.abs (wakeTimers rt).abs := by
  rw [wakeTimers]
  refine List.foldlRecOn (motive := fun r : Runtime =>
    r.Sound ∧ ReflTransGen Core.Quiet rt.abs r.abs) _ _ ⟨h, .refl⟩ ?_
  rintro r ⟨hr, hsteps⟩ i hi
  obtain ⟨hr', hstep⟩ := wakeBlockedByTime_spec hr (List.mem_range.mp hi)
  exact ⟨hr', hsteps.trans hstep⟩

theorem keeps_ageOne (now : ℕ) : Keeps (ageOne now) := by
  constructor
  · intro p
    rw [ageOne]
    split_ifs <;> exact ⟨rfl, rfl⟩
  all_goals
    intro p
    rw [ageOne]
    split_ifs <;> rfl

theorem keeps_accountReadyWait : Keeps accountReadyWait := by
  constructor
  · intro p
    rw [accountReadyWait]
    split_ifs <;> exact ⟨rfl, rfl⟩
  all_goals
    intro p
    rw [accountReadyWait]
    split_ifs <;> rfl

/-! ### Before an instruction -/

theorem ageReady_spec (h : rt.Sound) : (ageReady rt).Sound ∧ (ageReady rt).abs = rt.abs := by
  have hk := keeps_ageOne rt.tick
  rw [ageReady, schedAgeReady]
  split_ifs
  · exact ⟨Sound.forEach h hk, abs_forEach hk.id hk.state hk.wakeup⟩
  · exact ⟨h, rfl⟩

theorem rebuildPrio_spec (h : rt.Sound) :
    (rebuildPrio rt).Sound ∧ (rebuildPrio rt).abs = rt.abs := by
  rw [rebuildPrio]
  split_ifs
  · exact ⟨rebuildReadyQueues_sound h.shape, abs_rebuild⟩
  · exact ⟨h, rfl⟩

theorem keepsId_boostOne : KeepsId boostOne := by
  intro p
  rw [boostOne]
  split_ifs <;> exact ⟨rfl, rfl⟩

theorem boostOne_view (p : Pcb) :
    (boostOne p).state = p.state ∧ (boostOne p).wakeupTick = p.wakeupTick ∧
      (p.mlfqLevel < mosrtMlfqLevels → (boostOne p).mlfqLevel < mosrtMlfqLevels) := by
  rw [boostOne]
  split_ifs
  · exact ⟨rfl, rfl, fun _ => Nat.succ_pos 3⟩
  · exact ⟨rfl, rfl, fun h => h⟩

/-- A boost moves processes between levels, so the rings are rebuilt. -/
theorem boostMlfq_spec (h : rt.Sound) : (boostMlfq rt).Sound ∧ (boostMlfq rt).abs = rt.abs := by
  rw [boostMlfq]
  split_ifs with hdue
  · have hboost : schedPriorityBoost rt.procs rt.scheduler = procForEach rt.procs boostOne := by
      rw [schedPriorityBoost, if_pos hdue.1]
    rw [hboost]
    refine ⟨Runtime.Sound.log (rebuildReadyQueues_sound ?_), ?_⟩
    · exact h.shape.forEach keepsId_boostOne fun p => (boostOne_view p).2.2
    · rw [abs_log, abs_rebuild]
      exact abs_forEach keepsId_boostOne (fun p => (boostOne_view p).1)
        fun p => (boostOne_view p).2.1
  · exact ⟨h, rfl⟩

open Relation in
theorem passPrepare_spec (h : rt.Sound) :
    (passPrepare rt).Sound ∧ ReflTransGen Core.Quiet rt.abs (passPrepare rt).abs := by
  obtain ⟨hwake, hsteps⟩ := wakeTimers_spec h
  obtain ⟨hage, habs₁⟩ := ageReady_spec hwake
  obtain ⟨hprio, habs₂⟩ := rebuildPrio_spec hage
  obtain ⟨hboost, habs₃⟩ := boostMlfq_spec hprio
  refine ⟨hboost, ?_⟩
  rw [passPrepare, habs₃, habs₂, habs₁]
  exact hsteps

theorem Core.Placed.steps {c c' : Core} (h : c.Placed)
    (hsteps : Relation.ReflTransGen Core.Quiet c c') : c'.Placed := by
  induction hsteps with
  | refl => exact h
  | tail _ hstep ih => exact hstep.placed ih

theorem readyLevel_isReady {a : SchedAlgo} {l : ℕ} (h : readyLevel a t pid = some l) :
    isReady t pid = true ∧ l < mosrtMlfqLevels := by
  obtain ⟨p, hp, hready, rfl⟩ := readyLevel_eq_some.mp h
  exact ⟨isReady_iff.mpr ⟨p, hp, hready⟩, a.levelOf_lt p⟩

/-- What a dispatch that finds nobody says about the processes. -/
def NobodyReady (t : ProcTable) : Prop := ∀ pid p, procGet t pid = some p → p.state ≠ .ready

theorem procSetState_running (hp : procGet t pid = some p) (hready : p.state = .ready) (tick : ℕ) :
    procSetState t pid .running tick = some (t.modify pid fun p => p.setState .running tick) :=
  procSetState_eq_some.mpr ⟨⟨p, hp, by rw [hready]; rfl⟩, rfl⟩

open Relation in
theorem dispatch_spec (h : rt.Sound) (hplaced : rt.abs.Placed) :
    (dispatch rt).2.Sound ∧
      ((dispatch rt).1 = true ∧ 0 ≤ (dispatch rt).2.currentPid ∧
          ReflTransGen Core.Quiet rt.abs (dispatch rt).2.abs ∨
        (dispatch rt).1 = false ∧ (dispatch rt).2.abs = rt.abs ∧ NobodyReady rt.procs) := by
  rw [dispatch]
  by_cases hcur : 0 ≤ rt.currentPid
  · rw [if_pos hcur]
    exact ⟨h, .inl ⟨rfl, hcur, .refl⟩⟩
  rw [if_neg hcur]
  dsimp only
  -- the CPU is idle
  have hidle : rt.abs.current = -1 := by
    rcases hplaced.current with hc | hc
    · exact hc
    · have := hplaced.positive _ (by rw [hc]; exact Option.some_ne_none _)
      exact absurd this.le hcur
  obtain ⟨halgo, hpick⟩ := schedPickNext_tracks h.tracked
    (fun pid l hl => readyLevel_isReady (t := rt.procs) hl)
  generalize hr : schedPickNext rt.procs rt.scheduler = r at halgo hpick ⊢
  obtain ⟨pid, sched⟩ := r
  dsimp only at halgo hpick ⊢
  rcases hpick with ⟨rfl, hnone, htracks⟩ | ⟨⟨l, hl⟩, htracks⟩
  · rw [if_pos (by decide)]
    refine ⟨⟨h.shape, ?_⟩, .inr ⟨rfl, rfl, fun pid p hp hready => ?_⟩⟩
    · rw [← halgo] at htracks
      exact htracks
    · exact readyLevel_eq_none.mp (hnone pid) p hp hready
  · obtain ⟨p, hp, hready, -⟩ := readyLevel_eq_some.mp hl
    have hpos : ¬ pid < 0 := by
      have := procGet_range hp
      omega
    have hid := keepsId_setState .running rt.tick
    have hset := procSetState_running hp hready rt.tick
    have hsome : (procGet (rt.procs.modify pid fun p => p.setState .running rt.tick)
        pid).isSome = true := by
      rw [procGet_modify_self hid hp]
      rfl
    rw [if_neg hpos, hset]
    dsimp only
    have hsound : Sound (rt.procs.modify pid fun p => p.setState .running rt.tick) sched
        rt.slots rt.slotByPid := by
      refine ⟨h.shape.modify pid hid fun _ hl => hl, ?_⟩
      rw [readyLevel_modify hid hp, halgo]
      exact htracks
    have hproc : rt.abs.proc pid = some (.ready, p.wakeupTick) := by
      rw [abs_proc hp, hready]
    have habs : ({ rt with
        procs := rt.procs.modify pid fun p => p.setState .running rt.tick
        currentPid := pid } : Runtime).abs =
        { rt.abs.setProc pid .running p.wakeupTick with current := pid } :=
      congrArg (fun c : Core => { c with current := pid }) (abs_modify _ hid hp)
    have hstep : ReflTransGen Core.Quiet rt.abs ({ rt with
        procs := rt.procs.modify pid fun p => p.setState .running rt.tick
        currentPid := pid } : Runtime).abs := by
      rw [habs]
      exact .single (.dispatch pid _ hidle hproc)
    split_ifs with hs
    · exact ⟨hsound, .inl ⟨rfl, not_lt.mp hpos, hstep⟩⟩
    · exact absurd hsome hs

end Mosrt
