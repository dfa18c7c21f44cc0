/-
The runtime refines the roster.

`Runtime.roster` is what the scheduler's decisions go by.  Each function of the runtime changes
it as the function of the same name of `Roster` says:

* `passPrepare_roster` — timers, aging, rebuilding and boosts;
* `dispatch_roster` — the process that is put on the CPU;
* `executeInstruction_roster` — instructions;
* `runtimePass_roster`, `RtOp.rosters` — passes and operations.
-/
import Mosrt.Roster
import Mosrt.Operations

namespace Mosrt

def Pcb.entry (p : Pcb) : RosterEntry :=
  ⟨p.state, p.priority, p.lastReadyTick, p.mlfqLevel, p.wakeupTick⟩

/-- The rings of the active policy; SCHED_PRIO has none. -/
def Scheduler.rings (s : Scheduler) (l : ℕ) : List ℤ :=
  match s.algo with
  | .mlfq => (s.mlfq l).toList
  | .prio => []
  | _ => if l = 0 then s.rr.toList else []

def Runtime.roster (rt : Runtime) : Roster where
  tick := rt.tick
  current := rt.currentPid
  proc := fun pid => (procGet rt.procs pid).map Pcb.entry
  algo := rt.scheduler.algo
  quantum := rt.scheduler.quantumTicks
  charged := rt.scheduler.currentPid
  consumed := rt.scheduler.consumedTicks
  boosted := rt.scheduler.lastBoostTick
  ring := rt.scheduler.rings
  resched := rt.needResched || rt.timerResched

variable {rt rt' : Runtime} {t : ProcTable} {s : Scheduler} {slots : ℕ → Slot}
  {slotByPid : ℕ → Option ℕ} {pid : ℤ} {p : Pcb} {f : Pcb → Pcb} {i idx l n : ℕ}
  {insn : WorkloadInsn} {e : RosterEntry}

theorem roster_proc (hp : procGet rt.procs pid = some p) : rt.roster.proc pid = some p.entry := by
  show (procGet rt.procs pid).map _ = _
  rw [hp, Option.map_some]

theorem procGet_of_roster (h : rt.roster.proc pid = some e) :
    ∃ p, procGet rt.procs pid = some p ∧ p.entry = e := Option.map_eq_some_iff.mp h

theorem mem_allPids (h : rt.roster.proc pid = some e) : pid ∈ allPids := by
  obtain ⟨p, hp, -⟩ := procGet_of_roster h
  have hrange := procGet_range hp
  refine List.mem_map.mpr ⟨(pid - 1).toNat, List.mem_range.mpr ?_, ?_⟩
  · omega
  · omega

theorem algo_of_roster {a : SchedAlgo} (hr : rt.roster.algo = a) : rt.scheduler.algo = a := hr

theorem quantum_of_roster {q : ℕ} (hr : rt.roster.quantum = q) : rt.scheduler.quantumTicks = q := hr

theorem current_of_roster {x : ℤ} (hr : rt.roster.current = x) : rt.currentPid = x := hr

theorem roster_log {event detail : CString} : (rt.log pid event detail).roster = rt.roster := rfl

/-! ### Writing PCBs -/

theorem roster_modify (rt : Runtime) (hf : KeepsId f) (hp : procGet rt.procs pid = some p) :
    ({ rt with procs := rt.procs.modify pid f } : Runtime).roster =
      rt.roster.setProc pid (f p).entry := by
  have hproc : (fun q => (procGet (rt.procs.modify pid f) q).map Pcb.entry) =
      Function.update rt.roster.proc pid (some (f p).entry) := by
    funext q
    rw [procGet_modify hf, Function.update_apply]
    split_ifs
    · rw [hp]
      rfl
    · rfl
  exact congrArg (fun g => { rt.roster with proc := g }) hproc

theorem roster_modify_keeps (rt : Runtime) (hf : KeepsId f) (he : ∀ p, (f p).entry = p.entry)
    (pid : ℤ) : ({ rt with procs := rt.procs.modify pid f } : Runtime).roster = rt.roster :=
  congrArg (fun g => { rt.roster with proc := g })
    (funext fun q => procGet_modify_map hf he pid q)

theorem roster_forEach (rt : Runtime) {g : RosterEntry → RosterEntry} (hf : KeepsId f)
    (hg : ∀ p, (f p).entry = g p.entry) :
    ({ rt with procs := procForEach rt.procs f } : Runtime).roster = rt.roster.mapProc g := by
  have hproc : (fun q => (procGet (procForEach rt.procs f) q).map Pcb.entry) =
      (rt.roster.mapProc g).proc := by
    funext q
    show _ = ((procGet rt.procs q).map Pcb.entry).map g
    rw [procGet_forEach hf, Option.map_map, Option.map_map]
    exact congrArg (fun k => (procGet rt.procs q).map k) (funext hg)
  exact congrArg (fun k => { rt.roster with proc := k }) hproc

/-! ### Rings -/

theorem rings_of_algo (h : s.algo ≠ .prio) : s.rings = s.active := by
  funext l
  cases ha : s.algo with
  | prio => exact absurd ha h
  | mlfq | fcfs | rr => simp only [Scheduler.rings, Scheduler.active, ha]

theorem rings_prio (h : s.algo = .prio) (l : ℕ) : s.rings l = [] := by
  simp only [Scheduler.rings, h]

theorem readyIn_roster (rt : Runtime) (pid : ℤ) (l : ℕ) : rt.roster.readyIn pid l = true ↔
    readyLevel rt.scheduler.algo rt.procs pid = some l := by
  rw [Roster.readyIn_iff, readyLevel_eq_some]
  constructor
  · rintro ⟨e, he, hst, hl⟩
    obtain ⟨p, hp, rfl⟩ := procGet_of_roster he
    exact ⟨p, hp, hst, hl⟩
  · rintro ⟨p, hp, hst, hl⟩
    exact ⟨p.entry, roster_proc hp, hst, hl⟩

theorem Runtime.Sound.queued (h : rt.Sound) : rt.roster.Queued := by
  intro ha l
  have hrings : rt.roster.ring = rt.scheduler.active := rings_of_algo ha
  rw [hrings]
  refine ⟨(h.tracked l).1, fun pid => ?_⟩
  rw [(h.tracked l).2, readyIn_roster]

/-- A process that is not READY finds room in its ring. -/
theorem Sound.rings_room (h : Sound t s slots slotByPid) (hp : procGet t pid = some p)
    (hst : p.state ≠ .ready) (l : ℕ) :
    pid ∉ s.rings l ∧ (s.rings l).length < mosrtMaxProcs := by
  by_cases ha : s.algo = .prio
  · rw [rings_prio ha]
    simp
  rw [rings_of_algo ha]
  have hnot : pid ∉ s.active l := by
    intro hmem
    obtain ⟨q, hq, hready, -⟩ := readyLevel_eq_some.mp (((h.tracked l).2 pid).mp hmem)
    rw [hp] at hq
    exact hst ((Option.some.inj hq) ▸ hready)
  refine ⟨hnot, length_lt_of_pids (h.tracked l).1 (fun x hx => ?_) (procGet_range hp) hnot⟩
  obtain ⟨q, hq, -⟩ := readyLevel_eq_some.mp (((h.tracked l).2 x).mp hx)
  exact procGet_range hq

/-- The part of a scheduler that is no ready structure. -/
structure SameSettings (s s' : Scheduler) : Prop where
  algo : s'.algo = s.algo
  quantum : s'.quantumTicks = s.quantumTicks
  charged : s'.currentPid = s.currentPid
  consumed : s'.consumedTicks = s.consumedTicks
  boosted : s'.lastBoostTick = s.lastBoostTick

theorem SameSettings.refl (s : Scheduler) : SameSettings s s := ⟨rfl, rfl, rfl, rfl, rfl⟩

theorem schedEnqueue_settings (t : ProcTable) (s : Scheduler) (pid : ℤ) :
    SameSettings s (schedEnqueue t s pid).2 := by
  rw [schedEnqueue]
  cases procGet t pid with
  | none => exact .refl s
  | some p =>
    dsimp only
    split <;> exact ⟨rfl, rfl, rfl, rfl, rfl⟩

theorem schedEnqueue_rings (hp : procGet t pid = some p)
    (hroom : ∀ l, pid ∉ s.rings l ∧ (s.rings l).length < mosrtMaxProcs) :
    (schedEnqueue t s pid).2.rings = if s.algo = .prio then s.rings else
      Function.update s.rings (s.algo.levelOf p) (s.rings (s.algo.levelOf p) ++ [pid]) := by
  obtain ⟨hnot, hlen⟩ := hroom (s.algo.levelOf p)
  funext l
  rw [schedEnqueue, hp]
  cases ha : s.algo with
  | prio => simp [Scheduler.rings, ha]
  | mlfq =>
    have hr : ∀ l, s.rings l = (s.mlfq l).toList := fun l => by simp only [Scheduler.rings, ha]
    have hl : SchedAlgo.mlfq.levelOf p = mlfqLevel p := if_pos rfl
    rw [ha, hl, hr] at hnot hlen
    rw [RingBuffer.length_toList] at hlen
    rw [if_neg (by simp), hl, Function.update_apply, hr]
    show (Function.update s.mlfq (mlfqLevel p) _ l).toList = _
    rw [Function.update_apply]
    split_ifs
    · exact (queuePush_toList hlen hnot).2
    · rw [hr]
  | fcfs | rr =>
    have hr : ∀ l, s.rings l = if l = 0 then s.rr.toList else [] := fun l => by
      simp only [Scheduler.rings, ha]
    simp only [ha, SchedAlgo.levelOf, reduceCtorEq, if_false, hr, if_true,
      RingBuffer.length_toList] at hnot hlen
    simp only [SchedAlgo.levelOf, reduceCtorEq, if_false, Function.update_apply, if_true,
      Scheduler.rings, ha]
    split_ifs
    · exact (queuePush_toList hlen hnot).2
    · rfl

/-! ### Waking -/

theorem enqueueReady_roster (h : rt.Sound) (hp : procGet rt.procs pid = some p)
    (hv : procIsValidTransition p.state .ready = true) :
    (enqueueReady rt pid).roster = rt.roster.ready pid p.entry := by
  have hst : p.state ≠ .ready := by
    intro hr
    rw [hr] at hv
    cases hv
  have hp' := procGet_modify_self (keepsId_setState .ready rt.tick) hp
  have hset := schedEnqueue_settings (rt.procs.modify pid fun p => p.setState .ready rt.tick)
    rt.scheduler pid
  have hrings := schedEnqueue_rings (s := rt.scheduler) hp' (h.rings_room hp hst)
  have hproc := congrArg Roster.proc (roster_modify rt (keepsId_setState .ready rt.tick) hp)
  rw [enqueueReady_eq hp hv]
  exact Roster.ext rfl rfl hproc hset.algo hset.quantum hset.charged hset.consumed hset.boosted
    hrings rfl

theorem wakePid_roster (h : rt.Sound) (pid : ℤ) (why : CString) :
    (wakePid rt pid why).roster = rt.roster.wake pid := by
  rw [wakePid]
  cases hp : procGet rt.procs pid with
  | none =>
    have hnone : rt.roster.proc pid = none := by
      show (procGet rt.procs pid).map _ = none
      rw [hp, Option.map_none]
    rw [Roster.wake, hnone]
  | some p =>
    rw [Roster.wake, roster_proc hp]
    dsimp only
    by_cases hb : p.state = .blocked
    · have hb' : p.entry.state = .blocked := hb
      rw [if_pos hb, if_pos hb', roster_log]
      exact enqueueReady_roster h hp (by rw [hb]; rfl)
    · have hb' : ¬ p.entry.state = .blocked := hb
      rw [if_neg hb, if_neg hb']

theorem wakeBlockedByTime_roster (h : rt.Sound) (hi : i < mosrtMaxProcs) :
    (wakeBlockedByTime rt i).roster = rt.roster.expire (i + 1) := by
  obtain ⟨n, hn, -⟩ := h.shape.packed
  rw [wakeBlockedByTime]
  dsimp only
  by_cases hin : i < n
  · have hget := hn.get i hin
    have hpid := hn.pid i hin
    rw [Roster.expire, roster_proc hget]
    dsimp only
    by_cases hdue : rt.roster.Due (rt.procs.entries i).entry
    · obtain ⟨hb, hpos, hle⟩ := hdue
      rw [if_pos ⟨(hn.used i hi).mpr hin, hb, hpos, hle⟩, if_pos ⟨hb, hpos, hle⟩, hpid]
      have hid : KeepsId fun p => p.setWakeup 0 := fun _ => ⟨rfl, rfl⟩
      have htable : ({ rt.procs with
          entries := Function.update rt.procs.entries i ((rt.procs.entries i).setWakeup 0) } :
          ProcTable) = rt.procs.modify (i + 1) fun p => p.setWakeup 0 := by
        rw [ProcTable.modify, hn.find i hin]
      have hb : (rt.procs.entries i).state = .blocked := hb
      have hnot : (rt.procs.entries i).state ≠ .ready := by
        rw [hb]
        decide
      obtain ⟨rt₁, hrt₁⟩ : ∃ r : Runtime, { rt with
        procs := rt.procs.modify (i + 1) fun p => p.setWakeup 0 } = r := ⟨_, rfl⟩
      have hs₁ : rt₁.Sound := by
        rw [← hrt₁]
        exact Sound.modify h hid (fun _ hl => hl) hget hnot hnot
      have hr₁ : rt₁.roster = rt.roster.setProc (i + 1)
          ((rt.procs.entries i).setWakeup 0).entry := by
        rw [← hrt₁]
        exact roster_modify rt hid hget
      rw [htable, hrt₁, wakePid_roster hs₁, hr₁]
      -- waking overwrites the entry
      have hentry : (rt.roster.setProc (i + 1) ((rt.procs.entries i).setWakeup 0).entry).proc
          (i + 1) = some ((rt.procs.entries i).setWakeup 0).entry := Function.update_self _ _ _
      have hst : ((rt.procs.entries i).setWakeup 0).entry.state = .blocked := hb
      rw [Roster.wake, hentry]
      dsimp only
      rw [if_pos hst]
      refine Roster.ext rfl rfl ?_ rfl rfl rfl rfl rfl rfl rfl
      exact Function.update_idem _ _ _
    · have hnot : ¬ ((rt.procs.entries i).used = true ∧ (rt.procs.entries i).state = .blocked ∧
          0 < (rt.procs.entries i).wakeupTick ∧ (rt.procs.entries i).wakeupTick ≤ rt.tick) :=
        fun hc => hdue hc.2
      rw [if_neg hnot, if_neg hdue]
  · -- nobody lives in this slot
    have hunused : ¬ (rt.procs.entries i).used = true := fun hu => hin ((hn.used i hi).mp hu)
    have hnone : rt.roster.proc (i + 1) = none := by
      show (procGet rt.procs (i + 1)).map _ = none
      rw [Option.map_eq_none_iff]
      cases hp : procGet rt.procs (i + 1) with
      | none => rfl
      | some q =>
        obtain ⟨j, hj, heq, -⟩ := hn.get_eq_some hp
        omega
    rw [if_neg fun hc => hunused hc.1, Roster.expire, hnone]

theorem wakeTimers_roster (h : rt.Sound) : (wakeTimers rt).roster = rt.roster.expireAll := by
  have hfold : ∀ (is : List ℕ) (rt : Runtime), rt.Sound → (∀ i ∈ is, i < mosrtMaxProcs) →
      (is.foldl wakeBlockedByTime rt).roster =
        is.foldl (fun r (i : ℕ) => r.expire ((i : ℤ) + 1)) rt.roster := by
    intro is
    induction is with
    | nil => exact fun rt _ _ => rfl
    | cons i is ih =>
      intro rt hs his
      obtain ⟨hi, his⟩ := List.forall_mem_cons.mp his
      rw [List.foldl_cons, List.foldl_cons, ih _ (wakeBlockedByTime_spec hs hi).1 his,
        wakeBlockedByTime_roster hs hi]
  rw [wakeTimers, hfold _ rt h fun i hi => List.mem_range.mp hi, Roster.expireAll, allPids]
  exact List.foldl_map.symm

/-! ### Aging, rebuilding, boosting -/

theorem ageReady_roster (rt : Runtime) : (ageReady rt).roster = rt.roster.age := by
  rw [ageReady, schedAgeReady, Roster.age]
  by_cases ha : rt.scheduler.algo = .prio
  · have ha' : rt.roster.algo = .prio := ha
    rw [if_pos ha, if_pos ha']
    refine roster_forEach rt (keeps_ageOne rt.tick).id fun p => ?_
    rw [ageOne, RosterEntry.age]
    by_cases hdue : p.entry.DueAge rt.roster.tick
    · rw [if_pos hdue]
      exact congrArg Pcb.entry (if_pos hdue)
    · rw [if_neg hdue]
      exact congrArg Pcb.entry (if_neg hdue)
  · have ha' : ¬ rt.roster.algo = .prio := ha
    rw [if_neg ha, if_neg ha']

/-- The READY processes in the first `k` slots, in the order of the table. -/
def readyUpTo (t : ProcTable) (a : SchedAlgo) (k l : ℕ) : List ℤ :=
  ((List.range k).map fun i : ℕ => (i : ℤ) + 1).filter fun pid => readyLevel a t pid = some l

theorem readyUpTo_succ (t : ProcTable) (a : SchedAlgo) (k l : ℕ) : readyUpTo t a (k + 1) l =
    readyUpTo t a k l ++ if readyLevel a t (k + 1) = some l then [(k : ℤ) + 1] else [] := by
  rw [readyUpTo, List.range_succ, List.map_append, List.filter_append]
  congr 1
  by_cases h : readyLevel a t (k + 1) = some l
  · simp [h]
  · simp [h]

theorem mem_readyUpTo {a : SchedAlgo} {k : ℕ} (h : pid ∈ readyUpTo t a k l) : pid ≤ k := by
  obtain ⟨hmem, -⟩ := List.mem_filter.mp h
  obtain ⟨i, hi, rfl⟩ := List.mem_map.mp hmem
  have := List.mem_range.mp hi
  omega

theorem length_readyUpTo (t : ProcTable) (a : SchedAlgo) (k l : ℕ) :
    (readyUpTo t a k l).length ≤ k := by
  refine (List.length_filter_le _ _).trans ?_
  simp

theorem rebuildOneReady_settings (t : ProcTable) (s : Scheduler) (i : ℕ) :
    SameSettings s (rebuildOneReady t s i) := by
  rw [rebuildOneReady]
  split_ifs
  · exact schedEnqueue_settings t s _
  · exact .refl s

/-- One slot of the table adds its own pid or nothing. -/
theorem rebuildOneReady_rings {k : ℕ} (h : t.Packed n) (hk : k < mosrtMaxProcs)
    (ha : s.algo ≠ .prio) (hs : s.rings = readyUpTo t s.algo k) :
    (rebuildOneReady t s k).rings = readyUpTo t s.algo (k + 1) := by
  funext l
  rw [rebuildOneReady, readyUpTo_succ]
  by_cases hin : k < n
  · have hget := h.get k hin
    by_cases hready : (t.entries k).state = .ready
    · rw [if_pos ⟨(h.used k hk).mpr hin, hready⟩, h.pid k hin]
      have hroom : ∀ l, (k : ℤ) + 1 ∉ s.rings l ∧ (s.rings l).length < mosrtMaxProcs := by
        intro l
        rw [hs]
        refine ⟨fun hmem => ?_, (length_readyUpTo t s.algo k l).trans_lt hk⟩
        have := mem_readyUpTo hmem
        omega
      have hlevel : readyLevel s.algo t (k + 1) = some (s.algo.levelOf (t.entries k)) :=
        readyLevel_eq_some.mpr ⟨_, hget, hready, rfl⟩
      rw [schedEnqueue_rings hget hroom, if_neg ha, hs, hlevel, Function.update_apply]
      by_cases hl : l = s.algo.levelOf (t.entries k)
      · rw [if_pos hl, if_pos (by rw [hl]), hl]
      · rw [if_neg hl, if_neg (fun heq => hl (Option.some.inj heq).symm), List.append_nil]
    · have hlevel : readyLevel s.algo t (k + 1) = none :=
        readyLevel_eq_none.mpr fun q hq => by
          rw [hget] at hq
          exact (Option.some.inj hq) ▸ hready
      rw [if_neg fun hc => hready hc.2, hlevel, if_neg (by simp), List.append_nil, hs]
  · have hunused : ¬ ((t.entries k).used = true ∧ (t.entries k).state = .ready) := fun hc =>
      hin ((h.used k hk).mp hc.1)
    have hlevel : readyLevel s.algo t (k + 1) = none :=
      readyLevel_eq_none.mpr fun q hq => by
        obtain ⟨j, hj, heq, -⟩ := h.get_eq_some hq
        omega
    rw [if_neg hunused, hlevel, if_neg (by simp), List.append_nil, hs]

/-- The fold over the table fills the rings in the order of the table. -/
theorem rebuild_fold (h : t.Packed n) (s : Scheduler) {k : ℕ} (hk : k ≤ mosrtMaxProcs) :
    SameSettings (schedClear s) ((List.range k).foldl (rebuildOneReady t) (schedClear s)) ∧
      (s.algo ≠ .prio → ((List.range k).foldl (rebuildOneReady t) (schedClear s)).rings =
        readyUpTo t s.algo k) := by
  induction k with
  | zero =>
    refine ⟨.refl _, fun ha => funext fun l => ?_⟩
    show (schedClear s).rings l = []
    rw [rings_of_algo (s := schedClear s) ha]
    exact List.eq_nil_iff_forall_not_mem.mpr fun pid hmem =>
      absurd (((schedClear_tracks s l).2 pid).mp hmem) nofun
  | succ k ih =>
    obtain ⟨hset, hrings⟩ := ih (by omega)
    rw [List.range_succ, List.foldl_append, List.foldl_cons, List.foldl_nil]
    generalize (List.range k).foldl (rebuildOneReady t) (schedClear s) = s₁ at hset hrings
    have halgo : s₁.algo = s.algo := hset.algo
    have hone := rebuildOneReady_settings t s₁ k
    refine ⟨⟨hone.algo.trans hset.algo, hone.quantum.trans hset.quantum,
      hone.charged.trans hset.charged, hone.consumed.trans hset.consumed,
      hone.boosted.trans hset.boosted⟩, fun ha => ?_⟩
    have hnext := rebuildOneReady_rings (s := s₁) (k := k) h (by omega) (by rwa [halgo])
      (by rw [halgo]; exact hrings ha)
    rwa [halgo] at hnext

theorem rebuild_roster (h : rt.procs.Packed n) :
    (rebuildReadyQueues rt).roster = rt.roster.rebuild := by
  obtain ⟨hset, hrings⟩ := rebuild_fold h rt.scheduler le_rfl
  rw [rebuildReadyQueues]
  generalize (List.range mosrtMaxProcs).foldl (rebuildOneReady rt.procs)
    (schedClear rt.scheduler) = s at hset hrings
  have halgo : s.algo = rt.scheduler.algo := hset.algo
  refine Roster.ext rfl rfl rfl halgo hset.quantum rfl rfl hset.boosted ?_ rfl
  show s.rings = rt.roster.rebuilt
  funext l
  rw [Roster.rebuilt]
  by_cases ha : rt.scheduler.algo = .prio
  · have ha' : rt.roster.algo = .prio := ha
    rw [if_pos ha', rings_prio (halgo.trans ha)]
  · have ha' : ¬ rt.roster.algo = .prio := ha
    rw [if_neg ha', hrings ha, readyUpTo, allPids]
    refine List.filter_congr fun pid _ => ?_
    rw [Bool.eq_iff_iff, readyIn_roster, decide_eq_true_iff]

theorem rebuildPrio_roster (h : rt.Sound) : (rebuildPrio rt).roster = rt.roster.rebuildPrio := by
  obtain ⟨n, hn, -⟩ := h.shape.packed
  rw [rebuildPrio, Roster.rebuildPrio]
  by_cases ha : rt.scheduler.algo = .prio
  · have ha' : rt.roster.algo = .prio := ha
    rw [if_pos ha, if_pos ha', rebuild_roster hn]
  · have ha' : ¬ rt.roster.algo = .prio := ha
    rw [if_neg ha, if_neg ha']

theorem boostMlfq_roster (h : rt.Sound) :
    (boostMlfq rt).roster = rt.roster.boost mlfqBoostInterval := by
  obtain ⟨n, hn, -⟩ := h.shape.packed
  rw [boostMlfq, Roster.boost]
  by_cases hdue : rt.scheduler.algo = .mlfq ∧
    mlfqBoostInterval ≤ sub64 rt.tick rt.scheduler.lastBoostTick
  · have hdue' : rt.roster.DueBoost mlfqBoostInterval := hdue
    have hboost : schedPriorityBoost rt.procs rt.scheduler = procForEach rt.procs boostOne := by
      rw [schedPriorityBoost, if_pos hdue.1]
    rw [if_pos hdue, if_pos hdue', hboost, roster_log]
    obtain ⟨rt₁, hrt₁⟩ : ∃ r : Runtime, { rt with
      procs := procForEach rt.procs boostOne
      scheduler := { rt.scheduler with lastBoostTick := rt.tick } } = r := ⟨_, rfl⟩
    have hn₁ : rt₁.procs.Packed n := by
      rw [← hrt₁]
      exact hn.forEach keepsId_boostOne
    have hmap := roster_forEach rt (g := RosterEntry.boost) keepsId_boostOne fun p => by
      rw [boostOne, RosterEntry.boost]
      by_cases hx : p.state ≠ .exited
      · rw [if_pos hx]
        exact (if_pos (show p.entry.state ≠ .exited from hx)).symm
      · rw [if_neg hx]
        exact (if_neg (show ¬ p.entry.state ≠ .exited from hx)).symm
    have hproc := congrArg Roster.proc hmap
    show (rebuildReadyQueues { rt with
      procs := procForEach rt.procs boostOne
      scheduler := { rt.scheduler with lastBoostTick := rt.tick } }).roster = _
    rw [hrt₁, rebuild_roster hn₁, ← hrt₁]
    refine Roster.ext rfl rfl hproc rfl rfl rfl rfl rfl ?_ rfl
    -- the rings are filled from the same table
    show Roster.rebuilt _ = Roster.rebuilt _
    funext l
    rw [Roster.rebuilt, Roster.rebuilt]
    simp only [Roster.readyIn, ← hproc]
    rfl
  · have hdue' : ¬ rt.roster.DueBoost mlfqBoostInterval := hdue
    rw [if_neg hdue, if_neg hdue']

theorem passPrepare_roster (h : rt.Sound) :
    (passPrepare rt).roster = rt.roster.prepare mlfqBoostInterval := by
  have hwake := (wakeTimers_spec h).1
  have hage := (ageReady_spec hwake).1
  have hprio := (rebuildPrio_spec hage).1
  rw [passPrepare, Roster.prepare, boostMlfq_roster hprio, rebuildPrio_roster hage, ageReady_roster,
    wakeTimers_roster h]

theorem passPrepare_current (h : rt.Sound) : (passPrepare rt).currentPid = rt.currentPid := by
  have hroster := congrArg Roster.current (passPrepare_roster h)
  rw [(Roster.same_prepare mlfqBoostInterval rt.roster).current] at hroster
  exact current_of_roster hroster

/-! ### Choosing a process -/

theorem schedPickNext_settings (t : ProcTable) (s : Scheduler) :
    (schedPickNext t s).2.algo = s.algo ∧ (schedPickNext t s).2.quantumTicks = s.quantumTicks ∧
      (schedPickNext t s).2.currentPid = (schedPickNext t s).1 ∧
      (schedPickNext t s).2.consumedTicks = 0 ∧
      (schedPickNext t s).2.lastBoostTick = s.lastBoostTick := by
  rw [schedPickNext]
  split <;> exact ⟨rfl, rfl, rfl, rfl, rfl⟩

/-- A ring loses its first pid, or nothing changes. -/
theorem schedPickNext_rings (hall : ∀ l, ∀ pid ∈ s.active l, isReady t pid = true) :
    (schedPickNext t s).1 = -1 ∧ (schedPickNext t s).2.rings = s.rings ∨
      ∃ l rest, (s.algo ≠ .prio → s.rings l = (schedPickNext t s).1 :: rest) ∧
        (schedPickNext t s).2.rings =
          if s.algo = .prio then s.rings else Function.update s.rings l rest := by
  cases ha : s.algo with
  | prio =>
    refine .inr ⟨0, [], fun hne => absurd rfl hne, ?_⟩
    rw [if_pos rfl]
    funext l
    rw [rings_prio ((schedPickNext_settings t s).1.trans ha), rings_prio ha]
  | mlfq =>
    have hr : ∀ l, s.rings l = (s.mlfq l).toList := fun l => by simp only [Scheduler.rings, ha]
    have hact : ∀ l, s.active l = (s.mlfq l).toList := fun l => by simp only [Scheduler.active, ha]
    rcases mlfqPop_cases (t := t) s.mlfq (fun l x hx => hall l x (by rwa [hact]))
        (List.range mosrtMlfqLevels) with ⟨hpop, -⟩ | ⟨pid, l, q', hpop, hlist⟩
    · have hpick : schedPickNext t s = (-1, { s with currentPid := -1, consumedTicks := 0 }) := by
        simp only [schedPickNext, ha, hpop]
      rw [hpick]
      exact .inl ⟨rfl, rfl⟩
    · have hpick : schedPickNext t s =
          (pid, { s with
            mlfq := Function.update s.mlfq l q', currentPid := pid, consumedTicks := 0 }) := by
        simp only [schedPickNext, ha, hpop]
      rw [hpick]
      refine .inr ⟨l, q'.toList, fun _ => by rw [hr, hlist], ?_⟩
      rw [if_neg (by simp)]
      funext k
      simp only [Scheduler.rings, ha]
      rw [Function.update_apply, Function.update_apply]
      split_ifs
      · rfl
      · exact (hr k).symm
  | fcfs | rr =>
    have hr : ∀ l, s.rings l = if l = 0 then s.rr.toList else [] := fun l => by
      simp only [Scheduler.rings, ha]
    have hact : ∀ l, s.active l = if l = 0 then s.rr.toList else [] := fun l => by
      simp only [Scheduler.active, ha]
    rcases queuePop_cases (t := t) (q := s.rr) (fun x hx => hall 0 x (by rwa [hact, if_pos rfl]))
      with ⟨-, hpop⟩ | ⟨pid, q', hpop, -, hlist⟩
    · have hpick : schedPickNext t s = (-1, { s with currentPid := -1, consumedTicks := 0 }) := by
        simp only [schedPickNext, ha, hpop]
      rw [hpick]
      exact .inl ⟨rfl, rfl⟩
    · have hpick : schedPickNext t s =
          (pid, { s with rr := q', currentPid := pid, consumedTicks := 0 }) := by
        simp only [schedPickNext, ha, hpop]
      rw [hpick]
      refine .inr ⟨0, q'.toList, fun _ => by rw [hr, if_pos rfl, hlist], ?_⟩
      rw [if_neg (by simp)]
      funext k
      simp only [Scheduler.rings, ha]
      rw [Function.update_apply, hr]
      split_ifs <;> rfl

theorem dispatch_roster (h : rt.Sound) :
    rt.roster.Dispatches (dispatch rt).1 (dispatch rt).2.roster := by
  rw [dispatch]
  by_cases hcur : 0 ≤ rt.currentPid
  · rw [if_pos hcur]
    exact .stays hcur
  rw [if_neg hcur]
  dsimp only
  have hidle : rt.roster.current < 0 := not_le.mp hcur
  have htracks := schedPickNext_tracks h.tracked
    (fun pid l hl => readyLevel_isReady (t := rt.procs) hl)
  have hrings := schedPickNext_rings (t := rt.procs) (s := rt.scheduler) fun l pid hpid =>
    (readyLevel_isReady (((h.tracked l).2 pid).mp hpid)).1
  have hset := schedPickNext_settings rt.procs rt.scheduler
  generalize schedPickNext rt.procs rt.scheduler = r at htracks hrings hset ⊢
  obtain ⟨pid, sched⟩ := r
  dsimp only at htracks hrings hset ⊢
  obtain ⟨halgo, hquantum, hcharged, hconsumed, hboosted⟩ := hset
  rcases htracks.2 with ⟨rfl, hnone, -⟩ | ⟨⟨l, hl⟩, -⟩
  · -- nobody is READY
    rw [if_pos (by decide)]
    have hsame : sched.rings = rt.scheduler.rings := by
      rcases hrings with ⟨-, hsame⟩ | ⟨l, rest, hhead, hsame⟩
      · exact hsame
      · by_cases ha : rt.scheduler.algo = .prio
        · rw [hsame, if_pos ha]
        · exfalso
          have hmem : (-1 : ℤ) ∈ rt.scheduler.active l := by
            rw [← rings_of_algo ha, hhead ha]
            exact List.mem_cons_self
          have hready := (readyLevel_isReady (((h.tracked l).2 (-1)).mp hmem)).1
          exact absurd (isReady_pos hready) (by decide)
    have hroster : ({ rt with scheduler := sched } : Runtime).roster =
        { rt.roster with charged := -1, consumed := 0 } :=
      Roster.ext rfl rfl rfl halgo hquantum hcharged hconsumed hboosted hsame rfl
    rw [hroster]
    refine .nobody hidle fun q e he hready => ?_
    obtain ⟨p, hp, rfl⟩ := procGet_of_roster he
    exact readyLevel_eq_none.mp (hnone q) p hp hready
  · obtain ⟨p, hp, hready, -⟩ := readyLevel_eq_some.mp hl
    have hpos : ¬ pid < 0 := by
      have := procGet_range hp
      omega
    have hid := keepsId_setState .running rt.tick
    have hset := procSetState_running hp hready rt.tick
    obtain ⟨l', rest, hhead, hring⟩ : ∃ l rest, (rt.scheduler.algo ≠ .prio →
        rt.scheduler.rings l = pid :: rest) ∧ sched.rings =
          if rt.scheduler.algo = .prio then rt.scheduler.rings
          else Function.update rt.scheduler.rings l rest := by
      rcases hrings with ⟨hneg, -⟩ | hrings
      · omega
      · exact hrings
    have hproc := congrArg Roster.proc (roster_modify rt hid hp)
    rw [if_neg hpos, hset]
    dsimp only
    obtain ⟨rt₁, hrt₁⟩ : ∃ r : Runtime, Runtime.log { rt with
        scheduler := sched
        procs := rt.procs.modify pid fun p => p.setState .running rt.tick
        currentPid := pid } pid "DISPATCH" (runtimeSchedulerName { rt with
          scheduler := sched
          procs := rt.procs.modify pid fun p => p.setState .running rt.tick
          currentPid := pid }) = r := ⟨_, rfl⟩
    have hroster : rt₁.roster = rt.roster.pick pid p.entry l' rest := by
      rw [← hrt₁]
      exact Roster.ext rfl rfl hproc halgo hquantum hcharged hconsumed hboosted hring rfl
    have hpick := Roster.Dispatches.picks (r := rt.roster) pid p.entry l' rest hidle
      (not_lt.mp hpos) (roster_proc hp) hready hhead
    rw [← hroster] at hpick
    rw [hrt₁]
    split_ifs
    · exact hpick
    · exact hpick

/-! ### Instructions -/

theorem exitCurrent_roster (rt : Runtime) (hc : OnCpu rt p) (code : ℤ) :
    (exitCurrent rt code).roster = rt.roster.leave p.entry .exited 0 := by
  rw [exitCurrent, if_neg hc.not_neg, hc.markExited]
  exact congrArg (fun r : Roster => { r with current := -1 })
    (roster_modify rt (keepsId_markExited code rt.tick) hc.get)

theorem blockCurrent_roster (rt : Runtime) (hc : OnCpu rt p) (why : CString) :
    (blockCurrent rt why).roster = rt.roster.leave p.entry .blocked p.wakeupTick := by
  rw [blockCurrent, if_neg hc.not_neg, hc.setBlocked]
  exact congrArg (fun r : Roster => { r with current := -1 })
    (roster_modify rt (keepsId_setState .blocked rt.tick) hc.get)

theorem sleep_roster (rt : Runtime) (hc : OnCpu rt p) (wakeup : ℕ) (why : CString) :
    (blockCurrent { rt with
      procs := rt.procs.modify rt.currentPid fun p => p.setWakeup wakeup } why).roster =
      rt.roster.leave p.entry .blocked wakeup := by
  have hid : KeepsId fun p : Pcb => p.setWakeup wakeup := fun _ => ⟨rfl, rfl⟩
  obtain ⟨rt₁, hrt₁⟩ : ∃ r : Runtime, { rt with
    procs := rt.procs.modify rt.currentPid fun p => p.setWakeup wakeup } = r := ⟨_, rfl⟩
  have hcpu : OnCpu rt₁ (p.setWakeup wakeup) := by
    rw [← hrt₁]
    exact ⟨hc.pos, procGet_modify_self hid hc.get, hc.running⟩
  have hr₁ : rt₁.roster = rt.roster.setProc rt.roster.current (p.setWakeup wakeup).entry := by
    rw [← hrt₁]
    exact roster_modify rt hid hc.get
  rw [hrt₁, blockCurrent_roster rt₁ hcpu, hr₁]
  refine Roster.ext rfl rfl ?_ rfl rfl rfl rfl rfl rfl rfl
  exact Function.update_idem _ _ _

/-- `rt` is the runtime before the instruction, `rt'` differs from it in tables the roster does
not show. -/
theorem exec_wake (h : rt'.Sound) (idx : ℕ) (wake : ℤ) (why : CString)
    (hr : rt'.roster = rt.roster) :
    rt.roster.Exec false (wakeAndComplete rt' idx wake why).roster := by
  rw [wakeAndComplete]
  split_ifs
  · show rt.roster.Exec false (wakePid rt' wake why).roster
    rw [wakePid_roster h, hr]
    exact .wake wake
  · show rt.roster.Exec false rt'.roster
    rw [hr]
    exact .stay

theorem schedShouldPreempt_true (h : schedShouldPreempt t s pid = true) :
    s.algo ≠ .fcfs ∧ (s.quantumTicks ≤ s.consumedTicks ∨ s.algo = .prio) := by
  rw [schedShouldPreempt] at h
  split_ifs at h with hneg hfcfs hprio
  · exact ⟨hfcfs, .inr hprio.1⟩
  · exact ⟨hfcfs, .inl (of_decide_eq_true h)⟩

theorem schedShouldPreempt_false (hpos : 0 ≤ pid) (h : schedShouldPreempt t s pid = false)
    (hfcfs : s.algo ≠ .fcfs) : s.consumedTicks < s.quantumTicks := by
  rw [schedShouldPreempt, if_neg (not_lt.mpr hpos), if_neg hfcfs] at h
  split_ifs at h
  exact not_le.mp (of_decide_eq_false h)

/-- The demotion under MLFQ, and nothing under other policies. -/
theorem schedDemote_roster (rt : Runtime) (hc : OnCpu rt p) :
    ∃ q, procGet (schedDemoteAfterQuantum rt.procs rt.scheduler rt.currentPid) rt.currentPid =
        some q ∧ q.entry = (if rt.roster.algo = .mlfq then p.entry.demote else p.entry) ∧
      ({ rt with procs := schedDemoteAfterQuantum rt.procs rt.scheduler rt.currentPid } :
        Runtime).roster.proc = Function.update rt.roster.proc rt.currentPid (some q.entry) := by
  rw [schedDemoteAfterQuantum]
  by_cases ha : rt.scheduler.algo = .mlfq
  · have ha' : rt.roster.algo = .mlfq := ha
    rw [if_pos ha, if_pos ha']
    obtain ⟨demote, hdemote⟩ : ∃ f : Pcb → Pcb, f = fun p =>
        if p.mlfqLevel + 1 < mosrtMlfqLevels then { p with mlfqLevel := p.mlfqLevel + 1 } else p :=
      ⟨_, rfl⟩
    rw [← hdemote]
    have hid : KeepsId demote := by
      intro q
      rw [hdemote]
      dsimp only
      split_ifs <;> exact ⟨rfl, rfl⟩
    refine ⟨demote p, procGet_modify_self hid hc.get, ?_, ?_⟩
    · rw [hdemote, RosterEntry.demote]
      by_cases hlt : p.mlfqLevel + 1 < mosrtMlfqLevels
      · exact (congrArg Pcb.entry (if_pos hlt)).trans (if_pos hlt).symm
      · exact (congrArg Pcb.entry (if_neg hlt)).trans (if_neg hlt).symm
    · exact congrArg Roster.proc (roster_modify rt hid hc.get)
  · have ha' : ¬ rt.roster.algo = .mlfq := ha
    rw [if_neg ha, if_neg ha']
    refine ⟨p, hc.get, rfl, ?_⟩
    rw [← roster_proc hc.get, Function.update_eq_self]

/-- Whether the process goes on, and what becomes of it otherwise. -/
theorem maybePreempt_roster (rt : Runtime) (h : rt.Sound) (hc : OnCpu rt p) :
    rt.roster.resched = false ∧ (rt.roster.algo ≠ .fcfs → rt.roster.consumed < rt.roster.quantum) ∧
        (maybePreempt rt).roster = rt.roster ∨
      (rt.roster.resched = true ∨ rt.roster.algo ≠ .fcfs ∧
        (rt.roster.quantum ≤ rt.roster.consumed ∨ rt.roster.algo = .prio)) ∧
        (maybePreempt rt).roster = rt.roster.preempt p.entry := by
  rw [maybePreempt]
  dsimp only
  rw [if_neg hc.not_neg]
  by_cases hyield : (rt.needResched || rt.timerResched ||
    schedShouldPreempt rt.procs rt.scheduler rt.currentPid) = true
  · rw [if_pos hyield]
    obtain ⟨q, hget, hentry, hproc⟩ := schedDemote_roster rt hc
    obtain ⟨q', hget', hrun, -, hsound, -⟩ := schedDemote_spec h hc
    obtain rfl : q = q' := Option.some.inj (hget.symm.trans hget')
    refine .inr ⟨?_, ?_⟩
    · rcases Bool.or_eq_true_iff.mp hyield with hflag | hpre
      · exact .inl hflag
      · exact .inr (schedShouldPreempt_true hpre)
    obtain ⟨rt₁, hrt₁⟩ : ∃ r : Runtime, { rt with
        procs := schedDemoteAfterQuantum rt.procs rt.scheduler rt.currentPid
        needResched := false
        timerResched := false } = r := ⟨_, rfl⟩
    have hs₁ : rt₁.Sound := by
      rw [← hrt₁]
      exact hsound
    have hget₁ : procGet rt₁.procs rt.currentPid = some q := by
      rw [← hrt₁]
      exact hget
    have hr₁ : rt₁.roster = { rt.roster with
        proc := Function.update rt.roster.proc rt.currentPid (some q.entry)
        resched := false } := by
      rw [← hproc, ← hrt₁]
      rfl
    rw [hrt₁]
    show { (enqueueReady rt₁ rt.currentPid).roster with current := -1 } = rt.roster.preempt p.entry
    rw [enqueueReady_roster hs₁ hget₁ (by rw [hrun]; rfl), hr₁, hentry]
    refine Roster.ext rfl rfl ?_ rfl rfl rfl rfl rfl rfl rfl
    exact Function.update_idem _ _ _
  · rw [if_neg hyield]
    have hno := Bool.or_eq_false_iff.mp (Bool.eq_false_iff.mpr hyield)
    exact .inl ⟨hno.1, schedShouldPreempt_false hc.pos hno.2, rfl⟩

/-- A tick of a burst, seen in the roster. -/
theorem spendTick_roster (rt : Runtime) (idx n : ℕ) :
    (spendTick rt idx n).roster = rt.roster.spend := by
  have hproc : (spendTick rt idx n).roster.proc = rt.roster.proc := by
    funext q
    refine (procGet_modify_map (g := Pcb.entry) (f := fun p : Pcb =>
      { p with cpuTime := incr64 p.cpuTime }) (fun _ => ⟨rfl, rfl⟩) (fun _ => rfl)
      rt.currentPid q).trans ?_
    refine procGet_forEach_map keeps_accountReadyWait.id (fun p => ?_) q
    rw [accountReadyWait]
    split_ifs <;> rfl
  have hsched : (spendTick rt idx n).scheduler = schedOnTick rt.scheduler rt.currentPid := rfl
  rw [schedOnTick] at hsched
  by_cases hcharged : rt.scheduler.currentPid = rt.currentPid
  · have hcharged' : rt.roster.charged = rt.roster.current := hcharged
    rw [if_pos hcharged] at hsched
    refine Roster.ext rfl rfl hproc ?_ ?_ ?_ ?_ ?_ ?_ rfl
    all_goals
      rw [Roster.spend]
      dsimp only [Runtime.roster]
      rw [hsched]
    · exact (if_pos hcharged').symm
    · rfl
  · have hcharged' : ¬ rt.roster.charged = rt.roster.current := hcharged
    rw [if_neg hcharged] at hsched
    refine Roster.ext rfl rfl hproc ?_ ?_ ?_ ?_ ?_ ?_ rfl
    all_goals
      rw [Roster.spend]
      dsimp only [Runtime.roster]
      rw [hsched]
    exact (if_neg hcharged').symm

theorem execCpu_roster (h : AtInsn rt p idx insn) :
    rt.roster.Exec (execCpu rt rt.currentPid idx insn).1
      (execCpu rt rt.currentPid idx insn).2.roster := by
  have hproc := roster_proc h.cpu.get
  rw [execCpu_eq h.cpu]
  split_ifs
  · have hcpu : OnCpu (loadBurst rt idx 0) p := ⟨h.cpu.pos, h.cpu.get, h.cpu.running⟩
    rw [exitCurrent_roster _ hcpu]
    exact .leave p.entry .exited 0 hproc (.inr rfl)
  · obtain ⟨hs, -, q, hq, -⟩ := spendTick_spec h (burstOf rt idx insn)
    have hr := spendTick_roster rt idx (burstOf rt idx insn)
    -- the tick does not change the entry of the process
    have hentry : q.entry = p.entry := by
      have hq' := roster_proc hq.get
      rw [hr] at hq'
      exact Option.some.inj (hq'.symm.trans hproc)
    rcases maybePreempt_roster _ hs hq with ⟨hflag, hbelow, hsame⟩ | ⟨hyield, hpre⟩
    · rw [hr] at hflag hbelow hsame
      rw [hsame]
      exact .tick hflag hbelow
    · rw [hr] at hyield hpre
      rw [hpre, hentry]
      exact .preempt p.entry hproc hyield

theorem execIo_roster (h : AtInsn rt p idx insn) : (execIo rt rt.currentPid idx insn).roster =
    rt.roster.leave p.entry .blocked ((rt.tick + insn.ticks) % 2 ^ 64) := by
  have hcpu : OnCpu (completeImmediate rt idx) p := ⟨h.cpu.pos, h.cpu.get, h.cpu.running⟩
  rw [execIo, if_neg (by simp [h.cpu.get])]
  exact sleep_roster _ hcpu _ _

theorem exec_exit (hc : OnCpu rt' p) (code : ℤ) (hr : rt'.roster = rt.roster) :
    rt.roster.Exec false (exitCurrent rt' code).roster := by
  have hproc := roster_proc hc.get
  rw [exitCurrent_roster rt' hc]
  rw [hr] at hproc ⊢
  have hcur : rt'.currentPid = rt.currentPid := congrArg Roster.current hr
  rw [hcur] at hproc
  exact .leave p.entry .exited 0 hproc (.inr rfl)

theorem exec_block (hc : OnCpu rt' p) (why : CString) (hr : rt'.roster = rt.roster) :
    rt.roster.Exec false (blockCurrent rt' why).roster := by
  have hproc := roster_proc hc.get
  rw [blockCurrent_roster rt' hc]
  rw [hr] at hproc ⊢
  have hcur : rt'.currentPid = rt.currentPid := congrArg Roster.current hr
  rw [hcur] at hproc
  exact .leave p.entry .blocked _ hproc (.inl rfl)

theorem Settled.roster (hset : Settled rt idx rt') (h : AtInsn rt p idx insn) :
    rt.roster.Exec false rt'.roster := by
  have hcpu : ∀ q t, OnCpu { rt with queues := q, sems := t } p := fun _ _ =>
    ⟨h.cpu.pos, h.cpu.get, h.cpu.running⟩
  cases hset with
  | error q t code => exact exec_exit (hcpu q t) code rfl
  | blocked q t why => exact exec_block (hcpu q t) why rfl
  | done q t wake why => exact exec_wake (by exact h.sound) idx wake why (by rfl)

theorem roster_setLastAlloc (rt : Runtime) (pid : ℤ) (addr : ℕ) :
    ({ rt with procs := rt.procs.modify pid fun p => { p with vmLastAlloc := addr } } :
      Runtime).roster = rt.roster :=
  roster_modify_keeps rt (f := fun p => { p with vmLastAlloc := addr }) (fun _ => ⟨rfl, rfl⟩)
    (fun _ => rfl) pid

theorem execMmap_roster {fuel : ℕ} (h : AtInsn rt p idx insn)
    (hexec : execMmap fuel rt rt.currentPid idx insn = some rt') :
    rt.roster.Exec false rt'.roster := by
  rw [execMmap] at hexec
  split_ifs at hexec
  · cases hexec
    exact exec_exit h.cpu 5 rfl
  · generalize vmAllocMalloc (vmHeapOps rt.currentPid rt.tick) fuel
      (insn.arg0 % 2 ^ 64).toNat rt.vm = r at hexec
    obtain ⟨addr, -, rfl⟩ := Option.map_eq_some_iff.mp hexec
    dsimp only
    split_ifs
    · have hcpu : OnCpu { rt with vm := r.2 } p := ⟨h.cpu.pos, h.cpu.get, h.cpu.running⟩
      exact exec_exit hcpu 5 rfl
    · have hsame := roster_setLastAlloc { rt with vm := r.2 } rt.currentPid addr
      show rt.roster.Exec false ({ rt with
        vm := r.2
        procs := rt.procs.modify rt.currentPid fun p => { p with vmLastAlloc := addr } } :
          Runtime).roster
      rw [hsame]
      exact .stay

theorem execAccess_roster (h : AtInsn rt p idx insn) :
    rt.roster.Exec false (execAccess rt rt.currentPid idx insn).roster := by
  rw [execAccess]
  split_ifs
  · exact exec_exit h.cpu 5 rfl
  dsimp only
  generalize accessMem rt rt.currentPid insn = r
  generalize accessDetail rt rt.currentPid insn = detail
  split_ifs
  · have hcpu : OnCpu { rt with vm := r.2 } p := ⟨h.cpu.pos, h.cpu.get, h.cpu.running⟩
    exact exec_exit hcpu 6 rfl
  · obtain ⟨rt₁, hrt₁⟩ : ∃ r₁, ({ rt with vm := r.2 } : Runtime).log rt.currentPid "ACCESS" detail =
      r₁ := ⟨_, rfl⟩
    have hcpu₁ : OnCpu rt₁ p := hrt₁ ▸ ⟨h.cpu.pos, h.cpu.get, h.cpu.running⟩
    have hpid : rt.currentPid = rt₁.currentPid := hrt₁ ▸ rfl
    have hr₁ : rt₁.roster = rt.roster := hrt₁ ▸ rfl
    rw [hrt₁, hpid, sleep_roster rt₁ hcpu₁, hr₁]
    exact .leave p.entry .blocked _ (roster_proc h.cpu.get) (.inl rfl)
  · exact .stay

theorem execMfree_roster (h : AtInsn rt p idx insn) :
    rt.roster.Exec false (execMfree rt rt.currentPid idx).roster := by
  rw [execMfree]
  split_ifs
  · exact exec_exit h.cpu 5 rfl
  · dsimp only
    generalize (vmAllocFree (vmHeapOps rt.currentPid rt.tick) (vmLastAlloc rt rt.currentPid)
      rt.vm).2 = vm
    generalize asciiBytes (mfreeDetail (vmLastAlloc rt rt.currentPid)) = detail
    have hsame := roster_setLastAlloc
      (({ rt with vm := vm } : Runtime).log rt.currentPid "MFREE" detail) rt.currentPid 0
    show rt.roster.Exec false ({ (({ rt with vm := vm } : Runtime).log rt.currentPid "MFREE" detail)
      with procs := rt.procs.modify rt.currentPid fun p => { p with vmLastAlloc := 0 } } :
        Runtime).roster
    exact hsame ▸ .stay

theorem executeInstruction_roster {fuel : ℕ} {r : Bool × Runtime} (h : rt.Sound)
    (hplaced : rt.abs.Placed) (hpos : 0 ≤ rt.currentPid)
    (hexec : executeInstruction fuel rt = some r) : rt.roster.Exec r.1 r.2.roster := by
  obtain ⟨p, hcpu⟩ := hplaced.onCpu hpos
  have hrun := hexec
  rw [executeInstruction] at hexec
  cases hcur : currentInsn rt rt.currentPid with
  | none =>
    rw [hcur] at hexec
    cases hexec
    exact exec_exit hcpu 1 rfl
  | some c =>
    obtain ⟨idx, o⟩ := c
    rw [hcur] at hexec
    cases o with
    | none =>
      cases hexec
      exact exec_exit hcpu 0 rfl
    | some insn =>
      have hslot : slotIndex rt rt.currentPid = some idx := by
        obtain ⟨i, hi, heq⟩ := Option.map_eq_some_iff.mp hcur
        rw [hi, (Prod.mk.inj heq).1]
      have hat : AtInsn rt p idx insn :=
        ⟨h, hplaced, hcpu, hslot, by rw [Runtime.insnOf, hcur]; rfl⟩
      dsimp only at hexec
      cases hop : insn.op with
      | cpu =>
        rw [hop] at hexec
        rw [← Option.some.inj hexec]
        exact execCpu_roster hat
      | io =>
        rw [hop] at hexec
        cases hexec
        rw [execIo_roster hat]
        exact .leave p.entry .blocked _ (roster_proc hcpu.get) (.inl rfl)
      | send | recv | semWait | semPost | lock | unlock =>
        obtain ⟨hfalse, hset⟩ := executeInstruction_settled hcur (by rw [hop]; rfl) hrun
        rw [hfalse]
        exact hset.roster hat
      | mmap =>
        rw [hop] at hexec
        obtain ⟨rt₁, hmmap, rfl⟩ := Option.map_eq_some_iff.mp hexec
        exact execMmap_roster hat hmmap
      | access =>
        rw [hop] at hexec
        cases hexec
        exact execAccess_roster hat
      | mfree =>
        rw [hop] at hexec
        cases hexec
        exact execMfree_roster hat
      | exit =>
        rw [hop] at hexec
        cases hexec
        exact exec_exit hcpu 0 rfl

/-! ### Operations -/

theorem idleTick_roster (rt : Runtime) :
    (idleTick rt).roster = { rt.roster with tick := incr64 rt.roster.tick } := by
  have hproc : (idleTick rt).roster.proc = rt.roster.proc := by
    funext q
    refine procGet_forEach_map keeps_accountReadyWait.id (fun p => ?_) q
    rw [accountReadyWait]
    split_ifs <;> rfl
  exact Roster.ext rfl rfl hproc rfl rfl rfl rfl rfl rfl rfl

/-- A pass: what precedes the choice of a process, the choice, and one instruction or an idle
tick.  `d` is the roster after the choice; the flags say whether there was somebody to choose and
whether the pass took a tick. -/
inductive Roster.Pass (r d : Roster) : Bool → Bool → Roster → Prop
  | runs {consumed : Bool} {r' : Roster} : (r.prepare mlfqBoostInterval).Dispatches true d →
      d.Exec consumed r' → Pass r d true consumed r'
  | idles : (r.prepare mlfqBoostInterval).Dispatches false d →
      Pass r d false true { d with tick := incr64 d.tick }

theorem runtimePass_roster {fuel : ℕ} {consumed : Bool} (h : Consistent rt)
    (hpass : runtimePass fuel rt = some (consumed, rt')) :
    rt.roster.Pass (dispatch (passPrepare rt)).2.roster (dispatch (passPrepare rt)).1 consumed
      rt'.roster := by
  obtain ⟨hs, hsteps⟩ := passPrepare_spec h.sound
  have hplaced := h.placed.steps hsteps
  obtain ⟨hds, hd⟩ := dispatch_spec hs hplaced
  have hdispatch := dispatch_roster hs
  rw [passPrepare_roster h.sound] at hdispatch
  rw [runtimePass] at hpass
  generalize dispatch (passPrepare rt) = d at hds hd hdispatch hpass ⊢
  rcases hd with ⟨htrue, hpos, hquiet⟩ | ⟨hfalse, -, -⟩
  · rw [if_pos htrue] at hpass
    rw [htrue] at hdispatch ⊢
    exact .runs hdispatch (executeInstruction_roster hds (hplaced.steps hquiet) hpos hpass)
  · rw [hfalse] at hpass hdispatch ⊢
    obtain ⟨rfl, rfl⟩ := Prod.mk.inj (Option.some.inj hpass)
    rw [idleTick_roster]
    exact .idles hdispatch

/-- A pass comes to its instruction in a consistent state. -/
theorem Consistent.prepared (h : Consistent rt) :
    Consistent (dispatch (passPrepare rt)).2 ∧
      ((dispatch (passPrepare rt)).1 = true → 0 ≤ (dispatch (passPrepare rt)).2.currentPid) := by
  obtain ⟨hs, hsteps⟩ := passPrepare_spec h.sound
  have hplaced := h.placed.steps hsteps
  generalize passPrepare rt = m at hs hplaced ⊢
  obtain ⟨hds, hd⟩ := dispatch_spec hs hplaced
  rcases hd with ⟨-, hpos, hsteps'⟩ | ⟨hfalse, habs, -⟩
  · exact ⟨⟨hds, hplaced.steps hsteps'⟩, fun _ => hpos⟩
  · refine ⟨⟨hds, habs ▸ hplaced⟩, fun htrue => ?_⟩
    rw [hfalse] at htrue
    cases htrue

/-- A pass executes an instruction or idles; one whose instruction does not end leads nowhere. -/
theorem pass_cases (rt : Runtime) (fuel : ℕ) :
    (dispatch (passPrepare rt)).1 = true ∧
        (executeInstruction fuel (dispatch (passPrepare rt)).2 = none ∧
            RtOp.exec rt (.pass fuel) = rt ∨
          ∃ r, executeInstruction fuel (dispatch (passPrepare rt)).2 = some r ∧
            RtOp.exec rt (.pass fuel) = r.2) ∨
      (dispatch (passPrepare rt)).1 = false ∧
        RtOp.exec rt (.pass fuel) = idleTick (dispatch (passPrepare rt)).2 := by
  have hexec : RtOp.exec rt (.pass fuel) = (runtimePass fuel rt).elim rt Prod.snd := by
    rw [RtOp.exec]
  rw [runtimePass] at hexec
  rw [hexec]
  generalize dispatch (passPrepare rt) = d
  cases htrue : d.1 with
  | true =>
    rw [if_pos rfl]
    cases hinsn : executeInstruction fuel d.2 with
    | none => exact .inl ⟨rfl, .inl ⟨rfl, rfl⟩⟩
    | some r => exact .inl ⟨rfl, .inr ⟨r, rfl, rfl⟩⟩
  | false => exact .inr ⟨rfl, rfl⟩

/-- The state in which a pass executes its instruction. -/
theorem executing_eq {d : Runtime} {fuel : ℕ} (h : RtOp.executing rt (.pass fuel) = some d) :
    (dispatch (passPrepare rt)).1 = true ∧ d = (dispatch (passPrepare rt)).2 := by
  rw [RtOp.executing] at h
  generalize dispatch (passPrepare rt) = r at h ⊢
  split_ifs at h with hc
  exact ⟨hc.1, (Option.some.inj h).symm⟩

theorem runtimeRunWorkload_roster (h : rt.Sound) (workload : Workload) (priority : ℤ) :
    (runtimeRunWorkload rt workload priority).2.roster = rt.roster ∨
      ∃ pid : ℤ, rt.roster.proc pid = none ∧
        (runtimeRunWorkload rt workload priority).2.roster = rt.roster.spawn pid priority := by
  rcases runtimeRunWorkload_eq workload h priority with ⟨heq, -⟩ | ⟨n, t, i, vm, -, hroom, heq⟩
  · exact .inl (by rw [heq])
  · have hget : procGet (rt.create n t i workload vm).procs (n + 1) =
      some (newPcb (n + 1) 0 priority rt.tick) := hroom.created
    have hready := enqueueReady_roster (create_sound workload vm hroom h) hget rfl
    refine .inr ⟨n + 1, ?_, ?_⟩
    · show (procGet rt.procs (n + 1)).map _ = none
      rw [hroom.absent, Option.map_none]
    · rw [heq, roster_log, hready]
      refine Roster.ext rfl rfl ?_ rfl rfl rfl rfl rfl rfl rfl
      -- everybody else is as before
      funext pid
      show Function.update (fun q => (procGet t q).map Pcb.entry) _ _ pid =
        Function.update rt.roster.proc _ _ pid
      rw [Function.update_apply, Function.update_apply]
      split_ifs with hpid
      · rfl
      · rw [hroom.others pid hpid]
        rfl

theorem runtimeKill_roster (h : Consistent rt) (pid : ℤ) :
    (∀ e, rt.roster.proc pid = some e → e.state = .exited) ∧
        (runtimeKill rt pid).2.roster = rt.roster ∨
      ∃ e, rt.roster.proc pid = some e ∧ e.state ≠ .exited ∧
        (runtimeKill rt pid).2.roster = rt.roster.kill pid e := by
  obtain ⟨n, hpacked, -⟩ := h.sound.shape.packed
  rw [runtimeKill]
  cases hp : procGet rt.procs pid with
  | none =>
    refine .inl ⟨fun e he => ?_, rfl⟩
    obtain ⟨p, hp', -⟩ := procGet_of_roster he
    rw [hp] at hp'
    cases hp'
  | some p =>
    rw [if_neg (by simp)]
    dsimp only
    by_cases hx : p.state = .exited
    · -- an EXITED process is not on the CPU
      have hne : rt.currentPid ≠ pid := by
        intro heq
        rcases h.placed.current with hc | hc
        · have : rt.currentPid = -1 := hc
          have := (procGet_range hp).1
          omega
        · have hst := abs_stateOf hp
          rw [← heq] at hst
          rw [show rt.abs.current = rt.currentPid from rfl, hst, hx] at hc
          cases hc
      have hmark : procMarkExited rt.procs pid 130 rt.tick = none := by
        rw [procMarkExited, hp]
        exact if_pos hx
      rw [if_neg hne, hmark]
      refine .inl ⟨fun e he => ?_, rfl⟩
      rw [roster_proc hp] at he
      exact (Option.some.inj he) ▸ hx
    · refine .inr ⟨p.entry, roster_proc hp, hx, ?_⟩
      obtain ⟨rt₁, hrt₁⟩ : ∃ r : Runtime,
        (if rt.currentPid = pid then { rt with currentPid := -1 } else rt) = r := ⟨_, rfl⟩
      have hprocs : rt₁.procs = rt.procs := by
        rw [← hrt₁]
        split_ifs <;> rfl
      have hr₁ : rt₁.roster = { rt.roster with
          current := if rt.roster.current = pid then -1 else rt.roster.current } := by
        rw [show rt.roster.current = rt.currentPid from rfl, ← hrt₁]
        split_ifs <;> rfl
      have hid := keepsId_markExited 130 rt₁.tick
      have hp₁ : procGet rt₁.procs pid = some p := by rw [hprocs, hp]
      have hmark := procMarkExited_eq_some.mpr
        ⟨⟨p, hp₁, hx⟩, rfl (a := rt₁.procs.modify pid fun p => p.markExited 130 rt₁.tick)⟩
      rw [hrt₁, hmark]
      dsimp only
      have hmod := roster_modify rt₁ hid hp₁
      obtain ⟨rt₂, hrt₂⟩ : ∃ r : Runtime, { rt₁ with
        procs := rt₁.procs.modify pid fun p => p.markExited 130 rt₁.tick } = r := ⟨_, rfl⟩
      have hpacked₂ : rt₂.procs.Packed n := by
        rw [← hrt₂]
        exact (hprocs ▸ hpacked).modify hid
      rw [hrt₂] at hmod ⊢
      have hrel : (releaseSlot rt₂ pid).roster = rt₂.roster ∧
          (releaseSlot rt₂ pid).procs = rt₂.procs := by
        rw [releaseSlot]
        split <;> exact ⟨rfl, rfl⟩
      rw [rebuild_roster (n := n), roster_log, hrel.1, hmod, hr₁]
      · rfl
      · show (releaseSlot rt₂ pid).procs.Packed n
        rw [hrel.2]
        exact hpacked₂

theorem runtimeSetScheduler_roster (h : rt.Sound) (a : SchedAlgo) :
    (runtimeSetScheduler rt a).roster = rt.roster.setAlgo a := by
  obtain ⟨n, hn, -⟩ := h.shape.packed
  have hset : ({ rt with scheduler := schedSetAlgo rt.scheduler a } : Runtime).procs.Packed n := hn
  rw [runtimeSetScheduler, rebuild_roster hset]
  refine Roster.ext rfl rfl rfl rfl ?_ rfl rfl rfl rfl rfl
  show (if (schedSetAlgo rt.scheduler a).quantumTicks = 0 then 1
    else (schedSetAlgo rt.scheduler a).quantumTicks) =
      if rt.scheduler.quantumTicks = 0 then 1 else rt.scheduler.quantumTicks
  by_cases hq : rt.scheduler.quantumTicks = 0
  · simp [schedSetAlgo, schedInit, hq]
  · simp [schedSetAlgo, schedInit, hq]

/-- The operation sets a priority. -/
def RtOp.setsPriority : RtOp → Bool
  | .setNice .. | .setPriority .. => true
  | _ => false

/-- What an operation does to the roster. -/
inductive Roster.Moves (r : Roster) : RtOp → Roster → Prop
  | pass {d r' : Roster} {ran consumed : Bool} (fuel : ℕ) : r.Pass d ran consumed r' →
      Moves r (.pass fuel) r'
  /-- The instruction does not end. -/
  | hangs (fuel : ℕ) : Moves r (.pass fuel) r
  | spawn (workload : Workload) (priority pid : ℤ) : r.proc pid = none →
      Moves r (.runWorkload workload priority) (r.spawn pid priority)
  | full (workload : Workload) (priority : ℤ) : Moves r (.runWorkload workload priority) r
  | kill (pid : ℤ) (e : RosterEntry) : r.proc pid = some e → e.state ≠ .exited →
      Moves r (.kill pid) (r.kill pid e)
  | spared (pid : ℤ) : (∀ e, r.proc pid = some e → e.state = .exited) → Moves r (.kill pid) r
  | setAlgo (a : SchedAlgo) : Moves r (.setScheduler a) (r.setAlgo a)
  | setQuantum (ticks : ℕ) :
      Moves r (.setQuantum ticks) { r with quantum := if ticks = 0 then 1 else ticks }
  | setPriority (op : RtOp) (pid priority : ℤ) (e : RosterEntry) : op.setsPriority = true →
      r.proc pid = some e → Moves r op (r.setProc pid { e with priority := clampPrio priority })
  | nobody (op : RtOp) : op.setsPriority = true → Moves r op r
  | repaged (name : String) : Moves r (.setPolicy name) r
  | flag (op : RtOp) : op = .yield ∨ op = .timerSignal → Moves r op { r with resched := true }

namespace Roster

variable {r r' d : Roster} {ran b : Bool} {op : RtOp}

theorem Pass.algo (h : r.Pass d ran b r') : r'.algo = r.algo := by
  have hprepare := (same_prepare mlfqBoostInterval r).algo
  cases h with
  | runs hd hexec => rw [hexec.algo, hd.algo, hprepare]
  | idles hd => exact hd.algo.trans hprepare

theorem Pass.tick (h : r.Pass d ran b r') : r'.tick = if b then incr64 r.tick else r.tick := by
  have hprepare := (same_prepare mlfqBoostInterval r).tick
  cases h with
  | runs hd hexec => rw [hexec.tick_eq, hd.tick, hprepare]
  | idles hd =>
    show incr64 d.tick = incr64 r.tick
    rw [hd.tick, hprepare]

theorem Moves.algo (h : r.Moves op r') (hop : ∀ a, op ≠ .setScheduler a) : r'.algo = r.algo := by
  cases h with
  | pass fuel hpass => exact hpass.algo
  | setAlgo a => exact absurd rfl (hop a)
  | hangs | spawn | full | kill | spared | setQuantum | setPriority | nobody | repaged | flag => rfl

theorem Moves.quantum (h : r.Moves op r') (h0 : r.quantum ≠ 0)
    (hop : ∀ ticks, op ≠ .setQuantum ticks) : r'.quantum = r.quantum := by
  cases h with
  | pass fuel hpass =>
    have hprepare := (same_prepare mlfqBoostInterval r).quantum h0
    cases hpass with
    | runs hd hexec => rw [hexec.quantum, hd.quantum, hprepare]
    | idles hd => exact hd.quantum.trans hprepare
  | setQuantum ticks => exact absurd rfl (hop ticks)
  | kill | setAlgo => exact if_neg h0
  | hangs | spawn | full | spared | setPriority | nobody | repaged | flag => rfl

theorem Moves.quantum_ne_zero (h : r.Moves op r') (h0 : r.quantum ≠ 0) : r'.quantum ≠ 0 := by
  by_cases hop : ∀ ticks, op ≠ .setQuantum ticks
  · rw [h.quantum h0 hop]
    exact h0
  · obtain ⟨ticks, rfl⟩ := not_forall_not.mp hop
    cases h with
    | setQuantum =>
      show (if ticks = 0 then 1 else ticks) ≠ 0
      split_ifs with hzero
      · decide
      · exact hzero
    | setPriority _ _ _ _ hsets | nobody _ hsets => cases hsets
    | flag _ hflag =>
      rcases hflag with hflag | hflag
      · cases hflag
      · cases hflag

theorem Moves.tick (h : r.Moves op r') (hop : ∀ fuel, op ≠ .pass fuel) : r'.tick = r.tick := by
  cases h with
  | pass fuel | hangs fuel => exact absurd rfl (hop fuel)
  | spawn | full | kill | spared | setAlgo | setQuantum | setPriority | nobody |
    repaged | flag => rfl

theorem Moves.tick_lt (h : r.Moves op r') (hbound : r.tick < 2 ^ 64) : r'.tick < 2 ^ 64 := by
  by_cases hop : ∀ fuel, op ≠ .pass fuel
  · rwa [h.tick hop]
  · obtain ⟨fuel, rfl⟩ := not_forall_not.mp hop
    cases h with
    | pass _ hpass =>
      rw [hpass.tick]
      split_ifs
      · exact Nat.mod_lt _ (by decide)
      · exact hbound
    | hangs => exact hbound
    | setPriority _ _ _ _ hsets | nobody _ hsets => cases hsets
    | flag _ hflag => exact hbound

end Roster

theorem roster_setPriority (rt : Runtime) {g : Pcb → ℤ} {op : RtOp} (hop : op.setsPriority = true)
    (hf : KeepsId f) (hg : ∀ p, (f p).entry = { p.entry with priority := clampPrio (g p) })
    (pid : ℤ) :
    rt.roster.Moves op (if (procGet rt.procs pid).isNone then (false, rt)
      else (true, { rt with procs := rt.procs.modify pid f })).2.roster := by
  cases hp : procGet rt.procs pid with
  | none => exact .nobody op hop
  | some p =>
    rw [if_neg nofun]
    dsimp only
    rw [roster_modify rt hf hp, hg]
    exact .setPriority op pid (g p) p.entry hop (roster_proc hp)

theorem RtOp.rosters (h : Consistent rt) (op : RtOp) :
    rt.roster.Moves op (RtOp.exec rt op).roster := by
  cases op with
  | runWorkload workload priority =>
    rcases runtimeRunWorkload_roster h.sound workload priority with heq | ⟨pid, hnone, heq⟩
    · rw [RtOp.exec, heq]
      exact .full workload priority
    · rw [RtOp.exec, heq]
      exact .spawn workload priority pid hnone
  | pass fuel =>
    rw [RtOp.exec]
    cases hpass : runtimePass fuel rt with
    | none => exact .hangs fuel
    | some r => exact .pass fuel (runtimePass_roster h hpass)
  | kill pid =>
    rcases runtimeKill_roster h pid with ⟨hgone, heq⟩ | ⟨e, he, hst, heq⟩
    · rw [RtOp.exec, heq]
      exact .spared pid hgone
    · rw [RtOp.exec, heq]
      exact .kill pid e he hst
  | setScheduler a =>
    rw [RtOp.exec, runtimeSetScheduler_roster h.sound]
    exact .setAlgo a
  | setQuantum ticks => exact .setQuantum ticks
  | setNice pid niceValue =>
    exact roster_setPriority rt (g := fun p => p.basePriority + clampNice niceValue)
      (f := fun p => { p with
        nice := clampNice niceValue
        priority := clampPrio (p.basePriority + clampNice niceValue) }) rfl
      (fun _ => ⟨rfl, rfl⟩) (fun _ => rfl) pid
  | setPriority pid priority =>
    exact roster_setPriority rt (g := fun _ => priority)
      (f := fun p => { p with
        basePriority := clampPrio priority
        priority := clampPrio priority }) rfl (fun _ => ⟨rfl, rfl⟩) (fun _ => rfl) pid
  | setPolicy name => exact .repaged name
  | yield =>
    have hr : (RtOp.exec rt .yield).roster = { rt.roster with resched := true } :=
      Roster.ext rfl rfl rfl rfl rfl rfl rfl rfl rfl rfl
    rw [hr]
    exact .flag .yield (.inl rfl)
  | timerSignal =>
    have hr : (RtOp.exec rt .timerSignal).roster = { rt.roster with resched := true } :=
      Roster.ext rfl rfl rfl rfl rfl rfl rfl rfl rfl (Bool.or_true _)
    rw [hr]
    exact .flag .timerSignal (.inr rfl)

end Mosrt
