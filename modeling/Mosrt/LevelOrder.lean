/-
Whom SCHED_MLFQ puts on the CPU.

`sched_pick_next` looks at the queues from the best level down, and so takes a process of the best
level that has one.  A boost fills the queues again, in the order of the table and with everybody
at the best level; as from tick 50 on every pass boosts, the levels and the turns within a level
are gone by then, and the smallest pid comes first.

* `mlfqPop_first` — the loop over the levels stops at the first that is not empty;
* `Roster.Foremost.level`, `Roster.Foremost.least` — what the first process of the first ring is;
* `mlfq_choice` — every dispatch of a run, before and after tick 50.
-/
import Mosrt.ArrivalOrder
import Mosrt.BoostSpacing

namespace Mosrt

/-! ### The loop over the levels -/

/-- Levels above the one that loses a pid are empty. -/
theorem mlfqPop_first {t : ProcTable} {mlfq : ℕ → ReadyQueue}
    (hall : ∀ l, ∀ pid ∈ (mlfq l).toList, isReady t pid = true) {qs : List ℕ}
    (hsorted : qs.Pairwise (· < ·)) :
    (mlfqPop t qs mlfq).1 = -1 ∨
      ∃ l ∈ qs, ∃ rest, (mlfq l).toList = (mlfqPop t qs mlfq).1 :: rest ∧
        ∀ k ∈ qs, k < l → (mlfq k).toList = [] := by
  induction qs with
  | nil => exact .inl rfl
  | cons l qs ih =>
    obtain ⟨hl, hsorted⟩ := List.pairwise_cons.mp hsorted
    rw [mlfqPop]
    rcases queuePop_cases (hall l) with ⟨hnil, hpop⟩ | ⟨pid, q', hpop, hpos, hlist⟩
    · have hneg : ¬ (0 : ℤ) ≤ -1 := by decide
      rw [hpop, Function.update_eq_self, if_neg hneg]
      rcases ih hsorted with hnone | ⟨l', hl', rest, hfound, hempty⟩
      · exact .inl hnone
      · refine .inr ⟨l', List.mem_cons_of_mem l hl', rest, hfound, ?_⟩
        exact List.forall_mem_cons.mpr ⟨fun _ => hnil, hempty⟩
    · rw [hpop, if_pos hpos]
      refine .inr ⟨l, List.mem_cons_self, q'.toList, hlist, ?_⟩
      exact List.forall_mem_cons.mpr ⟨fun hlt => absurd hlt (lt_irrefl l),
        fun k hk hlt => absurd hlt (hl k hk).asymm⟩

namespace Roster

variable {r : Roster} {pid q : ℤ} {e : RosterEntry}

/-- The process is the first of the first ring that has one. -/
def Foremost (r : Roster) (pid : ℤ) : Prop :=
  ∃ l rest, r.ring l = pid :: rest ∧ ∀ k < l, r.ring k = []

/-- Nobody who is READY is in a better ring. -/
theorem Foremost.level (h : r.Foremost pid) (hq : r.Queued) (ha : r.algo = .mlfq) :
    ∃ e, r.proc pid = some e ∧ e.state = .ready ∧
      ∀ q e', r.proc q = some e' → e'.state = .ready → e.ring .mlfq ≤ e'.ring .mlfq := by
  have hprio : r.algo ≠ .prio := by
    rw [ha]
    decide
  obtain ⟨l, rest, hring, hempty⟩ := h
  have hmem : pid ∈ r.ring l := by
    rw [hring]
    exact List.mem_cons_self
  obtain ⟨e, he, hst, rfl⟩ := readyIn_iff.mp (((hq hprio l).2 pid).mp hmem)
  rw [ha] at hempty
  refine ⟨e, he, hst, fun q e' he' hst' => ?_⟩
  by_contra hlt
  have hin : r.readyIn q (e'.ring .mlfq) = true := readyIn_iff.mpr ⟨e', he', hst', by rw [ha]⟩
  have hqmem := ((hq hprio _).2 q).mpr hin
  rw [hempty _ (not_le.mp hlt)] at hqmem
  cases hqmem

/-- After a boost everybody is at the best level. -/
theorem boost_level (hdue : r.DueBoost mlfqBoostInterval)
    (he : (r.boost mlfqBoostInterval).proc q = some e) (hst : e.state = .ready) :
    e.ring .mlfq = 0 := by
  rw [boost, if_pos hdue] at he
  have hboosted : (r.proc q).map RosterEntry.boost = some e := he
  obtain ⟨e₀, -, rfl⟩ := Option.map_eq_some_iff.mp hboosted
  rw [RosterEntry.boost] at hst ⊢
  split_ifs at hst ⊢ with hlive
  · rfl
  · rw [not_not.mp hlive] at hst
    cases hst

/-- A boost puts everybody who is READY in the order of the table. -/
theorem boost_ring (hdue : r.DueBoost mlfqBoostInterval) (l : ℕ) :
    ((r.boost mlfqBoostInterval).ring l).Pairwise (· < ·) := by
  have hprio : (r.mapProc .boost).algo ≠ .prio := by
    show r.algo ≠ .prio
    rw [hdue.1]
    decide
  have hring : (r.boost mlfqBoostInterval).ring l =
      allPids.filter fun pid => (r.mapProc .boost).readyIn pid l := by
    rw [boost, if_pos hdue]
    exact if_neg hprio
  rw [hring]
  exact pairwise_allPids.filter _

/-- In a pass that boosts, the process has the smallest pid. -/
theorem Foremost.least (h : (r.boost mlfqBoostInterval).Foremost pid)
    (hdue : r.DueBoost mlfqBoostInterval) (hq : (r.boost mlfqBoostInterval).Queued)
    (he : (r.boost mlfqBoostInterval).proc q = some e) (hst : e.state = .ready) : pid ≤ q := by
  have halgo : (r.boost mlfqBoostInterval).algo = .mlfq := (same_boost _ r).algo.trans hdue.1
  have hprio : (r.boost mlfqBoostInterval).algo ≠ .prio := by
    rw [halgo]
    decide
  have hin : (r.boost mlfqBoostInterval).readyIn q 0 = true :=
    readyIn_iff.mpr ⟨e, he, hst, by rw [halgo]; exact boost_level hdue he hst⟩
  have hmem := ((hq hprio 0).2 q).mpr hin
  obtain ⟨l, rest, hring, hempty⟩ := h
  obtain rfl : l = 0 := by
    by_contra hne
    rw [hempty 0 (Nat.pos_of_ne_zero hne)] at hmem
    cases hmem
  have hsorted := boost_ring hdue 0
  rw [hring] at hmem hsorted
  rcases List.mem_cons.mp hmem with rfl | hrest
  · exact le_rfl
  · exact ((List.pairwise_cons.mp hsorted).1 q hrest).le

/-- With somebody READY, somebody is put on the CPU. -/
theorem Dispatches.of_isReady {b : Bool} {d : Roster} (h : r.Dispatches b d)
    (hready : r.isReady q = true) : b = true := by
  cases h with
  | stays | picks => rfl
  | nobody _ hnone =>
    obtain ⟨e, he, hst⟩ := (Option.any_eq_true _ _).mp hready
    exact absurd (eq_of_beq hst) (hnone q e he)

end Roster

/-! ### Dispatches -/

variable {rt : Runtime} {pid q : ℤ} {fuel : ℕ}

theorem schedPickNext_foremost (h : rt.Sound) (ha : rt.scheduler.algo = .mlfq) :
    (schedPickNext rt.procs rt.scheduler).1 = -1 ∨
      rt.roster.Foremost (schedPickNext rt.procs rt.scheduler).1 := by
  have hrings : ∀ l, rt.roster.ring l = (rt.scheduler.mlfq l).toList := by
    intro l
    rw [roster_ring]
    simp only [Scheduler.rings, ha]
  have hactive : ∀ l, rt.scheduler.active l = (rt.scheduler.mlfq l).toList := by
    intro l
    simp only [Scheduler.active, ha]
  have hall : ∀ l, ∀ pid ∈ (rt.scheduler.mlfq l).toList, isReady rt.procs pid = true := by
    intro l pid hmem
    rw [← hactive] at hmem
    exact (readyLevel_isReady (((h.tracked l).2 pid).mp hmem)).1
  have hpick : (schedPickNext rt.procs rt.scheduler).1 =
      (mlfqPop rt.procs (List.range mosrtMlfqLevels) rt.scheduler.mlfq).1 := by
    simp only [schedPickNext, ha]
  rw [hpick]
  rcases mlfqPop_first hall List.pairwise_lt_range with hnone | ⟨l, hl, rest, hlist, hempty⟩
  · exact .inl hnone
  · refine .inr ⟨l, rest, (hrings l).trans hlist, fun k hk => (hrings k).trans (hempty k ?_ hk)⟩
    exact List.mem_range.mpr (hk.trans (List.mem_range.mp hl))

/-- Who is put on the CPU is whom the scheduler picks. -/
theorem dispatch_current (hidle : rt.currentPid < 0) (hpos : 0 ≤ (dispatch rt).2.currentPid) :
    (dispatch rt).2.currentPid = (schedPickNext rt.procs rt.scheduler).1 := by
  rw [dispatch, if_neg (not_le.mpr hidle)] at hpos ⊢
  generalize schedPickNext rt.procs rt.scheduler = r at hpos ⊢
  dsimp only at hpos ⊢
  split_ifs at hpos ⊢ with hneg
  · exact absurd hpos (not_le.mpr hidle)
  · split at hpos
    · exact absurd hpos (not_le.mpr hidle)
    · split_ifs <;> rfl

theorem dispatch_foremost_level (h : rt.Sound) (ha : rt.scheduler.algo = .mlfq)
    (hidle : rt.currentPid < 0) (hready : isReady rt.procs q = true) :
    (dispatch rt).1 = true ∧ rt.roster.Foremost (dispatch rt).2.currentPid := by
  have hd := dispatch_roster h
  have hcur := dispatch_current hidle
  have hpick := schedPickNext_foremost h ha
  generalize dispatch rt = d at hd hcur ⊢
  obtain ⟨b, d⟩ := d
  dsimp only at hd hcur ⊢
  rw [← roster_isReady] at hready
  obtain rfl := hd.of_isReady hready
  have hpos : 0 ≤ d.currentPid := hd.current_nonneg
  have heq := hcur hpos
  rw [heq] at hpos ⊢
  rcases hpick with hnone | hpick
  · omega
  · exact ⟨rfl, hpick⟩

theorem dueBoost_of_boostDue (h : boostDue rt = true) : rt.roster.DueBoost mlfqBoostInterval :=
  of_decide_eq_true h

/-- A pass that starts at tick 50 or later boosts. -/
theorem prepare_boosts (h : rt.Sound) (ha : rt.scheduler.algo = .mlfq)
    (h0 : rt.scheduler.lastBoostTick = 0) (hbound : rt.tick < 2 ^ 64)
    (hlate : mlfqBoostInterval ≤ rt.tick) :
    rt.roster.expireAll.age.rebuildPrio.DueBoost mlfqBoostInterval := by
  have hdue := (boosts_iff h ha h0 hbound).mpr hlate
  have hroster := rebuildPrio_roster (ageReady_spec (wakeTimers_spec h).1).1
  rw [ageReady_roster, wakeTimers_roster h] at hroster
  rw [boosts] at hdue
  have hboost := dueBoost_of_boostDue hdue
  rwa [hroster] at hboost

/-- The process that a pass puts on the CPU, with `m` the state it is chosen in. -/
structure Chosen (rt m : Runtime) (pid : ℤ) : Prop where
  foremost : m.roster.Foremost pid
  /-- Nobody READY is at a better level. -/
  level : ∃ p, procGet m.procs pid = some p ∧ p.state = .ready ∧
    ∀ q r, procGet m.procs q = some r → r.state = .ready → p.entry.ring .mlfq ≤ r.entry.ring .mlfq
  /-- From tick 50 on, nobody READY has a smaller pid. -/
  least : mlfqBoostInterval ≤ rt.tick → ∀ q, isReady m.procs q = true → pid ≤ q

theorem chosen_of_foremost {m : Runtime} (hs : m.Sound) (halgo : m.scheduler.algo = .mlfq)
    (hroster : m.roster = rt.roster.prepare mlfqBoostInterval)
    (hdue : mlfqBoostInterval ≤ rt.tick →
      rt.roster.expireAll.age.rebuildPrio.DueBoost mlfqBoostInterval)
    (h : m.roster.Foremost pid) : Chosen rt m pid := by
  refine ⟨h, ?_, fun hlate q hq => ?_⟩
  · obtain ⟨e, he, hst, hbest⟩ := h.level hs.queued halgo
    obtain ⟨p, hp, rfl⟩ := procGet_of_roster he
    exact ⟨p, hp, hst, fun q r hr => hbest q r.entry (roster_proc hr)⟩
  · obtain ⟨r, hr, hst⟩ := isReady_iff.mp hq
    have hqueued := hs.queued
    have he := roster_proc hr
    rw [hroster, Roster.prepare] at h hqueued he
    exact h.least (hdue hlate) hqueued he hst

/-- **The choice of SCHED_MLFQ.**  In every reachable state under SCHED_MLFQ with an idle CPU and
somebody READY, a pass dispatches the first process of the best level that has one, so that nobody
READY is at a better level; and if it starts at tick 50 or later, it dispatches the READY process
with the smallest pid, whatever the levels and however long others wait. -/
theorem mlfq_choice (ops : List RtOp) :
    let rt := Runs.run RtOp.exec runtimeInit ops
    rt.scheduler.algo = .mlfq → rt.currentPid < 0 →
      (∃ q, isReady (passPrepare rt).procs q = true) →
      (dispatch (passPrepare rt)).1 = true ∧
        Chosen rt (passPrepare rt) (dispatch (passPrepare rt)).2.currentPid := by
  have h := (RtOp.run_consistent ops).sound
  have h0 := RtOp.run_boosted ops
  have hbound := RtOp.run_tick_lt ops
  dsimp only
  generalize Runs.run RtOp.exec runtimeInit ops = rt at h h0 hbound ⊢
  rintro ha hidle ⟨q, hready⟩
  have hs := (passPrepare_spec h).1
  have hroster := passPrepare_roster h
  have hcur := passPrepare_current h
  have hdue := prepare_boosts h ha h0 hbound
  generalize passPrepare rt = m at hs hroster hcur hready ⊢
  have halgo : m.scheduler.algo = .mlfq := by
    refine algo_of_roster ?_
    rw [hroster, (Roster.same_prepare mlfqBoostInterval rt.roster).algo]
    exact ha
  obtain ⟨htrue, hforemost⟩ := dispatch_foremost_level hs halgo (hcur.trans_lt hidle) hready
  exact ⟨htrue, chosen_of_foremost hs halgo hroster hdue hforemost⟩

/-! ### A choice at tick 50 -/

/-- A process that exits at once arrives. -/
theorem arrival {n : ℕ} (h : Consistent rt) (hwaiting : rt.abs.Waiting)
    (hcard : n ≤ rt.abs.alive.card) (hn : n < mosrtMaxProcs) :
    ∃ rt', RtOp.exec rt (.runWorkload exitWorkload 0) = rt' ∧ Consistent rt' ∧ rt'.abs.Waiting ∧
      n + 1 ≤ rt'.abs.alive.card ∧ rt'.tick = rt.tick ∧
      rt'.scheduler.algo = rt.scheduler.algo := by
  obtain ⟨hwaiting', hcard'⟩ := create_waiting h.sound hwaiting hcard hn
  have hmove := RtOp.rosters h (.runWorkload exitWorkload 0)
  have hcons := RtOp.consistent h (.runWorkload exitWorkload 0)
  generalize RtOp.exec rt (.runWorkload exitWorkload 0) = rt' at hwaiting' hcard' hmove hcons ⊢
  exact ⟨rt', rfl, hcons, hwaiting', hcard', hmove.tick nofun, hmove.algo nofun⟩

/-- Two processes that arrive under SCHED_MLFQ. -/
def mlfqArrivals : List RtOp :=
  [.setScheduler .mlfq, .runWorkload exitWorkload 0, .runWorkload exitWorkload 0]

theorem mlfqArrivals_run (h : Consistent rt) (hnone : ∀ pid, procGet rt.procs pid = none) :
    ∃ rt', Runs.run RtOp.exec rt mlfqArrivals = rt' ∧ Consistent rt' ∧ rt'.tick = rt.tick ∧
      rt'.scheduler.algo = .mlfq ∧ rt'.abs.Waiting ∧ 2 ≤ rt'.abs.alive.card := by
  have hroster : (RtOp.exec rt (.setScheduler .mlfq)).roster = rt.roster.setAlgo .mlfq :=
    runtimeSetScheduler_roster h.sound .mlfq
  have hcons := RtOp.consistent h (.setScheduler .mlfq)
  rw [mlfqArrivals, Runs.run_cons, Runs.run_cons, Runs.run_cons, Runs.run_nil]
  generalize RtOp.exec rt (.setScheduler .mlfq) = rt₁ at hroster hcons ⊢
  have hwaiting : rt₁.abs.Waiting := by
    intro pid st hst
    obtain ⟨p, hp, -⟩ := procGet_of_stateOf hst
    have hproc := roster_proc hp
    rw [hroster] at hproc
    obtain ⟨q, hq, -⟩ : ∃ q, procGet rt.procs pid = some q ∧ _ := procGet_of_roster hproc
    exact absurd (hq.symm.trans (hnone pid)) nofun
  have htick₁ : rt₁.tick = rt.tick := congrArg Roster.tick hroster
  have halgo₁ : rt₁.scheduler.algo = .mlfq := congrArg Roster.algo hroster
  obtain ⟨rt₂, heq₂, hcons₂, hwaiting₂, hcard₂, htick₂, halgo₂⟩ :=
    arrival hcons hwaiting (Nat.zero_le _) (by decide)
  obtain ⟨rt₃, heq₃, hcons₃, hwaiting₃, hcard₃, htick₃, halgo₃⟩ :=
    arrival hcons₂ hwaiting₂ hcard₂ (by decide)
  rw [heq₂, heq₃]
  refine ⟨rt₃, rfl, hcons₃, ?_, ?_, hwaiting₃, hcard₃⟩
  · rw [htick₃, htick₂, htick₁]
  · rw [halgo₃, halgo₂, halgo₁]

/-- Fifty ticks without a process. -/
theorem idle_fifty :
    ∃ rt, Runs.run RtOp.exec runtimeInit (List.replicate 50 (.pass 0)) = rt ∧ Consistent rt ∧
      (∀ pid, procGet rt.procs pid = none) ∧ rt.tick = 50 := by
  have hended : runtimeInit.ledger.Ended := fun pid a ha => by
    rw [account_init] at ha
    cases ha
  obtain ⟨hacc, htick⟩ := passes_of_ended runtimeInit_consistent hended (by decide) 0 50
  have hfifty : (runtimeInit.tick + 50) % 2 ^ 64 = 50 := by decide
  refine ⟨_, rfl, RtOp.run_consistent _, fun pid => ?_, htick.trans hfifty⟩
  have hnone := congrFun hacc pid
  rw [account_init] at hnone
  exact Option.map_eq_none_iff.mp hnone

/-- Of the two that arrive at tick 50, the one with the smaller pid is chosen. -/
theorem mlfq_choice_fifty :
    ∃ rt, Runs.run RtOp.exec runtimeInit (List.replicate 50 (.pass 0) ++ mlfqArrivals) = rt ∧
      mlfqBoostInterval ≤ rt.tick ∧ 2 ≤ rt.abs.alive.card ∧
      (dispatch (passPrepare rt)).1 = true ∧ ∀ q, isReady (passPrepare rt).procs q = true →
        (dispatch (passPrepare rt)).2.currentPid ≤ q := by
  obtain ⟨rt₀, hrun₀, h₀, hnone, hfifty⟩ := idle_fifty
  obtain ⟨rt, hrun, hcons, htick, halgo, hwaiting, hcard⟩ := mlfqArrivals_run h₀ hnone
  have hchoice := mlfq_choice (List.replicate 50 (.pass 0) ++ mlfqArrivals)
  rw [Runs.run_append, hrun₀, hrun] at hchoice ⊢
  have hidle : rt.currentPid < 0 := by
    rcases hcons.placed.current with hnobody | hrunning
    · exact lt_of_eq_of_lt hnobody (by decide)
    · cases (hwaiting _ _ hrunning).1
  obtain ⟨-, hsteps⟩ := passPrepare_spec hcons.sound
  have hready : ∃ q, isReady (passPrepare rt).procs q = true := by
    by_contra hnobody
    refine alive_of_idle (hcons.placed.steps hsteps)
      ((passPrepare_current hcons.sound).trans_lt hidle) (fun q p hp hst => hnobody ⟨q, ?_⟩) ?_
    · exact isReady_iff.mpr ⟨p, hp, hst⟩
    · rw [(hwaiting.leaving.quiets hsteps).2]
      exact Finset.card_pos.mp (by omega)
  obtain ⟨htrue, hchosen⟩ := hchoice halgo hidle hready
  have hlate : mlfqBoostInterval ≤ rt.tick := (htick.trans hfifty).ge
  exact ⟨rt, rfl, hlate, hcard, htrue, hchosen.least hlate⟩

end Mosrt
