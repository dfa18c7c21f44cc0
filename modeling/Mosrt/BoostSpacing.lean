/-
How far apart the boosts of SCHED_MLFQ are.

`runtime_step` boosts all processes when `MLFQ_BOOST_INTERVAL` ticks have gone by since
`last_boost_tick`.  It then rebuilds the ready queues, and `sched_clear` sets `last_boost_tick` to
zero again; so from tick 50 on every pass boosts.

* `RtOp.run_boosted` — between two operations, `last_boost_tick` is zero;
* `boostTicks_eq` — the ticks of boosts are the ticks from 50 on at which passes start;
* `boosts_spaced` — boosts are 50 ticks apart exactly if of two successive passes at most one
  starts at tick 50 or later.
-/
import Mosrt.RosterSpec
import Mosrt.StepTicks

namespace Mosrt

variable {rt : Runtime} {r r' : Roster} {op : RtOp} {ops : List RtOp} {fuel : ℕ}

/-! ### The time of the last boost -/

namespace Roster

theorem expireAll_boosted (r : Roster) : r.expireAll.boosted = r.boosted :=
  expireAll_invariant (I := fun r' => r'.boosted = r.boosted) rfl fun _ _ _ h _ _ => h

theorem age_boosted (r : Roster) : r.age.boosted = r.boosted := by
  rw [age]
  split_ifs <;> rfl

theorem prepare_boosted (interval : ℕ) (h : r.boosted = 0) : (r.prepare interval).boosted = 0 := by
  have hage : r.expireAll.age.boosted = 0 := by rw [age_boosted, expireAll_boosted, h]
  rw [prepare, boost]
  split_ifs
  · rfl
  · rw [rebuildPrio]
    split_ifs
    · rfl
    · exact hage

theorem Dispatches.boosted {b : Bool} (h : r.Dispatches b r') : r'.boosted = r.boosted := by
  cases h <;> rfl

theorem wake_boosted (r : Roster) (pid : ℤ) : (r.wake pid).boosted = r.boosted := by
  rw [wake]
  split
  · rfl
  · split_ifs <;> rfl

theorem Exec.boosted {b : Bool} (h : r.Exec b r') : r'.boosted = r.boosted := by
  cases h with
  | wake pid => exact wake_boosted r pid
  | stay | leave | tick | preempt => rfl

theorem Pass.boosted {d : Roster} {ran b : Bool} (h : r.Pass d ran b r') (h0 : r.boosted = 0) :
    r'.boosted = 0 := by
  have hprepare := prepare_boosted mlfqBoostInterval h0
  cases h with
  | runs hd hexec => rw [hexec.boosted, hd.boosted, hprepare]
  | idles hd => exact hd.boosted.trans hprepare

theorem Moves.boosted (h : r.Moves op r') (h0 : r.boosted = 0) : r'.boosted = 0 := by
  cases h with
  | pass fuel hpass => exact hpass.boosted h0
  | kill | setAlgo => rfl
  | hangs | spawn | full | spared | setQuantum | setPriority | nobody | repaged | flag => exact h0

end Roster

theorem RtOp.run_boosted (ops : List RtOp) :
    (Runs.run RtOp.exec runtimeInit ops).scheduler.lastBoostTick = 0 :=
  RtOp.run_keeps (I := fun rt => rt.roster.boosted = 0)
    (fun _ op hrt h _ => (op.rosters hrt).boosted h) rfl (Runs.along_true runtimeInit ops)

/-! ### The ticks of boosts -/

/-- The test before a boost. -/
def boostDue (rt : Runtime) : Bool :=
  rt.scheduler.algo = .mlfq ∧ mlfqBoostInterval ≤ sub64 rt.tick rt.scheduler.lastBoostTick

/-- The pass that starts in `rt` boosts. -/
def boosts (rt : Runtime) : Bool := boostDue (rebuildPrio (ageReady (wakeTimers rt)))

/-- The tick at which a pass starts. -/
def passTick (rt : Runtime) : RtOp → List ℕ
  | .pass fuel => if (runtimePass fuel rt).isSome then [rt.tick] else []
  | _ => []

/-- The tick of the boost in a pass that boosts. -/
def boostTick (rt : Runtime) (op : RtOp) : List ℕ := if boosts rt then passTick rt op else []

/-- Successive events are a boost interval apart, on a clock of 64 bits. -/
def Spaced (ticks : List ℕ) : Prop := ticks.IsChain fun a b => mlfqBoostInterval ≤ sub64 b a

theorem boostDue_iff (ha : r.algo = .mlfq) (h0 : r.boosted = 0) (hbound : r.tick < 2 ^ 64)
    (hr : rt.roster = r) : boostDue rt = true ↔ mlfqBoostInterval ≤ r.tick := by
  subst hr
  have hsub : sub64 rt.tick 0 = rt.tick := by
    rw [sub64]
    have : rt.tick < 2 ^ 64 := hbound
    omega
  rw [boostDue, decide_eq_true_iff, show rt.scheduler.lastBoostTick = 0 from h0, hsub]
  exact and_iff_right ha

theorem boosts_iff (h : rt.Sound) (ha : rt.scheduler.algo = .mlfq)
    (h0 : rt.scheduler.lastBoostTick = 0) (hbound : rt.tick < 2 ^ 64) :
    boosts rt = true ↔ mlfqBoostInterval ≤ rt.tick := by
  have hage := (ageReady_spec (wakeTimers_spec h).1).1
  have hsame := (Roster.same_expireAll rt.roster).trans (Roster.same_age _)
  have halgo := hsame.algo.trans ha
  have hne : ¬ (rt.roster.expireAll.age).algo = .prio := by
    rw [halgo]
    exact nofun
  have hroster := rebuildPrio_roster hage
  rw [ageReady_roster, wakeTimers_roster h, Roster.rebuildPrio, if_neg hne] at hroster
  have hboosted := (Roster.age_boosted _).trans ((Roster.expireAll_boosted rt.roster).trans h0)
  have htick := hsame.tick
  have hdue := boostDue_iff halgo hboosted (htick.trans_lt hbound) hroster
  rw [htick] at hdue
  exact hdue

theorem passTick_cases (rt : Runtime) (op : RtOp) :
    passTick rt op = [] ∨ passTick rt op = [rt.tick] := by
  cases op with
  | pass fuel =>
    rw [passTick]
    split_ifs
    · exact .inr rfl
    · exact .inl rfl
  | runWorkload | kill | setScheduler | setQuantum | setNice | setPriority | setPolicy | yield |
    timerSignal =>
    exact .inl rfl

theorem passTick_eq {t : ℕ} (h : t ∈ passTick rt op) : t = rt.tick := by
  rcases passTick_cases rt op with hnil | hone
  · rw [hnil] at h
    cases h
  · rw [hone] at h
    exact List.mem_singleton.mp h

/-- From tick 50 on, every pass boosts. -/
theorem boostTicks_eq {pre seg : List RtOp}
    (ha : (Runs.run RtOp.exec runtimeInit pre).scheduler.algo = .mlfq)
    (hseg : ∀ op ∈ seg, ∀ a, op ≠ .setScheduler a) :
    Runs.history RtOp.exec boostTick (Runs.run RtOp.exec runtimeInit pre) seg =
      (Runs.history RtOp.exec passTick (Runs.run RtOp.exec runtimeInit pre) seg).filter
        fun t => mlfqBoostInterval ≤ t := by
  induction seg generalizing pre with
  | nil => rfl
  | cons op seg ih =>
    obtain ⟨hop, hseg⟩ := List.forall_mem_cons.mp hseg
    have hrt := RtOp.run_consistent pre
    have hnext : Runs.run RtOp.exec runtimeInit (pre ++ [op]) =
      RtOp.exec (Runs.run RtOp.exec runtimeInit pre) op := Runs.run_append
    have hrest := @ih (pre ++ [op])
    rw [hnext] at hrest
    have hboosts := boosts_iff hrt.sound ha (RtOp.run_boosted pre) (RtOp.run_tick_lt pre)
    generalize Runs.run RtOp.exec runtimeInit pre = rt at ha hrt hrest hboosts ⊢
    have halgo : (RtOp.exec rt op).scheduler.algo = .mlfq :=
      algo_of_roster (((op.rosters hrt).algo hop).trans ha)
    have hone : boostTick rt op = (passTick rt op).filter fun t => mlfqBoostInterval ≤ t := by
      rw [boostTick]
      by_cases hlate : mlfqBoostInterval ≤ rt.tick
      · rw [if_pos (hboosts.mpr hlate)]
        refine (List.filter_eq_self.mpr fun t ht => ?_).symm
        rw [passTick_eq ht]
        exact decide_eq_true hlate
      · rw [if_neg fun hb => hlate (hboosts.mp hb)]
        refine (List.filter_eq_nil_iff.mpr fun t ht => ?_).symm
        rw [passTick_eq ht, decide_eq_true_iff]
        exact hlate
    rw [Runs.history, Runs.history, List.filter_append, hrest halgo hseg, hone]

/-- The clock between two passes. -/
def NextTick (a b : ℕ) : Prop := b = a ∨ b = incr64 a

theorem exec_nextTick (h : Consistent rt) (op : RtOp) :
    NextTick rt.tick (RtOp.exec rt op).tick ∧
      (passTick rt op = [] → (RtOp.exec rt op).tick = rt.tick) := by
  by_cases hop : ∀ fuel, op ≠ .pass fuel
  · have htick : (RtOp.exec rt op).tick = rt.tick := (op.rosters h).tick hop
    exact ⟨.inl htick, fun _ => htick⟩
  · obtain ⟨fuel, rfl⟩ := not_forall_not.mp hop
    rw [RtOp.exec, passTick]
    cases hpass : runtimePass fuel rt with
    | none => exact ⟨.inl rfl, fun _ => rfl⟩
    | some r =>
      refine ⟨?_, fun hnil => by cases hnil⟩
      rw [Option.elim_some, runtimePass_tick h hpass, NextTick]
      split_ifs
      · exact .inr rfl
      · exact .inl rfl

/-- The ticks at which passes started, up to a state. -/
structure PassTicks (rt : Runtime) (h : List ℕ) : Prop where
  consistent : Consistent rt
  bound : rt.tick < 2 ^ 64
  last : ∀ t ∈ h.getLast?, NextTick t rt.tick
  chain : h.IsChain NextTick
  small : ∀ t ∈ h, t < 2 ^ 64

theorem PassTicks.exec {rt : Runtime} {h : List ℕ} (hI : PassTicks rt h) (op : RtOp) :
    PassTicks (RtOp.exec rt op) (h ++ passTick rt op) := by
  obtain ⟨hnext, hstill⟩ := exec_nextTick hI.consistent op
  have hbound := (op.rosters hI.consistent).tick_lt hI.bound
  have hc := op.consistent hI.consistent
  rcases passTick_cases rt op with hnil | hone
  · refine ⟨hc, hbound, ?_, ?_, ?_⟩
    · rw [hnil, List.append_nil, hstill hnil]
      exact hI.last
    · rw [hnil, List.append_nil]
      exact hI.chain
    · rw [hnil, List.append_nil]
      exact hI.small
  · rw [hone]
    refine ⟨hc, hbound, fun t ht => ?_, ?_, fun t ht => ?_⟩
    · rw [List.getLast?_concat, Option.mem_some_iff] at ht
      exact ht ▸ hnext
    · refine List.isChain_append.mpr ⟨hI.chain, .singleton _, fun x hx y hy => ?_⟩
      obtain rfl : rt.tick = y := Option.some.inj hy
      exact hI.last x hx
    · rcases List.mem_append.mp ht with ht | ht
      · exact hI.small t ht
      · rw [List.mem_singleton.mp ht]
        exact hI.bound

/-- Successive passes start at the same tick or one tick apart. -/
theorem passTicks_next (pre seg : List RtOp) :
    (Runs.history RtOp.exec passTick (Runs.run RtOp.exec runtimeInit pre) seg).IsChain NextTick ∧
      ∀ t ∈ Runs.history RtOp.exec passTick (Runs.run RtOp.exec runtimeInit pre) seg,
        t < 2 ^ 64 := by
  have hstart : PassTicks (Runs.run RtOp.exec runtimeInit pre) [] :=
    ⟨RtOp.run_consistent pre, RtOp.run_tick_lt pre, by simp, by simp, by simp⟩
  have hinv := Runs.run_history (I := PassTicks) (fun _ _ op h _ => h.exec op) hstart
    (Runs.along_true _ seg)
  rw [List.nil_append] at hinv
  exact ⟨hinv.chain, hinv.small⟩

/-- A clock below 50 comes to 50 first. -/
theorem first_late {b : ℕ} {ticks : List ℕ} (hnext : (b :: ticks).IsChain NextTick)
    (hb : b < mlfqBoostInterval) :
    ∀ y ∈ ((b :: ticks).filter fun t => mlfqBoostInterval ≤ t).head?, y = mlfqBoostInterval := by
  induction ticks generalizing b with
  | nil =>
    rw [List.filter_cons_of_neg (by simpa using hb)]
    nofun
  | cons c ticks ih =>
    obtain ⟨hbc, hrest⟩ := List.isChain_cons_cons.mp hnext
    rw [List.filter_cons_of_neg (by simpa using hb)]
    by_cases hc : c < mlfqBoostInterval
    · exact ih hrest hc
    · intro y hy
      rw [List.filter_cons_of_pos (by simpa using hc), List.head?_cons, Option.mem_some_iff] at hy
      rw [NextTick, incr64] at hbc
      omega

/-- What is left of a clock at the ticks from 50 on. -/
theorem spaced_filter {ticks : List ℕ} (hnext : ticks.IsChain NextTick)
    (hbound : ∀ t ∈ ticks, t < 2 ^ 64) :
    Spaced (ticks.filter fun t => mlfqBoostInterval ≤ t) ↔
      ticks.IsChain fun a b => a < mlfqBoostInterval ∨ b < mlfqBoostInterval := by
  induction ticks with
  | nil => exact ⟨fun _ => .nil, fun _ => .nil⟩
  | cons a ticks ih =>
    obtain ⟨ha, hbound⟩ := List.forall_mem_cons.mp hbound
    cases ticks with
    | nil =>
      refine ⟨fun _ => .singleton a, fun _ => ?_⟩
      by_cases hlate : mlfqBoostInterval ≤ a
      · rw [List.filter_cons_of_pos (by simpa using hlate)]
        exact .singleton a
      · rw [List.filter_cons_of_neg (by simpa using hlate)]
        exact .nil
    | cons b ticks =>
      obtain ⟨hab, hrest⟩ := List.isChain_cons_cons.mp hnext
      have ih := ih hrest hbound
      have hb := hbound b List.mem_cons_self
      have h50 : mlfqBoostInterval = 50 := rfl
      rw [List.isChain_cons_cons]
      by_cases hlate : mlfqBoostInterval ≤ a
      · rw [List.filter_cons_of_pos (by simpa using hlate)]
        by_cases hblate : mlfqBoostInterval ≤ b
        · -- two boosts within a tick
          refine ⟨fun hspaced => ?_, fun h => ?_⟩
          · rw [List.filter_cons_of_pos (by simpa using hblate), Spaced, List.isChain_cons_cons]
              at hspaced
            have hfar : mlfqBoostInterval ≤ sub64 b a := hspaced.1
            rw [NextTick, incr64] at hab
            rw [sub64] at hfar
            omega
          · omega
        · -- the clock wraps
          rw [← ih, Spaced, List.isChain_cons]
          refine ⟨fun h => ⟨.inr (not_le.mp hblate), h.2⟩, fun h => ⟨fun y hy => ?_, h.2⟩⟩
          have hy := first_late hrest (not_le.mp hblate) y hy
          rw [NextTick, incr64] at hab
          rw [sub64, hy]
          omega
      · rw [List.filter_cons_of_neg (by simpa using hlate), ih]
        exact ⟨fun h => ⟨.inl (not_le.mp hlate), h⟩, fun h => h.2⟩

/-- **Spacing of boosts.**  From any reachable state under SCHED_MLFQ and without a change of
policy, successive boosts are a boost interval apart exactly if of two successive passes at most
one starts at a tick from the interval on. -/
theorem boosts_spaced (pre seg : List RtOp)
    (ha : (Runs.run RtOp.exec runtimeInit pre).scheduler.algo = .mlfq)
    (hseg : ∀ op ∈ seg, ∀ a, op ≠ .setScheduler a) :
    Spaced (Runs.history RtOp.exec boostTick (Runs.run RtOp.exec runtimeInit pre) seg) ↔
      (Runs.history RtOp.exec passTick (Runs.run RtOp.exec runtimeInit pre) seg).IsChain
        fun a b => a < mlfqBoostInterval ∨ b < mlfqBoostInterval := by
  obtain ⟨hnext, hbound⟩ := passTicks_next pre seg
  rw [boostTicks_eq ha hseg]
  exact spaced_filter hnext hbound

/-- With nobody to run, every pass takes a tick. -/
theorem passTicks_of_ended {n : ℕ} (h : Consistent rt) (hended : rt.ledger.Ended)
    (hbound : rt.tick + n < 2 ^ 64) (fuel : ℕ) :
    Runs.history RtOp.exec passTick rt (List.replicate n (.pass fuel)) =
      (List.range n).map fun k => rt.tick + k := by
  induction n generalizing rt with
  | zero => rfl
  | succ n ih =>
    obtain ⟨hacc, htick⟩ := pass_of_ended h hended fuel
    have hended' : (RtOp.exec rt (.pass fuel)).ledger.Ended := by
      intro pid a ha
      rw [hacc] at ha
      exact hended pid a ha
    have hnext : (RtOp.exec rt (.pass fuel)).tick = rt.tick + 1 := by
      rw [htick, incr64]
      omega
    have hone : passTick rt (.pass fuel) = [rt.tick] := by
      rcases passTick_cases rt (.pass fuel) with hnil | hone
      · have := (exec_nextTick h (.pass fuel)).2 hnil
        omega
      · exact hone
    rw [List.replicate_succ, Runs.history, hone,
      ih (RtOp.consistent h _) hended' (by omega), hnext, List.range_succ_eq_map, List.map_cons,
      List.map_map]
    refine congrArg (rt.tick :: ·) (List.map_congr_left fun k _ => ?_)
    show rt.tick + 1 + k = rt.tick + (k + 1)
    omega

/-- A runtime without processes under SCHED_MLFQ. -/
theorem mlfq_init :
    (Runs.run RtOp.exec runtimeInit [.setScheduler .mlfq]).roster =
      runtimeInit.roster.setAlgo .mlfq :=
  runtimeSetScheduler_roster runtimeInit_consistent.sound .mlfq

theorem passTicks_idle {n : ℕ} (hn : n < 2 ^ 64) :
    Runs.history RtOp.exec passTick (Runs.run RtOp.exec runtimeInit [.setScheduler .mlfq])
      (List.replicate n (.pass 0)) = List.range n := by
  have hinit := mlfq_init
  have hrt := RtOp.run_consistent [.setScheduler .mlfq]
  generalize Runs.run RtOp.exec runtimeInit [.setScheduler .mlfq] = rt at hinit hrt ⊢
  have htick : rt.tick = 0 := congrArg Roster.tick hinit
  have hended : rt.ledger.Ended := by
    intro pid a ha
    obtain ⟨p, hp, -⟩ := Option.map_eq_some_iff.mp ha
    have hproc := roster_proc hp
    rw [hinit] at hproc
    obtain ⟨q, hq, -⟩ : ∃ q, procGet runtimeInit.procs pid = some q ∧ _ := procGet_of_roster hproc
    exact absurd (hq.symm.trans (procGet_init pid)) nofun
  rw [passTicks_of_ended hrt hended (by omega) 0, htick]
  simp

theorem idle_no_switch {n : ℕ} :
    ∀ op ∈ List.replicate n (RtOp.pass 0), ∀ a, op ≠ .setScheduler a := by
  intro op hop a heq
  rw [List.eq_of_mem_replicate hop] at heq
  cases heq

/-- One boost, in the pass that starts at tick 50. -/
theorem boosts_spaced_fifty :
    Spaced (Runs.history RtOp.exec boostTick
      (Runs.run RtOp.exec runtimeInit [.setScheduler .mlfq]) (List.replicate 51 (.pass 0))) := by
  refine (boosts_spaced [.setScheduler .mlfq] (List.replicate 51 (.pass 0))
    (algo_of_roster (congrArg Roster.algo mlfq_init)) idle_no_switch).mpr ?_
  rw [passTicks_idle (by decide)]
  decide

/-- The passes that start at ticks 50 and 51 both boost. -/
theorem boosts_crowded :
    ¬ Spaced (Runs.history RtOp.exec boostTick
      (Runs.run RtOp.exec runtimeInit [.setScheduler .mlfq]) (List.replicate 52 (.pass 0))) := by
  rw [boostTicks_eq (algo_of_roster (congrArg Roster.algo mlfq_init)) idle_no_switch,
    passTicks_idle (by decide), Spaced]
  decide

end Mosrt
