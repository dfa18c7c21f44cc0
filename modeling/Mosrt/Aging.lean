/-
How fast aging lowers a priority.

`sched_age_ready` runs in every pass and lowers the priority of a process whose wait is a multiple
of `AGING_INTERVAL`.  Passes that take no time start at the same tick, so it may do so several
times at one tick.

* `Roster.Pass.priority` — a pass lowers a priority by one if the process is due, whatever else
  it does;
* `RtOp.run_priority` — priorities stay between 0 and 39;
* `aging_rate` — if the passes that find a waiting process due start at different ticks, its
  priority falls by one in five ticks at most.
-/
import Mosrt.RosterSpec

namespace Mosrt

namespace Roster

variable {r r' d : Roster} {ran b : Bool} {op : RtOp} {pid : ℤ} {e e' : RosterEntry}

/-! ### Priorities in a pass -/

/-- Nobody's priority is changed, and nobody is lost. -/
def SamePriority (r r' : Roster) : Prop :=
  ∀ pid e, r.proc pid = some e → ∃ e', r'.proc pid = some e' ∧ e'.priority = e.priority

theorem SamePriority.refl (r : Roster) : SamePriority r r := fun _ e he => ⟨e, he, rfl⟩

theorem SamePriority.trans {r'' : Roster} (h : SamePriority r r') (h' : SamePriority r' r'') :
    SamePriority r r'' := by
  intro pid e he
  obtain ⟨e', he', heq⟩ := h pid e he
  obtain ⟨e'', he'', heq'⟩ := h' pid e' he'
  exact ⟨e'', he'', heq'.trans heq⟩

theorem SamePriority.of_proc {r'' : Roster} (h : SamePriority r r') (hproc : r''.proc = r'.proc) :
    SamePriority r r'' := by
  intro pid e he
  rw [hproc]
  exact h pid e he

theorem SamePriority.setProc {x : RosterEntry} (he : r.proc pid = some e)
    (heq : x.priority = e.priority) : SamePriority r (r.setProc pid x) := by
  intro q y hy
  by_cases hq : q = pid
  · rw [hq] at hy ⊢
    rw [he] at hy
    cases hy
    exact ⟨x, Function.update_self _ _ _, heq⟩
  · exact ⟨y, (Function.update_of_ne hq _ _).trans hy, rfl⟩

theorem samePriority_wake (r : Roster) (pid : ℤ) : SamePriority r (r.wake pid) := by
  rw [wake]
  split
  · exact .refl r
  · next e he =>
    split_ifs
    · exact (SamePriority.setProc (x := e.turn .ready r.tick) he rfl).of_proc rfl
    · exact .refl r

theorem Dispatches.samePriority (h : r.Dispatches b d) : SamePriority r d := by
  cases h with
  | stays | nobody => exact SamePriority.refl r
  | picks pid e l rest hidle hpos he =>
    exact (SamePriority.setProc (x := e.turn .running r.tick) he rfl).of_proc rfl

theorem Exec.samePriority (h : r.Exec b r') (ha : r.algo ≠ .mlfq) : SamePriority r r' := by
  cases h with
  | stay => exact .refl r
  | wake pid => exact samePriority_wake r pid
  | leave e st w he =>
    exact (SamePriority.setProc (x := { e with state := st, wakeup := w }) he rfl).of_proc rfl
  | tick => exact (SamePriority.refl r).of_proc rfl
  | preempt e he =>
    have hproc : (r.spend.preempt e).proc =
        (r.setProc r.current (e.turn .ready r.spend.tick)).proc := by
      show Function.update r.proc r.current (some ((if r.algo = .mlfq then e.demote else e).turn
        .ready r.spend.tick)) = _
      rw [if_neg ha]
      rfl
    exact (SamePriority.setProc (x := e.turn .ready r.spend.tick) he rfl).of_proc hproc

/-- A READY process is none whose time comes. -/
theorem expireAll_ready (he : r.proc pid = some e) (hready : e.state = .ready) :
    r.expireAll.proc pid = some e := by
  refine expireAll_invariant (I := fun r => r.proc pid = some e) he fun r₁ q x h hx hdue => ?_
  have hq : pid ≠ q := by
    rintro rfl
    rw [h] at hx
    cases hx
    exact absurd (hdue.1.symm.trans hready) nofun
  exact (Function.update_of_ne hq _ _).trans h

theorem age_proc (ha : r.algo = .prio) (he : r.proc pid = some e) :
    r.age.proc pid = some (e.age r.tick) := by
  rw [age, if_pos ha]
  show (r.proc pid).map (RosterEntry.age r.tick) = _
  rw [he, Option.map_some]

theorem rebuildPrio_proc (r : Roster) : r.rebuildPrio.proc = r.proc := by
  rw [rebuildPrio]
  split_ifs <;> rfl

theorem boost_of_prio (ha : r.algo = .prio) : r.boost mlfqBoostInterval = r := by
  refine if_neg fun hdue => ?_
  exact absurd (hdue.1.symm.trans ha) nofun

theorem prepare_ready (ha : r.algo = .prio) (he : r.proc pid = some e) (hready : e.state = .ready) :
    (r.prepare mlfqBoostInterval).proc pid = some (e.age r.tick) := by
  have hexpire := same_expireAll r
  have halgo := hexpire.algo.trans ha
  have hboost := (same_rebuildPrio _).algo.trans ((same_age r.expireAll).algo.trans halgo)
  rw [prepare, boost_of_prio hboost, rebuildPrio_proc, age_proc halgo (expireAll_ready he hready),
    hexpire.tick]

/-- A pass under SCHED_PRIO ages a READY process, and that is all it does to its priority. -/
theorem Pass.priority (h : r.Pass d ran b r') (ha : r.algo = .prio) (he : r.proc pid = some e)
    (hready : e.state = .ready) :
    ∃ e', r'.proc pid = some e' ∧ e'.priority = (e.age r.tick).priority := by
  have hprepare := prepare_ready ha he hready
  have hs := same_prepare mlfqBoostInterval r
  cases h with
  | runs hd hexec =>
    have hne : d.algo ≠ .mlfq := by
      rw [hd.algo, hs.algo, ha]
      exact nofun
    exact (hd.samePriority.trans (hexec.samePriority hne)) pid _ hprepare
  | idles hd => exact hd.samePriority pid _ hprepare

/-- Outside a pass priorities change on request only. -/
theorem Moves.samePriority (h : r.Moves op r') (hpass : ∀ fuel, op ≠ .pass fuel)
    (hop : op.setsPriority = false) : SamePriority r r' := by
  cases h with
  | pass fuel | hangs fuel => exact absurd rfl (hpass fuel)
  | full | spared | setAlgo | setQuantum | repaged | flag => exact SamePriority.refl r
  | spawn workload priority q hnone =>
    intro pid e he
    have hq : pid ≠ q := by
      rintro rfl
      rw [hnone] at he
      cases he
    exact ⟨e, (Function.update_of_ne hq _ _).trans he, rfl⟩
  | kill q x hx =>
    exact (SamePriority.setProc (x := { x with state := .exited, wakeup := 0 }) hx rfl).of_proc rfl
  | setPriority _ _ _ _ hsets | nobody _ hsets =>
    rw [hop] at hsets
    cases hsets

/-! ### The range of priorities -/

def InRange (priority : ℤ) : Prop := mosrtMinPrio ≤ priority ∧ priority ≤ mosrtMaxPrio

theorem inRange_clampPrio (priority : ℤ) : InRange (clampPrio priority) := by
  have hmin : mosrtMinPrio = 0 := rfl
  have hmax : mosrtMaxPrio = 39 := rfl
  rw [InRange, clampPrio]
  split_ifs <;> omega

def Ranged (r : Roster) : Prop := ∀ pid e, r.proc pid = some e → InRange e.priority

theorem Ranged.of_proc (h : r.Ranged) (hproc : r'.proc = r.proc) : r'.Ranged := by
  rw [Ranged, hproc]
  exact h

theorem Ranged.setProc (h : r.Ranged) (he : InRange e.priority) (pid : ℤ) :
    (r.setProc pid e).Ranged := by
  intro q x hx
  have hx : Function.update r.proc pid (some e) q = some x := hx
  by_cases hq : q = pid
  · rw [hq, Function.update_self] at hx
    cases hx
    exact he
  · rw [Function.update_of_ne hq] at hx
    exact h q x hx

theorem Ranged.mapProc {f : RosterEntry → RosterEntry} (h : r.Ranged)
    (hf : ∀ e, InRange e.priority → InRange (f e).priority) : (r.mapProc f).Ranged := by
  intro q x hx
  obtain ⟨e, he, rfl⟩ := Option.map_eq_some_iff.mp hx
  exact hf e (h q e he)

/-- What leaves priorities alone leaves them in their range. -/
theorem Ranged.ready (h : r.Ranged) (he : InRange e.priority) (pid : ℤ) : (r.ready pid e).Ranged :=
  (h.setProc (e := e.turn .ready r.tick) he pid).of_proc rfl

theorem Ranged.age (h : r.Ranged) : r.age.Ranged := by
  rw [Roster.age]
  split_ifs
  · refine h.mapProc fun e he => ?_
    rw [RosterEntry.age]
    split_ifs with hdue
    · have := hdue.2.1
      exact ⟨by dsimp only; omega, by have := he.2; dsimp only; omega⟩
    · exact he
  · exact h

theorem Ranged.boost (h : r.Ranged) (interval : ℕ) : (r.boost interval).Ranged := by
  rw [Roster.boost]
  split_ifs
  · refine (h.mapProc fun e he => ?_).of_proc rfl
    rw [RosterEntry.boost]
    split_ifs <;> exact he
  · exact h

theorem Ranged.prepare (h : r.Ranged) (interval : ℕ) : (r.prepare interval).Ranged := by
  have hexpire : r.expireAll.Ranged :=
    expireAll_invariant (I := Ranged) h fun r₁ pid e h he _ =>
      h.ready (e := { e with wakeup := 0 }) (h pid e he) pid
  exact (hexpire.age.of_proc (rebuildPrio_proc _)).boost interval

theorem Ranged.dispatches (h : r.Ranged) (hd : r.Dispatches b d) : d.Ranged := by
  cases hd with
  | stays | nobody => exact h
  | picks pid e l rest hidle hpos he =>
    exact (h.setProc (e := e.turn .running r.tick) (h pid e he) pid).of_proc rfl

theorem Ranged.exec (h : r.Ranged) (hexec : r.Exec b r') : r'.Ranged := by
  cases hexec with
  | stay => exact h
  | wake pid =>
    rw [Roster.wake]
    split
    · exact h
    · next e he =>
      split_ifs
      · exact h.ready (h pid e he) pid
      · exact h
  | leave e st w he =>
    exact (h.setProc (e := { e with state := st, wakeup := w }) (h _ e he) _).of_proc rfl
  | tick => exact h
  | preempt e he =>
    have hentry : InRange (if r.algo = .mlfq then e.demote else e).priority := by
      split_ifs
      · rw [RosterEntry.demote]
        split_ifs <;> exact h _ e he
      · exact h _ e he
    have hspend : r.spend.Ranged := h.of_proc rfl
    exact (hspend.ready hentry r.current).of_proc rfl

theorem Ranged.moves (h : r.Ranged) (hm : r.Moves op r') : r'.Ranged := by
  cases hm with
  | pass fuel hpass =>
    have hprepare := h.prepare mlfqBoostInterval
    cases hpass with
    | runs hd hexec => exact (hprepare.dispatches hd).exec hexec
    | idles hd => exact (hprepare.dispatches hd).of_proc rfl
  | hangs | full | spared | setAlgo | setQuantum | nobody | repaged | flag => exact h
  | spawn workload priority pid =>
    exact h.ready (inRange_clampPrio priority) pid
  | kill pid e he =>
    exact (h.setProc (e := { e with state := .exited, wakeup := 0 }) (h pid e he) pid).of_proc rfl
  | setPriority op pid priority e => exact h.setProc (inRange_clampPrio priority) pid

end Roster

variable {rt : Runtime} {op : RtOp} {ops : List RtOp} {pid : ℤ} {p : Pcb} {since : ℕ}

theorem RtOp.run_priority (ops : List RtOp)
    (hp : procGet (Runs.run RtOp.exec runtimeInit ops).procs pid = some p) :
    Roster.InRange p.priority := by
  have hinv := RtOp.run_keeps (I := fun rt => rt.roster.Ranged)
    (fun rt op hrt h _ => h.moves (op.rosters hrt))
    (fun pid e he => by
      obtain ⟨q, hq, -⟩ := procGet_of_roster he
      exact absurd (hq.symm.trans (procGet_init pid)) nofun) (Runs.along_true runtimeInit ops)
  exact hinv pid p.entry (roster_proc hp)

/-! ### The wait of a process -/

def WaitsSince (rt : Runtime) (pid : ℤ) (since : ℕ) : Prop :=
  ∃ p, procGet rt.procs pid = some p ∧ p.state = .ready ∧ p.lastReadyTick = since

/-- The tick at which a pass starts that finds the process due for aging. -/
def dueTick (pid : ℤ) (rt : Runtime) : RtOp → List ℕ
  | .pass fuel =>
    if (runtimePass fuel rt).isSome ∧
        (procGet rt.procs pid).any (fun p => p.entry.DueAge rt.tick) then [rt.tick] else []
  | _ => []

/-- The process waits, the policy and the priorities are not changed, and the clock does not
wrap. -/
def WaitStep (pid : ℤ) (since : ℕ) (rt : Runtime) (op : RtOp) : Prop :=
  WaitsSince rt pid since ∧ op.setsPriority = false ∧ (∀ a, op ≠ .setScheduler a) ∧
    rt.tick + 1 < 2 ^ 64

theorem mem_dueTick {t : ℕ} (h : t ∈ dueTick pid rt op) :
    t = rt.tick ∧ ∃ p, procGet rt.procs pid = some p ∧ p.entry.DueAge rt.tick := by
  cases op with
  | pass fuel =>
    rw [dueTick] at h
    split_ifs at h with hdue
    · obtain ⟨p, hp, hage⟩ := (Option.any_eq_true _ _).mp hdue.2
      exact ⟨List.mem_singleton.mp h, p, hp, of_decide_eq_true hage⟩
    · cases h
  | runWorkload | kill | setScheduler | setQuantum | setNice | setPriority | setPolicy | yield |
    timerSignal =>
    cases h

/-- One operation during a wait: the priority falls by the number of due passes. -/
theorem wait_step (hrt : Consistent rt) (ha : rt.scheduler.algo = .prio)
    (hp : procGet rt.procs pid = some p) (hready : p.state = .ready)
    (hop : op.setsPriority = false) :
    ∃ p', procGet (RtOp.exec rt op).procs pid = some p' ∧
      p'.priority = p.priority - (dueTick pid rt op).length := by
  have hroster := roster_proc hp
  by_cases hpass : ∀ fuel, op ≠ .pass fuel
  · have hnil : dueTick pid rt op = [] := by
      cases op with
      | pass fuel => exact absurd rfl (hpass fuel)
      | runWorkload | kill | setScheduler | setQuantum | setNice | setPriority | setPolicy | yield
        | timerSignal => rfl
    obtain ⟨e', he', heq⟩ := (op.rosters hrt).samePriority hpass hop pid _ hroster
    obtain ⟨p', hp', rfl⟩ := procGet_of_roster he'
    refine ⟨p', hp', ?_⟩
    rw [hnil]
    have heq : p'.priority = p.priority := heq
    rw [heq]
    simp
  · obtain ⟨fuel, rfl⟩ := not_forall_not.mp hpass
    rw [dueTick, RtOp.exec]
    cases hend : runtimePass fuel rt with
    | none => exact ⟨p, hp, by simp⟩
    | some r =>
      obtain ⟨e', he', heq⟩ := (runtimePass_roster hrt hend).priority ha hroster hready
      obtain ⟨p', hp', rfl⟩ := procGet_of_roster he'
      refine ⟨p', hp', ?_⟩
      have heq : p'.priority = (p.entry.age rt.tick).priority := heq
      rw [heq, RosterEntry.age, hp]
      by_cases hdue : p.entry.DueAge rt.tick
      · rw [if_pos hdue, if_pos ⟨rfl, decide_eq_true hdue⟩]
        rfl
      · rw [if_neg hdue, if_neg fun hc => hdue (of_decide_eq_true hc.2)]
        exact (sub_zero _).symm

/-- What has happened to a process during its wait. -/
structure Waited (pid : ℤ) (since : ℕ) (priority : ℤ) (rt : Runtime) (due : List ℕ) : Prop where
  consistent : Consistent rt
  algo : rt.scheduler.algo = .prio
  lost : ∀ p, procGet rt.procs pid = some p → p.priority = priority - due.length
  due : ∀ t ∈ due, since < t ∧ (t - since) % agingInterval = 0 ∧ t ≤ rt.tick

theorem Waited.exec {priority : ℤ} {due : List ℕ} (h : Waited pid since priority rt due)
    (hstep : WaitStep pid since rt op) :
    Waited pid since priority (RtOp.exec rt op) (due ++ dueTick pid rt op) := by
  obtain ⟨⟨p, hp, hready, hsince⟩, hop, hswitch, hclock⟩ := hstep
  obtain ⟨p', hp', hlost⟩ := wait_step h.consistent h.algo hp hready hop
  have htick : rt.tick ≤ (RtOp.exec rt op).tick := by
    by_cases hpass : ∀ fuel, op ≠ .pass fuel
    · exact (op.rosters h.consistent).tick hpass |>.ge
    · obtain ⟨fuel, rfl⟩ := not_forall_not.mp hpass
      rw [RtOp.exec]
      cases hend : runtimePass fuel rt with
      | none => exact le_rfl
      | some r =>
        have htick : r.2.tick = if r.1 then incr64 rt.tick else rt.tick :=
          (runtimePass_roster h.consistent hend).tick
        rw [Option.elim_some, htick, incr64]
        split_ifs <;> omega
  refine ⟨op.consistent h.consistent,
    algo_of_roster (((op.rosters h.consistent).algo hswitch).trans h.algo), ?_, ?_⟩
  · intro q hq
    rw [hp'] at hq
    cases hq
    rw [hlost, h.lost p hp, List.length_append]
    push_cast
    omega
  · intro t ht
    rcases List.mem_append.mp ht with ht | ht
    · obtain ⟨hlt, hmod, hle⟩ := h.due t ht
      exact ⟨hlt, hmod, hle.trans htick⟩
    · obtain ⟨rfl, q, hq, hdue⟩ := mem_dueTick ht
      rw [hp] at hq
      cases hq
      obtain ⟨-, -, hlt, hmod⟩ := hdue
      rw [← hsince]
      exact ⟨hlt, hmod, htick⟩

/-- Different multiples of the interval up to `now`. -/
theorem length_due_le {due : List ℕ} {interval now : ℕ} (hpos : 0 < interval) (hnodup : due.Nodup)
    (hdue : ∀ t ∈ due, since < t ∧ (t - since) % interval = 0 ∧ t ≤ now) :
    due.length ≤ (now - since) / interval := by
  have hsub : due.toFinset.image (fun t => (t - since) / interval) ⊆
      Finset.Icc 1 ((now - since) / interval) := by
    intro k hk
    obtain ⟨t, ht, rfl⟩ := Finset.mem_image.mp hk
    obtain ⟨hlt, hmod, hle⟩ := hdue t (List.mem_toFinset.mp ht)
    have hdvd := Nat.dvd_of_mod_eq_zero hmod
    refine Finset.mem_Icc.mpr ⟨?_, Nat.div_le_div_right (by omega)⟩
    exact Nat.div_pos (Nat.le_of_dvd (by omega) hdvd) hpos
  have hcard := Finset.card_le_card hsub
  rw [Finset.card_image_of_injOn, List.toFinset_card_of_nodup hnodup, Nat.card_Icc,
    Nat.add_sub_cancel] at hcard
  · exact hcard
  · intro t ht t' ht' heq
    obtain ⟨hlt, hmod, -⟩ := hdue t (List.mem_toFinset.mp ht)
    obtain ⟨hlt', hmod', -⟩ := hdue t' (List.mem_toFinset.mp ht')
    have heq : (t - since) / interval = (t' - since) / interval := heq
    have h := Nat.div_add_mod (t - since) interval
    have h' := Nat.div_add_mod (t' - since) interval
    rw [hmod, heq] at h
    rw [hmod'] at h'
    omega

/-- **The rate of aging.**  Priorities are between 0 and 39 in every reachable state.  If, in a
run under SCHED_PRIO without requests for other priorities, a process waits since some tick, the
clock does not wrap and the passes that find the process due start at different ticks, then its
priority has fallen by one in five ticks of its wait at most. -/
theorem aging_rate (before wait : List RtOp) (pid : ℤ) (since : ℕ) :
    let rt := Runs.run RtOp.exec runtimeInit before
    let rt' := Runs.run RtOp.exec rt wait
    (∀ q p, procGet rt'.procs q = some p → 0 ≤ p.priority ∧ p.priority ≤ 39) ∧
      (rt.scheduler.algo = .prio → Runs.Along RtOp.exec (WaitStep pid since) rt wait →
        (Runs.history RtOp.exec (dueTick pid) rt wait).Nodup →
        ∀ p p', procGet rt.procs pid = some p → procGet rt'.procs pid = some p' →
          p.priority - p'.priority ≤ ((rt'.tick - since) / agingInterval : ℕ)) := by
  intro rt rt'
  refine ⟨fun q p hp => ?_, fun ha hwait hnodup p p' hp hp' => ?_⟩
  · have hrun : rt' = Runs.run RtOp.exec runtimeInit (before ++ wait) := Runs.run_append.symm
    rw [hrun] at hp
    exact RtOp.run_priority _ hp
  · have hwaited : Waited pid since p.priority rt' (Runs.history RtOp.exec (dueTick pid) rt wait) :=
      Runs.run_history (h := []) (fun _ _ _ h hok => h.exec hok)
        ⟨RtOp.run_consistent before, ha, fun q hq => by rw [hp] at hq; cases hq; simp,
          by simp⟩ hwait
    have hlen : (Runs.history RtOp.exec (dueTick pid) rt wait).length ≤
      (rt'.tick - since) / agingInterval := length_due_le (by decide) hnodup hwaited.due
    have hlost : p'.priority =
      p.priority - (Runs.history RtOp.exec (dueTick pid) rt wait).length := hwaited.lost p' hp'
    omega

/-- The first process waits for the second, which sends two messages after five ticks. -/
def outranked : List RtOp :=
  [.setScheduler .prio, .runWorkload ⟨"batch", [⟨.cpu, 0, 0, 1⟩]⟩ 20,
    .runWorkload ⟨"sender",
      [⟨.cpu, 0, 0, 5⟩, ⟨.send, 0, 1, 0⟩, ⟨.send, 0, 2, 0⟩, ⟨.cpu, 0, 0, 1⟩]⟩ 0]

set_option maxRecDepth 100000 in
/-- The pass that starts at tick 5 ages the process once. -/
theorem aging_rate_once :
    let rt := Runs.run RtOp.exec runtimeInit outranked
    let rt' := Runs.run RtOp.exec rt (List.replicate 6 (.pass 0))
    ∃ p p', procGet rt.procs 1 = some p ∧ procGet rt'.procs 1 = some p' ∧
      p'.priority = 19 ∧ p.priority - p'.priority ≤ 1 := by
  have hfacts :
      let rt := Runs.run RtOp.exec runtimeInit outranked
      let rt' := Runs.run RtOp.exec rt (List.replicate 6 (.pass 0))
      rt.scheduler.algo = .prio ∧
        Runs.Along RtOp.exec (fun rt _ => (procGet rt.procs 1).map
          (fun p => (p.state, p.lastReadyTick)) = some (.ready, 0) ∧ rt.tick + 1 < 2 ^ 64)
          rt (List.replicate 6 (.pass 0)) ∧
        (Runs.history RtOp.exec (dueTick 1) rt (List.replicate 6 (.pass 0))).Nodup ∧
        rt'.tick = 5 ∧ (procGet rt.procs 1).isSome = true ∧
        (procGet rt'.procs 1).map (·.priority) = some 19 := by
    decide +kernel
  obtain ⟨ha, hstates, hnodup, htick, hsome, hlow⟩ := hfacts
  obtain ⟨p, hp⟩ := Option.isSome_iff_exists.mp hsome
  obtain ⟨p', hp', hpriority⟩ := Option.map_eq_some_iff.mp hlow
  have hops : Runs.Along RtOp.exec (fun _ op => op = .pass 0)
      (Runs.run RtOp.exec runtimeInit outranked) (List.replicate 6 (.pass 0)) :=
    Runs.along_of_forall (fun _ hop => List.eq_of_mem_replicate hop) _
  have hwait : Runs.Along RtOp.exec (WaitStep 1 0) _ _ :=
    Runs.Along.mono (hstates.and hops) fun rt op ⟨⟨hstate, hclock⟩, hop⟩ => by
      obtain ⟨q, hq, heq⟩ := Option.map_eq_some_iff.mp hstate
      obtain ⟨hready, hsince⟩ := Prod.mk.inj heq
      rw [hop]
      exact ⟨⟨q, hq, hready, hsince⟩, rfl, nofun, hclock⟩
  have hrate := (aging_rate outranked (List.replicate 6 (.pass 0)) 1 0).2 ha hwait
    hnodup p p' hp hp'
  rw [htick] at hrate
  exact ⟨p, p', hp, hp', hpriority, hrate⟩

set_option maxRecDepth 100000 in
/-- The two messages take no time, so that the process is aged twice at tick 5. -/
theorem aging_twice :
    let rt := Runs.run RtOp.exec runtimeInit outranked
    let rt' := Runs.run RtOp.exec rt (List.replicate 7 (.pass 0))
    rt.scheduler.algo = .prio ∧
      (procGet rt.procs 1).map (fun p => (p.state, p.lastReadyTick, p.priority)) =
        some (.ready, 0, 20) ∧
      (procGet rt'.procs 1).map (fun p => (p.state, p.lastReadyTick, p.priority)) =
        some (.ready, 0, 18) ∧ rt'.tick = 5 := by
  decide +kernel

end Mosrt
