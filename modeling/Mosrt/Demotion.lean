/-
When a process goes down a level under SCHED_MLFQ.

`maybe_preempt` calls `sched_demote_after_quantum` whatever the reason for the preemption: the
quantum, a call of `runtime_yield` or the timer.  With a resched flag up a process is therefore
demoted after its first tick.

* `Roster.Exec.level` — only a preemption changes a level, by one;
* `demoted_after_quantum` — levels rise after a full quantum only, by one and up to level 3,
  exactly if no flag is up at a tick that does not complete the quantum of a process above level 3.
-/
import Mosrt.TimeSlices

namespace Mosrt

namespace Roster

variable {r r' r'' d : Roster} {ran b : Bool} {op : RtOp} {pid : ℤ} {e e' : RosterEntry} {n : ℕ}

/-! ### Levels -/

/-- No level is above what it was. -/
def LevelsLe (r r' : Roster) : Prop :=
  ∀ pid e', r'.proc pid = some e' → ∃ e, r.proc pid = some e ∧ e'.level ≤ e.level

theorem LevelsLe.refl (r : Roster) : LevelsLe r r := fun _ e he => ⟨e, he, le_rfl⟩

theorem LevelsLe.trans (h : LevelsLe r r') (h' : LevelsLe r' r'') : LevelsLe r r'' := by
  intro pid e'' he''
  obtain ⟨e', he', hle'⟩ := h' pid e'' he''
  obtain ⟨e, he, hle⟩ := h pid e' he'
  exact ⟨e, he, hle'.trans hle⟩

/-- One process changes, and not its level. -/
theorem LevelsLe.setProc {x : RosterEntry} (he : r.proc pid = some e) (hle : x.level ≤ e.level) :
    LevelsLe r (r.setProc pid x) := by
  intro q y hy
  have hy : Function.update r.proc pid (some x) q = some y := hy
  by_cases hq : q = pid
  · rw [hq, Function.update_self] at hy
    cases hy
    exact ⟨e, hq ▸ he, hle⟩
  · rw [Function.update_of_ne hq] at hy
    exact ⟨y, hy, le_rfl⟩

theorem LevelsLe.mapProc {f : RosterEntry → RosterEntry} (hf : ∀ e, (f e).level ≤ e.level) :
    LevelsLe r (r.mapProc f) := by
  intro q x hx
  obtain ⟨e, he, rfl⟩ := Option.map_eq_some_iff.mp hx
  exact ⟨e, he, hf e⟩

theorem LevelsLe.of_proc (h : LevelsLe r r') (hproc : r''.proc = r'.proc) : LevelsLe r r'' := by
  intro pid e' he'
  rw [hproc] at he'
  exact h pid e' he'

theorem levelsLe_ready (he : r.proc pid = some e) (hle : e'.level ≤ e.level) :
    LevelsLe r (r.ready pid e') :=
  (LevelsLe.setProc (x := e'.turn .ready r.tick) he hle).of_proc rfl

theorem levelsLe_expireAll (r : Roster) : LevelsLe r r.expireAll :=
  expireAll_invariant (I := LevelsLe r) (.refl r) fun _ _ _ h he _ =>
    h.trans (levelsLe_ready he le_rfl)

theorem levelsLe_age (r : Roster) : LevelsLe r r.age := by
  rw [age]
  split_ifs
  · refine LevelsLe.mapProc fun e => ?_
    rw [RosterEntry.age]
    split_ifs <;> exact le_rfl
  · exact .refl r

theorem levelsLe_rebuildPrio (r : Roster) : LevelsLe r r.rebuildPrio := by
  rw [rebuildPrio]
  split_ifs
  · exact (LevelsLe.refl r).of_proc rfl
  · exact .refl r

theorem levelsLe_boost (interval : ℕ) (r : Roster) : LevelsLe r (r.boost interval) := by
  rw [boost]
  split_ifs
  · refine (LevelsLe.mapProc fun e => ?_).of_proc rfl
    rw [RosterEntry.boost]
    split_ifs
    · exact Nat.zero_le _
    · exact le_rfl
  · exact .refl r

theorem levelsLe_prepare (interval : ℕ) (r : Roster) : LevelsLe r (r.prepare interval) :=
  (((levelsLe_expireAll r).trans (levelsLe_age _)).trans (levelsLe_rebuildPrio _)).trans
    (levelsLe_boost interval _)

theorem Dispatches.levelsLe (h : r.Dispatches b d) : LevelsLe r d := by
  cases h with
  | stays | nobody => exact LevelsLe.refl r
  | picks pid e l rest hidle hpos he =>
    exact (LevelsLe.setProc (x := e.turn .running r.tick) he le_rfl).of_proc rfl

/-- The process on the CPU is preempted after a tick: its quantum is used up, or a flag is up. -/
def Yields (r : Roster) : Prop :=
  r.resched = true ∨ r.algo ≠ .fcfs ∧ (r.quantum ≤ r.spend.consumed ∨ r.algo = .prio)

theorem wake_levelsLe (r : Roster) (pid : ℤ) : LevelsLe r (r.wake pid) := by
  rw [wake]
  split
  · exact .refl r
  · next e he =>
    split_ifs
    · exact levelsLe_ready he le_rfl
    · exact .refl r

/-- No instruction raises a level, unless it is a tick after which the process is preempted. -/
theorem Exec.level (h : r.Exec b r') (he : r.proc pid = some e) (he' : r'.proc pid = some e')
    (hlt : e.level < e'.level) : b = true ∧ pid = r.current ∧ r.Yields ∧ e'.level = e.level + 1 ∧
      e'.level < mosrtMlfqLevels := by
  have hle : ¬ LevelsLe r r' := by
    intro hle
    obtain ⟨x, hx, hxle⟩ := hle pid e' he'
    rw [he] at hx
    cases hx
    omega
  cases h with
  | stay => exact absurd (.refl r) hle
  | wake q => exact absurd (wake_levelsLe r q) hle
  | leave x st w hx =>
    exact absurd ((LevelsLe.setProc (x := { x with state := st, wakeup := w }) hx le_rfl).of_proc
      rfl)
      hle
  | tick => exact absurd ((LevelsLe.refl r).of_proc rfl) hle
  | preempt x hx hyield =>
    obtain ⟨y, hy⟩ : ∃ y, y = (if r.algo = .mlfq then x.demote else x).turn .ready r.spend.tick :=
      ⟨_, rfl⟩
    have hproc : (r.spend.preempt x).proc = Function.update r.proc r.current (some y) := by
      rw [hy]
      rfl
    rw [hproc] at he'
    by_cases hpid : pid = r.current
    · rw [hpid, Function.update_self] at he'
      rw [hpid, hx] at he
      cases he
      have hlevel : e'.level = (if r.algo = .mlfq then e.demote else e).level := by
        rw [← Option.some.inj he', hy]
        rfl
      rw [hlevel] at hlt ⊢
      split_ifs at hlt ⊢
      · rw [RosterEntry.demote] at hlt ⊢
        split_ifs at hlt ⊢ with hroom
        · exact ⟨rfl, hpid, hyield, rfl, hroom⟩
        · exact absurd hlt (lt_irrefl _)
      · exact absurd hlt (lt_irrefl _)
    · rw [Function.update_of_ne hpid, he] at he'
      cases he'
      exact absurd hlt (lt_irrefl _)

/-- A tick with a flag up ends in a preemption. -/
theorem Exec.preempts (h : r.Exec true r') (hflag : r.resched = true) (ha : r.algo = .mlfq) :
    ∃ e e', r.proc r.current = some e ∧ r'.proc r.current = some e' ∧
      e'.level = e.demote.level := by
  cases h with
  | tick hno =>
    rw [hflag] at hno
    cases hno
  | preempt x hx =>
    refine ⟨x, (if r.algo = .mlfq then x.demote else x).turn .ready r.spend.tick, hx, ?_, ?_⟩
    · exact Function.update_self _ _ _
    · rw [if_pos ha]
      rfl

/-- Outside a pass no level changes. -/
theorem Moves.level (h : r.Moves op r') (hop : ∀ fuel, op ≠ .pass fuel) (he : r.proc pid = some e)
    (he' : r'.proc pid = some e') : e'.level = e.level := by
  have hset : ∀ q x y, r.proc q = some x → y.level = x.level →
      Function.update r.proc q (some y) pid = some e' → e'.level = e.level := by
    intro q x y hx hxy hupd
    by_cases hq : pid = q
    · rw [hq, Function.update_self] at hupd
      rw [hq, hx] at he
      cases he
      cases hupd
      exact hxy
    · rw [Function.update_of_ne hq, he] at hupd
      cases hupd
      rfl
  have hsame : r'.proc = r.proc → e'.level = e.level := by
    intro hproc
    rw [hproc, he] at he'
    cases he'
    rfl
  cases h with
  | pass fuel | hangs fuel => exact absurd rfl (hop fuel)
  | full | spared | setAlgo | setQuantum | nobody | repaged | flag => exact hsame rfl
  | spawn workload priority q hnone =>
    have hq : pid ≠ q := by
      rintro rfl
      rw [hnone] at he
      cases he
    have he' : Function.update r.proc q _ pid = some e' := he'
    rw [Function.update_of_ne hq, he] at he'
    cases he'
    rfl
  | kill q x hx => exact hset q x { x with state := .exited, wakeup := 0 } hx rfl he'
  | setPriority op q priority x hsets hx =>
    exact hset q x { x with priority := clampPrio priority } hx rfl he'

/-! ### Ticks since the dispatch -/

/-- The scheduler counts no more ticks than there were. -/
def Counted (r : Roster) (n : ℕ) : Prop := 0 ≤ r.current → r.consumed ≤ n

theorem Counted.spend (h : r.Counted n) (hpos : 0 ≤ r.current) : r.spend.consumed ≤ n + 1 := by
  have hle := h hpos
  rw [Roster.spend]
  dsimp only
  split_ifs
  · exact (Nat.mod_le _ _).trans (Nat.add_le_add_right hle 1)
  · exact hle.trans (Nat.le_succ n)

theorem Counted.dispatches (h : r.Counted n) (hd : r.Dispatches b d) :
    d.Counted (if r.current < 0 then 0 else n) := by
  cases hd with
  | stays hpos =>
    rw [if_neg (not_lt.mpr hpos)]
    exact h
  | nobody hidle => exact fun _ => Nat.zero_le _
  | picks => exact fun _ => Nat.zero_le _

theorem Counted.exec (h : r.Counted n) (hpos : 0 ≤ r.current) (hexec : r.Exec b r') :
    r'.Counted (n + if b then 1 else 0) := by
  have hidle : ¬ (0 : ℤ) ≤ -1 := by decide
  cases hexec with
  | stay => exact h
  | wake pid =>
    have hs := same_wake r pid
    rw [Counted, hs.current, hs.consumed]
    exact h
  | leave => exact fun hpos => absurd hpos hidle
  | tick => exact fun _ => h.spend hpos
  | preempt => exact fun hpos => absurd hpos hidle

theorem Counted.prepare (h : r.Counted n) : (r.prepare mlfqBoostInterval).Counted n := by
  have hs := same_prepare mlfqBoostInterval r
  rw [Counted, hs.current, hs.consumed]
  exact h

theorem Counted.pass (h : r.Counted n) (hpass : r.Pass d ran b r') :
    r'.Counted ((if r.current < 0 then 0 else n) + if b && ran then 1 else 0) := by
  rw [← (same_prepare mlfqBoostInterval r).current]
  cases hpass with
  | runs hd hexec =>
    rw [Bool.and_true]
    exact (h.prepare.dispatches hd).exec hd.current_nonneg hexec
  | idles hd =>
    rw [Bool.and_false, if_neg Bool.false_ne_true, Nat.add_zero]
    have hd' := h.prepare.dispatches hd
    exact fun hpos => hd' hpos

theorem Counted.moves (h : r.Counted n) (hmoves : r.Moves op r') (hpass : ∀ fuel, op ≠ .pass fuel) :
    r'.Counted n := by
  cases hmoves with
  | pass fuel | hangs fuel => exact absurd rfl (hpass fuel)
  | full | spared | nobody | repaged | spawn | setPriority | flag | setQuantum => exact h
  | setAlgo => exact fun _ => Nat.zero_le n
  | kill pid e =>
    intro hpos
    rcases kill_current r pid e with hidle | hsame
    · exact absurd hpos (not_le.mpr hidle)
    · exact h (hsame ▸ hpos)

/-- The levels in a pass under SCHED_MLFQ. -/
theorem Pass.raises (h : r.Pass d ran b r') (hc : r.Counted n) (ha : r.algo = .mlfq)
    (h0 : r.quantum ≠ 0) (he : d.proc pid = some e) (he' : r'.proc pid = some e')
    (hlt : e.level < e'.level) :
    (pid = d.current ∧ ran = true ∧ b = true) ∧
      (r.resched = true ∨ r.quantum ≤ (if r.current < 0 then 0 else n) + 1) ∧
      e'.level = e.level + 1 ∧ e'.level < mosrtMlfqLevels := by
  have hs := same_prepare mlfqBoostInterval r
  cases h with
  | runs hd hexec =>
    obtain ⟨rfl, hpid, hyield, hup, hmax⟩ := hexec.level he he' hlt
    have hcount := (hc.prepare.dispatches hd).spend hd.current_nonneg
    rw [hs.current] at hcount
    refine ⟨⟨hpid, rfl, rfl⟩, ?_, hup, hmax⟩
    rw [Yields, hd.resched, hs.resched, hd.quantum, hs.quantum h0] at hyield
    rcases hyield with hflag | ⟨-, hused | hprio⟩
    · exact .inl hflag
    · exact .inr (hused.trans hcount)
    · rw [hd.algo, hs.algo, ha] at hprio
      cases hprio
  | idles hd =>
    have he' : d.proc pid = some e' := he'
    rw [he] at he'
    cases he'
    exact absurd hlt (lt_irrefl _)

theorem Pass.preempts (h : r.Pass d true true r') (ha : r.algo = .mlfq) (hflag : r.resched = true) :
    ∃ e e', d.proc d.current = some e ∧ r'.proc d.current = some e' ∧
      e'.level = e.demote.level := by
  have hs := same_prepare mlfqBoostInterval r
  cases h with
  | runs hd hexec =>
    exact hexec.preempts (by rw [hd.resched, hs.resched, hflag]) (by rw [hd.algo, hs.algo, ha])

theorem Pass.levelsLe (h : r.Pass d ran b r') : LevelsLe r d := by
  have hprepare := levelsLe_prepare mlfqBoostInterval r
  cases h with
  | runs hd | idles hd => exact hprepare.trans hd.levelsLe

end Roster

variable {rt : Runtime} {op : RtOp} {ops : List RtOp} {n : ℕ}

theorem counted_exec (hrt : Consistent rt) (h : rt.roster.Counted n) (op : RtOp) :
    (RtOp.exec rt op).roster.Counted (sliceTicks rt n op) := sliced_exec hrt h h.moves h.pass

/-- In every reachable state the scheduler's count is covered by ours, and the quantum is not
zero. -/
theorem run_counted (ops : List RtOp) :
    let s := Runs.run Sliced.exec ⟨runtimeInit, 0⟩ ops
    Consistent s.rt ∧ s.rt.roster.Counted s.ticks ∧ s.rt.roster.quantum ≠ 0 := by
  have hall : Runs.Along Sliced.exec (fun _ _ => True) ⟨runtimeInit, 0⟩ ops := Runs.along_true _ ops
  refine Runs.run_invariant (I := fun s : Sliced =>
      Consistent s.rt ∧ s.rt.roster.Counted s.ticks ∧ s.rt.roster.quantum ≠ 0) (fun s op h _ => ?_)
    ⟨runtimeInit_consistent, fun _ => Nat.zero_le _, ?_⟩ hall
  · obtain ⟨hrt, hc, hq⟩ := h
    dsimp only [Sliced.exec]
    exact ⟨op.consistent hrt, counted_exec hrt hc op, (op.rosters hrt).quantum_ne_zero hq⟩
  · show (10 : ℕ) ≠ 0
    decide

/-! ### Demotion -/

def mlfqLevelOf (rt : Runtime) (pid : ℤ) : Option ℕ := (procGet rt.procs pid).map (·.mlfqLevel)

/-- The state in which the instruction of a pass is executed; other operations start where they
are called. -/
def atDispatch (rt : Runtime) : RtOp → Runtime
  | .pass fuel => if (runtimePass fuel rt).isSome then (dispatch (passPrepare rt)).2 else rt
  | _ => rt

/-- Boosts and dispatches raise no level; a level that rises afterwards is that of the process on
the CPU, which has had a full quantum, and it rises by one and to 3 at most. -/
def DemotesFairly (s : Sliced) (op : RtOp) : Prop :=
  ∀ pid a b c, mlfqLevelOf s.rt pid = some a → mlfqLevelOf (atDispatch s.rt op) pid = some b →
    mlfqLevelOf (RtOp.exec s.rt op) pid = some c →
      b ≤ a ∧ (b < c → pid = (atDispatch s.rt op).currentPid ∧
        s.rt.scheduler.quantumTicks ≤ sliceTicks s.rt s.ticks op ∧ c = b + 1 ∧ c ≤ 3)

/-- A flag is up at a tick that does not complete the quantum of a process above level 3. -/
def demotesEarly (s : Sliced) : RtOp → Bool
  | .pass _ =>
    let d := dispatch (passPrepare s.rt)
    d.1 && inBurst d.2 && (s.rt.needResched || s.rt.timerResched) &&
      (mlfqLevelOf d.2 d.2.currentPid).any (· < 3) &&
      decide ((if s.rt.currentPid < 0 then 0 else s.ticks) + 1 < s.rt.scheduler.quantumTicks)
  | _ => false

theorem level_of_roster {pid : ℤ} {a : ℕ} (h : mlfqLevelOf rt pid = some a) :
    ∃ e, rt.roster.proc pid = some e ∧ e.level = a := by
  obtain ⟨p, hp, rfl⟩ := Option.map_eq_some_iff.mp h
  exact ⟨p.entry, roster_proc hp, rfl⟩

theorem mlfqLevelOf_eq {pid : ℤ} {e : RosterEntry} (h : rt.roster.proc pid = some e) :
    mlfqLevelOf rt pid = some e.level := by
  obtain ⟨p, hp, rfl⟩ := procGet_of_roster h
  exact congrArg (Option.map (·.mlfqLevel)) hp

theorem demotesFairly_still (s : Sliced) (hrt : Consistent s.rt) (hop : ∀ fuel, op ≠ .pass fuel) :
    DemotesFairly s op := by
  intro pid a b c ha hb hc
  have hat : atDispatch s.rt op = s.rt := by
    cases op with
    | pass fuel => exact absurd rfl (hop fuel)
    | runWorkload | kill | setScheduler | setQuantum | setNice | setPriority | setPolicy | yield |
      timerSignal =>
      rfl
  rw [hat] at hb
  obtain rfl : a = b := Option.some.inj (ha.symm.trans hb)
  obtain ⟨e, he, rfl⟩ := level_of_roster ha
  obtain ⟨e', he', rfl⟩ := level_of_roster hc
  have hsame := (op.rosters hrt).level hop he he'
  exact ⟨le_rfl, fun hlt => absurd hlt (by omega)⟩

/-- A pass that does not end leaves the levels as they are. -/
theorem demotesFairly_hangs {fuel : ℕ} (s : Sliced) (hend : runtimePass fuel s.rt = none) :
    DemotesFairly s (.pass fuel) := by
  intro pid a b c ha hb hc
  rw [atDispatch, hend] at hb
  rw [RtOp.exec, hend] at hc
  obtain rfl : a = b := Option.some.inj (ha.symm.trans hb)
  obtain rfl : a = c := Option.some.inj (ha.symm.trans hc)
  exact ⟨le_rfl, fun hlt => absurd hlt (lt_irrefl _)⟩

theorem demotesFairly_pass {fuel : ℕ} {r : Bool × Runtime} (s : Sliced) (hrt : Consistent s.rt)
    (hcount : s.rt.roster.Counted s.ticks) (h0 : s.rt.roster.quantum ≠ 0)
    (ha : s.rt.scheduler.algo = .mlfq) (hend : runtimePass fuel s.rt = some r) :
    DemotesFairly s (.pass fuel) ↔ demotesEarly s (.pass fuel) = false := by
  have hpass := runtimePass_roster hrt hend
  have htime := (runtimePass_takesTime hrt fuel).2 r hend
  rw [takesTime] at htime
  have hslice := sliceTicks_pass (n := s.ticks) hend
  have hat : atDispatch s.rt (.pass fuel) = (dispatch (passPrepare s.rt)).2 := by
    rw [atDispatch, hend]
    exact if_pos rfl
  have hexec : RtOp.exec s.rt (.pass fuel) = r.2 := by rw [RtOp.exec, hend, Option.elim_some]
  rw [DemotesFairly, demotesEarly, hslice, hat, hexec]
  generalize dispatch (passPrepare s.rt) = d at hpass htime ⊢
  obtain ⟨ran, d⟩ := d
  obtain ⟨b, rt'⟩ := r
  dsimp only at hpass htime ⊢
  constructor
  · intro hfair
    by_contra hearly
    rw [Bool.not_eq_false] at hearly
    simp only [Bool.and_eq_true, decide_eq_true_iff] at hearly
    obtain ⟨⟨⟨⟨rfl, hburst⟩, hflag⟩, hlevel⟩, hshort⟩ := hearly
    obtain rfl : b = true := by rw [htime, hburst, Bool.or_true]
    obtain ⟨e, e', he, he', hdemote⟩ := hpass.preempts ha hflag
    obtain ⟨x, hx, -⟩ := hpass.levelsLe _ e he
    have hof : mlfqLevelOf d d.currentPid = some e.level := mlfqLevelOf_eq he
    rw [hof] at hlevel
    have hlow : e.level < 3 := by simpa using hlevel
    have hup : e'.level = e.level + 1 := by
      rw [hdemote, RosterEntry.demote]
      exact congrArg RosterEntry.level (if_pos (by show e.level + 1 < 4; omega))
    have hfull := ((hfair d.currentPid _ _ _ (mlfqLevelOf_eq hx) (mlfqLevelOf_eq he)
      (mlfqLevelOf_eq he')).2 (by omega)).2.1
    rw [Bool.and_self, if_pos rfl] at hfull
    omega
  · intro hearly pid a b' c hla hlb hlc
    obtain ⟨x, hx, rfl⟩ := level_of_roster hla
    obtain ⟨e, he, rfl⟩ := level_of_roster hlb
    obtain ⟨e', he', rfl⟩ := level_of_roster hlc
    refine ⟨?_, fun hlt => ?_⟩
    · obtain ⟨y, hy, hle⟩ := hpass.levelsLe pid e he
      rw [hx] at hy
      cases hy
      exact hle
    obtain ⟨⟨hpid, rfl, rfl⟩, hwhy, hup, hmax⟩ := hpass.raises hcount ha h0 he he' hlt
    have hmax : e'.level < 4 := hmax
    refine ⟨hpid, ?_, hup, by omega⟩
    rw [Bool.and_self, if_pos rfl]
    rcases hwhy with hflag | hfull
    · by_contra hshort
      have hburst : inBurst d = true := by simpa using htime.symm
      have hlevel : (mlfqLevelOf d d.currentPid).any (· < 3) = true := by
        rw [← show pid = d.currentPid from hpid, hlb]
        exact decide_eq_true (by omega)
      have hflag : (s.rt.needResched || s.rt.timerResched) = true := hflag
      rw [hburst, hflag, hlevel] at hearly
      simp only [Bool.and_self, Bool.true_and, decide_eq_false_iff_not] at hearly
      omega
    · exact hfull

/-- **Demotion.**  In every reachable state under SCHED_MLFQ and for every operation, levels rise
for the process on the CPU only, after a full quantum, by one and to 3 at most, exactly if the
operation is no tick with a flag up that leaves the quantum of a process above level 3
incomplete. -/
theorem demoted_after_quantum (ops : List RtOp) (op : RtOp) :
    let s := Runs.run Sliced.exec ⟨runtimeInit, 0⟩ ops
    s.rt.scheduler.algo = .mlfq → (DemotesFairly s op ↔ demotesEarly s op = false) := by
  intro s ha
  obtain ⟨hrt, hcount, h0⟩ := run_counted ops
  by_cases hop : ∀ fuel, op ≠ .pass fuel
  · have hnot : demotesEarly s op = false := by
      cases op with
      | pass fuel => exact absurd rfl (hop fuel)
      | runWorkload | kill | setScheduler | setQuantum | setNice | setPriority | setPolicy | yield |
        timerSignal =>
        rfl
    exact iff_of_true (demotesFairly_still s hrt hop) hnot
  · obtain ⟨fuel, rfl⟩ := not_forall_not.mp hop
    cases hend : runtimePass fuel s.rt with
    | none =>
      refine iff_of_true (demotesFairly_hangs s hend) ?_
      by_contra hearly
      rw [Bool.not_eq_false, demotesEarly] at hearly
      simp only [Bool.and_eq_true] at hearly
      -- a tick would have come to an end
      have htime : takesTime s.rt = true := by
        rw [takesTime, hearly.1.1.1.2, Bool.or_true]
      have hsome := (runtimePass_takesTime hrt fuel).1 htime
      rw [hend] at hsome
      cases hsome
    | some r => exact demotesFairly_pass s hrt hcount h0 ha hend

/-- One process under SCHED_MLFQ with a quantum of two ticks. -/
def feedbackJob : List RtOp :=
  [.setScheduler .mlfq, .setQuantum 2, .runWorkload ⟨"job", [⟨.cpu, 0, 0, 9⟩]⟩ 20]

set_option maxRecDepth 100000 in
/-- The second tick completes the quantum. -/
theorem demoted_after_quantum_job :
    DemotesFairly (Runs.run Sliced.exec ⟨runtimeInit, 0⟩ (feedbackJob ++ [.pass 0])) (.pass 0) := by
  have hfacts :
      let s := Runs.run Sliced.exec ⟨runtimeInit, 0⟩ (feedbackJob ++ [.pass 0])
      s.rt.scheduler.algo = .mlfq ∧ demotesEarly s (.pass 0) = false := by
    decide +kernel
  have h := demoted_after_quantum (feedbackJob ++ [.pass 0]) (.pass 0)
  generalize Runs.run Sliced.exec ⟨runtimeInit, 0⟩ (feedbackJob ++ [.pass 0]) = s at hfacts h ⊢
  exact (h hfacts.1).mpr hfacts.2

set_option maxRecDepth 100000 in
/-- With the flag of `runtime_yield` up, the first tick demotes. -/
theorem demoted_by_yield :
    let s := Runs.run Sliced.exec ⟨runtimeInit, 0⟩ (feedbackJob ++ [.yield])
    s.rt.scheduler.algo = .mlfq ∧ s.rt.scheduler.quantumTicks = 2 ∧
      mlfqLevelOf (atDispatch s.rt (.pass 0)) 1 = some 0 ∧
      mlfqLevelOf (RtOp.exec s.rt (.pass 0)) 1 = some 1 ∧
        sliceTicks s.rt s.ticks (.pass 0) = 1 := by
  decide +kernel

end Mosrt
