/-
First come, first served: the order of dispatches under SCHED_FCFS and SCHED_RR.

Both policies keep one ring.  Who becomes READY goes to its end, whether created, woken by the
timer or by another process, or preempted; who is dispatched is taken from its front.  Without
kills and changes of policy the ring is never rebuilt, and so the dispatches follow the
order in which processes became READY.

* `Roster.expireAll_ring` — the timer appends whom it wakes, in the order of the table;
* `fifo_step`, `fifo_run` — what was in the ring and came to it is what was dispatched and what
  is still there, in this order;
* `arrival_order` — the order of dispatches, nobody is passed over, and under SCHED_FCFS nobody
  loses the CPU.
-/
import Mosrt.RosterSpec

namespace Mosrt

/-- The policies with a single ring. -/
def SchedAlgo.IsFifo (a : SchedAlgo) : Prop := a = .fcfs ∨ a = .rr

namespace SchedAlgo.IsFifo

variable {a : SchedAlgo}

theorem ne_prio (h : a.IsFifo) : a ≠ .prio := by
  rcases h with rfl | rfl <;> exact nofun

theorem ne_mlfq (h : a.IsFifo) : a ≠ .mlfq := by
  rcases h with rfl | rfl <;> exact nofun

theorem ring (h : a.IsFifo) (e : RosterEntry) : e.ring a = 0 := if_neg h.ne_mlfq

end SchedAlgo.IsFifo

/-- The operation neither kills nor changes the policy. -/
def RtOp.keepsRings : RtOp → Bool
  | .kill _ | .setScheduler _ => false
  | _ => true

namespace Roster

variable {r r' d : Roster} {b : Bool} {op : RtOp} {pid q : ℤ} {e : RosterEntry}

/-! ### Who becomes READY -/

def isReady (r : Roster) (pid : ℤ) : Bool := (r.proc pid).any fun e => e.state == .ready

/-- Who is READY and was not, in the order of the table. -/
def newlyReady (r r' : Roster) : List ℤ :=
  allPids.filter fun pid => !r.isReady pid && r'.isReady pid

theorem isReady_of_proc (h : r.proc pid = some e) : r.isReady pid = (e.state == .ready) := by
  rw [isReady, h]
  rfl

theorem isReady_congr (h : r'.proc pid = r.proc pid) : r'.isReady pid = r.isReady pid := by
  rw [isReady, h, isReady]

theorem newlyReady_nil (h : ∀ pid, r'.isReady pid = true → r.isReady pid = true) :
    r.newlyReady r' = [] := by
  rw [newlyReady, List.filter_eq_nil_iff]
  intro pid _
  specialize h pid
  cases hr' : r'.isReady pid with
  | false => simp
  | true => simp [h hr']

/-- One process becomes READY. -/
theorem newlyReady_single (hpid : pid ∈ allPids) (hnot : r.isReady pid = false)
    (hready : r'.isReady pid = true) (hother : ∀ q, q ≠ pid → r'.proc q = r.proc q) :
    r.newlyReady r' = [pid] := by
  have hfilter : r.newlyReady r' = allPids.filter fun q => q == pid := by
    refine List.filter_congr fun q _ => ?_
    by_cases hq : q = pid
    · rw [hq, hnot, hready, beq_self_eq_true]
      rfl
    · rw [isReady_congr (hother q hq), beq_eq_false_iff_ne.mpr hq, Bool.not_and_self]
  have hnodup : allPids.Nodup := pairwise_allPids.imp ne_of_lt
  rw [hfilter, List.filter_beq, List.count_eq_one_of_mem hnodup hpid]
  rfl

/-- A process that becomes READY goes to the end of the ring. -/
theorem ready_ring (ha : r.algo.IsFifo) (pid : ℤ) (e : RosterEntry) :
    (r.ready pid e).ring 0 = r.ring 0 ++ [pid] := by
  show (if r.algo = .prio then r.ring
    else Function.update r.ring (e.ring r.algo) (r.ring (e.ring r.algo) ++ [pid])) 0 = _
  rw [if_neg ha.ne_prio, ha.ring, Function.update_self]

theorem ready_newlyReady (hpid : pid ∈ allPids) (hnot : r.isReady pid = false) (e : RosterEntry) :
    r.newlyReady (r.ready pid e) = [pid] := by
  refine newlyReady_single hpid hnot ?_ fun q hq => Function.update_of_ne hq _ _
  rw [isReady_of_proc (Function.update_self _ _ _)]
  rfl

/-! ### The timer -/

/-- One entry of the table: nothing happens, or its process becomes READY. -/
theorem expire_cases (r : Roster) (pid : ℤ) : r.expire pid = r ∨
    ∃ e, r.proc pid = some e ∧ e.state = .blocked ∧
      r.expire pid = r.ready pid { e with wakeup := 0 } := by
  rw [expire]
  split
  · exact .inl rfl
  · next e he =>
    split_ifs with hdue
    · exact .inr ⟨e, he, hdue.1, rfl⟩
    · exact .inl rfl

theorem expire_proc_ne (hq : q ≠ pid) : (r.expire pid).proc q = r.proc q := by
  rcases expire_cases r pid with heq | ⟨e, -, -, heq⟩
  · rw [heq]
  · rw [heq]
    exact Function.update_of_ne hq _ _

theorem foldl_expire_proc (pids : List ℤ) (hq : q ∉ pids) :
    (pids.foldl expire r).proc q = r.proc q := by
  refine List.foldlRecOn (motive := fun s : Roster => s.proc q = r.proc q) pids _ rfl
    fun s hs pid hpid => ?_
  have hne : q ≠ pid := by
    rintro rfl
    exact hq hpid
  rw [expire_proc_ne hne, hs]

/-- The pass over a part of the table appends whom it wakes. -/
theorem foldl_expire_ring (ha : r.algo.IsFifo) {pids : List ℤ} (hnodup : pids.Nodup) :
    (pids.foldl expire r).ring 0 =
      r.ring 0 ++ pids.filter fun pid => !r.isReady pid && (pids.foldl expire r).isReady pid := by
  induction pids generalizing r with
  | nil => simp
  | cons pid pids ih =>
    obtain ⟨hpid, hnodup⟩ := List.nodup_cons.mp hnodup
    rw [List.foldl_cons]
    -- what follows does not touch `pid`, and `pid` not what follows
    have hself := isReady_congr (foldl_expire_proc (r := r.expire pid) pids hpid)
    have hrest : (pids.filter fun q => !(r.expire pid).isReady q &&
          (pids.foldl expire (r.expire pid)).isReady q) =
        pids.filter fun q => !r.isReady q && (pids.foldl expire (r.expire pid)).isReady q := by
      refine List.filter_congr fun q hq => ?_
      have hne : q ≠ pid := fun h => hpid (h ▸ hq)
      rw [isReady_congr (expire_proc_ne hne)]
    rw [ih (by rw [(same_expire r pid).algo]; exact ha) hnodup, hrest, List.filter_cons, hself]
    rcases expire_cases r pid with heq | ⟨e, he, hblocked, heq⟩
    · rw [heq, Bool.not_and_self, if_neg nofun]
    · have hnot : r.isReady pid = false := by
        rw [isReady_of_proc he, hblocked]
        rfl
      have hready : (r.expire pid).isReady pid = true := by
        rw [heq, isReady_of_proc (Function.update_self _ _ _)]
        rfl
      rw [hnot, hready, if_pos (by decide), heq, ready_ring ha, List.append_assoc,
        List.singleton_append]

theorem expireAll_ring (ha : r.algo.IsFifo) :
    r.expireAll.ring 0 = r.ring 0 ++ r.newlyReady r.expireAll := by
  rw [newlyReady, expireAll]
  exact foldl_expire_ring ha (pairwise_allPids.imp ne_of_lt)

/-- Aging, the heap and boosts are for the other policies. -/
theorem prepare_of_fifo (ha : r.algo.IsFifo) (interval : ℕ) : r.prepare interval = r.expireAll := by
  have halgo : r.expireAll.algo.IsFifo := by
    rw [(same_expireAll r).algo]
    exact ha
  have hage : r.expireAll.age = r.expireAll := if_neg halgo.ne_prio
  have hrebuild : r.expireAll.rebuildPrio = r.expireAll := if_neg halgo.ne_prio
  rw [prepare, hage, hrebuild]
  exact if_neg fun hdue => halgo.ne_mlfq hdue.1

/-! ### A pass -/

/-- Who is put on the CPU. -/
def picked (r d : Roster) : List ℤ := if r.current < 0 ∧ 0 ≤ d.current then [d.current] else []

/-- A dispatch takes the first of the ring, if it takes anybody. -/
theorem Dispatches.ring (h : r.Dispatches b d) (hq : r.Queued) (ha : r.algo.IsFifo) :
    r.ring 0 = r.picked d ++ d.ring 0 := by
  cases h with
  | stays hpos =>
    rw [picked, if_neg fun hc => absurd hc.1 (not_lt.mpr hpos)]
    rfl
  | nobody hneg =>
    have hno : r.picked { r with charged := -1, consumed := 0 } = [] :=
      if_neg fun hc => absurd hc.2 (not_le.mpr hneg)
    rw [hno]
    rfl
  | picks pid e l rest hneg hpos he hready hring =>
    have hhead := hring ha.ne_prio
    -- the ring is the one of the policy
    obtain rfl : l = 0 := by
      have hin := ((hq ha.ne_prio l).2 pid).mp (by rw [hhead]; exact List.mem_cons_self)
      obtain ⟨e', -, -, hl⟩ := readyIn_iff.mp hin
      exact hl.symm.trans (ha.ring e')
    have hpick : r.picked (r.pick pid e 0 rest) = [pid] := if_pos ⟨hneg, hpos⟩
    have hrest : (r.pick pid e 0 rest).ring 0 = rest := by
      show (if r.algo = .prio then r.ring else Function.update r.ring 0 rest) 0 = rest
      rw [if_neg ha.ne_prio, Function.update_self]
    rw [hhead, hpick, hrest]
    rfl

/-- All processes have a pid of the table. -/
def Listed (r : Roster) : Prop := ∀ pid e, r.proc pid = some e → pid ∈ allPids

/-- Where nobody becomes READY, nothing is appended. -/
theorem ring_of_none_ready (r : Roster) (h : ∀ pid, r'.isReady pid = true → r.isReady pid = true) :
    r.ring 0 = r.ring 0 ++ r.newlyReady r' := by
  rw [newlyReady_nil h, List.append_nil]

/-- An instruction appends whom it makes READY, if anybody. -/
theorem Exec.ring (h : r.Exec b r') (ha : r.algo.IsFifo) (hl : r.Listed)
    (hrun : r.isReady r.current = false) : r'.ring 0 = r.ring 0 ++ r.newlyReady r' := by
  cases h with
  | stay => exact ring_of_none_ready r fun _ h => h
  | tick => exact ring_of_none_ready r fun _ h => h
  | wake pid =>
    rw [Roster.wake]
    split
    · exact ring_of_none_ready r fun _ h => h
    · next e he =>
      split_ifs with hblocked
      · have hnot : r.isReady pid = false := by
          rw [isReady_of_proc he, hblocked]
          rfl
        rw [ready_ring ha, ready_newlyReady (hl pid e he) hnot]
      · exact ring_of_none_ready r fun _ h => h
  | leave e st w he hst =>
    refine ring_of_none_ready r fun pid hready => ?_
    by_cases hpid : pid = r.current
    · rw [hpid, isReady_of_proc (Function.update_self _ _ _)] at hready
      rcases hst with rfl | rfl <;> cases hready
    · rwa [isReady_congr (r := r) (Function.update_of_ne hpid _ _)] at hready
  | preempt e he =>
    have hnew : r.newlyReady (r.spend.preempt e) = [r.current] := by
      refine newlyReady_single (hl _ e he) hrun ?_ fun q hq => Function.update_of_ne hq _ _
      rw [isReady_of_proc (Function.update_self _ _ _)]
      rfl
    rw [hnew]
    exact ready_ring (r := { r.spend with resched := false }) ha _ _

/-- A pass, in which the timer, the dispatch and the instruction follow each other. -/
theorem Pass.ring {ran : Bool} (h : r.Pass d ran b r') (ha : r.algo.IsFifo)
    (hq : (r.prepare mlfqBoostInterval).Queued) (hl : d.Listed)
    (hrun : ran = true → d.isReady d.current = false) :
    r.ring 0 ++ r.newlyReady r.expireAll = r.picked d ++ d.ring 0 ∧
      r'.ring 0 = d.ring 0 ++ d.newlyReady r' := by
  have hprepare := prepare_of_fifo ha mlfqBoostInterval
  have hexpire : r.expireAll.algo.IsFifo := by
    rw [(same_expireAll r).algo]
    exact ha
  have hpicked : r.expireAll.picked d = r.picked d := by
    rw [picked, (same_expireAll r).current, picked]
  cases h with
  | runs hd hexec =>
    rw [hprepare] at hd hq
    rw [← expireAll_ring ha, hd.ring hq hexpire, hpicked]
    exact ⟨rfl, hexec.ring (by rw [hd.algo]; exact hexpire) hl (hrun rfl)⟩
  | idles hd =>
    rw [hprepare] at hd hq
    rw [← expireAll_ring ha, hd.ring hq hexpire, hpicked]
    exact ⟨rfl, ring_of_none_ready d fun _ h => h⟩

/-- Outside a pass only a creation makes a process READY. -/
theorem Moves.ring (h : r.Moves op r') (hpass : ∀ fuel, op ≠ .pass fuel)
    (hop : op.keepsRings = true) (ha : r.algo.IsFifo) (hl : r'.Listed) :
    r'.ring 0 = r.ring 0 ++ r.newlyReady r' := by
  cases h with
  | pass fuel | hangs fuel => exact absurd rfl (hpass fuel)
  | kill | spared | setAlgo => cases hop
  | full | nobody | repaged => exact ring_of_none_ready r fun _ h => h
  | setQuantum | flag => exact ring_of_none_ready r fun _ h => h
  | spawn workload priority q hnone =>
    have hnot : r.isReady q = false := by
      rw [isReady, hnone]
      rfl
    rw [Roster.spawn, ready_newlyReady (hl q _ (Function.update_self _ _ _)) hnot]
    exact ready_ring ha q _
  | setPriority _ q priority e _ he =>
    refine ring_of_none_ready r fun pid hready => ?_
    by_cases hpid : pid = q
    · rw [hpid, isReady_of_proc (Function.update_self _ _ _)] at hready
      rw [hpid, isReady_of_proc he]
      exact hready
    · rwa [isReady_congr (r := r) (Function.update_of_ne hpid _ _)] at hready

/-- Without a resched flag nobody is preempted under SCHED_FCFS. -/
theorem Exec.keeps (h : r.Exec b r') (ha : r.algo = .fcfs) (hflag : r.resched = false) :
    r'.current = r.current ∨
      ∃ e, r'.proc r.current = some e ∧ (e.state = .blocked ∨ e.state = .exited) := by
  cases h with
  | stay | tick => exact .inl rfl
  | wake pid => exact .inl (same_wake r pid).current
  | leave e st w he hst => exact .inr ⟨_, Function.update_self _ _ _, hst⟩
  | preempt e he hyield =>
    rcases hyield with hyield | ⟨hne, -⟩
    · exact absurd (hyield.symm.trans hflag) nofun
    · exact absurd ha hne

/-- Outside a pass nobody leaves the CPU, unless killed. -/
theorem Moves.current (h : r.Moves op r') (hpass : ∀ fuel, op ≠ .pass fuel)
    (hop : op.keepsRings = true) : r'.current = r.current := by
  cases h with
  | pass fuel | hangs fuel => exact absurd rfl (hpass fuel)
  | kill | spared | setAlgo => cases hop
  | full | nobody | repaged | setQuantum | flag | spawn | setPriority => rfl

end Roster

/-! ### The runtime -/

variable {rt rt' : Runtime} {op : RtOp} {fuel : ℕ} {pid : ℤ}

/-- Who is READY and was not, in the order of the table. -/
def newlyReady (rt rt' : Runtime) : List ℤ :=
  allPids.filter fun pid => !isReady rt.procs pid && isReady rt'.procs pid

/-- Who becomes READY in a pass, in this order: first those that the timer wakes, in the order of
the table, then whom the instruction makes READY. -/
def passReadied (rt : Runtime) (fuel : ℕ) : List ℤ :=
  (runtimePass fuel rt).elim [] fun r =>
    newlyReady rt (wakeTimers rt) ++ newlyReady (dispatch (passPrepare rt)).2 r.2

/-- Who becomes READY in an operation, in this order. -/
def RtOp.readied (rt : Runtime) : RtOp → List ℤ
  | .pass fuel => passReadied rt fuel
  | op => newlyReady rt (RtOp.exec rt op)

/-- Who is on the CPU and was not. -/
def picked (rt d : Runtime) : List ℤ :=
  if rt.currentPid < 0 ∧ 0 ≤ d.currentPid then [d.currentPid] else []

/-- Who is dispatched in an operation. -/
def RtOp.dispatched (rt : Runtime) : RtOp → List ℤ
  | .pass fuel => (runtimePass fuel rt).elim [] fun _ => picked rt (dispatch (passPrepare rt)).2
  | _ => []

theorem RtOp.readied_pass (rt : Runtime) (fuel : ℕ) :
    RtOp.readied rt (.pass fuel) = passReadied rt fuel := rfl

theorem passReadied_eq {r : Bool × Runtime} (hpass : runtimePass fuel rt = some r) :
    passReadied rt fuel =
      newlyReady rt (wakeTimers rt) ++ newlyReady (dispatch (passPrepare rt)).2 r.2 := by
  rw [passReadied, hpass, Option.elim_some]

theorem dispatched_pass {r : Bool × Runtime} (hpass : runtimePass fuel rt = some r) :
    RtOp.dispatched rt (.pass fuel) = picked rt (dispatch (passPrepare rt)).2 := by
  rw [RtOp.dispatched, hpass, Option.elim_some]

theorem exec_pass {r : Bool × Runtime} (hpass : runtimePass fuel rt = some r) :
    RtOp.exec rt (.pass fuel) = r.2 := by
  rw [RtOp.exec, hpass, Option.elim_some]

theorem roster_ring (rt : Runtime) (l : ℕ) : rt.roster.ring l = rt.scheduler.rings l := rfl

theorem roster_picked (rt d : Runtime) : rt.roster.picked d.roster = picked rt d :=
  if_congr Iff.rfl rfl rfl

theorem roster_listed (rt : Runtime) : rt.roster.Listed := fun _ _ h => mem_allPids h

theorem roster_isReady (rt : Runtime) (pid : ℤ) : rt.roster.isReady pid = isReady rt.procs pid := by
  show ((procGet rt.procs pid).map Pcb.entry).any _ = _
  rw [isReady]
  cases procGet rt.procs pid <;> rfl

theorem newlyReady_roster (rt rt' : Runtime) :
    newlyReady rt rt' = rt.roster.newlyReady rt'.roster := by
  refine List.filter_congr fun pid _ => ?_
  rw [roster_isReady, roster_isReady]

theorem isReady_onCpu (h : Consistent rt) (hpos : 0 ≤ rt.currentPid) :
    rt.roster.isReady rt.roster.current = false := by
  obtain ⟨p, hcpu⟩ := h.placed.onCpu hpos
  have he : rt.roster.proc rt.roster.current = some p.entry := roster_proc hcpu.get
  have hst : p.entry.state = .running := hcpu.running
  rw [Roster.isReady_of_proc he, hst]
  rfl

/-- The ring in a pass: before and after the dispatch. -/
theorem pass_ring {consumed : Bool} (h : Consistent rt) (ha : rt.scheduler.algo.IsFifo)
    (hpass : runtimePass fuel rt = some (consumed, rt')) :
    rt.scheduler.rings 0 ++ newlyReady rt (wakeTimers rt) =
        picked rt (dispatch (passPrepare rt)).2 ++ (dispatch (passPrepare rt)).2.scheduler.rings 0 ∧
      rt'.scheduler.rings 0 = (dispatch (passPrepare rt)).2.scheduler.rings 0 ++
        newlyReady (dispatch (passPrepare rt)).2 rt' := by
  obtain ⟨hs, hsteps⟩ := passPrepare_spec h.sound
  have hplaced := h.placed.steps hsteps
  obtain ⟨hds, hd⟩ := dispatch_spec hs hplaced
  have hroster := runtimePass_roster h hpass
  have hqueued := hs.queued
  rw [passPrepare_roster h.sound] at hqueued
  rw [newlyReady_roster, newlyReady_roster, wakeTimers_roster h.sound]
  generalize dispatch (passPrepare rt) = d at hds hd hroster ⊢
  rw [← roster_ring, ← roster_ring, ← roster_ring, ← roster_picked]
  refine hroster.ring ha hqueued (roster_listed d.2) fun hran => ?_
  rcases hd with ⟨-, hpos, hquiet⟩ | ⟨hfalse, -, -⟩
  · exact isReady_onCpu ⟨hds, hplaced.steps hquiet⟩ hpos
  · rw [hfalse] at hran
    cases hran

/-- What is in the ring and comes to it is what is dispatched and what stays, in this order. -/
theorem fifo_step (h : Consistent rt) (ha : rt.scheduler.algo.IsFifo) (hop : op.keepsRings = true) :
    rt.scheduler.rings 0 ++ op.readied rt =
      op.dispatched rt ++ (RtOp.exec rt op).scheduler.rings 0 := by
  by_cases hpass : ∃ fuel, op = .pass fuel
  · obtain ⟨fuel, rfl⟩ := hpass
    cases hp : runtimePass fuel rt with
    | none =>
      -- the pass does not return
      have hreadied : passReadied rt fuel = [] := by
        rw [passReadied, hp, Option.elim_none]
      have hdispatched : RtOp.dispatched rt (.pass fuel) = [] := by
        rw [RtOp.dispatched, hp, Option.elim_none]
      have hexec : RtOp.exec rt (.pass fuel) = rt := by
        rw [RtOp.exec, hp, Option.elim_none]
      rw [RtOp.readied_pass, hreadied, hdispatched, hexec, List.append_nil, List.nil_append]
    | some r =>
      obtain ⟨consumed, rt'⟩ := r
      obtain ⟨hbefore, hafter⟩ := pass_ring h ha hp
      rw [exec_pass hp, RtOp.readied_pass, passReadied_eq hp, dispatched_pass hp, hafter,
        ← List.append_assoc, hbefore,
        List.append_assoc]
  · have hnot : ∀ fuel, op ≠ .pass fuel := fun fuel heq => hpass ⟨fuel, heq⟩
    have hring := (op.rosters h).ring hnot hop ha (roster_listed _)
    have hreadied : op.readied rt = newlyReady rt (RtOp.exec rt op) := by
      cases op with
      | pass fuel => exact absurd rfl (hnot fuel)
      | _ => rfl
    have hdispatched : op.dispatched rt = [] := by
      cases op with
      | pass fuel => exact absurd rfl (hnot fuel)
      | _ => rfl
    rw [hreadied, hdispatched, newlyReady_roster, ← roster_ring, ← roster_ring, hring]
    rfl

/-! ### Runs -/

/-- Nobody kills, the policy stays, and it has a single ring. -/
structure Fifo (rt : Runtime) : Prop where
  consistent : Consistent rt
  algo : rt.scheduler.algo.IsFifo

theorem exec_algo (h : Consistent rt) (hop : op.keepsRings = true) :
    (RtOp.exec rt op).scheduler.algo = rt.scheduler.algo := by
  refine algo_of_roster ((op.rosters h).algo fun a heq => ?_)
  rw [heq] at hop
  cases hop

theorem Fifo.exec (h : Fifo rt) (hop : op.keepsRings = true) : Fifo (RtOp.exec rt op) := by
  refine ⟨RtOp.consistent h.consistent op, ?_⟩
  rw [exec_algo h.consistent hop]
  exact h.algo

theorem Fifo.run (h : Fifo rt) {ops : List RtOp} (hops : ∀ op ∈ ops, op.keepsRings = true) :
    Fifo (Runs.run RtOp.exec rt ops) :=
  Runs.run_invariant (I := Fifo) (fun _ _ hI hop => hI.exec hop) h
    (Runs.along_of_forall (P := fun op : RtOp => op.keepsRings = true) hops rt)

/-- The whole run: what was in the ring and came to it is what was dispatched and what is left. -/
theorem fifo_run (h : Fifo rt) {ops : List RtOp} (hops : ∀ op ∈ ops, op.keepsRings = true) :
    rt.scheduler.rings 0 ++ Runs.history RtOp.exec (fun rt op => op.readied rt) rt ops =
      Runs.history RtOp.exec (fun rt op => op.dispatched rt) rt ops ++
        (Runs.run RtOp.exec rt ops).scheduler.rings 0 := by
  induction ops generalizing rt with
  | nil => exact List.append_nil _
  | cons op ops ih =>
    have hop := hops op List.mem_cons_self
    rw [Runs.history, Runs.history, Runs.run_cons, ← List.append_assoc,
      fifo_step h.consistent h.algo hop, List.append_assoc,
      ih (h.exec hop) fun op' hmem => hops op' (List.mem_cons_of_mem op hmem), List.append_assoc]

/-- The ring holds the READY processes. -/
theorem mem_rings_zero (h : rt.Sound) (ha : rt.scheduler.algo.IsFifo) :
    pid ∈ rt.scheduler.rings 0 ↔ isReady rt.procs pid = true := by
  rw [← roster_ring, (h.queued ha.ne_prio 0).2, Roster.readyIn_iff, ← roster_isReady]
  constructor
  · rintro ⟨e, he, hst, -⟩
    rw [Roster.isReady_of_proc he, hst]
    rfl
  · intro hready
    obtain ⟨e, he, hst⟩ := (Option.any_eq_true _ _).mp hready
    exact ⟨e, he, eq_of_beq hst, ha.ring e⟩

theorem dispatch_fifo (h : Fifo rt) : (dispatch (passPrepare rt)).2.scheduler.algo.IsFifo := by
  obtain ⟨hs, -⟩ := passPrepare_spec h.consistent.sound
  have hdispatch := dispatch_roster hs
  rw [passPrepare_roster h.consistent.sound] at hdispatch
  have halgo := hdispatch.algo.trans (Roster.same_prepare mlfqBoostInterval rt.roster).algo
  rw [algo_of_roster halgo]
  exact h.algo

/-- The ring around the dispatch of `pid`. -/
structure DispatchedFirst (rt d rt' : Runtime) (pid : ℤ) (rest late : List ℤ) : Prop where
  /-- The dispatched process was the first. -/
  before : rt.scheduler.rings 0 ++ newlyReady rt (wakeTimers rt) = pid :: rest
  after : rt'.scheduler.rings 0 = rest ++ late
  /-- The others that are READY are still there. -/
  others : ∀ q, isReady d.procs q = true ↔ q ∈ rest
  self : pid ∉ rest

theorem dispatchedFirst_of {d : Runtime} (h : Consistent d) (ha : d.scheduler.algo.IsFifo)
    (hbefore : rt.scheduler.rings 0 ++ newlyReady rt (wakeTimers rt) =
      picked rt d ++ d.scheduler.rings 0)
    (hafter : rt'.scheduler.rings 0 = d.scheduler.rings 0 ++ newlyReady d rt')
    (hp : picked rt d = [pid]) :
    DispatchedFirst rt d rt' pid (d.scheduler.rings 0) (newlyReady d rt') := by
  refine ⟨?_, hafter, fun q => (mem_rings_zero h.sound ha).symm, ?_⟩
  · rw [hbefore, hp]
    rfl
  · rw [picked] at hp
    split_ifs at hp with hc
    obtain rfl : d.currentPid = pid := List.head_eq_of_cons_eq hp
    have hnot : d.roster.isReady d.currentPid = false := isReady_onCpu h hc.2
    rw [mem_rings_zero h.sound ha, ← roster_isReady, hnot]
    exact nofun

/-- Whom a pass dispatches was first in the ring; whoever else is READY then is in the ring
afterwards, in front of who becomes READY in this pass. -/
theorem dispatched_first (h : Fifo rt) (hp : RtOp.dispatched rt (.pass fuel) = [pid]) :
    ∃ rest late, DispatchedFirst rt (dispatch (passPrepare rt)).2 (RtOp.exec rt (.pass fuel)) pid
      rest late := by
  cases hpass : runtimePass fuel rt with
  | none =>
    rw [RtOp.dispatched, hpass, Option.elim_none] at hp
    cases hp
  | some r =>
    obtain ⟨hbefore, hafter⟩ := pass_ring h.consistent h.algo hpass
    rw [dispatched_pass hpass] at hp
    rw [exec_pass hpass]
    exact ⟨_, _, dispatchedFirst_of h.consistent.prepared.1 (dispatch_fifo h) hbefore hafter hp⟩

/-! ### SCHED_FCFS -/

/-- Who is on the CPU when an operation executes its instruction, or all the time if it
executes none. -/
def RtOp.holder (rt : Runtime) (op : RtOp) : ℤ :=
  (op.executing rt).elim rt.currentPid (·.currentPid)

/-- The process on the CPU is there afterwards too, or it is BLOCKED or EXITED. -/
def RtOp.keepsCpu (rt : Runtime) (op : RtOp) : Prop :=
  0 ≤ op.holder rt → (RtOp.exec rt op).currentPid = op.holder rt ∨
    ∃ p, procGet (RtOp.exec rt op).procs (op.holder rt) = some p ∧
      (p.state = .blocked ∨ p.state = .exited)

/-- No resched flag is up. -/
def FlagsDown (rt : Runtime) : Prop := rt.needResched = false ∧ rt.timerResched = false

theorem FlagsDown.resched (h : FlagsDown rt) : rt.roster.resched = false := by
  show (rt.needResched || rt.timerResched) = false
  rw [h.1, h.2]
  rfl

/-- A process on the CPU executes an instruction in the next pass, unless that hangs. -/
theorem exec_of_not_executing (h : rt.Sound) (hpos : 0 ≤ rt.currentPid)
    (hnone : RtOp.executing rt (.pass fuel) = none) : RtOp.exec rt (.pass fuel) = rt := by
  have hcur := passPrepare_current h
  rw [RtOp.executing] at hnone
  cases hpass : runtimePass fuel rt with
  | none => rw [RtOp.exec, hpass, Option.elim_none]
  | some r =>
    have hidle : (dispatch (passPrepare rt)).1 = false → False := by
      intro hfalse
      have hneg := dispatch_false hfalse
      omega
    rw [runtimePass] at hpass
    generalize dispatch (passPrepare rt) = d at hnone hpass hidle
    cases hd : d.1 with
    | false => exact (hidle hd).elim
    | true =>
      rw [hd, if_pos rfl] at hpass
      rw [if_pos ⟨hd, by rw [hpass]; rfl⟩] at hnone
      cases hnone

theorem keepsCpu_of_fcfs (h : Consistent rt) (ha : rt.scheduler.algo = .fcfs)
    (hflags : FlagsDown rt)
    (hop : op.keepsRings = true) : op.keepsCpu rt := by
  have hroster := op.rosters h
  have hmoves := (op.moves h).2
  by_cases hpass : ∃ fuel, op = .pass fuel
  · obtain ⟨fuel, rfl⟩ := hpass
    cases hexecuting : RtOp.executing rt (.pass fuel) with
    | none =>
      rw [RtOp.keepsCpu, RtOp.holder, hexecuting, Option.elim_none]
      intro hpos
      rw [exec_of_not_executing h.sound hpos hexecuting]
      exact .inl rfl
    | some d =>
      have hd : d.roster.algo = .fcfs ∧ d.roster.resched = false := by
        have hdispatch := dispatch_roster (passPrepare_spec h.sound).1
        rw [passPrepare_roster h.sound, ← (executing_eq hexecuting).2] at hdispatch
        have hsame := Roster.same_prepare mlfqBoostInterval rt.roster
        rw [hdispatch.algo, hsame.algo, hdispatch.resched, hsame.resched]
        exact ⟨ha, hflags.resched⟩
      rw [RtOp.keepsCpu, RtOp.holder, hexecuting, Option.elim_some]
      generalize RtOp.exec rt (.pass fuel) = rt' at hmoves ⊢
      intro _
      cases hmoves with
      | quiet hnone => exact absurd (hnone.symm.trans hexecuting) nofun
      | spawn _ _ hnone => exact absurd (hnone.symm.trans hexecuting) nofun
      | kill q _ hkill => cases hkill
      | exec d' fuel' consumed hexecuting' _ hd' hpos' hexec =>
        have hsame := Option.some.inj (hexecuting'.symm.trans hexecuting)
        subst hsame
        rcases (executeInstruction_roster hd'.sound hd'.placed hpos' hexec).keeps hd.1 hd.2 with
          hcur | ⟨e, he, hst⟩
        · exact .inl (current_of_roster hcur)
        · obtain ⟨p, hp, rfl⟩ := procGet_of_roster he
          exact .inr ⟨p, hp, hst⟩
  · have hnot : ∀ fuel, op ≠ .pass fuel := fun fuel heq => hpass ⟨fuel, heq⟩
    have hnone : op.executing rt = none := by
      cases op with
      | pass fuel => exact absurd rfl (hnot fuel)
      | _ => rfl
    rw [RtOp.keepsCpu, RtOp.holder, hnone, Option.elim_none]
    exact fun _ => .inl (current_of_roster (hroster.current hnot hop))

theorem Fifo.keepsCpu (h : Fifo rt) (ha : rt.scheduler.algo = .fcfs) {ops : List RtOp}
    (hops : ∀ op ∈ ops, op.keepsRings = true)
    (hflags : Runs.Along RtOp.exec (fun rt _ => FlagsDown rt) rt ops) :
    Runs.Along RtOp.exec (fun rt op => op.keepsCpu rt) rt ops := by
  induction ops generalizing rt with
  | nil => trivial
  | cons op ops ih =>
    have hop := hops op List.mem_cons_self
    refine ⟨keepsCpu_of_fcfs h.consistent ha hflags.1 hop, ih (h.exec hop) ?_ ?_ hflags.2⟩
    · rw [exec_algo h.consistent hop, ha]
    · exact fun op' hmem => hops op' (List.mem_cons_of_mem op hmem)

/-! ### Arrival order -/

/-- A list that starts with whoever waits, and that of who comes next. -/
theorem prefix_of_append_eq {α : Type*} {as bs cs ds : List α} {a : α}
    (h : as ++ bs = cs ++ a :: ds) (ha : a ∉ as) : as <+: cs := by
  rcases List.append_eq_append_iff.mp h with ⟨as', rfl, -⟩ | ⟨cs', rfl, hcs⟩
  · exact List.prefix_append as as'
  · cases cs' with
    | nil => rw [List.append_nil]
    | cons c cs' =>
      -- `a` would stand among `as`
      rw [List.cons_append] at hcs
      exact absurd (List.mem_append_right cs
        (by rw [List.head_eq_of_cons_eq hcs]; exact List.mem_cons_self)) ha

/-- Between two dispatches of a process, whoever was READY at the first is dispatched. -/
theorem dispatched_between {fuel' : ℕ} {mid : List RtOp} (h : Fifo rt)
    (hmid : ∀ op ∈ mid, op.keepsRings = true) (hfirst : RtOp.dispatched rt (.pass fuel) = [pid])
    (hagain : RtOp.dispatched (Runs.run RtOp.exec (RtOp.exec rt (.pass fuel)) mid)
      (.pass fuel') = [pid])
    {q : ℤ} (hq : isReady (dispatch (passPrepare rt)).2.procs q = true) :
    q ∈ Runs.history RtOp.exec (fun rt op => op.dispatched rt) (RtOp.exec rt (.pass fuel)) mid := by
  obtain ⟨rest, late, hd⟩ := dispatched_first h hfirst
  have hmem := (hd.others q).mp hq
  have hafter := hd.after
  have hself := hd.self
  have hfifo : Fifo (RtOp.exec rt (.pass fuel)) := h.exec rfl
  generalize RtOp.exec rt (.pass fuel) = s at hagain hafter hfifo ⊢
  have hrun := fifo_run hfifo hmid
  obtain ⟨rest', late', hd'⟩ := dispatched_first (hfifo.run hmid) hagain
  have hbefore := hd'.before
  generalize Runs.run RtOp.exec s mid = s' at hrun hbefore
  have heq : rest ++ (late ++ Runs.history RtOp.exec (fun rt op => op.readied rt) s mid ++
        newlyReady s' (wakeTimers s')) =
      Runs.history RtOp.exec (fun rt op => op.dispatched rt) s mid ++ pid :: rest' := by
    rw [← hbefore, ← List.append_assoc, ← List.append_assoc, ← hafter, hrun, List.append_assoc]
  exact (prefix_of_append_eq heq hself).subset hmem

/-- Processes are dispatched in the order in which they become READY, and between two dispatches
of a process everybody who was READY at the first is dispatched too. -/
structure ArrivalOrder (rt : Runtime) (ops : List RtOp) : Prop where
  order : Runs.history RtOp.exec (fun rt op => op.dispatched rt) rt ops <+:
    Runs.history RtOp.exec (fun rt op => op.readied rt) rt ops
  between : ∀ pre fuel mid fuel' post pid q,
    ops = pre ++ .pass fuel :: (mid ++ .pass fuel' :: post) →
    let s := Runs.run RtOp.exec rt pre
    let s' := RtOp.exec s (.pass fuel)
    RtOp.dispatched s (.pass fuel) = [pid] →
    RtOp.dispatched (Runs.run RtOp.exec s' mid) (.pass fuel') = [pid] →
    isReady (dispatch (passPrepare s)).2.procs q = true →
    q ∈ Runs.history RtOp.exec (fun rt op => op.dispatched rt) s' mid

theorem Fifo.arrivalOrder (h : Fifo rt) (hempty : rt.scheduler.rings 0 = []) {ops : List RtOp}
    (hops : ∀ op ∈ ops, op.keepsRings = true) : ArrivalOrder rt ops where
  order := by
    have hrun := fifo_run h hops
    rw [hempty, List.nil_append] at hrun
    rw [hrun]
    exact List.prefix_append _ _
  between := by
    intro pre fuel mid fuel' post pid q heq
    have hpre : ∀ op ∈ pre, op.keepsRings = true := fun op hmem =>
      hops op (by rw [heq]; exact List.mem_append_left _ hmem)
    have hmid : ∀ op ∈ mid, op.keepsRings = true := fun op hmem =>
      hops op (by
        rw [heq]
        exact List.mem_append_right _ (List.mem_cons_of_mem _ (List.mem_append_left _ hmem)))
    have hs := h.run hpre
    dsimp only
    generalize Runs.run RtOp.exec rt pre = s at hs ⊢
    intro hfirst hagain hq
    exact dispatched_between hs hmid hfirst hagain hq

/-- The runtime with a policy chosen, before anything else. -/
def startWith (a : SchedAlgo) : Runtime := RtOp.exec runtimeInit (.setScheduler a)

theorem startWith_fifo {a : SchedAlgo} (ha : a.IsFifo) :
    Fifo (startWith a) ∧ (startWith a).scheduler.algo = a ∧
      (startWith a).scheduler.rings 0 = [] := by
  have hroster := runtimeSetScheduler_roster runtimeInit_consistent.sound a
  have hc : Consistent (startWith a) := RtOp.consistent runtimeInit_consistent (.setScheduler a)
  have hstart : (startWith a).roster = runtimeInit.roster.setAlgo a := by
    rw [startWith, RtOp.exec, hroster]
  generalize startWith a = rt at hc hstart
  have halgo : rt.scheduler.algo = a := algo_of_roster (by rw [hstart]; rfl)
  have hfifo : rt.scheduler.algo.IsFifo := by rwa [halgo]
  refine ⟨⟨hc, hfifo⟩, halgo, List.eq_nil_iff_forall_not_mem.mpr fun pid hmem => ?_⟩
  rw [mem_rings_zero hc.sound hfifo, ← roster_isReady, hstart] at hmem
  -- there are no processes
  have hnone : (runtimeInit.roster.setAlgo a).proc pid = none := by
    show (procGet runtimeInit.procs pid).map Pcb.entry = none
    rw [procGet_init]
    rfl
  rw [Roster.isReady, hnone] at hmem
  cases hmem

/-- **Arrival order.**  Under SCHED_FCFS and SCHED_RR, in every run without kills and changes of
policy, processes are dispatched in the order in which they become READY, and nobody who is READY
is passed over; under SCHED_FCFS, while no resched flag is up, who is on the CPU stays there until
BLOCKED or EXITED. -/
theorem arrival_order (a : SchedAlgo) (ha : a.IsFifo) (ops : List RtOp)
    (hops : ∀ op ∈ ops, op.keepsRings = true) :
    ArrivalOrder (startWith a) ops ∧
      (a = .fcfs → Runs.Along RtOp.exec (fun rt _ => FlagsDown rt) (startWith a) ops →
        Runs.Along RtOp.exec (fun rt op => op.keepsCpu rt) (startWith a) ops) := by
  obtain ⟨hstart, halgo, hempty⟩ := startWith_fifo ha
  refine ⟨hstart.arrivalOrder hempty hops, ?_⟩
  rintro rfl hflags
  exact hstart.keepsCpu halgo hops hflags

set_option maxRecDepth 100000 in
/-- Two processes in turns of one tick. -/
theorem arrival_order_turns :
    Runs.history RtOp.exec (fun rt op => op.dispatched rt) (startWith .rr)
        [.setQuantum 1, .runWorkload ⟨"a", [⟨.cpu, 0, 0, 3⟩]⟩ 20,
          .runWorkload ⟨"b", [⟨.cpu, 0, 0, 3⟩]⟩ 20, .pass 0, .pass 0, .pass 0] = [1, 2, 1] ∧
      ArrivalOrder (startWith .rr)
        [.setQuantum 1, .runWorkload ⟨"a", [⟨.cpu, 0, 0, 3⟩]⟩ 20,
          .runWorkload ⟨"b", [⟨.cpu, 0, 0, 3⟩]⟩ 20, .pass 0, .pass 0, .pass 0] := by
  refine ⟨by decide +kernel, (arrival_order .rr (.inr rfl) _ ?_).1⟩
  intro op hop
  fin_cases hop <;> rfl

end Mosrt
