/-
Programs that wait for nobody run to their end.

A process whose remaining instructions are `CPU`, `IO` and `EXIT` is a chore: its bursts are
work, its I/O is rest.  A runtime with such processes only is a crew, and each of its passes is
one of the crew's, whatever the policy, the quantum and the resched flags are.

* `Runtime.crew` — the crew; the clock, and what each process has left to do;
* `runtimePass_crew` — a pass of the runtime is a pass of the crew;
* `independent_complete` — `runtime_step(n)` ends all processes if `n` exceeds the sum of all
  bursts left and the longest I/O left of a process.
-/
import Mosrt.Crew
import Mosrt.Timers
import Mosrt.StepTicks

namespace Mosrt

open Relation

/-! ### What a program has left -/

/-- The ticks of the instructions `op` in front of the first `EXIT`. -/
def ticksOf (op : WorkloadOp) : List WorkloadInsn → ℕ
  | [] => 0
  | insn :: insns =>
    if insn.op = .exit then 0 else (if insn.op = op then insn.ticks else 0) + ticksOf op insns

namespace Job

variable {j : Job} {insn : WorkloadInsn} {left : ℕ}

/-- The ticks of the bursts left, with those of the burst that is going on. -/
def workLeft (j : Job) : ℕ :=
  match j.insns.drop j.pc with
  | [] => 0
  | insn :: insns =>
    if insn.op = .cpu then
      (if j.remaining = 0 then insn.ticks else j.remaining) + ticksOf .cpu insns
    else ticksOf .cpu (insn :: insns)

/-- The ticks of the I/O left. -/
def restLeft (j : Job) : ℕ := ticksOf .io (j.insns.drop j.pc)

theorem drop_pc (hinsn : j.insns[j.pc]? = some insn) :
    j.insns.drop j.pc = insn :: j.insns.drop (j.pc + 1) := by
  obtain ⟨hlt, rfl⟩ := List.getElem?_eq_some_iff.mp hinsn
  exact List.drop_eq_getElem_cons hlt

theorem workLeft_at (hinsn : j.insns[j.pc]? = some insn) : j.workLeft =
    if insn.op = .cpu then (if j.remaining = 0 then insn.ticks else j.remaining) +
      ticksOf .cpu (j.insns.drop (j.pc + 1))
    else ticksOf .cpu (insn :: j.insns.drop (j.pc + 1)) := by
  rw [workLeft, drop_pc hinsn]

/-- No burst is going on. -/
theorem workLeft_of_remaining (h : j.remaining = 0) :
    j.workLeft = ticksOf .cpu (j.insns.drop j.pc) := by
  rw [workLeft]
  split
  · next hend => rw [hend, ticksOf]
  · next insn insns hat =>
    rw [hat, if_pos h]
    split_ifs with hop
    · rw [ticksOf, if_neg (by rw [hop]; decide), if_pos hop]
    · rfl

theorem workLeft_end (hinsn : j.insns[j.pc]? = none) : j.workLeft = 0 := by
  rw [workLeft, List.drop_eq_nil_of_le (List.getElem?_eq_none_iff.mp hinsn)]

theorem workLeft_exit (hinsn : j.insns[j.pc]? = some insn) (hop : insn.op = .exit) :
    j.workLeft = 0 := by
  rw [workLeft_at hinsn, if_neg (by rw [hop]; decide), ticksOf, if_pos hop]

theorem workLeft_burn (left : ℕ) (hinsn : j.insns[j.pc]? = some insn) (hop : insn.op = .cpu) :
    (j.burn left).workLeft = left + ticksOf .cpu (j.insns.drop (j.pc + 1)) := by
  by_cases h0 : left = 0
  · subst h0
    rw [Nat.zero_add]
    exact workLeft_of_remaining rfl
  · rw [burn, if_neg h0, workLeft_at (j := { j with remaining := left }) hinsn, if_pos hop,
      if_neg h0]

theorem restLeft_burn (left : ℕ) (hinsn : j.insns[j.pc]? = some insn) (hop : insn.op = .cpu) :
    (j.burn left).restLeft = j.restLeft := by
  rw [burn, restLeft, restLeft]
  split_ifs
  · rw [drop_pc hinsn, ticksOf, if_neg (by rw [hop]; decide), if_neg (by rw [hop]; decide),
      Nat.zero_add]
  · rfl

theorem workLeft_next_io (hinsn : j.insns[j.pc]? = some insn) (hop : insn.op = .io) :
    j.next.workLeft = j.workLeft := by
  rw [workLeft_at hinsn, if_neg (by rw [hop]; decide), ticksOf, if_neg (by rw [hop]; decide),
    if_neg (by rw [hop]; decide), Nat.zero_add]
  exact workLeft_of_remaining rfl

theorem restLeft_io (hinsn : j.insns[j.pc]? = some insn) (hop : insn.op = .io) :
    j.restLeft = insn.ticks + j.next.restLeft := by
  rw [restLeft, drop_pc hinsn, ticksOf, if_neg (by rw [hop]; decide), if_pos hop]
  rfl

end Job

/-! ### The crew -/

/-- The instruction is an `EXIT`, or takes time and needs nothing else. -/
def WorkloadInsn.alone (insn : WorkloadInsn) : Bool :=
  insn.op = .exit ∨ (insn.op = .cpu ∨ insn.op = .io) ∧ 0 < insn.ticks

/-- What a process has left to do: nothing once it has EXITED. -/
def choreOf : Option (ProcState × ℕ) → Option Job → Option Chore
  | none, _ => none
  | some (st, w), j =>
    if st = .exited then none
    else some ⟨if st = .blocked then some w else none, j.elim 0 Job.workLeft, j.elim 0 Job.restLeft⟩

def Runtime.crew (rt : Runtime) : Crew ℤ where
  tick := rt.tick
  task := fun pid => choreOf (rt.abs.proc pid) (rt.ledger.job pid)

/-- All pids that a process can have. -/
def pids : Finset ℤ := ⟨allPids, Multiset.coe_nodup.mpr (pairwise_allPids.imp ne_of_lt)⟩

theorem mem_pids {pid : ℤ} : pid ∈ pids ↔ pid ∈ allPids := by
  rw [pids, Finset.mem_mk, Multiset.mem_coe]

/-- Unless it has EXITED, the process waits for a tick if it waits at all, and its remaining
instructions need nothing but time. -/
def independentOf : Option (ProcState × ℕ) → Option Job → Bool
  | none, _ => true
  | some (st, w), j => st = .exited ∨
    (st = .blocked → 0 < w) ∧ j.elim true fun j => (j.insns.drop j.pc).all WorkloadInsn.alone

def Runtime.Independent (rt : Runtime) : Prop :=
  ∀ pid ∈ allPids, independentOf (rt.abs.proc pid) (rt.ledger.job pid) = true

instance (rt : Runtime) : Decidable rt.Independent :=
  inferInstanceAs (Decidable (∀ pid ∈ allPids, _ = true))

variable {rt rt' d : Runtime} {c : Crew ℤ} {pid : ℤ} {p : Pcb} {s : Option (ProcState × ℕ)}
  {j : Option Job} {st : ProcState} {w idx fuel guard n : ℕ} {insn : WorkloadInsn}

/-! #### One process changes -/

theorem crew_update (hproc : rt'.abs.proc = Function.update rt.abs.proc pid s)
    (hjob : rt'.ledger.job = Function.update rt.ledger.job pid j) :
    rt'.crew = ⟨rt'.tick, Function.update rt.crew.task pid (choreOf s j)⟩ := by
  refine Crew.ext rfl (funext fun q => ?_)
  show choreOf (rt'.abs.proc q) (rt'.ledger.job q) =
    Function.update rt.crew.task pid (choreOf s j) q
  rw [hproc, hjob, Function.update_apply, Function.update_apply, Function.update_apply]
  split_ifs <;> rfl

theorem Runtime.Independent.update (h : rt.Independent)
    (hproc : rt'.abs.proc = Function.update rt.abs.proc pid s)
    (hjob : rt'.ledger.job = Function.update rt.ledger.job pid j)
    (hnew : independentOf s j = true) : rt'.Independent := by
  intro q hq
  rw [hproc, hjob, Function.update_apply, Function.update_apply]
  split_ifs
  · exact hnew
  · exact h q hq

/-- The chore of the process on the CPU. -/
theorem OnCpu.chore (h : OnCpu rt p) : rt.crew.task rt.currentPid =
    some ⟨none, (rt.ledger.job rt.currentPid).elim 0 Job.workLeft,
      (rt.ledger.job rt.currentPid).elim 0 Job.restLeft⟩ := by
  show choreOf (rt.abs.proc rt.currentPid) _ = _
  rw [show rt.abs.proc rt.currentPid = some (.running, p.wakeupTick) from h.proc]
  rfl

theorem OnCpu.current_mem (h : OnCpu rt p) : rt.currentPid ∈ pids :=
  mem_pids.mpr (mem_allPids (roster_proc h.get))

/-! ### Instructions -/

/-- A process with no work left exits. -/
theorem exitCurrent_crew (hs : d.Sound) (hcpu : OnCpu d p) (hind : d.Independent)
    (hwork : (d.ledger.job d.currentPid).elim 0 Job.workLeft = 0) (hc : c.woken = d.crew)
    (code : ℤ) : c.Pass pids false false (exitCurrent d code).crew ∧
      (exitCurrent d code).Independent ∧ (exitCurrent d code).busyTicks = d.busyTicks := by
  obtain ⟨-, habs⟩ := exitCurrent_spec d hs hcpu code
  have hproc : (exitCurrent d code).abs.proc =
      Function.update d.abs.proc d.currentPid (some (.exited, 0)) := by
    rw [habs]
    rfl
  have hsteps : Steps [] d (exitCurrent d code) := exitCurrent_steps d code
  have hbench := exitCurrent_bench d code
  generalize exitCurrent d code = rt' at hproc hsteps hbench ⊢
  have hclock := Ledger.steps_clock hsteps
  have htick : rt'.tick = d.tick := hclock.1
  have hjob : rt'.ledger.job =
      Function.update d.ledger.job d.currentPid (d.ledger.job d.currentPid) := by
    rw [Function.update_eq_self, job_of_bench hbench]
  refine ⟨?_, hind.update hproc hjob rfl, hclock.2.1⟩
  have hpass := Crew.Pass.done (c := c) d.currentPid _ hcpu.current_mem
    (by rw [hc]; exact hcpu.chore) rfl hwork
  have htick' : c.tick = d.tick := congrArg Crew.tick hc
  rw [crew_update hproc hjob, htick, ← htick', ← hc]
  exact hpass

theorem WorkloadInsn.alone_iff (insn : WorkloadInsn) : insn.alone = true ↔
    insn.op = .exit ∨ (insn.op = .cpu ∨ insn.op = .io) ∧ 0 < insn.ticks := decide_eq_true_iff

theorem independentOf_iff (st : ProcState) (w : ℕ) (j : Job) :
    independentOf (some (st, w)) (some j) = true ↔ st = .exited ∨
      (st = .blocked → 0 < w) ∧ ∀ insn ∈ j.insns.drop j.pc, insn.alone = true := by
  rw [independentOf, decide_eq_true_iff, Option.elim_some, List.all_eq_true]

/-- The rest of the program of the process on the CPU. -/
theorem AtInsn.alone (h : AtInsn d p idx insn) (hind : d.Independent) :
    ∀ insn ∈ (d.slots idx).job.insns.drop (d.slots idx).job.pc, insn.alone = true := by
  have hself := hind d.currentPid (mem_allPids (roster_proc h.cpu.get))
  rw [show d.abs.proc d.currentPid = some (.running, p.wakeupTick) from h.cpu.proc,
    h.standsAt.job, independentOf_iff] at hself
  rcases hself with hexited | ⟨-, halone⟩
  · cases hexited
  · exact halone

/-- A tick of a burst is a tick of work. -/
theorem execCpu_crew (h : AtInsn d p idx insn) (hop : insn.op = .cpu) (hpos : 0 < insn.ticks)
    (hind : d.Independent) (hroom : d.tick + 1 < 2 ^ 64) (hc : c.woken = d.crew) :
    ∃ rt', execCpu d d.currentPid idx insn = (true, rt') ∧ c.Pass pids true true rt'.crew ∧
      rt'.Independent ∧ rt'.busyTicks = incr64 d.busyTicks := by
  have hstands := h.standsAt
  have halone := h.alone hind
  have hburst : burstOf d idx insn ≠ 0 := by
    rw [burstOf]
    split_ifs with hr
    · exact hpos.ne'
    · exact hr
  rw [execCpu_eq h.cpu, if_neg hburst]
  refine ⟨_, rfl, ?_⟩
  obtain ⟨n, hn⟩ : ∃ n, burstOf d idx insn = n + 1 := Nat.exists_eq_succ_of_ne_zero hburst
  rw [hn]
  obtain ⟨st, hst, hproc⟩ := tick_proc h (n + 1)
  have hstirs := maybePreempt_stirs (spendTick d idx (n + 1))
  have hledger := ledger_spendTick h (n + 1)
  generalize maybePreempt (spendTick d idx (n + 1)) = rt' at hstirs hproc ⊢
  have hsteps : Relation.ReflTransGen (Ledger.Step []) _ rt'.ledger := Ledger.Stir.steps hstirs
  have hclock := Ledger.steps_clock hsteps
  have hjobs := Ledger.stirs_job hstirs
  rw [hledger] at hclock hjobs
  have htick : rt'.tick = d.tick + 1 := hclock.1.trans (Ledger.incr64_of_lt hroom)
  have hjob : rt'.ledger.job = Function.update d.ledger.job d.currentPid
      (some ((d.slots idx).job.burn n)) := hjobs
  refine ⟨?_, hind.update hproc hjob ?_, hclock.2.1⟩
  · -- the chore of the process has one tick of work less
    have hleft : (d.slots idx).job.workLeft = ((d.slots idx).job.burn n).workLeft + 1 := by
      have hburst' : (if (d.slots idx).job.remaining = 0 then insn.ticks
        else (d.slots idx).job.remaining) = n + 1 := hn
      rw [Job.workLeft_at hstands.insn, if_pos hop, hburst', Job.workLeft_burn n hstands.insn hop]
      exact Nat.add_right_comm n 1 _
    have hchore := h.cpu.chore
    rw [hstands.job] at hchore
    have hpass := Crew.Pass.work (c := c) d.currentPid _ _ h.cpu.current_mem
      (by rw [hc]; exact hchore) rfl hleft
    have htick' : c.tick = d.tick := congrArg Crew.tick hc
    have hnew : choreOf (some (st, p.wakeupTick)) (some ((d.slots idx).job.burn n)) =
        some ⟨none, ((d.slots idx).job.burn n).workLeft, (d.slots idx).job.restLeft⟩ := by
      rw [← Job.restLeft_burn n hstands.insn hop]
      rcases hst with rfl | rfl <;> rfl
    rw [crew_update hproc hjob, htick, ← htick', ← hc, hnew]
    exact hpass
  · refine (independentOf_iff _ _ _).mpr (.inr ⟨?_, fun insn' hmem => halone insn' ?_⟩)
    · rcases hst with rfl | rfl <;> exact fun hst => by cases hst
    · rw [Job.burn] at hmem
      dsimp only at hmem
      split_ifs at hmem
      · rw [Job.drop_pc hstands.insn]
        exact List.mem_cons_of_mem insn hmem
      · exact hmem

/-- An I/O is a rest. -/
theorem execIo_crew (h : AtInsn d p idx insn) (hop : insn.op = .io) (hpos : 0 < insn.ticks)
    (hind : d.Independent) (hroom : d.tick + insn.ticks < 2 ^ 64) (hc : c.woken = d.crew) :
    c.Pass pids false false (execIo d d.currentPid idx insn).crew ∧
      (execIo d d.currentPid idx insn).Independent ∧
        (execIo d d.currentPid idx insn).busyTicks = d.busyTicks := by
  have hstands := h.standsAt
  have halone := h.alone hind
  have hproc : (execIo d d.currentPid idx insn).abs.proc = Function.update d.abs.proc d.currentPid
      (some (.blocked, d.tick + insn.ticks)) := by
    funext q
    rw [abs_proc_roster, execIo_roster h, Nat.mod_eq_of_lt hroom]
    show (Function.update d.roster.proc d.currentPid _ q).map _ = _
    rw [Function.update_apply, Function.update_apply, abs_proc_roster]
    split_ifs <;> rfl
  have hsteps : Steps [] d (execIo d d.currentPid idx insn) := execIo_steps hstands hop
  have hclock := Ledger.steps_clock hsteps
  have hjob : (execIo d d.currentPid idx insn).ledger.job =
      Function.update d.ledger.job d.currentPid (some (d.slots idx).job.next) := by
    have hbench : (execIo d d.currentPid idx insn).bench = (completeImmediate d idx).bench := by
      rw [execIo, if_neg (by simp [h.cpu.get])]
      exact blockCurrent_bench _ _
    exact (job_of_bench hbench).trans (job_completeImmediate h.slot)
  generalize execIo d d.currentPid idx insn = rt' at hproc hclock hjob ⊢
  refine ⟨?_, hind.update hproc hjob ?_, hclock.2.1⟩
  · have hchore := h.cpu.chore
    rw [hstands.job] at hchore
    have hpass := Crew.Pass.rest (c := c) d.currentPid _ insn.ticks _ h.cpu.current_mem
      (by rw [hc]; exact hchore) rfl hpos (Job.restLeft_io hstands.insn hop)
    have htick : c.tick = d.tick := congrArg Crew.tick hc
    have htick' : rt'.tick = d.tick := hclock.1
    have hnew : choreOf (some (.blocked, d.tick + insn.ticks)) (some (d.slots idx).job.next) =
        some ⟨some (d.tick + insn.ticks), (d.slots idx).job.workLeft,
          (d.slots idx).job.next.restLeft⟩ := by
      rw [← Job.workLeft_next_io hstands.insn hop]
      rfl
    rw [crew_update hproc hjob, htick', hnew, ← htick, ← hc]
    exact hpass
  · refine (independentOf_iff _ _ _).mpr (.inr ⟨fun _ => by omega, fun insn' hmem => ?_⟩)
    refine halone insn' ?_
    rw [Job.drop_pc hstands.insn]
    exact List.mem_cons_of_mem insn hmem

/-- An instruction of an independent process. -/
theorem executeInstruction_crew (h : Consistent d) (hpos : 0 ≤ d.currentPid)
    (hind : d.Independent) (hc : c.woken = d.crew) (htick : d.tick + 1 < 2 ^ 64)
    (hrest : d.tick + c.rest pids < 2 ^ 64) (fuel : ℕ) :
    ∃ worked rt', executeInstruction fuel d = some (worked, rt') ∧
      c.Pass pids worked worked rt'.crew ∧ rt'.Independent ∧
        rt'.busyTicks = if worked then incr64 d.busyTicks else d.busyTicks := by
  obtain ⟨p, hcpu⟩ := h.placed.onCpu hpos
  cases hinsn : d.insnOf d.currentPid with
  | none =>
    -- there is no slot, or the program is at its end
    have hwork : (d.ledger.job d.currentPid).elim 0 Job.workLeft = 0 := by
      rw [insnOf_eq_job] at hinsn
      cases hj : d.ledger.job d.currentPid with
      | none => rfl
      | some j =>
        rw [hj] at hinsn
        exact Job.workLeft_end hinsn
    obtain ⟨code, hend⟩ := executeInstruction_of_none hinsn fuel
    exact ⟨false, _, hend, exitCurrent_crew h.sound hcpu hind hwork hc code⟩
  | some insn =>
    obtain ⟨p, idx, hat⟩ := atInsn h.sound h.placed hpos hinsn
    have hstands := hat.standsAt
    have halone : insn.alone = true := by
      refine hat.alone hind insn ?_
      rw [Job.drop_pc hstands.insn]
      exact List.mem_cons_self
    rw [executeInstruction, hat.current]
    dsimp only
    rcases (insn.alone_iff).mp halone with hop | ⟨hop | hop, hticks⟩
    · have hwork : (d.ledger.job d.currentPid).elim 0 Job.workLeft = 0 := by
        rw [hstands.job]
        exact Job.workLeft_exit hstands.insn hop
      rw [hop]
      exact ⟨false, _, rfl, exitCurrent_crew h.sound hcpu hind hwork hc 0⟩
    · obtain ⟨rt', hexec, hpass, hind', hbusy⟩ := execCpu_crew hat hop hticks hind htick hc
      rw [hop]
      exact ⟨true, rt', congrArg some hexec, hpass, hind', hbusy⟩
    · -- the rest that begins is at most the longest
      have hle : insn.ticks ≤ c.rest pids := by
        rw [← Crew.rest_woken, hc]
        refine le_trans ?_ (Finset.le_sup
          (f := fun i => (d.crew.task i).elim 0 (Chore.left d.crew.tick)) hat.cpu.current_mem)
        have hio : (d.slots idx).job.restLeft = insn.ticks + (d.slots idx).job.next.restLeft :=
          Job.restLeft_io hstands.insn hop
        simp only [hat.cpu.chore, hstands.job, Option.elim_some, Chore.left, hio]
        omega
      rw [hop]
      exact ⟨false, _, rfl, execIo_crew hat hop hticks hind (by omega) hc⟩

/-! ### Passes -/

theorem choreOf_timed (h : independentOf s j = true) (now : ℕ) :
    choreOf (s.map (timed now)) j = (choreOf s j).map (Chore.wake now) := by
  obtain _ | ⟨st, w⟩ := s
  · rfl
  · cases st with
    | new | ready | running | exited => rfl
    | blocked =>
      have hpos : 0 < w := by
        rw [independentOf, decide_eq_true_iff] at h
        exact (h.resolve_left (by decide)).1 rfl
      by_cases hw : w ≤ now
      · have htimed : timed now (.blocked, w) = (.ready, 0) := if_pos ⟨rfl, hpos, hw⟩
        rw [Option.map_some, htimed]
        simp [choreOf, Chore.wake, Option.filter_some, hw]
      · have htimed : timed now (.blocked, w) = (.blocked, w) := if_neg fun hdue => hw hdue.2.2
        rw [Option.map_some, htimed]
        simp [choreOf, Chore.wake, Option.filter_some, not_le.mp hw]

theorem independentOf_timed (h : independentOf s j = true) (now : ℕ) :
    independentOf (s.map (timed now)) j = true := by
  obtain _ | ⟨st, w⟩ := s
  · rfl
  · rw [Option.map_some, timed]
    split_ifs with hdue
    · rw [show st = .blocked from hdue.1] at h
      rw [independentOf, decide_eq_true_iff] at h ⊢
      exact .inr ⟨fun hst => (by cases hst), (h.resolve_left (by decide)).2⟩
    · exact h

theorem Runtime.Independent.of (h : rt.Independent) (pid : ℤ) :
    independentOf (rt.abs.proc pid) (rt.ledger.job pid) = true := by
  by_cases hpid : pid ∈ allPids
  · exact h pid hpid
  · cases he : rt.abs.proc pid with
    | none => rfl
    | some s =>
      obtain ⟨p, hp, -⟩ := Option.map_eq_some_iff.mp he
      exact absurd (mem_allPids (roster_proc hp)) hpid

/-- What precedes an instruction wakes those who are due. -/
theorem Begins.crew {b : Bool} (h : Begins rt d b) (hind : rt.Independent) :
    d.crew = rt.crew.woken ∧ d.Independent := by
  -- being put on the CPU does not show
  have hsame : ∀ q j, choreOf (d.abs.proc q) j = choreOf ((rt.abs.proc q).map (timed rt.tick)) j ∧
      independentOf (d.abs.proc q) j = independentOf ((rt.abs.proc q).map (timed rt.tick)) j := by
    intro q j
    rcases h.proc q with hproc | ⟨-, w, hready, hrun⟩
    · rw [hproc]
      exact ⟨rfl, rfl⟩
    · rw [hready, hrun]
      exact ⟨rfl, by simp [independentOf]⟩
  constructor
  · refine Crew.ext h.tick (funext fun q => ?_)
    show choreOf (d.abs.proc q) (d.ledger.job q) =
      (choreOf (rt.abs.proc q) (rt.ledger.job q)).map (Chore.wake rt.tick)
    rw [(hsame q _).1, h.job, choreOf_timed (hind.of q)]
  · intro q _
    rw [(hsame q _).2, h.job]
    exact independentOf_timed (hind.of q) rt.tick

/-- What a runtime of independent processes keeps. -/
structure Solo (rt : Runtime) : Prop where
  consistent : Consistent rt
  entered : rt.abs.Entered
  independent : rt.Independent
  busy : rt.busyTicks < 2 ^ 64

/-- If nobody can be chosen, nobody is awake. -/
theorem asleep_of_idle (hplaced : d.abs.Placed) (hentered : d.abs.Entered)
    (hidle : d.currentPid < 0) (hnone : ∀ pid, d.abs.stateOf pid ≠ some .ready) (pid : ℤ)
    {t : Chore} (ht : d.crew.task pid = some t) : t.due ≠ none := by
  have ht' : choreOf (d.abs.proc pid) (d.ledger.job pid) = some t := ht
  cases hs : d.abs.proc pid with
  | none =>
    rw [hs] at ht'
    cases ht'
  | some s =>
    have hstate := blocked_or_exited hplaced hentered hidle hnone hs
    obtain ⟨st, w⟩ := s
    rw [hs] at ht'
    rcases hstate with rfl | rfl
    · rw [← Option.some.inj ht']
      exact Option.some_ne_none w
    · cases ht'

/-- A pass of the runtime is a pass of the crew. -/
theorem runtimePass_crew (h : Solo rt) (htick : rt.tick + 1 < 2 ^ 64)
    (hrest : rt.tick + rt.crew.rest pids < 2 ^ 64) (fuel : ℕ) :
    ∃ worked ticked rt', runtimePass fuel rt = some (ticked, rt') ∧
      rt.crew.Pass pids worked ticked rt'.crew ∧ rt'.Independent ∧
        rt'.busyTicks = if worked then incr64 rt.busyTicks else rt.busyTicks := by
  have hbegins := h.consistent.begins
  rw [runtimePass]
  generalize dispatch (passPrepare rt) = r at hbegins ⊢
  obtain ⟨b, d⟩ := r
  dsimp only at hbegins ⊢
  obtain ⟨hcrew, hind⟩ := hbegins.crew h.independent
  have hd := hbegins.consistent
  have hclock := hbegins.tick
  cases b with
  | true =>
    rw [if_pos rfl, ← hbegins.busy]
    obtain ⟨worked, rt', hexec, hpass⟩ := executeInstruction_crew hd (hbegins.runs rfl) hind
      hcrew.symm (by omega) (by omega) fuel
    exact ⟨worked, worked, rt', hexec, hpass⟩
  | false =>
    rw [if_neg Bool.false_ne_true]
    obtain ⟨-, hidle, hnone⟩ := hbegins.idles rfl
    have habs := (idleTick_spec hd.sound).2
    have hledger := ledger_idleTick d
    generalize idleTick d = rt' at habs hledger ⊢
    have hjob : rt'.ledger.job = d.ledger.job := by
      rw [hledger]
      rfl
    have htick' : rt'.tick = rt.tick + 1 := by
      rw [← hclock, ← Ledger.incr64_of_lt (by omega)]
      exact congrArg Ledger.tick hledger
    refine ⟨false, true, rt', rfl, ?_, ?_, (congrArg Ledger.busy hledger).trans hbegins.busy⟩
    · have hcrew' : rt'.crew = ⟨rt.crew.tick + 1, rt.crew.woken.task⟩ := by
        refine Crew.ext htick' ?_
        rw [← hcrew]
        show (fun pid => choreOf (rt'.abs.proc pid) (rt'.ledger.job pid)) = _
        rw [habs, hjob]
        rfl
      rw [hcrew']
      refine .idle fun pid _ t ht => ?_
      rw [← hcrew] at ht
      exact asleep_of_idle hd.placed (h.entered.quiet hbegins.quiet) hidle hnone pid ht
    · intro q hq
      rw [habs, hjob]
      exact hind q hq

/-! ### Rounds -/

/-- What a round, or several, make of the crew. -/
structure Advanced (rt rt' : Runtime) (n : ℕ) : Prop where
  solo : Solo rt'
  tick : rt'.tick = rt.tick + n
  live : rt'.crew.live pids ⊆ rt.crew.live pids
  /-- The ticks of work are those the CPU was busy for. -/
  busy : (rt'.busyTicks + rt'.crew.work pids) % 2 ^ 64 =
    (rt.busyTicks + rt.crew.work pids) % 2 ^ 64

theorem Advanced.trans {rt'' : Runtime} {m : ℕ} (h : Advanced rt rt' n) (h' : Advanced rt' rt'' m) :
    Advanced rt rt'' (n + m) :=
  ⟨h'.solo, by rw [h'.tick, h.tick, Nat.add_assoc], h'.live.trans h.live, h'.busy.trans h.busy⟩

theorem pass_advanced (h : Solo rt) (htick : rt.tick + 1 < 2 ^ 64)
    (hrest : rt.tick + rt.crew.rest pids < 2 ^ 64) (fuel : ℕ) :
    ∃ worked ticked rt', runtimePass fuel rt = some (ticked, rt') ∧
      rt.crew.Pass pids worked ticked rt'.crew ∧ Advanced rt rt' ticked.toNat := by
  obtain ⟨worked, ticked, rt', hr, hpass, hind, hbusy⟩ := runtimePass_crew h htick hrest fuel
  have hentered := h.entered.exec h.consistent (.pass fuel)
  rw [RtOp.exec, hr, Option.elim_some] at hentered
  have hlt : rt'.busyTicks < 2 ^ 64 := by
    rw [hbusy]
    split_ifs
    · exact Nat.mod_lt _ (Nat.two_pow_pos 64)
    · exact h.busy
  refine ⟨worked, ticked, rt', hr, hpass, ⟨h.consistent.pass hr, hentered, hind, hlt⟩,
    hpass.tick_eq, hpass.live_subset, ?_⟩
  rw [← hpass.work_eq, hbusy]
  cases worked with
  | true =>
    rw [if_pos rfl, incr64, Bool.toNat_true]
    omega
  | false => rw [if_neg Bool.false_ne_true, Bool.toNat_false, Nat.add_zero]

/-- A round takes a tick if the guard exceeds the number of processes that are awake. -/
theorem stepTick_advanced (fuel : ℕ) (h : Solo rt) (htick : rt.tick + 1 < 2 ^ 64)
    (hrest : rt.tick + rt.crew.rest pids < 2 ^ 64)
    (hguard : (rt.crew.woken.awake pids).card < guard) :
    ∃ rt', stepTick fuel guard rt = some rt' ∧ Advanced rt rt' 1 ∧
      (rt'.crew.work pids + rt'.crew.rest pids + 1 ≤ rt.crew.work pids + rt.crew.rest pids ∨
        rt'.crew.live pids = ∅) := by
  induction guard generalizing rt with
  | zero => exact absurd hguard (Nat.not_lt_zero _)
  | succ guard ih =>
    obtain ⟨worked, ticked, rt₁, hr, hpass, hadv⟩ := pass_advanced h htick hrest fuel
    rw [stepTick, hr, Option.bind_some]
    cases ticked with
    | true => exact ⟨rt₁, rfl, hadv, hpass.ticks⟩
    | false =>
      have hstill := hpass.still
      have hwork := hpass.work_eq
      have hle := hpass.rest_le
      have htick₁ : rt₁.tick = rt.tick := hadv.tick
      obtain ⟨rt', hstep, hadv', hleft⟩ := ih hadv.solo (by omega) (by omega) (by omega)
      refine ⟨rt', hstep, ?_, hleft.imp_left fun hlt => by omega⟩
      exact hadv.trans hadv'

theorem runtimeStep_advanced (fuel : ℕ) (h : Solo rt)
    (hlive : (rt.crew.live pids).card < maxDispatchGuard)
    (hroom : rt.tick + (rt.crew.work pids + rt.crew.rest pids) < 2 ^ 64)
    (hn : rt.tick + n < 2 ^ 64) :
    ∃ rt', runtimeStep fuel rt n = some rt' ∧ Advanced rt rt' n ∧
      (rt'.crew.work pids + rt'.crew.rest pids + n ≤ rt.crew.work pids + rt.crew.rest pids ∨
        rt'.crew.live pids = ∅) := by
  induction n generalizing rt with
  | zero => exact ⟨rt, rfl, ⟨h, rfl, Finset.Subset.refl _, rfl⟩, .inl (Nat.add_zero _).le⟩
  | succ n ih =>
    have hawake : (rt.crew.woken.awake pids).card < maxDispatchGuard := by
      refine (Finset.card_le_card ?_).trans_lt hlive
      exact Crew.awake_subset_live.trans Crew.live_woken.subset
    obtain ⟨rt₁, hstep, hadv, hleft⟩ := stepTick_advanced fuel h (by omega) (by omega) hawake
    have htick := hadv.tick
    have hroom₁ : rt₁.tick + (rt₁.crew.work pids + rt₁.crew.rest pids) < 2 ^ 64 := by
      rcases hleft with hlt | hnobody
      · omega
      · rw [Crew.work_of_live hnobody, Crew.rest_of_live hnobody]
        omega
    obtain ⟨rt', hsteps, hadv', hleft'⟩ := ih hadv.solo
      ((Finset.card_le_card hadv.live).trans_lt hlive) hroom₁ (by omega)
    refine ⟨rt', ?_, ?_, ?_⟩
    · rw [runtimeStep, hstep, Option.bind_some, hsteps]
    · rw [Nat.add_comm n 1]
      exact hadv.trans hadv'
    · rcases hleft' with hlt' | hnobody'
      · rcases hleft with hlt | hnobody
        · exact .inl (by omega)
        · -- nobody was left before the other rounds
          refine .inr (Finset.subset_empty.mp ?_)
          rw [← hnobody]
          exact hadv'.live
      · exact .inr hnobody'

theorem exited_of_live (h : rt.crew.live pids = ∅) (hst : rt.abs.stateOf pid = some st) :
    st = .exited := by
  obtain ⟨w, hproc⟩ := Core.proc_of_stateOf hst
  obtain ⟨p, hp, -⟩ := procGet_of_stateOf hst
  have hpid : pid ∈ pids := mem_pids.mpr (mem_allPids (roster_proc hp))
  have hnone : rt.crew.task pid = none := Crew.task_of_live h hpid
  have hnone' : choreOf (rt.abs.proc pid) (rt.ledger.job pid) = none := hnone
  rw [hproc, choreOf] at hnone'
  by_contra hne
  rw [if_neg hne] at hnone'
  cases hnone'

theorem RtOp.run_busy_lt (ops : List RtOp) :
    (Runs.run RtOp.exec runtimeInit ops).busyTicks < 2 ^ 64 := by
  refine RtOp.run_ledger (I := fun l => l.busy < 2 ^ 64) (by decide)
    (fun gone l l' hev => hev.invariant (I := fun l => l.busy < 2 ^ 64) ?_ ?_) ops
  · intro l l' hl hs
    rw [(Ledger.steps_clock (.single hs)).2.1]
    exact hl
  · intro l l' hl hs
    cases hs with
    | burst => exact Nat.mod_lt _ (by decide)
    | idle => exact hl

/-- **Independent processes run to their end.**  In every reachable state in which the processes
that have not EXITED have only bursts, I/O and `EXIT` in front of them, and sleep if they are
BLOCKED, `runtime_step(n)` returns with all of them EXITED, under each policy, provided that `n`
exceeds the work left and the longest I/O left, that there are fewer of them than the dispatch
guard, and that the clock does not wrap.  The CPU is busy for exactly the work left. -/
theorem independent_complete (ops : List RtOp) (fuel n : ℕ) :
    let rt := Runs.run RtOp.exec runtimeInit ops
    rt.Independent → (rt.crew.live pids).card < maxDispatchGuard →
      rt.crew.work pids + rt.crew.rest pids < n → rt.tick + n < 2 ^ 64 →
      ∃ rt', runtimeStep fuel rt n = some rt' ∧
        (∀ pid st, rt'.abs.stateOf pid = some st → st = .exited) ∧ rt'.tick = rt.tick + n ∧
        rt'.busyTicks = (rt.busyTicks + rt.crew.work pids) % 2 ^ 64 := by
  intro rt hind hlive hn hroom
  have hsolo : Solo rt :=
    ⟨RtOp.run_consistent ops, RtOp.run_entered ops, hind, RtOp.run_busy_lt ops⟩
  obtain ⟨rt', hstep, hadv, hleft⟩ := runtimeStep_advanced fuel hsolo hlive (by omega) hroom
  have hnobody : rt'.crew.live pids = ∅ := hleft.resolve_left (by omega)
  refine ⟨rt', hstep, fun pid st hst => exited_of_live hnobody hst, hadv.tick, ?_⟩
  rw [← hadv.busy, Crew.work_of_live hnobody, Nat.add_zero, Nat.mod_eq_of_lt hadv.solo.busy]

set_option maxRecDepth 100000 in
/-- Six ticks of work and three of I/O, under round robin. -/
theorem independent_complete_two : ∃ rt', runtimeStep 0 (Runs.run RtOp.exec runtimeInit
    [.runWorkload ⟨"a", [⟨.cpu, 0, 0, 2⟩, ⟨.io, 0, 0, 3⟩, ⟨.cpu, 0, 0, 1⟩, ⟨.exit, 0, 0, 0⟩]⟩ 20,
      .runWorkload ⟨"b", [⟨.cpu, 0, 0, 3⟩, ⟨.exit, 0, 0, 0⟩]⟩ 20]) 10 = some rt' ∧
    ∀ pid st, rt'.abs.stateOf pid = some st → st = .exited := by
  have h := independent_complete
    [.runWorkload ⟨"a", [⟨.cpu, 0, 0, 2⟩, ⟨.io, 0, 0, 3⟩, ⟨.cpu, 0, 0, 1⟩, ⟨.exit, 0, 0, 0⟩]⟩ 20,
      .runWorkload ⟨"b", [⟨.cpu, 0, 0, 3⟩, ⟨.exit, 0, 0, 0⟩]⟩ 20] 0 10
    (by decide +kernel) (by decide +kernel) (by decide +kernel) (by decide +kernel)
  obtain ⟨rt', hstep, hexited, -⟩ := h
  exact ⟨rt', hstep, hexited⟩

end Mosrt
