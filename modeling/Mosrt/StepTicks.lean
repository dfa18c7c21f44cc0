/-
How far `runtime_step` advances the clock.

A pass of the inner loop takes a tick if it idles or is a tick of a burst (`takesTime`); the loop
gives up after `MAX_DISPATCH_GUARD` passes that did not.

* `step_advances` — `runtime_step(n)` advances the clock by `n` exactly if each of its `n` rounds
  finds a pass that takes time within the guard;
* `step_stands_still` — with 1024 processes that exit at once it does not advance at all.
-/
import Mosrt.Accounting

namespace Mosrt

open Relation

variable {rt rt' : Runtime} {fuel : ℕ}

/-! ### Passes that take time -/

/-- The process on the CPU stands at a burst. -/
def inBurst (rt : Runtime) : Bool :=
  match currentInsn rt rt.currentPid with
  | some (idx, some insn) => insn.op = .cpu ∧ 0 < burstOf rt idx insn
  | _ => false

/-- Nobody can be dispatched, or the process that is stands at a burst. -/
def takesTime (rt : Runtime) : Bool :=
  let d := dispatch (passPrepare rt)
  !d.1 || inBurst d.2

theorem runtimePass_tick {r : Bool × Runtime} (h : Consistent rt)
    (hr : runtimePass fuel rt = some r) :
    r.2.tick = if r.1 then incr64 rt.tick else rt.tick := by
  have hledger : r.1 = false ∧ Steps [] rt r.2 ∨ r.1 = true ∧ ∃ l₁ l₂,
      ReflTransGen Ledger.Stir rt.ledger l₁ ∧ Ledger.Tick False l₁ l₂ ∧
        ReflTransGen Ledger.Stir l₂ r.2.ledger := runtimePass_ledger h False.elim hr
  rcases hledger with ⟨hfalse, hsteps⟩ | ⟨htrue, l₁, l₂, h₁, h₂, h₃⟩
  · rw [hfalse, hsteps.clock.1]
    rfl
  · rw [htrue, if_pos rfl, ← ledger_tick, (Ledger.stirs_clock h₃).1, h₂.tick,
      (Ledger.stirs_clock h₁).1, ledger_tick]

theorem inBurst_eq {idx : ℕ} {insn : WorkloadInsn}
    (hcur : currentInsn rt rt.currentPid = some (idx, some insn)) :
    inBurst rt = decide (insn.op = .cpu ∧ 0 < burstOf rt idx insn) := by
  rw [inBurst, hcur]

/-- An instruction takes time exactly if it is a burst, and a burst ends. -/
theorem executeInstruction_inBurst {p : Pcb} (hcpu : OnCpu rt p) (fuel : ℕ) :
    (inBurst rt = true → (executeInstruction fuel rt).isSome = true) ∧
      ∀ r, executeInstruction fuel rt = some r → r.1 = inBurst rt := by
  rw [executeInstruction]
  obtain ⟨c, hc⟩ : ∃ c, currentInsn rt rt.currentPid = c := ⟨_, rfl⟩
  rw [hc]
  rcases c with _ | ⟨idx, _ | insn⟩
  · rw [inBurst, hc]
    refine ⟨fun htrue => (by cases htrue), fun r hr => ?_⟩
    rw [← Option.some.inj hr]
  · rw [inBurst, hc]
    refine ⟨fun htrue => (by cases htrue), fun r hr => ?_⟩
    rw [← Option.some.inj hr]
  · rw [inBurst_eq hc]
    dsimp only
    by_cases hop : insn.op = .cpu
    · rw [hop]
      refine ⟨fun _ => rfl, fun r hr => ?_⟩
      rw [← Option.some.inj hr, execCpu_eq hcpu]
      split_ifs with hn
      · rw [hn]
        rfl
      · have hpos : 0 < burstOf rt idx insn := Nat.pos_of_ne_zero hn
        exact (decide_eq_true ⟨rfl, hpos⟩).symm
    · have hnot : decide (insn.op = .cpu ∧ 0 < burstOf rt idx insn) = false :=
        decide_eq_false fun h => hop h.1
      rw [hnot]
      refine ⟨fun htrue => (by cases htrue), fun r hr => ?_⟩
      cases hcase : insn.op with
      | cpu => exact absurd hcase hop
      | mmap =>
        rw [hcase] at hr
        obtain ⟨rt', -, rfl⟩ := Option.map_eq_some_iff.mp hr
        rfl
      | io | send | recv | semWait | semPost | lock | unlock | access | mfree | exit =>
        rw [hcase] at hr
        rw [← Option.some.inj hr]

/-- A pass that takes time ends, and any pass that ends says whether it took time. -/
theorem runtimePass_takesTime (h : Consistent rt) (fuel : ℕ) :
    (takesTime rt = true → (runtimePass fuel rt).isSome = true) ∧
      ∀ r, runtimePass fuel rt = some r → r.1 = takesTime rt := by
  obtain ⟨hs, hsteps⟩ := passPrepare_spec h.sound
  obtain ⟨-, hd⟩ := dispatch_spec hs (h.placed.steps hsteps)
  have hplaced := h.placed.steps hsteps
  rw [takesTime, runtimePass]
  generalize passPrepare rt = m at hd hplaced ⊢
  rcases hd with ⟨htrue, hpos, hsteps'⟩ | ⟨hfalse, -⟩
  · obtain ⟨p, hcpu⟩ := (hplaced.steps hsteps').onCpu hpos
    rw [if_pos htrue, htrue, Bool.not_true, Bool.false_or]
    exact executeInstruction_inBurst hcpu fuel
  · rw [if_neg (by rw [hfalse]; exact Bool.false_ne_true), hfalse, Bool.not_false, Bool.true_or]
    refine ⟨fun _ => rfl, fun r hr => ?_⟩
    rw [← Option.some.inj hr]

/-! ### The inner loop -/

/-- One of the next `guard` passes takes time, and those before it end. -/
def timeWithin (fuel : ℕ) : ℕ → Runtime → Bool
  | 0, _ => false
  | guard + 1, rt =>
    takesTime rt || (runtimePass fuel rt).elim false fun r => timeWithin fuel guard r.2

theorem Consistent.pass {r : Bool × Runtime} (h : Consistent rt)
    (hr : runtimePass fuel rt = some r) : Consistent r.2 := by
  have hexec : RtOp.exec rt (.pass fuel) = r.2 := by rw [RtOp.exec, hr, Option.elim_some]
  rw [← hexec]
  exact RtOp.consistent h _

theorem Consistent.stepTick {guard : ℕ} (h : Consistent rt)
    (hstep : stepTick fuel guard rt = some rt') : Consistent rt' := by
  obtain ⟨k, rfl⟩ := stepTick_passes hstep
  exact Runs.run_invariant (fun _ op h _ => op.consistent h) h (Runs.along_true _ _)

/-- A round that finds time takes one tick. -/
theorem stepTick_of_time {guard : ℕ} (h : Consistent rt) (htime : timeWithin fuel guard rt = true) :
    ∃ rt', stepTick fuel guard rt = some rt' ∧ rt'.tick = incr64 rt.tick := by
  induction guard generalizing rt with
  | zero => cases htime
  | succ guard ih =>
    obtain ⟨hends, htells⟩ := runtimePass_takesTime h fuel
    rw [timeWithin, Bool.or_eq_true] at htime
    rw [stepTick]
    cases hr : runtimePass fuel rt with
    | none =>
      rw [hr] at htime hends
      rcases htime with htime | htime
      · cases hends htime
      · cases htime
    | some r =>
      have htick := runtimePass_tick h hr
      rw [Option.bind_some]
      by_cases hr1 : r.1 = true
      · rw [if_pos hr1] at htick ⊢
        exact ⟨r.2, rfl, htick⟩
      · rw [if_neg hr1] at htick ⊢
        rw [hr] at htime
        rw [htells r hr] at hr1
        obtain ⟨rt', hstep, htick'⟩ := ih (h.pass hr) (htime.resolve_left hr1)
        exact ⟨rt', hstep, by rw [htick', htick]⟩

/-- A round that does not find time leaves the clock where it is. -/
theorem stepTick_of_no_time {guard : ℕ} (h : Consistent rt)
    (htime : timeWithin fuel guard rt = false) (hstep : stepTick fuel guard rt = some rt') :
    rt'.tick = rt.tick := by
  induction guard generalizing rt with
  | zero => rw [← Option.some.inj hstep]
  | succ guard ih =>
    obtain ⟨-, htells⟩ := runtimePass_takesTime h fuel
    rw [timeWithin, Bool.or_eq_false_iff] at htime
    rw [stepTick] at hstep
    obtain ⟨r, hr, hstep⟩ := Option.bind_eq_some_iff.mp hstep
    have htick := runtimePass_tick h hr
    have hr1 : ¬ r.1 = true := by
      rw [htells r hr, htime.1]
      exact Bool.false_ne_true
    rw [if_neg hr1] at hstep htick
    rw [hr] at htime
    exact (ih (h.pass hr) htime.2 hstep).trans htick

/-! ### The outer loop -/

/-- Each of the next `n` rounds finds time within the guard. -/
def everyRoundTakesTime (fuel : ℕ) : ℕ → Runtime → Bool
  | 0, _ => true
  | n + 1, rt =>
    timeWithin fuel maxDispatchGuard rt &&
      (stepTick fuel maxDispatchGuard rt).elim false (everyRoundTakesTime fuel n)

theorem runtimeStep_of_time {n : ℕ} (h : Consistent rt) (hbound : rt.tick < 2 ^ 64)
    (htime : everyRoundTakesTime fuel n rt = true) :
    ∃ rt', runtimeStep fuel rt n = some rt' ∧ rt'.tick = (rt.tick + n) % 2 ^ 64 := by
  induction n generalizing rt with
  | zero => exact ⟨rt, rfl, (Nat.mod_eq_of_lt hbound).symm⟩
  | succ n ih =>
    rw [everyRoundTakesTime, Bool.and_eq_true] at htime
    obtain ⟨rt₁, hstep, htick⟩ := stepTick_of_time h htime.1
    rw [hstep] at htime
    rw [incr64] at htick
    obtain ⟨rt', hrest, htick'⟩ := ih (h.stepTick hstep) (by omega) htime.2
    refine ⟨rt', ?_, by omega⟩
    rw [runtimeStep, hstep, Option.bind_some, hrest]

/-- A call takes at most one tick a round, and fewer if a round does not find time. -/
theorem runtimeStep_tick {n : ℕ} (h : Consistent rt) (hbound : rt.tick < 2 ^ 64)
    (hstep : runtimeStep fuel rt n = some rt') :
    ∃ k ≤ n, rt'.tick = (rt.tick + k) % 2 ^ 64 ∧
      (everyRoundTakesTime fuel n rt = false → k < n) := by
  induction n generalizing rt with
  | zero =>
    rw [← Option.some.inj hstep]
    exact ⟨0, le_rfl, (Nat.mod_eq_of_lt hbound).symm, nofun⟩
  | succ n ih =>
    rw [runtimeStep] at hstep
    obtain ⟨rt₁, hround, hrest⟩ := Option.bind_eq_some_iff.mp hstep
    rw [everyRoundTakesTime, hround, Option.elim_some]
    cases htime : timeWithin fuel maxDispatchGuard rt with
    | true =>
      obtain ⟨rt₂, hround', htick⟩ := stepTick_of_time h htime
      obtain rfl : rt₁ = rt₂ := Option.some.inj (hround.symm.trans hround')
      rw [incr64] at htick
      obtain ⟨k, hk, htick', hless⟩ := ih (h.stepTick hround) (by omega) hrest
      refine ⟨k + 1, by omega, by omega, fun hno => ?_⟩
      have := hless hno
      omega
    | false =>
      have htick := stepTick_of_no_time h htime hround
      obtain ⟨k, hk, htick', -⟩ := ih (h.stepTick hround) (by omega) hrest
      exact ⟨k, by omega, by rw [htick', htick], fun _ => by omega⟩

theorem RtOp.run_tick_lt (ops : List RtOp) :
    (Runs.run RtOp.exec runtimeInit ops).tick < 2 ^ 64 := by
  refine RtOp.run_ledger (I := fun l => l.tick < 2 ^ 64) (by decide)
    (fun gone l l' hev => hev.invariant (I := fun l => l.tick < 2 ^ 64) ?_ ?_) ops
  · intro l l' hl hs
    rw [(Ledger.steps_clock (.single hs)).1]
    exact hl
  · intro l l' _ hs
    rw [hs.tick]
    exact Nat.mod_lt _ (by decide)

/-- **Steps of `n` ticks.**  In every reachable state, `runtime_step(n)` returns and advances the
clock by `n` exactly if each of its rounds finds a pass that takes time within the guard. -/
theorem step_advances (ops : List RtOp) (n : ℕ) (hn : n < 2 ^ 32) :
    let rt := Runs.run RtOp.exec runtimeInit ops
    (∃ fuel rt', runtimeStep fuel rt n = some rt' ∧ rt'.tick = (rt.tick + n) % 2 ^ 64) ↔
      ∃ fuel, everyRoundTakesTime fuel n rt = true := by
  have h := RtOp.run_consistent ops
  have hbound := RtOp.run_tick_lt ops
  dsimp only
  generalize Runs.run RtOp.exec runtimeInit ops = rt at h hbound ⊢
  constructor
  · rintro ⟨fuel, rt', hstep, htick⟩
    refine ⟨fuel, ?_⟩
    obtain ⟨k, -, htick', hless⟩ := runtimeStep_tick h hbound hstep
    rw [htick'] at htick
    by_contra hno
    have := hless (Bool.eq_false_iff.mpr hno)
    omega
  · rintro ⟨fuel, htime⟩
    exact ⟨fuel, runtimeStep_of_time h hbound htime⟩

/-- One process sends the other a message; both then compute and exit. -/
def messageRun : List RtOp :=
  [.runWorkload ⟨"a", [⟨.send, 1, 7, 0⟩, ⟨.cpu, 0, 0, 2⟩, ⟨.exit, 0, 0, 0⟩]⟩ 0,
    .runWorkload ⟨"b", [⟨.recv, 1, 0, 0⟩, ⟨.cpu, 0, 0, 1⟩, ⟨.exit, 0, 0, 0⟩]⟩ 0]

set_option maxRecDepth 100000 in
/-- Three ticks of bursts and an idle one, with four instructions between them that take none. -/
theorem step_advances_message :
    let rt := Runs.run RtOp.exec runtimeInit messageRun
    ∃ fuel rt', runtimeStep fuel rt 4 = some rt' ∧ rt'.tick = (rt.tick + 4) % 2 ^ 64 :=
  (step_advances messageRun 4 (by decide)).mpr ⟨0, by decide +kernel⟩

/-! ### Processes that leave at once -/

namespace Core

variable {c c' : Core} {pid : ℤ}

/-- The processes that are READY or RUNNING. -/
noncomputable def alive (c : Core) : Finset ℤ :=
  (Finset.Icc (1 : ℤ) mosrtMaxProcs).filter fun pid =>
    c.stateOf pid = some .ready ∨ c.stateOf pid = some .running

theorem mem_alive : pid ∈ c.alive ↔ (1 ≤ pid ∧ pid ≤ mosrtMaxProcs) ∧
    (c.stateOf pid = some .ready ∨ c.stateOf pid = some .running) := by
  rw [alive, Finset.mem_filter, Finset.mem_Icc]

/-- Every process that has not EXITED is alive and stands at an `EXIT`. -/
def Leaving (c : Core) : Prop :=
  ∀ pid st, c.stateOf pid = some st → st = .exited ∨
    (st = .ready ∨ st = .running) ∧ ∃ insn, c.insn pid = some insn ∧ insn.op = .exit

/-- Nobody is BLOCKED, and a dispatch keeps a process alive. -/
theorem Leaving.quiet (h : Leaving c) (hq : Quiet c c') : Leaving c' ∧ c'.alive = c.alive := by
  cases hq with
  | timer pid w hproc _ =>
    rcases h pid .blocked (stateOf_eq hproc) with hx | ⟨hx | hx, -⟩ <;> cases hx
  | dispatch pid w _ hproc =>
    have hready : c.stateOf pid = some .ready := stateOf_eq hproc
    have hstate : ∀ q, ({ c.setProc pid .running w with current := pid } : Core).stateOf q =
        if q = pid then some .running else c.stateOf q := fun q => stateOf_setProc
    constructor
    · intro q st hst
      rw [hstate] at hst
      split_ifs at hst with hqp
      · rcases h pid .ready hready with hx | ⟨-, hinsn⟩
        · cases hx
        · rw [hqp]
          exact .inr ⟨.inr (Option.some.inj hst).symm, hinsn⟩
      · exact h q st hst
    · ext q
      rw [mem_alive, mem_alive, hstate]
      split_ifs with hqp
      · rw [hqp, hready]
        simp
      · rfl

theorem Leaving.quiets (h : Leaving c) (hq : Relation.ReflTransGen Quiet c c') :
    Leaving c' ∧ c'.alive = c.alive := by
  induction hq with
  | refl => exact ⟨h, rfl⟩
  | tail _ hs ih =>
    obtain ⟨hleaving, halive⟩ := ih.1.quiet hs
    exact ⟨hleaving, halive.trans ih.2⟩

theorem Leaving.leave (h : Leaving c) : Leaving (c.leave .exited 0) ∧
    (c.leave .exited 0).alive = c.alive.erase c.current := by
  have hstate : ∀ q, (c.leave .exited 0).stateOf q =
    if q = c.current then some .exited else c.stateOf q := fun q => stateOf_setProc
  constructor
  · intro q st hst
    rw [hstate] at hst
    split_ifs at hst
    · exact .inl (Option.some.inj hst).symm
    · exact h q st hst
  · ext q
    rw [Finset.mem_erase, mem_alive, mem_alive, hstate]
    split_ifs with hq
    · simp [hq]
    · simp [hq]

/-- Every process is READY and stands at an `EXIT`. -/
def Waiting (c : Core) : Prop :=
  ∀ pid st, c.stateOf pid = some st →
    st = .ready ∧ ∃ insn, c.insn pid = some insn ∧ insn.op = .exit

theorem Waiting.leaving (h : Waiting c) : Leaving c := by
  intro pid st hst
  obtain ⟨hready, hinsn⟩ := h pid st hst
  exact .inr ⟨.inl hready, hinsn⟩

theorem Waiting.spawn (insn : WorkloadInsn) (h : Waiting c) (hnew : c.stateOf pid = none)
    (hpid : 1 ≤ pid ∧ pid ≤ mosrtMaxProcs) (hop : insn.op = .exit) :
    Waiting (c.spawn pid (some insn)) ∧
      (c.spawn pid (some insn)).alive.card = c.alive.card + 1 := by
  have hstate : ∀ q, (c.spawn pid (some insn)).stateOf q =
    if q = pid then some .ready else c.stateOf q := fun q => stateOf_setProc
  constructor
  · intro q st hst
    rw [hstate] at hst
    show _ ∧ ∃ i, Function.update c.insn pid (some insn) q = some i ∧ _
    rw [Function.update_apply]
    split_ifs at hst ⊢ with hq
    · exact ⟨(Option.some.inj hst).symm, insn, rfl, hop⟩
    · exact h q st hst
  · have hnot : pid ∉ c.alive := by
      rw [mem_alive, hnew]
      simp
    have hinsert : (c.spawn pid (some insn)).alive = insert pid c.alive := by
      ext q
      rw [Finset.mem_insert, mem_alive, mem_alive, hstate]
      split_ifs with hq
      · rw [hq]
        exact ⟨fun _ => .inl rfl, fun _ => ⟨hpid, .inl rfl⟩⟩
      · simp [hq]
    rw [hinsert, Finset.card_insert_of_notMem hnot]

end Core

/-- The process on the CPU leaves. -/
theorem execute_of_leaving (hs : rt.Sound) (hplaced : rt.abs.Placed) (hpos : 0 ≤ rt.currentPid)
    (hleaving : rt.abs.Leaving) (fuel : ℕ) :
    ∃ rt', executeInstruction fuel rt = some (false, rt') ∧ rt'.abs.Leaving ∧
      rt'.abs.alive.card + 1 = rt.abs.alive.card := by
  obtain ⟨p, hcpu⟩ := hplaced.onCpu hpos
  have hrun : rt.abs.stateOf rt.abs.current = some .running := Core.stateOf_eq hcpu.proc
  obtain hx | ⟨-, insn, hinsn, hop⟩ := hleaving _ _ hrun
  · cases hx
  obtain ⟨q, idx, hat⟩ := atInsn hs hplaced hpos hinsn
  obtain ⟨-, habs⟩ := exitCurrent_spec rt hs hcpu 0
  obtain ⟨hleft, herase⟩ := hleaving.leave
  refine ⟨exitCurrent rt 0, ?_, ?_, ?_⟩
  · rw [executeInstruction, hat.current]
    dsimp only
    rw [hop]
  · rw [habs]
    exact hleft
  · have hmem : rt.abs.current ∈ rt.abs.alive := by
      have hrange := procGet_range hcpu.get
      exact Core.mem_alive.mpr ⟨⟨hrange.1, hrange.2⟩, .inr hrun⟩
    rw [habs, herase]
    exact Finset.card_erase_add_one hmem

/-- While the CPU is idle and nobody is READY, nobody is alive. -/
theorem alive_of_idle (hplaced : rt.abs.Placed) (hcur : rt.currentPid < 0)
    (hnobody : NobodyReady rt.procs) : ¬ rt.abs.alive.Nonempty := by
  rintro ⟨q, hq⟩
  obtain ⟨-, hq | hq⟩ := Core.mem_alive.mp hq
  · obtain ⟨p, hp, hready⟩ := procGet_of_stateOf hq
    exact hnobody q p hp hready
  · have hqcur : q = rt.currentPid := hplaced.running q hq
    have hpos := hplaced.positive q (by rw [hq]; exact Option.some_ne_none _)
    omega

/-- A process leaves, and no time passes. -/
theorem pass_of_leaving (h : Consistent rt) (hleaving : rt.abs.Leaving)
    (halive : rt.abs.alive.Nonempty) (fuel : ℕ) :
    ∃ rt', runtimePass fuel rt = some (false, rt') ∧ rt'.abs.Leaving ∧
      rt'.abs.alive.card + 1 = rt.abs.alive.card := by
  obtain ⟨hs, hsteps⟩ := passPrepare_spec h.sound
  have hplaced := h.placed.steps hsteps
  obtain ⟨hleaving', halive'⟩ := hleaving.quiets hsteps
  obtain ⟨hds, hd⟩ := dispatch_spec hs hplaced
  rw [runtimePass]
  rcases hd with ⟨htrue, hpos, hsteps'⟩ | ⟨hfalse, -, hnobody⟩
  · rw [if_pos htrue]
    obtain ⟨hleaving'', halive''⟩ := hleaving'.quiets hsteps'
    rw [← halive', ← halive'']
    exact execute_of_leaving hds (hplaced.steps hsteps') hpos hleaving'' fuel
  · rw [← halive'] at halive
    exact absurd halive (alive_of_idle hplaced (dispatch_false hfalse) hnobody)

/-- As long as processes leave, the clock stands still. -/
theorem stepTick_of_leaving {guard : ℕ} (h : Consistent rt) (hleaving : rt.abs.Leaving)
    (hguard : guard ≤ rt.abs.alive.card) (fuel : ℕ) :
    ∃ rt', stepTick fuel guard rt = some rt' ∧ rt'.tick = rt.tick := by
  induction guard generalizing rt with
  | zero => exact ⟨rt, rfl, rfl⟩
  | succ guard ih =>
    obtain ⟨rt₁, hpass, hleaving₁, hcard⟩ :=
      pass_of_leaving h hleaving (Finset.card_pos.mp (by omega)) fuel
    have h₁ : Consistent rt₁ := h.pass hpass
    obtain ⟨rt', hstep, htick⟩ := ih h₁ hleaving₁ (by omega)
    refine ⟨rt', ?_, htick.trans (runtimePass_tick h hpass)⟩
    rw [stepTick, hpass, Option.bind_some]
    exact hstep

/-- A workload that ends at once. -/
def exitWorkload : Workload := ⟨"exit", [⟨.exit, 0, 0, 0⟩]⟩

/-- One more process waits, unless all that fit do. -/
theorem create_waiting {n : ℕ} (h : rt.Sound) (hwaiting : rt.abs.Waiting)
    (hcard : n ≤ rt.abs.alive.card) (hn : n < mosrtMaxProcs) :
    (RtOp.exec rt (.runWorkload exitWorkload 0)).abs.Waiting ∧
      n + 1 ≤ (RtOp.exec rt (.runWorkload exitWorkload 0)).abs.alive.card := by
  rw [RtOp.exec]
  obtain ⟨-, ⟨habs, hfull⟩ | ⟨pid, hnew, hpos, hle, habs⟩⟩ :=
    runtimeRunWorkload_spec exitWorkload h 0
  · rw [habs]
    have hall : rt.abs.alive = Finset.Icc (1 : ℤ) mosrtMaxProcs := by
      refine Finset.filter_true_of_mem fun pid hpid => ?_
      rw [Finset.mem_Icc] at hpid
      have hidx : ((pid - 1).toNat : ℤ) + 1 = pid := by omega
      have hp := hfull.get (pid - 1).toNat (by omega)
      rw [hidx] at hp
      rw [abs_stateOf hp, (hwaiting pid _ (abs_stateOf hp)).1]
      exact .inl rfl
    rw [hall, Int.card_Icc]
    exact ⟨hwaiting, by omega⟩
  · obtain ⟨hwaiting', hcard'⟩ := hwaiting.spawn ⟨.exit, 0, 0, 0⟩ hnew ⟨hpos, hle⟩ rfl
    have hfirst : exitWorkload.insns[0]? = some ⟨.exit, 0, 0, 0⟩ := rfl
    rw [habs, hfirst, hcard']
    exact ⟨hwaiting', Nat.succ_le_succ hcard⟩

theorem creates_waiting (n : ℕ) (hn : n ≤ mosrtMaxProcs) :
    (Runs.run RtOp.exec runtimeInit (List.replicate n (.runWorkload exitWorkload 0))).abs.Waiting ∧
      n ≤ (Runs.run RtOp.exec runtimeInit
        (List.replicate n (.runWorkload exitWorkload 0))).abs.alive.card := by
  induction n with
  | zero =>
    refine ⟨fun pid st hst => ?_, Nat.zero_le _⟩
    obtain ⟨p, hp, -⟩ := procGet_of_stateOf hst
    exact absurd hp (by rw [List.replicate_zero, Runs.run_nil, procGet_init]; exact nofun)
  | succ n ih =>
    obtain ⟨hwaiting, hcard⟩ := ih (by omega)
    have hsound := (RtOp.run_consistent (List.replicate n (.runWorkload exitWorkload 0))).sound
    rw [List.replicate_succ', Runs.run_append, Runs.run_cons, Runs.run_nil]
    exact create_waiting hsound hwaiting hcard (Nat.lt_of_succ_le hn)

/-- As many processes as fit. -/
def exitCrowd : List RtOp := List.replicate mosrtMaxProcs (.runWorkload exitWorkload 0)

/-- The passes of a step that finds 1024 processes at their EXIT are used up by them. -/
theorem step_of_exiting (fuel : ℕ) :
    ∃ rt', runtimeStep fuel (Runs.run RtOp.exec runtimeInit exitCrowd) 1 = some rt' ∧
      rt'.tick = (Runs.run RtOp.exec runtimeInit exitCrowd).tick := by
  obtain ⟨hwaiting, hcard⟩ := creates_waiting mosrtMaxProcs le_rfl
  have h := RtOp.run_consistent exitCrowd
  rw [← exitCrowd] at hwaiting hcard
  generalize Runs.run RtOp.exec runtimeInit exitCrowd = rt at hwaiting hcard h ⊢
  obtain ⟨rt', hstep, htick⟩ := stepTick_of_leaving h hwaiting.leaving hcard fuel
  refine ⟨rt', ?_, htick⟩
  rw [runtimeStep, hstep, Option.bind_some]
  rfl

/-- 1024 processes that exit at once: a step of one tick ends before the tick. -/
theorem step_stands_still :
    let rt := Runs.run RtOp.exec runtimeInit exitCrowd
    ∃ rt', runtimeStep 0 rt 1 = some rt' ∧ rt'.tick = rt.tick ∧
      rt'.tick ≠ (rt.tick + 1) % 2 ^ 64 := by
  obtain ⟨rt', hstep, htick⟩ := step_of_exiting 0
  have hbound := RtOp.run_tick_lt exitCrowd
  exact ⟨rt', hstep, htick, by omega⟩

end Mosrt
