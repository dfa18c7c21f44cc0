/-
How long a process keeps the CPU.

The scheduler counts the ticks of the process on the CPU in `consumed_ticks`, but only if its own
`current_pid` names that process.  `Sliced` is a runtime with a count of our own: the CPU ticks of
the process on the CPU since its dispatch.

* `quantum_enforced` — the two agree on who is on the CPU, and under SCHED_RR nobody has more ticks
  than the quantum, exactly if the policy is switched only while the CPU is idle.
-/
import Mosrt.RosterSpec
import Mosrt.StepTicks

namespace Mosrt

/-! ### Counting ticks -/

/-- The CPU ticks of the process on the CPU after an operation, if it had `n` before. -/
def sliceTicks (rt : Runtime) (n : ℕ) : RtOp → ℕ
  | .pass fuel =>
    (runtimePass fuel rt).elim n fun r =>
      (if rt.currentPid < 0 then 0 else n) + if r.1 && (dispatch (passPrepare rt)).1 then 1 else 0
  | _ => n

/-- A runtime and the CPU ticks of the process on the CPU. -/
structure Sliced where
  rt : Runtime
  ticks : ℕ

def Sliced.exec (s : Sliced) (op : RtOp) : Sliced := ⟨RtOp.exec s.rt op, sliceTicks s.rt s.ticks op⟩

/-- The operation changes the policy or the quantum. -/
def RtOp.reconfigures : RtOp → Bool
  | .setScheduler _ | .setQuantum _ => true
  | _ => false

theorem Sliced.run_rt (s : Sliced) (ops : List RtOp) :
    (Runs.run Sliced.exec s ops).rt = Runs.run RtOp.exec s.rt ops := by
  induction ops generalizing s with
  | nil => rfl
  | cons op ops ih => exact ih (s.exec op)

namespace Roster

variable {r r' d : Roster} {ran b : Bool} {op : RtOp} {n : ℕ}

/-! ### Whom the scheduler charges -/

/-- The scheduler charges the process on the CPU, and its counter does not wrap. -/
structure Metered (r : Roster) : Prop where
  quantum_pos : 0 < r.quantum
  quantum_lt : r.quantum < 2 ^ 32
  charged : 0 ≤ r.current → r.charged = r.current
  below : 0 ≤ r.current → r.algo ≠ .fcfs → r.consumed + 1 < 2 ^ 32

theorem Metered.same (h : r.Metered) (hs : Same r r') : r'.Metered := by
  have hquantum := hs.quantum h.quantum_pos.ne'
  constructor
  · rw [hquantum]
    exact h.quantum_pos
  · rw [hquantum]
    exact h.quantum_lt
  · rw [hs.charged, hs.current]
    exact h.charged
  · rw [hs.current, hs.algo, hs.consumed]
    exact h.below

theorem Metered.of_idle (h : r.Metered) (hquantum : r'.quantum = r.quantum)
    (hidle : r'.current < 0) :
    r'.Metered :=
  ⟨hquantum ▸ h.quantum_pos, hquantum ▸ h.quantum_lt, fun hpos => absurd hpos (not_le.mpr hidle),
    fun hpos => absurd hpos (not_le.mpr hidle)⟩

theorem Metered.dispatches (h : r.Metered) (hd : r.Dispatches b d) : d.Metered := by
  cases hd with
  | stays => exact h
  | nobody hidle => exact h.of_idle rfl hidle
  | picks pid e l rest =>
    have hzero : 0 + 1 < 2 ^ 32 := by decide
    exact ⟨h.quantum_pos, h.quantum_lt, fun _ => rfl, fun _ _ => hzero⟩

theorem Metered.exec (h : r.Metered) (hexec : r.Exec b r') : r'.Metered := by
  cases hexec with
  | stay => exact h
  | wake pid => exact h.same (same_wake r pid)
  | leave e st w => exact h.of_idle rfl (by decide : (-1 : ℤ) < 0)
  | tick hflag hbelow =>
    refine ⟨h.quantum_pos, h.quantum_lt, h.charged, fun _ ha => ?_⟩
    have hlt := hbelow ha
    have hq := h.quantum_lt
    omega
  | preempt e => exact h.of_idle rfl (by decide : (-1 : ℤ) < 0)

theorem Metered.pass (h : r.Metered) (hpass : r.Pass d ran b r') : r'.Metered := by
  have hprepare := h.same (same_prepare mlfqBoostInterval r)
  cases hpass with
  | runs hd hexec => exact (hprepare.dispatches hd).exec hexec
  | idles hd =>
    have hd' := hprepare.dispatches hd
    exact ⟨hd'.quantum_pos, hd'.quantum_lt, hd'.charged, hd'.below⟩

theorem kill_current (r : Roster) (pid : ℤ) (e : RosterEntry) :
    (r.kill pid e).current < 0 ∨ (r.kill pid e).current = r.current := by
  by_cases hcur : r.current = pid
  · left
    show (if r.current = pid then -1 else r.current) < 0
    rw [if_pos hcur]
    decide
  · right
    exact if_neg hcur

/-- Only a switch of the policy under a running process breaks the agreement. -/
theorem Metered.moves (h : r.Metered) (hm : r.Moves op r')
    (hquantum : ∀ ticks, op = .setQuantum ticks → ticks < 2 ^ 32)
    (hswitch : ∀ a, op = .setScheduler a → r.current < 0) : r'.Metered := by
  cases hm with
  | pass fuel hpass => exact h.pass hpass
  | hangs | full | spared | nobody | repaged => exact h
  | spawn | setPriority | flag => exact ⟨h.quantum_pos, h.quantum_lt, h.charged, h.below⟩
  | kill pid e =>
    rcases kill_current r pid e with hidle | hsame
    · exact h.of_idle (if_neg h.quantum_pos.ne') hidle
    · have hquantum : (r.kill pid e).quantum = r.quantum := if_neg h.quantum_pos.ne'
      refine ⟨hquantum ▸ h.quantum_pos, hquantum ▸ h.quantum_lt, ?_, ?_⟩
      · intro hpos
        exact (h.charged (hsame ▸ hpos)).trans hsame.symm
      · intro hpos
        exact h.below (hsame ▸ hpos)
  | setAlgo a =>
    have hidle := hswitch a rfl
    exact h.of_idle (if_neg h.quantum_pos.ne') hidle
  | setQuantum ticks =>
    have hlt := hquantum ticks rfl
    refine ⟨?_, ?_, h.charged, h.below⟩
    · show 0 < if ticks = 0 then 1 else ticks
      split_ifs <;> omega
    · show (if ticks = 0 then 1 else ticks) < 2 ^ 32
      split_ifs <;> omega

/-! ### Slices under round robin -/

/-- A count of `n` ticks that the scheduler's count covers, and that the quantum bounds. -/
structure WithinSlice (r : Roster) (n : ℕ) : Prop where
  covered : 0 ≤ r.current → n ≤ r.consumed ∧ n < r.quantum
  bounded : n ≤ r.quantum

theorem WithinSlice.same (hm : r.Metered) (h : r.WithinSlice n) (hs : Same r r') :
    r'.WithinSlice n := by
  have hquantum := hs.quantum hm.quantum_pos.ne'
  constructor
  · rw [hs.current, hs.consumed, hquantum]
    exact h.covered
  · rw [hquantum]
    exact h.bounded

/-- The count starts again with a dispatch. -/
theorem WithinSlice.dispatches (h : r.WithinSlice n) (hm : r.Metered) (hd : r.Dispatches b d) :
    d.WithinSlice (if r.current < 0 then 0 else n) := by
  cases hd with
  | stays hpos =>
    rw [if_neg (not_lt.mpr hpos)]
    exact h
  | nobody hidle =>
    rw [if_pos hidle]
    exact ⟨fun hpos => absurd hpos (not_le.mpr hidle), Nat.zero_le _⟩
  | picks pid e l rest hidle =>
    rw [if_pos hidle]
    exact ⟨fun _ => ⟨le_rfl, hm.quantum_pos⟩, Nat.zero_le _⟩

theorem WithinSlice.exec (h : r.WithinSlice n) (hm : r.Metered) (ha : r.algo = .rr)
    (hpos : 0 ≤ r.current) (hexec : r.Exec b r') : r'.WithinSlice (n + if b then 1 else 0) := by
  obtain ⟨hle, hlt⟩ := h.covered hpos
  have hne : r.algo ≠ .fcfs := by
    rw [ha]
    exact nofun
  have hidle : ¬ (0 : ℤ) ≤ -1 := by decide
  cases hexec with
  | stay => exact h
  | wake pid => exact h.same hm (same_wake r pid)
  | leave e st w => exact ⟨fun hpos => absurd hpos hidle, h.bounded⟩
  | tick hflag hbelow =>
    -- the tick is charged, and the counter does not wrap
    have hspend : r.spend.consumed = r.consumed + 1 := by
      rw [spend]
      dsimp only
      rw [if_pos (hm.charged hpos), Nat.mod_eq_of_lt (hm.below hpos hne)]
    have hless := hbelow hne
    rw [hspend] at hless
    refine ⟨fun _ => ?_, ?_⟩
    · rw [hspend, if_pos rfl]
      exact ⟨Nat.add_le_add_right hle 1, (Nat.add_le_add_right hle 1).trans_lt hless⟩
    · exact hlt
  | preempt e => exact ⟨fun hpos => absurd hpos hidle, hlt⟩

theorem WithinSlice.pass (h : r.WithinSlice n) (hm : r.Metered) (ha : r.algo = .rr)
    (hpass : r.Pass d ran b r') :
    r'.WithinSlice ((if r.current < 0 then 0 else n) + if b && ran then 1 else 0) := by
  have hsame := same_prepare mlfqBoostInterval r
  have hmp := hm.same hsame
  have hp := h.same hm hsame
  rw [← hsame.current]
  cases hpass with
  | runs hd hexec =>
    rw [Bool.and_true]
    exact (hp.dispatches hmp hd).exec (hmp.dispatches hd) (hd.algo.trans (hsame.algo.trans ha))
      hd.current_nonneg hexec
  | idles hd =>
    obtain ⟨hcovered, hbounded⟩ := hp.dispatches hmp hd
    rw [Bool.and_false, if_neg Bool.false_ne_true, Nat.add_zero]
    exact ⟨hcovered, hbounded⟩

theorem WithinSlice.moves (h : r.WithinSlice n) (hm : r.Metered) (hmoves : r.Moves op r')
    (hpass : ∀ fuel, op ≠ .pass fuel) (hop : op.reconfigures = false) : r'.WithinSlice n := by
  cases hmoves with
  | pass fuel | hangs fuel => exact absurd rfl (hpass fuel)
  | full | spared | nobody | repaged => exact h
  | spawn | setPriority | flag => exact ⟨h.covered, h.bounded⟩
  | kill pid e =>
    have hquantum : (r.kill pid e).quantum = r.quantum := if_neg hm.quantum_pos.ne'
    refine ⟨fun hpos => ?_, hquantum ▸ h.bounded⟩
    rcases kill_current r pid e with hidle | hsame
    · exact absurd hpos (not_le.mpr hidle)
    · rw [hquantum]
      exact h.covered (hsame ▸ hpos)
  | setAlgo | setQuantum => cases hop

end Roster

variable {rt : Runtime} {op : RtOp} {ops : List RtOp} {n : ℕ}

theorem sliceTicks_eq (h : ∀ fuel, op ≠ .pass fuel) : sliceTicks rt n op = n := by
  cases op with
  | pass fuel => exact absurd rfl (h fuel)
  | runWorkload | kill | setScheduler | setQuantum | setNice | setPriority | setPolicy | yield |
    timerSignal => rfl

theorem sliceTicks_pass {fuel : ℕ} {r : Bool × Runtime} (h : runtimePass fuel rt = some r) :
    sliceTicks rt n (.pass fuel) = (if rt.currentPid < 0 then 0 else n) +
      if r.1 && (dispatch (passPrepare rt)).1 then 1 else 0 := by
  rw [sliceTicks, h, Option.elim_some]

/-- What passes and other operations keep of the count, every operation keeps. -/
theorem sliced_exec {I : Roster → ℕ → Prop} (hrt : Consistent rt) (h : I rt.roster n)
    (hmoves : rt.roster.Moves op (RtOp.exec rt op).roster → (∀ fuel, op ≠ .pass fuel) →
      I (RtOp.exec rt op).roster n)
    (hpass : ∀ {d r' : Roster} {ran b : Bool}, rt.roster.Pass d ran b r' →
      I r' ((if rt.roster.current < 0 then 0 else n) + if b && ran then 1 else 0)) :
    I (RtOp.exec rt op).roster (sliceTicks rt n op) := by
  by_cases hop : ∀ fuel, op ≠ .pass fuel
  · rw [sliceTicks_eq hop]
    exact hmoves (op.rosters hrt) hop
  · obtain ⟨fuel, rfl⟩ := not_forall_not.mp hop
    cases hend : runtimePass fuel rt with
    | none =>
      rw [RtOp.exec, sliceTicks, hend, Option.elim_none, Option.elim_none]
      exact h
    | some r =>
      have hroster := runtimePass_roster hrt hend
      rw [sliceTicks_pass hend, RtOp.exec, hend, Option.elim_some]
      generalize dispatch (passPrepare rt) = d at hroster ⊢
      exact hpass hroster

theorem withinSlice_exec (hrt : Consistent rt) (hm : rt.roster.Metered)
    (ha : rt.scheduler.algo = .rr) (h : rt.roster.WithinSlice n) (hop : op.reconfigures = false) :
    (RtOp.exec rt op).roster.WithinSlice (sliceTicks rt n op) :=
  sliced_exec hrt h (fun hmoves hpass => h.moves hm hmoves hpass hop) (h.pass hm ha)

/-! ### The quantum -/

/-- The policy is switched only while the CPU is idle. -/
def SwitchesIdle (rt : Runtime) (op : RtOp) : Prop := ∀ a, op = .setScheduler a → rt.currentPid < 0

theorem metered_init : runtimeInit.roster.Metered := by
  have hidle : ¬ 0 ≤ runtimeInit.roster.current := by
    show ¬ (0 : ℤ) ≤ -1
    decide
  have hquantum : runtimeInit.roster.quantum = 10 := rfl
  refine ⟨?_, ?_, fun hpos => absurd hpos hidle, fun hpos => absurd hpos hidle⟩
  · rw [hquantum]
    decide
  · rw [hquantum]
    decide

theorem run_metered (hquantum : ∀ ticks, .setQuantum ticks ∈ ops → ticks < 2 ^ 32)
    (hidle : Runs.Along RtOp.exec SwitchesIdle runtimeInit ops) :
    (Runs.run RtOp.exec runtimeInit ops).roster.Metered := by
  have hargs : Runs.Along RtOp.exec (fun _ op => ∀ ticks, op = .setQuantum ticks → ticks < 2 ^ 32)
      runtimeInit ops :=
    Runs.along_of_forall (fun op hop ticks heq => hquantum ticks (by rw [← heq]; exact hop)) _
  exact RtOp.run_keeps (I := fun rt => rt.roster.Metered)
    (fun _ op hrt h hok => h.moves (op.rosters hrt) hok.2 hok.1) metered_init (hidle.and hargs)

/-- A slice between two changes of the configuration. -/
theorem run_withinSlice (hrt : Consistent rt) (hm : rt.roster.Metered)
    (ha : rt.scheduler.algo = .rr) (hops : ∀ op ∈ ops, op.reconfigures = false) :
    (Runs.run Sliced.exec ⟨rt, 0⟩ ops).ticks ≤ rt.scheduler.quantumTicks := by
  have hfix : Runs.Along Sliced.exec (fun _ op => op.reconfigures = false) ⟨rt, 0⟩ ops :=
    Runs.along_of_forall hops _
  have hinv := Runs.run_invariant (I := fun s : Sliced =>
      (Consistent s.rt ∧ s.rt.roster.Metered ∧ s.rt.scheduler.algo = .rr ∧
        s.rt.scheduler.quantumTicks = rt.scheduler.quantumTicks) ∧ s.rt.roster.WithinSlice s.ticks)
    (fun s op h hop => by
      obtain ⟨⟨hrt, hm, ha, hq⟩, hw⟩ := h
      have hmoves := op.rosters hrt
      have hswitch : ∀ a, op ≠ .setScheduler a := by
        rintro a rfl
        cases hop
      have hfixed : ∀ ticks, op ≠ .setQuantum ticks := by
        rintro ticks rfl
        cases hop
      dsimp only [Sliced.exec]
      refine ⟨⟨op.consistent hrt, ?_, ?_, ?_⟩, withinSlice_exec hrt hm ha hw hop⟩
      · exact hm.moves hmoves (fun ticks heq => absurd heq (hfixed ticks))
          fun a heq => absurd heq (hswitch a)
      · exact algo_of_roster ((hmoves.algo hswitch).trans ha)
      · exact (quantum_of_roster (hmoves.quantum hm.quantum_pos.ne' hfixed)).trans hq)
    ⟨⟨hrt, hm, ha, rfl⟩, ⟨fun _ => ⟨Nat.zero_le _, hm.quantum_pos⟩, Nat.zero_le _⟩⟩ hfix
  exact hinv.2.bounded.trans hinv.1.2.2.2.le

/-- **The quantum across reconfiguration.**  In every state of a run the scheduler charges the
process on the CPU, and under SCHED_RR with a fixed quantum nobody has more CPU ticks than the
quantum since its dispatch, or since any later moment such as the last switch of the policy,
exactly if the policy is switched only while the CPU is idle. -/
theorem quantum_enforced (ops : List RtOp)
    (hquantum : ∀ ticks, .setQuantum ticks ∈ ops → ticks < 2 ^ 32) :
    (∀ pre seg post, ops = pre ++ seg ++ post →
      let rt := Runs.run RtOp.exec runtimeInit pre
      let s := Runs.run Sliced.exec ⟨rt, 0⟩ seg
      (0 ≤ s.rt.currentPid → s.rt.scheduler.currentPid = s.rt.currentPid) ∧
        (rt.scheduler.algo = .rr → (∀ op ∈ seg, op.reconfigures = false) →
          s.ticks ≤ rt.scheduler.quantumTicks)) ↔
      Runs.Along RtOp.exec SwitchesIdle runtimeInit ops := by
  constructor
  · intro h
    refine Runs.along_of_split fun pre op post heq a hop => ?_
    by_contra hrunning
    have hafter := (h (pre ++ [op]) [] post
      (by rw [heq, List.append_nil, List.append_assoc]; rfl)).1
    rw [Runs.run_nil, Runs.run_append, hop] at hafter
    have hroster := runtimeSetScheduler_roster (RtOp.run_consistent pre).sound a
    have hcur := congrArg Roster.current hroster
    have hcharged := congrArg Roster.charged hroster
    generalize Runs.run RtOp.exec runtimeInit pre = rt at hrunning hafter hcur hcharged
    have hpos : 0 ≤ (runtimeSetScheduler rt a).currentPid := by
      show 0 ≤ (runtimeSetScheduler rt a).roster.current
      rw [hcur]
      exact not_lt.mp hrunning
    have heq := hafter hpos
    have hneg : (runtimeSetScheduler rt a).scheduler.currentPid = -1 := hcharged
    change (runtimeSetScheduler rt a).scheduler.currentPid =
      (runtimeSetScheduler rt a).currentPid at heq
    omega
  · rintro hidle pre seg post rfl
    have hargs : ∀ ticks, .setQuantum ticks ∈ pre ++ seg → ticks < 2 ^ 32 := fun ticks hmem =>
      hquantum ticks (List.mem_append_left post hmem)
    have hidle := (Runs.along_append.mp hidle).1
    refine ⟨?_, fun ha hseg => ?_⟩
    · rw [Sliced.run_rt, ← Runs.run_append]
      exact (run_metered hargs hidle).charged
    · exact run_withinSlice (RtOp.run_consistent pre)
        (run_metered (fun ticks hmem => hargs ticks (List.mem_append_left seg hmem))
          (Runs.along_append.mp hidle).1) ha hseg

/-- One process under round robin with a quantum of two ticks. -/
def longJob : List RtOp := [.setQuantum 2, .runWorkload ⟨"job", [⟨.cpu, 0, 0, 9⟩]⟩ 20]

set_option maxRecDepth 100000 in
theorem quantum_enforced_job :
    (Runs.run Sliced.exec ⟨Runs.run RtOp.exec runtimeInit longJob, 0⟩
      [.pass 0, .pass 0, .yield]).ticks ≤ 2 := by
  have hfacts : (Runs.run RtOp.exec runtimeInit longJob).scheduler.algo = .rr ∧
      (Runs.run RtOp.exec runtimeInit longJob).scheduler.quantumTicks = 2 := by decide +kernel
  have hargs : ∀ ticks, .setQuantum ticks ∈ longJob ++ [.pass 0, .pass 0, .yield] →
      ticks < 2 ^ 32 := by
    intro ticks hmem
    simp [longJob] at hmem
    omega
  have hidle : Runs.Along RtOp.exec SwitchesIdle runtimeInit
      (longJob ++ [.pass 0, .pass 0, .yield]) := by
    refine Runs.along_of_split fun pre op post heq a hop => ?_
    have hmem : op ∈ longJob ++ [.pass 0, .pass 0, .yield] := by
      rw [heq]
      simp
    rw [hop] at hmem
    simp [longJob] at hmem
  have h := ((quantum_enforced _ hargs).mpr hidle longJob [.pass 0, .pass 0, .yield] []
    (List.append_nil _).symm).2 hfacts.1 (by decide)
  exact h.trans hfacts.2.le

set_option maxRecDepth 100000 in
/-- The policy is set to what it is, under a running process: the scheduler no longer counts its
ticks, and it runs on beyond its quantum. -/
theorem switch_stops_counting :
    let rt := Runs.run RtOp.exec runtimeInit (longJob ++ [.pass 0, .setScheduler .rr])
    let s := Runs.run Sliced.exec ⟨rt, 0⟩ [.pass 0, .pass 0, .pass 0]
    rt.currentPid = 1 ∧ rt.scheduler.currentPid = -1 ∧ rt.scheduler.algo = .rr ∧
      rt.scheduler.quantumTicks = 2 ∧ s.rt.currentPid = 1 ∧ s.ticks = 3 := by
  decide +kernel

end Mosrt
