/-
Internal errors do not happen.

`execute_instruction` ends a process with exit code 1 when it finds no slot, no PCB or an
empty burst, and with code 0 when the program counter is behind the last instruction.
With workloads that come from `workload_load` none of these is reached: a process that
has not ended has its slot, and in it a program counter that stands at an instruction.

* `Ledger.Staffed` — where a process has a slot, it stands at an instruction there;
* `failsNext_eq_false` — a pass meets no internal error;
* `no_internal_error` — the guarantee over whole runs, for every file content.
-/
import Mosrt.Chronicle
import Mosrt.Consistency
import Mosrt.Accounting
import Mosrt.WorkloadLoad

namespace Mosrt

open Relation

/-! ### Jobs that are not at their end -/

/-- The job stands at an instruction, and ends with an EXIT. -/
structure Job.Sturdy (j : Job) : Prop where
  last : j.insns.getLast?.map (·.op) = some .exit
  ok : ∀ insn ∈ j.insns, insn.Ok
  pc : j.pc < j.insns.length

/-- Behind an instruction that is no EXIT there is another one. -/
theorem Job.Sturdy.succ {j : Job} {insn : WorkloadInsn} (h : j.Sturdy)
    (hinsn : j.insns[j.pc]? = some insn) (hop : insn.op ≠ .exit) :
    j.pc + 1 < j.insns.length := by
  by_contra hend
  have hpc : j.pc = j.insns.length - 1 := by
    have := h.pc
    omega
  have hlast := h.last
  rw [List.getLast?_eq_getElem?, ← hpc, hinsn] at hlast
  exact hop (Option.some.inj hlast)

theorem Job.Sturdy.next {j : Job} {insn : WorkloadInsn} (h : j.Sturdy)
    (hinsn : j.insns[j.pc]? = some insn) (hop : insn.op ≠ .exit) : j.next.Sturdy :=
  ⟨h.last, h.ok, h.succ hinsn hop⟩

theorem Job.Sturdy.burn {j : Job} {insn : WorkloadInsn} (h : j.Sturdy)
    (hinsn : j.insns[j.pc]? = some insn) (hop : insn.op ≠ .exit) (left : ℕ) :
    (j.burn left).Sturdy := by
  refine ⟨h.last, h.ok, ?_⟩
  show (if left = 0 then j.pc + 1 else j.pc) < j.insns.length
  split_ifs
  · exact h.succ hinsn hop
  · exact h.pc

theorem Workload.WellFormed.sturdy {w : Workload} (h : w.WellFormed) :
    Job.Sturdy ⟨w.insns, 0, 0⟩ := ⟨h.last, h.ok, h.nonempty⟩

namespace Ledger

variable {l l' : Ledger} {pid : ℤ} {gone : List ℤ} {fits : Prop}

/-- The process exists, and its slot, if it has one, holds a sturdy job. -/
def Staffed (pid : ℤ) (l : Ledger) : Prop :=
  l.account pid ≠ none ∧ ∀ j, l.job pid = some j → j.Sturdy

theorem Staffed.step (h : Staffed pid l) (hs : Step gone l l') : Staffed pid l' := by
  obtain ⟨hacc, hjob⟩ := h
  cases hs with
  | turn q a st ha _ =>
    refine ⟨?_, hjob⟩
    rw [account_setAccount]
    split_ifs
    · exact Option.some_ne_none _
    · exact hacc
  | advance q j insn hj hinsn _ hexit =>
    refine ⟨hacc, fun j' hafter => ?_⟩
    have hj' : Function.update l.job q (some j.next) pid = some j' := hafter
    clear hafter
    rw [Function.update_apply] at hj'
    split_ifs at hj' with hq
    · subst hq
      rw [← Option.some.inj hj']
      exact (hjob j hj).next hinsn hexit
    · exact hjob j' hj'
  | spawn q insns hnone _ _ =>
    -- somebody else comes into being
    have hne : pid ≠ q := by
      rintro rfl
      exact hacc hnone
    refine ⟨?_, fun j hj => hjob j ?_⟩
    · show (l.setAccount q (.opened l.tick)).account pid ≠ none
      rw [account_setAccount, if_neg hne]
      exact hacc
    · have hj : Function.update l.job q _ pid = some j := hj
      rwa [Function.update_of_ne hne] at hj
  | close q _ =>
    refine ⟨hacc, fun j hj => hjob j ?_⟩
    have hj : Function.update l.job q none pid = some j := hj
    rw [Function.update_apply] at hj
    split_ifs at hj
    exact hj

theorem Staffed.tick (h : Staffed pid l) (hs : Tick fits l l') : Staffed pid l' := by
  obtain ⟨hacc, hjob⟩ := h
  have hwaits : (l.account pid).map Account.waits ≠ none := by
    rwa [Ne, Option.map_eq_none_iff]
  cases hs with
  | burst q a j insn left ha _ _ hj hinsn hcpu _ _ =>
    refine ⟨?_, fun j' hafter => ?_⟩
    · show (if pid = q then some a.runs else (l.account pid).map Account.waits) ≠ none
      split_ifs
      · exact Option.some_ne_none _
      · exact hwaits
    · have hj' : Function.update l.job q (some (j.burn left)) pid = some j' := hafter
      clear hafter
      rw [Function.update_apply] at hj'
      split_ifs at hj' with hq
      · subst hq
        rw [← Option.some.inj hj']
        exact (hjob j hj).burn hinsn (by rw [hcpu]; exact nofun) left
      · exact hjob j' hj'
  | idle => exact ⟨hwaits, hjob⟩

theorem Staffed.evolves (h : Staffed pid l) (he : Evolves fits gone l l') : Staffed pid l' :=
  he.invariant (fun _ _ h hs => h.step hs) (fun _ _ h hs => h.tick hs) h

theorem Staffed.stirs (h : Staffed pid l) (hs : ReflTransGen Stir l l') : Staffed pid l' := by
  induction hs with
  | refl => exact h
  | tail _ hlast ih =>
    have hstep : Step [] _ _ := hlast.step
    exact ih.step hstep

theorem stirs_job (hs : ReflTransGen Stir l l') : l'.job = l.job := by
  induction hs with
  | refl => rfl
  | tail _ hlast ih =>
    cases hlast
    exact ih

end Ledger

/-! ### Passes -/

variable {rt rt' : Runtime} {pid : ℤ} {gone : List ℤ}

theorem account_ne_none (h : rt.abs.stateOf pid ≠ none) : rt.ledger.account pid ≠ none := by
  intro hnone
  have hget : procGet rt.procs pid = none := Option.map_eq_none_iff.mp hnone
  refine h ?_
  show ((procGet rt.procs pid).map _).map _ = none
  rw [hget]
  rfl

theorem stateOf_ne_none (h : rt.ledger.account pid ≠ none) : rt.abs.stateOf pid ≠ none := by
  intro hnone
  refine h (Option.map_eq_none_iff.mpr ?_)
  exact Option.map_eq_none_iff.mp (Option.map_eq_none_iff.mp hnone)

/-- What holds in a run, the processes `gone` having lost their slots. -/
structure Healthy (rt : Runtime) (gone : List ℤ) : Prop where
  consistent : Consistent rt
  kept : rt.ledger.Kept gone
  ended : ∀ pid ∈ gone, rt.abs.stateOf pid = some .exited
  staffed : ∀ pid, rt.ledger.account pid ≠ none → rt.ledger.Staffed pid

/-- A process that stands at an instruction of a sturdy job meets no internal error. -/
theorem internalError_eq_false {p : Pcb} (hcpu : OnCpu rt p)
    (hstaffed : rt.ledger.Staffed rt.currentPid) (hjob : rt.ledger.job rt.currentPid ≠ none) :
    internalError rt = false := by
  cases hslot : slotIndex rt rt.currentPid with
  | none => exact absurd (congrArg (Option.map fun i => (rt.slots i).job) hslot) hjob
  | some idx =>
    have hsturdy : (rt.slots idx).job.Sturdy :=
      hstaffed.2 _ (congrArg (Option.map fun i => (rt.slots i).job) hslot)
    obtain ⟨insn, hinsn⟩ : ∃ insn, (rt.slots idx).job.insns[(rt.slots idx).job.pc]? = some insn :=
      ⟨_, List.getElem?_eq_getElem hsturdy.pc⟩
    have hmem : insn ∈ (rt.slots idx).job.insns := List.mem_of_getElem? hinsn
    have hcur : currentInsn rt rt.currentPid = some (idx, some insn) := by
      rw [currentInsn, hslot]
      exact congrArg (fun o => some (idx, o)) hinsn
    rw [internalError_eq hcur, decide_eq_false_iff_not]
    rintro (⟨-, hnone⟩ | ⟨hop, hzero⟩)
    · rw [hcpu.get] at hnone
      cases hnone
    · -- a burst that is going on has ticks left, and a new one has ticks
      have hticks : 0 < insn.ticks := hsturdy.ok insn hmem (.inl hop)
      rw [burstOf] at hzero
      split_ifs at hzero with hrem
      · omega
      · exact hrem hzero

/-- The process that is dispatched after the preparations of a pass has a slot. -/
theorem dispatched_no_error (h : Healthy rt gone) {m : Runtime} (hs : m.Sound)
    (hprepared : ReflTransGen Core.Quiet rt.abs m.abs) (hprepare : Stirs rt m) :
    ((dispatch m).1 && internalError (dispatch m).2) = false := by
  have hplaced := h.consistent.placed.steps hprepared
  obtain ⟨-, hd⟩ := dispatch_spec hs hplaced
  have hstirs : Stirs rt (dispatch m).2 := hprepare.trans (dispatch_stirs m)
  generalize dispatch m = d at hd hstirs
  rcases hd with ⟨htrue, hpos, hdispatched⟩ | ⟨hfalse, -, -⟩
  · have hquiet := hprepared.trans hdispatched
    obtain ⟨p, hcpu⟩ := (hplaced.steps hdispatched).onCpu hpos
    have hrunning : d.2.abs.stateOf d.2.currentPid = some .running := Core.stateOf_eq hcpu.proc
    have hbefore : rt.abs.stateOf d.2.currentPid ≠ none :=
      Core.Quiet.exists_of_steps hquiet (by rw [hrunning]; exact Option.some_ne_none _)
    -- a process without a slot has ended, and is not dispatched
    have hkept : d.2.currentPid ∉ gone := by
      intro hgone
      have hexited := Core.Quiet.exited_of_steps hquiet (h.ended _ hgone)
      rw [hrunning] at hexited
      cases hexited
    have hacc := account_ne_none hbefore
    have hstaffed : d.2.ledger.Staffed d.2.currentPid := (h.staffed _ hacc).stirs hstirs
    have hjob : d.2.ledger.job d.2.currentPid ≠ none := by
      rw [Ledger.stirs_job hstirs]
      exact h.kept _ hacc hkept
    rw [internalError_eq_false hcpu hstaffed hjob, Bool.and_false]
  · rw [hfalse, Bool.false_and]

theorem failsNext_eq_false (h : Healthy rt gone) : failsNext rt = false := by
  obtain ⟨hs, hprepared⟩ := passPrepare_spec h.consistent.sound
  rw [failsNext_eq]
  exact dispatched_no_error h hs hprepared (passPrepare_stirs rt)

/-! ### Runs -/

/-- A workload that is run was loaded from a file. -/
def RtOp.Loaded : RtOp → Prop
  | .runWorkload w _ => ∃ files path, findWorkload files path = some w
  | _ => True

theorem Moves.exists_of {op : RtOp} (h : Moves rt op rt') (hop : op.creates = false)
    (hpid : rt'.abs.stateOf pid ≠ none) : rt.abs.stateOf pid ≠ none := by
  cases h with
  | quiet _ hsteps => exact Core.Quiet.exists_of_steps hsteps hpid
  | exec d fuel consumed _ hsteps hd hpos hinsn =>
    have hexec := executeInstruction_spec hd.sound hd.placed hpos hinsn
    obtain ⟨q, hcpu⟩ := hd.placed.onCpu hpos
    have hrun := Core.stateOf_eq hcpu.proc
    exact Core.Quiet.exists_of_steps hsteps ((hexec.2.moved hrun).exists_of hrun hpid)
  | spawn _ _ _ _ _ _ _ hcreates =>
    rw [hop] at hcreates
    cases hcreates
  | kill pid' st _ hst _ habs =>
    rw [habs] at hpid
    by_cases hq : pid = pid'
    · rw [hq, hst]
      exact Option.some_ne_none _
    · intro hnone
      exact hpid (Core.stateOf_setProc.trans ((if_neg hq).trans hnone))

/-- A process that a kill takes the slot from has ended. -/
theorem RtOp.removed_exited (op : RtOp) (hpid : pid ∈ op.removed rt) :
    (RtOp.exec rt op).abs.stateOf pid = some .exited := by
  cases op with
  | kill q =>
    rw [RtOp.removed] at hpid
    split_ifs at hpid with htrue
    · rw [List.mem_singleton.mp hpid]
      exact runtimeKill_exited htrue
    · cases hpid
  | _ => cases hpid

theorem Healthy.operation (h : Healthy rt gone) (op : RtOp) (hop : op.Loaded) :
    Healthy (RtOp.exec rt op) (gone ++ op.removed rt) := by
  have hev : Ledger.Evolves False (op.removed rt) rt.ledger (RtOp.exec rt op).ledger :=
    RtOp.evolves h.consistent op False.elim
  have hmoves := (op.moves h.consistent).2
  refine ⟨op.consistent h.consistent, h.kept.evolves hev, ?_, ?_⟩
  · intro pid hpid
    rcases List.mem_append.mp hpid with hpid | hpid
    · exact hmoves.exited (h.ended pid hpid)
    · exact op.removed_exited hpid
  · intro pid hpid
    by_cases hbefore : rt.ledger.account pid = none
    · -- only the process that is created was not there before
      cases op with
      | runWorkload w priority =>
        obtain ⟨files, path, hfind⟩ := hop
        rcases runtimeRunWorkload_ledger w h.consistent.sound priority with
          heq | ⟨q, -, -, -, heq⟩
        · have heq : (RtOp.exec rt (.runWorkload w priority)).ledger = rt.ledger := heq
          rw [heq] at hpid
          exact absurd hbefore hpid
        · have heq : (RtOp.exec rt (.runWorkload w priority)).ledger = _ := heq
          rw [heq] at hpid ⊢
          have hacc : (rt.ledger.setAccount q (.opened rt.tick)).account pid ≠ none := hpid
          rw [Ledger.account_setAccount] at hacc
          split_ifs at hacc with hq
          · refine ⟨hpid, fun j hj => ?_⟩
            have hj : Function.update rt.ledger.job q (some ⟨w.insns, 0, 0⟩) pid = some j := hj
            rw [hq, Function.update_self] at hj
            rw [← Option.some.inj hj]
            exact (findWorkload_wellFormed hfind).sturdy
          · exact absurd hbefore hacc
      | _ => exact absurd hbefore (account_ne_none (hmoves.exists_of rfl (stateOf_ne_none hpid)))
    · exact (h.staffed pid hbefore).evolves hev

theorem healthy_init : Healthy runtimeInit [] :=
  ⟨runtimeInit_consistent, fun pid ha => absurd (account_init pid) ha,
    fun _ hpid => absurd hpid List.not_mem_nil, fun pid ha => absurd (account_init pid) ha⟩

/-- Exit codes other than those for internal errors. -/
def regularCode (code : ℤ) : Prop := code ≠ 1 ∧ code ≠ 2

theorem codesOk_regular : CodesOk regularCode := fun _ h₁ h₂ => ⟨h₁, h₂⟩

/-- Every process has a regular exit code. -/
def Chronicle.Regular (c : Chronicle) : Prop :=
  ∀ pid st code, c.proc pid = some (st, code) → regularCode code

theorem Chronicle.Regular.set {c : Chronicle} (h : c.Regular) (pid : ℤ) (st : ProcState) {code : ℤ}
    (hcode : regularCode code) : (c.set pid st code).Regular := by
  intro q st' code' hq
  have hq : Function.update c.proc pid (some (st, code)) q = some (st', code') := hq
  rw [Function.update_apply] at hq
  split_ifs at hq
  · cases hq
    exact hcode
  · exact h q st' code' hq

theorem Chronicle.Regular.note {c c' : Chronicle} (h : c.Regular) (hnote : Note regularCode c c') :
    c'.Regular := by
  cases hnote with
  | remark => exact h
  | turn pid old st code _ _ hproc _ _ => exact h.set pid st (h pid old code hproc)
  | leave pid old before code _ _ _ _ hcode _ => exact h.set pid .exited hcode
  | spawn pid _ => exact h.set pid .new ⟨by decide, by decide⟩
  | tick => exact h

theorem RtOp.run_healthy (ops : List RtOp) (hops : ∀ op ∈ ops, op.Loaded) :
    (∃ gone, Healthy (Runs.run RtOp.exec runtimeInit ops) gone) ∧
      (Runs.run RtOp.exec runtimeInit ops).chronicle.Regular := by
  have hinit : (∃ gone, Healthy runtimeInit gone) ∧ runtimeInit.chronicle.Regular := by
    refine ⟨⟨[], healthy_init⟩, fun pid st code hproc => ?_⟩
    have hnone : runtimeInit.chronicle.proc pid = none :=
      Option.map_eq_none_iff.mpr (procGet_init pid)
    rw [hnone] at hproc
    cases hproc
  have hstep : ∀ (rt : Runtime) (op : RtOp), (∃ gone, Healthy rt gone) ∧ rt.chronicle.Regular →
      op.Loaded → (∃ gone, Healthy (RtOp.exec rt op) gone) ∧
        (RtOp.exec rt op).chronicle.Regular := by
    rintro rt op ⟨⟨gone, hrt⟩, hregular⟩ hop
    have hnotes : Notes regularCode _ rt (RtOp.exec rt op) :=
      RtOp.notes hrt.consistent.sound codesOk_regular
        (fun hfails => absurd hfails (by rw [failsNext_eq_false hrt]; exact nofun)) op
    refine ⟨⟨_, hrt.operation op hop⟩, ?_⟩
    exact Runs.Within.invariant (I := fun _ c => Chronicle.Regular c) hnotes (fun _ _ h => h)
      (fun _ _ _ h hnote => h.note hnote) hregular
  exact Runs.run_invariant
    (I := fun rt : Runtime => (∃ gone, Healthy rt gone) ∧ rt.chronicle.Regular) hstep hinit
    (Runs.along_of_forall hops _)

/-- **Internal errors are unreachable.**  What `workload_load` accepts, of any file content, has 1
to 128 instructions, ends with an EXIT and has no empty burst.  And in every run of loaded
workloads, with kills and changes of policy at any time, `execute_instruction` takes none of its
branches for internal errors, and no process has exit code 1 or 2. -/
theorem no_internal_error :
    (∀ path content w, workloadLoad path content = .ok w →
      1 ≤ w.insns.length ∧ w.insns.length ≤ 128 ∧ w.insns.getLast?.map (·.op) = some .exit ∧
        ∀ insn ∈ w.insns, insn.op = .cpu ∨ insn.op = .io → 0 < insn.ticks) ∧
    ∀ ops : List RtOp, (∀ op ∈ ops, op.Loaded) →
      ((dispatch (passPrepare (Runs.run RtOp.exec runtimeInit ops))).1 = true →
        internalError (dispatch (passPrepare (Runs.run RtOp.exec runtimeInit ops))).2 = false) ∧
      ∀ pid p, procGet (Runs.run RtOp.exec runtimeInit ops).procs pid = some p →
        p.exitCode ≠ 1 ∧ p.exitCode ≠ 2 := by
  refine ⟨?_, ?_⟩
  · intro path content w hload
    have hw := workloadLoad_wellFormed hload
    exact ⟨hw.nonempty, hw.bounded, hw.last, hw.ok⟩
  · intro ops hops
    obtain ⟨⟨gone, hrt⟩, hregular⟩ := RtOp.run_healthy ops hops
    have hnext := failsNext_eq_false hrt
    generalize Runs.run RtOp.exec runtimeInit ops = rt at hregular hnext ⊢
    refine ⟨fun hdispatched => ?_, fun pid p hp => ?_⟩
    · rw [failsNext_eq, hdispatched, Bool.true_and] at hnext
      exact hnext
    · exact hregular pid p.state p.exitCode (chronicle_proc hp)

/-- The file of one line `CPU 2`, whatever its name. -/
def burstFile : CString → Option (List UInt8) := fun _ => some [67, 80, 85, 32, 50, 10]

set_option maxRecDepth 100000 in
/-- A process with a burst of two ticks is killed after the first one. -/
theorem no_internal_error_killed :
    findWorkload burstFile "job" =
        some ⟨"job", [⟨.cpu, 0, 0, 2⟩, ⟨.exit, 0, 0, 0⟩]⟩ ∧
      let rt := Runs.run RtOp.exec runtimeInit
        [.runWorkload ⟨"job", [⟨.cpu, 0, 0, 2⟩, ⟨.exit, 0, 0, 0⟩]⟩ 0, .pass 0, .kill 1]
      ∀ pid p, procGet rt.procs pid = some p → p.exitCode ≠ 1 ∧ p.exitCode ≠ 2 := by
  have hfind : findWorkload burstFile "job" =
      some ⟨"job", [⟨.cpu, 0, 0, 2⟩, ⟨.exit, 0, 0, 0⟩]⟩ := by decide +kernel
  refine ⟨hfind, (no_internal_error.2 _ ?_).2⟩
  intro op hop
  simp only [List.mem_cons, List.not_mem_nil, or_false] at hop
  rcases hop with rfl | rfl | rfl
  · exact ⟨burstFile, "job", hfind⟩
  · trivial
  · trivial

end Mosrt
