/-
Operations as moves of the abstract machine, and as entries in the ledger.

`Consistent` says of a runtime that it is sound and that its CPU agrees with the
process states; every operation keeps this, and is one of the `Moves`:

* `runtimeRunWorkload_spec` — creation;
* `runtimeKill_spec` — killing;
* `runtimePass_spec` — a pass executes an instruction, or nobody was READY;
* `RtOp.moves`, `RtOp.run_consistent` — every operation, and every run.

`RtOp.steps` and `runtimePass_ledger` say what the operations do to the ledger: only a
pass takes a tick, and `RtOp.evolves` puts the two together.
-/
import Mosrt.LedgerSpec

namespace Mosrt

open Relation

variable {rt rt' : Runtime} {pid : ℤ} {p : Pcb} {idx n fuel : ℕ} {insn : WorkloadInsn}
  {why : CString} {gone : List ℤ} {fits : Prop}

/-! ### Slots of processes that come and go -/

theorem insnOf_eq_job (rt : Runtime) (pid : ℤ) :
    rt.insnOf pid = (rt.ledger.job pid).bind fun j => j.insns[j.pc]? := by
  show (currentInsn rt pid).bind _ = ((slotIndex rt pid).map _).bind _
  rw [currentInsn]
  cases slotIndex rt pid <;> rfl

/-- What a process executes next depends on its own job only. -/
theorem insn_of_job {j : Option Job}
    (h : rt'.ledger.job = Function.update rt.ledger.job pid j) :
    rt'.abs.insn = Function.update rt.abs.insn pid (j.bind fun j => j.insns[j.pc]?) := by
  funext q
  show rt'.insnOf q = Function.update rt.insnOf pid _ q
  rw [insnOf_eq_job, h, Function.update_apply, Function.update_apply]
  split_ifs
  · rfl
  · rw [insnOf_eq_job]

/-- As long as fewer than `MOSRT_MAX_PROCS` processes exist, a slot is free. -/
theorem unusedSlot_exists (h : SlotsOk rt.slots rt.slotByPid n) (hn : n < mosrtMaxProcs) :
    ∃ i < mosrtMaxProcs, (rt.slots i).used = false ∧ unusedSlot rt = some i := by
  by_contra hno
  have hused : ∀ i < mosrtMaxProcs, (rt.slots i).used = true := by
    intro i hi
    by_contra hfree
    cases hfind : unusedSlot rt with
    | none =>
      have := List.find?_eq_none.mp hfind i (List.mem_range.mpr hi)
      exact hfree (by simpa using this)
    | some j =>
      have hj := List.find?_some hfind
      have hmem := List.mem_range.mp (List.mem_of_find?_eq_some hfind)
      exact hno ⟨j, hmem, by simpa using hj, hfind⟩
  -- the slots would map injectively to the pids of `n` processes
  obtain ⟨i, hi, j, hj, hne, heq⟩ := Finset.exists_ne_map_eq_of_card_lt_of_maps_to
    (s := Finset.range mosrtMaxProcs) (t := Finset.Icc (1 : ℤ) n)
    (f := fun i => (rt.slots i).pid) (by simpa using hn) (by
      intro i hi
      have := (h i (Finset.mem_range.mp hi) (hused i (Finset.mem_range.mp hi))).1
      exact Finset.mem_coe.mpr (Finset.mem_Icc.mpr this))
  have hi' := (h i (Finset.mem_range.mp hi) (hused i (Finset.mem_range.mp hi))).2
  have hj' := (h j (Finset.mem_range.mp hj) (hused j (Finset.mem_range.mp hj))).2
  rw [heq, hj'] at hi'
  exact hne (Option.some.inj hi').symm

/-! ### Creation -/

/-- Room for another process: the table `t` with its PCB, and the slot `i`. -/
structure ProcRoom (rt : Runtime) (priority : ℤ) (n : ℕ) (t : ProcTable) (i : ℕ) : Prop where
  lt : n < mosrtMaxProcs
  slots : SlotsOk rt.slots rt.slotByPid n
  packed : t.Packed (n + 1)
  created : procGet t (n + 1) = some (newPcb (n + 1) 0 priority rt.tick)
  absent : procGet rt.procs (n + 1) = none
  others : ∀ pid : ℤ, pid ≠ n + 1 → procGet t pid = procGet rt.procs pid
  slot_lt : i < mosrtMaxProcs
  unused : (rt.slots i).used = false

/-- The new process has its slot and is about to be enqueued. -/
def Runtime.create (rt : Runtime) (n : ℕ) (t : ProcTable) (i : ℕ) (workload : Workload)
    (vm : VmSys) : Runtime :=
  { rt with
    procs := t
    vm := vm
    slots := Function.update rt.slots i { used := true, pid := n + 1, workload := workload }
    slotByPid := Function.update rt.slotByPid n (some i) }

section Create

variable {priority : ℤ} {t : ProcTable} {i : ℕ} (workload : Workload) (vm : VmSys)

theorem slotIndex_create (h : ProcRoom rt priority n t i) (pid : ℤ) :
    slotIndex (rt.create n t i workload vm) pid =
      if pid = n + 1 then some i else slotIndex rt pid := by
  have hlt := h.lt
  have hs : ∀ j, (rt.create n t i workload vm).slots j =
    Function.update rt.slots i { used := true, pid := n + 1, workload := workload } j :=
      fun _ => rfl
  have hby : ∀ j, (rt.create n t i workload vm).slotByPid j =
    Function.update rt.slotByPid n (some i) j := fun _ => rfl
  split_ifs with hpid
  · have hidx : (pid - 1).toNat = n := by omega
    refine slotIndex_eq_some.mpr ⟨⟨by omega, by omega⟩, ?_, h.slot_lt, ?_, ?_⟩
    · rw [hby, hidx, Function.update_self]
    · rw [hs, Function.update_self]
    · rw [hs, Function.update_self, hpid]
  · refine Option.ext fun j => ?_
    rw [slotIndex_eq_some, slotIndex_eq_some, hs, hby]
    by_cases hji : j = i
    · subst hji
      rw [Function.update_self, h.unused]
      constructor
      · rintro ⟨-, -, -, -, heq⟩
        exact absurd heq.symm hpid
      · rintro ⟨-, -, -, hused, -⟩
        cases hused
    · rw [Function.update_of_ne hji]
      constructor
      · rintro ⟨hr, hfind, hrest⟩
        rw [Function.update_of_ne (by omega)] at hfind
        exact ⟨hr, hfind, hrest⟩
      · rintro ⟨hr, hfind, hrest⟩
        rw [Function.update_of_ne (by omega)]
        exact ⟨hr, hfind, hrest⟩

theorem ledger_create (h : ProcRoom rt priority n t i) :
    (rt.create n t i workload vm).ledger =
      (rt.ledger.setAccount (n + 1) (newPcb (n + 1) 0 priority rt.tick).account).setJob (n + 1)
        ⟨workload.insns, 0, 0⟩ := by
  have haccount : (rt.create n t i workload vm).ledger.account = Function.update rt.ledger.account
      (n + 1) (some (newPcb (n + 1) 0 priority rt.tick).account) := by
    funext pid
    show (procGet t pid).map _ = _
    rw [Function.update_apply]
    split_ifs with hpid
    · rw [hpid, h.created]
      rfl
    · rw [h.others pid hpid]
      rfl
  have hjob : (rt.create n t i workload vm).ledger.job =
      Function.update rt.ledger.job (n + 1) (some ⟨workload.insns, 0, 0⟩) := by
    funext pid
    show (slotIndex _ pid).map (fun j => Slot.job (Function.update rt.slots i _ j)) = _
    rw [slotIndex_create workload vm h, Function.update_apply]
    split_ifs
    · rw [Option.map_some, Function.update_self]
      rfl
    · show _ = (slotIndex rt pid).map _
      cases hslot : slotIndex rt pid with
      | none => rfl
      | some j =>
        -- the slot was not in use
        have hji : j ≠ i := by
          rintro rfl
          have := (slotIndex_eq_some.mp hslot).2.2.2.1
          rw [h.unused] at this
          cases this
        rw [Option.map_some, Option.map_some, Function.update_of_ne hji]
  exact congrArg₂ (fun g k => (⟨rt.tick, rt.busyTicks, rt.idleTicks, g, k⟩ : Ledger)) haccount hjob

theorem create_sound (h : ProcRoom rt priority n t i) (hs : rt.Sound) :
    (rt.create n t i workload vm).Sound := by
  refine ⟨⟨⟨n + 1, h.packed, fun j hj hused => ?_⟩, fun pid q hq => ?_⟩, ?_⟩
  · have hslot : ∀ j, (rt.create n t i workload vm).slots j =
      Function.update rt.slots i { used := true, pid := n + 1, workload := workload } j :=
        fun _ => rfl
    have hby : ∀ j, (rt.create n t i workload vm).slotByPid j =
      Function.update rt.slotByPid n (some i) j := fun _ => rfl
    rw [hslot] at hused ⊢
    rw [hby]
    by_cases hji : j = i
    · subst hji
      rw [Function.update_self]
      refine ⟨⟨by simp, by simp⟩, ?_⟩
      have : ((n : ℤ) + 1 - 1).toNat = n := by omega
      rw [this, Function.update_self]
    · rw [Function.update_of_ne hji] at hused ⊢
      obtain ⟨⟨h1, h2⟩, hfind⟩ := h.slots j hj hused
      refine ⟨⟨h1, by push_cast; omega⟩, ?_⟩
      rw [Function.update_of_ne (by omega), hfind]
  · have hq : procGet t pid = some q := hq
    by_cases hpid : pid = n + 1
    · rw [hpid, h.created] at hq
      cases hq
      exact Nat.zero_lt_succ 3
    · rw [h.others pid hpid] at hq
      exact hs.shape.level pid q hq
  · -- the new process is not READY yet
    have hsame : readyLevel rt.scheduler.algo t = readyLevel rt.scheduler.algo rt.procs := by
      funext pid
      by_cases hpid : pid = n + 1
      · rw [hpid, readyLevel, readyLevel, h.created, h.absent]
        exact if_neg fun hready => by cases hready
      · rw [readyLevel, readyLevel, h.others pid hpid]
    show rt.scheduler.Tracks (readyLevel rt.scheduler.algo t)
    rw [hsame]
    exact hs.tracked

theorem abs_create (h : ProcRoom rt priority n t i) :
    (rt.create n t i workload vm).abs =
      { rt.abs.setProc (n + 1) .new 0 with
        insn := Function.update rt.abs.insn (n + 1) workload.insns[0]? } := by
  have hproc : (rt.create n t i workload vm).abs.proc =
      Function.update rt.abs.proc (n + 1) (some (.new, 0)) := by
    funext pid
    show (procGet t pid).map _ = _
    rw [Function.update_apply]
    split_ifs with hpid
    · rw [hpid, h.created]
      rfl
    · rw [h.others pid hpid]
      rfl
  have hjob : (rt.create n t i workload vm).ledger.job =
      Function.update rt.ledger.job (n + 1) (some ⟨workload.insns, 0, 0⟩) := by
    rw [ledger_create workload vm h]
    rfl
  exact Core.ext hproc rfl rfl rfl (insn_of_job hjob)

/-- Creation changes nothing when the table is full, and otherwise there is room. -/
theorem runtimeRunWorkload_eq (h : rt.Sound) (priority : ℤ) :
    (runtimeRunWorkload rt workload priority).2 = rt ∧ rt.procs.Packed mosrtMaxProcs ∨
      ∃ n t i vm, vm = { rt.vm with vms := Function.update rt.vm.vms (n + 1) (some vmProcInit) } ∧
      ProcRoom rt priority n t i ∧ (runtimeRunWorkload rt workload priority).2 =
        (enqueueReady (rt.create n t i workload vm) (n + 1)).log
          (n + 1) "CREATE" workload.name := by
  obtain ⟨n, hpacked, hslots⟩ := h.shape.packed
  rw [runtimeRunWorkload]
  by_cases hn : n < mosrtMaxProcs
  · right
    obtain ⟨t, hcreate, hpacked', hnew, hothers⟩ := hpacked.create hn 0 priority rt.tick
    obtain ⟨i, hi, hfree, hunused⟩ := unusedSlot_exists hslots hn
    have hsome : (procGet t (n + 1)).isSome = true := by
      rw [hnew]
      rfl
    have hpid : (1 : ℤ) ≤ n + 1 ∧ (n : ℤ) + 1 ≤ mosrtMaxProcs := ⟨by omega, by omega⟩
    have hidx : ((n : ℤ) + 1 - 1).toNat = n := by omega
    rw [hcreate, Option.elim_some]
    dsimp only
    rw [if_pos hsome]
    generalize hvm : ({ rt.vm with
      vms := Function.update rt.vm.vms ((n : ℤ) + 1) (some vmProcInit) } : VmSys) = vm
    have halloc : allocSlot { rt with procs := t, vm := vm } (n + 1) = some (i, { rt with
        procs := t
        vm := vm
        slots := Function.update rt.slots i { used := true, pid := n + 1 }
        slotByPid := Function.update rt.slotByPid n (some i) }) := by
      have : unusedSlot { rt with procs := t, vm := vm } = some i := hunused
      rw [allocSlot, this, Option.map_some, if_pos hpid, hidx]
    have hset : Runtime.setSlot { rt with
        procs := t
        vm := vm
        slots := Function.update rt.slots i { used := true, pid := n + 1 }
        slotByPid := Function.update rt.slotByPid n (some i) } i
          (fun s => { s with workload := workload }) = rt.create n t i workload vm := by
      rw [Runtime.create, Runtime.setSlot]
      dsimp only
      rw [Function.update_idem, Function.update_self]
    rw [halloc, Option.elim_some]
    dsimp only
    rw [hset]
    exact ⟨n, t, i, vm, hvm.symm,
      ⟨hn, hslots, hpacked', hnew, hpacked.get_none rfl, hothers, hi, hfree⟩, rfl⟩
  · left
    have hnone : procCreate rt.procs 0 priority rt.tick = none := by
      rw [procCreate, hpacked.freeSlot, if_neg hn]
      rfl
    rw [hnone, Option.elim_none]
    have hfull : n = mosrtMaxProcs := le_antisymm hpacked.le (not_lt.mp hn)
    exact ⟨rfl, hfull ▸ hpacked⟩

/-- A new process, unless the table is full. -/
theorem runtimeRunWorkload_spec (h : rt.Sound) (priority : ℤ) :
    (runtimeRunWorkload rt workload priority).2.Sound ∧
      ((runtimeRunWorkload rt workload priority).2.abs = rt.abs ∧
          rt.procs.Packed mosrtMaxProcs ∨
        ∃ pid : ℤ, rt.abs.stateOf pid = none ∧ 0 < pid ∧ pid ≤ mosrtMaxProcs ∧
          (runtimeRunWorkload rt workload priority).2.abs =
            rt.abs.spawn pid workload.insns[0]?) := by
  rcases runtimeRunWorkload_eq workload h priority with ⟨heq, hfull⟩ | ⟨n, t, i, vm, -, hroom, heq⟩
  · rw [heq]
    exact ⟨h, .inl ⟨rfl, hfull⟩⟩
  · have hlt := hroom.lt
    have hget : procGet (rt.create n t i workload vm).procs (n + 1) =
      some (newPcb (n + 1) 0 priority rt.tick) := hroom.created
    obtain ⟨hs, ha⟩ := enqueueReady_spec (create_sound workload vm hroom h) hget rfl
    rw [heq]
    refine ⟨hs.log, .inr ⟨n + 1, ?_, by omega, by omega, ?_⟩⟩
    · rw [Core.stateOf]
      show ((procGet rt.procs (n + 1)).map _).map _ = none
      rw [hroom.absent]
      rfl
    · rw [abs_log, ha, abs_create workload vm hroom, Core.spawn, Core.setProc, Core.setProc,
        Core.setProc]
      dsimp only
      rw [Function.update_idem]
      rfl

/-- The new process in the ledger. -/
theorem runtimeRunWorkload_ledger (h : rt.Sound) (priority : ℤ) :
    (runtimeRunWorkload rt workload priority).2.ledger = rt.ledger ∨
      ∃ pid : ℤ, rt.ledger.account pid = none ∧ 1 ≤ pid ∧ pid ≤ mosrtMaxProcs ∧
        (runtimeRunWorkload rt workload priority).2.ledger =
          (rt.ledger.setAccount pid (.opened rt.tick)).setJob pid ⟨workload.insns, 0, 0⟩ := by
  rcases runtimeRunWorkload_eq workload h priority with ⟨heq, -⟩ | ⟨n, t, i, vm, -, hroom, heq⟩
  · exact .inl (congrArg Runtime.ledger heq)
  · have hlt := hroom.lt
    have hget : procGet (rt.create n t i workload vm).procs (n + 1) =
      some (newPcb (n + 1) 0 priority rt.tick) := hroom.created
    have habsent : rt.ledger.account (n + 1) = none := by
      show (procGet rt.procs (n + 1)).map _ = none
      rw [hroom.absent]
      rfl
    refine .inr ⟨n + 1, habsent, by omega, by omega, ?_⟩
    rw [heq, ledger_log, enqueueReady_eq hget rfl]
    have hmod := ledger_modify (rt.create n t i workload vm) (keepsId_setState .ready rt.tick) hget
    refine Eq.trans hmod ?_
    rw [ledger_create workload vm hroom, Ledger.setAccount, Ledger.setJob, Ledger.setJob,
      Ledger.setAccount, Ledger.setAccount]
    dsimp only
    rw [Function.update_idem]
    rfl

theorem runtimeRunWorkload_steps (h : rt.Sound) (priority : ℤ) :
    Steps gone rt (runtimeRunWorkload rt workload priority).2 := by
  rcases runtimeRunWorkload_ledger workload h priority with heq | ⟨pid, hnone, hpos, hle, heq⟩
  · rw [Steps, heq]
  · rw [Steps, heq]
    exact .single (.spawn pid workload.insns hnone hpos hle)

end Create

/-! ### Killing -/

/-- A slot taken away from its process. -/
theorem slotIndex_released (hidx : slotIndex rt pid = some idx)
    (hs : rt'.slots = Function.update rt.slots idx {})
    (hby : rt'.slotByPid = Function.update rt.slotByPid (pid - 1).toNat none) (q : ℤ) :
    slotIndex rt' q = if q = pid then none else slotIndex rt q := by
  obtain ⟨hpid, -, -, -, howner⟩ := slotIndex_eq_some.mp hidx
  split_ifs with heq
  · rw [slotIndex, heq, if_pos hpid, hby, Function.update_self]
  · refine Option.ext fun i => ?_
    rw [slotIndex_eq_some, slotIndex_eq_some, hs, hby]
    by_cases hii : i = idx
    · subst hii
      rw [Function.update_self]
      constructor
      · rintro ⟨-, -, -, hused, -⟩
        cases hused
      · rintro ⟨-, -, -, -, howner'⟩
        exact absurd (howner'.symm.trans howner) heq
    · rw [Function.update_of_ne hii]
      constructor
      · rintro ⟨hr, hf, hrest⟩
        rw [Function.update_of_ne (by omega)] at hf
        exact ⟨hr, hf, hrest⟩
      · rintro ⟨hr, hf, hrest⟩
        rw [Function.update_of_ne (by omega)]
        exact ⟨hr, hf, hrest⟩

theorem slotsOk_released (h : SlotsOk rt.slots rt.slotByPid n) (hidx : slotIndex rt pid = some idx)
    (hs : rt'.slots = Function.update rt.slots idx {})
    (hby : rt'.slotByPid = Function.update rt.slotByPid (pid - 1).toNat none) :
    SlotsOk rt'.slots rt'.slotByPid n := by
  obtain ⟨-, hfind, -, -, -⟩ := slotIndex_eq_some.mp hidx
  intro i hi hused
  rw [hs] at hused ⊢
  rw [hby]
  by_cases hii : i = idx
  · rw [hii, Function.update_self] at hused
    cases hused
  · rw [Function.update_of_ne hii] at hused ⊢
    obtain ⟨hrange, hi'⟩ := h i hi hused
    refine ⟨hrange, ?_⟩
    have hne : ((rt.slots i).pid - 1).toNat ≠ (pid - 1).toNat := by
      intro heq
      rw [heq, hfind] at hi'
      exact hii (Option.some.inj hi').symm
    rw [Function.update_of_ne hne, hi']

theorem job_released (hidx : slotIndex rt pid = some idx)
    (hs : rt'.slots = Function.update rt.slots idx {})
    (hby : rt'.slotByPid = Function.update rt.slotByPid (pid - 1).toNat none) :
    rt'.ledger.job = Function.update rt.ledger.job pid none := by
  funext q
  show (slotIndex rt' q).map _ = _
  rw [slotIndex_released hidx hs hby, Function.update_apply]
  split_ifs with hq
  · rfl
  · show _ = (slotIndex rt q).map _
    cases hslot : slotIndex rt q with
    | none => rfl
    | some i =>
      have hii : i ≠ idx := by
        rintro rfl
        have h1 := (slotIndex_eq_some.mp hslot).2.2.2.2
        have h2 := (slotIndex_eq_some.mp hidx).2.2.2.2
        exact hq (h1.symm.trans h2)
      rw [Option.map_some, Option.map_some, hs, Function.update_of_ne hii]

theorem releaseSlot_job (rt : Runtime) (pid : ℤ) :
    (releaseSlot rt pid).ledger = { rt.ledger with job := Function.update rt.ledger.job pid none } ∧
      (∀ n, SlotsOk rt.slots rt.slotByPid n →
        SlotsOk (releaseSlot rt pid).slots (releaseSlot rt pid).slotByPid n) ∧
      (releaseSlot rt pid).procs = rt.procs ∧
      (releaseSlot rt pid).abs = { rt.abs with insn := (releaseSlot rt pid).abs.insn } := by
  cases hslot : slotIndex rt pid with
  | none =>
    have hrel : releaseSlot rt pid = rt := by rw [releaseSlot, hslot]
    have hnone : rt.ledger.job pid = none := by
      show (slotIndex rt pid).map _ = none
      rw [hslot]
      rfl
    rw [hrel, ← hnone, Function.update_eq_self]
    exact ⟨rfl, fun _ h => h, rfl, rfl⟩
  | some idx =>
    obtain ⟨rt', hrt'⟩ : ∃ r : Runtime, { rt with
      slots := Function.update rt.slots idx {}
      slotByPid := Function.update rt.slotByPid (pid - 1).toNat none } = r := ⟨_, rfl⟩
    have hrel : releaseSlot rt pid = rt' := by
      rw [releaseSlot, hslot, ← hrt']
      dsimp only
      rw [if_pos (slotIndex_eq_some.mp hslot).1]
    have hs : rt'.slots = Function.update rt.slots idx {} := hrt' ▸ rfl
    have hby : rt'.slotByPid = Function.update rt.slotByPid (pid - 1).toNat none := hrt' ▸ rfl
    rw [hrel]
    refine ⟨?_, fun n h => slotsOk_released h hslot hs hby, hrt' ▸ rfl, ?_⟩
    · rw [← job_released hslot hs hby, ← hrt']
      rfl
    · rw [← hrt']
      rfl

theorem releaseSlot_spec (rt : Runtime) (h : SlotsOk rt.slots rt.slotByPid n) (pid : ℤ) :
    SlotsOk (releaseSlot rt pid).slots (releaseSlot rt pid).slotByPid n ∧
      (releaseSlot rt pid).abs = { rt.abs with insn := Function.update rt.abs.insn pid none } ∧
      (releaseSlot rt pid).procs = rt.procs := by
  obtain ⟨hl, hslots, hprocs, habs⟩ := releaseSlot_job rt pid
  refine ⟨hslots n h, ?_, hprocs⟩
  rw [habs, insn_of_job (congrArg Ledger.job hl)]
  rfl

/-- Killing marks a process that had not exited, and does nothing else. -/
theorem runtimeKill_spec (h : rt.Sound) (hplaced : rt.abs.Placed) (pid : ℤ) :
    (runtimeKill rt pid).2.Sound ∧
      ((runtimeKill rt pid).2.abs = rt.abs ∨
        (∃ st, rt.abs.stateOf pid = some st ∧ st ≠ .exited) ∧
          (runtimeKill rt pid).2.abs = rt.abs.kill pid) := by
  rw [runtimeKill]
  cases hp : procGet rt.procs pid with
  | none => exact ⟨h, .inl rfl⟩
  | some p =>
    rw [if_neg nofun]
    dsimp only
    obtain ⟨rt₁, hrt₁⟩ : ∃ r : Runtime,
      (if rt.currentPid = pid then { rt with currentPid := -1 } else rt) = r := ⟨_, rfl⟩
    have hs₁ : rt₁.Sound := by
      rw [← hrt₁]
      split_ifs
      · exact h
      · exact h
    have ha₁ : rt₁.abs = { rt.abs with current := if rt.abs.current = pid then -1
        else rt.abs.current } := by
      show rt₁.abs = { rt.abs with current := if rt.currentPid = pid then -1 else rt.currentPid }
      rw [← hrt₁]
      split_ifs <;> rfl
    have hp₁ : procGet rt₁.procs pid = some p := by
      rw [← hp, ← hrt₁]
      split_ifs <;> rfl
    rw [hrt₁]
    by_cases hx : p.state = .exited
    · have hmark : procMarkExited rt₁.procs pid 130 rt₁.tick = none := by
        rw [procMarkExited, hp₁]
        exact if_pos hx
      -- an EXITED process is not on the CPU
      have hne : rt.abs.current ≠ pid := by
        intro heq
        have hst := abs_stateOf hp
        rcases hplaced.current with hc | hc
        · have := (procGet_range hp).1
          omega
        · rw [heq, hst, hx] at hc
          cases hc
      rw [if_neg hne] at ha₁
      rw [hmark]
      exact ⟨hs₁, .inl ha₁⟩
    · have hid := keepsId_markExited 130 rt₁.tick
      have hmark := procMarkExited_eq_some.mpr
        ⟨⟨p, hp₁, hx⟩, rfl (a := rt₁.procs.modify pid fun p => p.markExited 130 rt₁.tick)⟩
      have hmod := abs_modify rt₁ hid hp₁
      obtain ⟨n, hpacked, hok⟩ := hs₁.shape.packed
      obtain ⟨hok', habs, hprocs⟩ := releaseSlot_spec { rt₁ with
        procs := rt₁.procs.modify pid fun p => p.markExited 130 rt₁.tick } hok pid
      rw [hmark]
      dsimp only
      generalize releaseSlot { rt₁ with
        procs := rt₁.procs.modify pid fun p => p.markExited 130 rt₁.tick } pid = rt₂ at *
      have hshape := hs₁.shape.modify pid hid fun _ hl => hl
      constructor
      · refine rebuildReadyQueues_sound ⟨⟨n, ?_, hok'⟩, ?_⟩
        · show rt₂.procs.Packed n
          rw [hprocs]
          exact hpacked.modify hid
        · show ∀ pid q, procGet rt₂.procs pid = some q → q.mlfqLevel < mosrtMlfqLevels
          rw [hprocs]
          exact hshape.level
      · refine .inr ⟨⟨p.state, abs_stateOf hp, hx⟩, ?_⟩
        rw [abs_rebuild, abs_log, habs, hmod, ha₁]
        rfl

/-! ### Passes -/

/-- What holds of a runtime between any two operations. -/
structure Consistent (rt : Runtime) : Prop where
  sound : rt.Sound
  placed : rt.abs.Placed

theorem idleTick_spec (h : rt.Sound) : (idleTick rt).Sound ∧ (idleTick rt).abs = rt.abs :=
  ⟨Sound.forEach h keeps_accountReadyWait, abs_forEach keeps_accountReadyWait.id
    keeps_accountReadyWait.state keeps_accountReadyWait.wakeup⟩

/-- The state in which an operation executes an instruction, if it does so and ends. -/
def RtOp.executing (rt : Runtime) : RtOp → Option Runtime
  | .pass fuel =>
    let r := dispatch (passPrepare rt)
    if r.1 ∧ (executeInstruction fuel r.2).isSome then some r.2 else none
  | _ => none

def RtOp.creates : RtOp → Bool
  | .runWorkload _ _ => true
  | _ => false

/-- What an operation does, seen in the abstract state. -/
inductive Moves (rt : Runtime) (op : RtOp) (rt' : Runtime) : Prop
  | quiet : op.executing rt = none → ReflTransGen Core.Quiet rt.abs rt'.abs → Moves rt op rt'
  | exec (d : Runtime) (fuel : ℕ) (consumed : Bool) : op.executing rt = some d →
      ReflTransGen Core.Quiet rt.abs d.abs → Consistent d → 0 ≤ d.currentPid →
      executeInstruction fuel d = some (consumed, rt') → Moves rt op rt'
  | spawn (pid : ℤ) (first : Option WorkloadInsn) : op.executing rt = none →
      rt.abs.stateOf pid = none → 0 < pid → pid ≤ mosrtMaxProcs →
      rt'.abs = rt.abs.spawn pid first → op.creates = true → Moves rt op rt'
  | kill (pid : ℤ) (st : ProcState) : op = .kill pid → rt.abs.stateOf pid = some st →
      st ≠ .exited → rt'.abs = rt.abs.kill pid → Moves rt op rt'

/-- An operation that the abstract state does not show. -/
theorem Moves.still {op : RtOp} (hop : op.executing rt = none) (h : rt'.abs = rt.abs) :
    Moves rt op rt' := .quiet hop (by rw [h])

/-- A pass executes an instruction, or nobody was READY and it idles. -/
theorem runtimePass_spec (h : Consistent rt) (fuel : ℕ) :
    (RtOp.exec rt (.pass fuel)).Sound ∧ Moves rt (.pass fuel) (RtOp.exec rt (.pass fuel)) ∧
      ((RtOp.exec rt (.pass fuel)).idleTicks ≠ rt.idleTicks →
        NobodyReady (RtOp.exec rt (.pass fuel)).procs) := by
  obtain ⟨hs, hsteps⟩ := passPrepare_spec h.sound
  obtain ⟨hds, hd⟩ := dispatch_spec hs (h.placed.steps hsteps)
  have hidle : (dispatch (passPrepare rt)).2.idleTicks = rt.idleTicks :=
    (dispatch_stirs _).clock.2.trans (passPrepare_stirs rt).clock.2
  have hexec : RtOp.exec rt (.pass fuel) = (runtimePass fuel rt).elim rt Prod.snd := by
    rw [RtOp.exec]
  obtain ⟨op, hop⟩ : ∃ op : RtOp, op = .pass fuel := ⟨_, rfl⟩
  have hexecuting : op.executing rt =
      if (dispatch (passPrepare rt)).1 = true ∧
        (executeInstruction fuel (dispatch (passPrepare rt)).2).isSome = true
      then some (dispatch (passPrepare rt)).2 else none := by
    rw [hop, RtOp.executing]
  rw [runtimePass] at hexec
  rw [hexec, ← hop]
  generalize dispatch (passPrepare rt) = r at hds hd hidle hexecuting ⊢
  rcases hd with ⟨htrue, hpos, hsteps'⟩ | ⟨hfalse, habs, hnobody⟩
  · rw [if_pos htrue]
    have hall := hsteps.trans hsteps'
    cases hinsn : executeInstruction fuel r.2 with
    | none =>
      -- the instruction does not end
      rw [hinsn] at hexecuting
      exact ⟨h.sound, .still (by rw [hexecuting, if_neg fun hc => by cases hc.2]) rfl,
        fun hne => absurd rfl hne⟩
    | some r' =>
      rw [hinsn] at hexecuting
      rw [if_pos ⟨htrue, rfl⟩] at hexecuting
      have hplaced := h.placed.steps hall
      have hmove := executeInstruction_spec hds hplaced hpos hinsn
      refine ⟨hmove.1, .exec r.2 fuel r'.1 hexecuting hall ⟨hds, hplaced⟩ hpos hinsn,
        fun hne => ?_⟩
      exact absurd ((idleTicks_executeInstruction hds hplaced hpos hinsn).trans hidle) hne
  · have hnot : ¬ r.1 = true := by
      rw [hfalse]
      exact Bool.false_ne_true
    rw [if_neg hnot]
    rw [if_neg fun hc => hnot hc.1] at hexecuting
    obtain ⟨hs', habs'⟩ := idleTick_spec hds
    refine ⟨hs', .quiet hexecuting ?_, fun _ => ?_⟩
    · show Relation.ReflTransGen Core.Quiet rt.abs (idleTick r.2).abs
      rw [habs', habs]
      exact hsteps
    · intro pid q hq hready
      have hst : (idleTick r.2).abs.stateOf pid = some .ready := by
        rw [← hready]
        exact abs_stateOf hq
      rw [habs', habs] at hst
      obtain ⟨q', hq', hready'⟩ := procGet_of_stateOf hst
      exact hnobody pid q' hq' hready'

theorem dispatch_false (h : (dispatch rt).1 = false) : rt.currentPid < 0 := by
  rw [dispatch] at h
  split_ifs at h with hcur
  exact not_le.mp hcur

/-- While the CPU is idle, nobody is RUNNING. -/
theorem idleTick_ledger {m d : Runtime} (hplaced : m.abs.Placed) (habs : d.abs = m.abs)
    (hcur : m.currentPid < 0) (hstirs : Stirs rt d) (hfits : fits → rt.tick + 1 < 2 ^ 64) :
    ∃ l₁ l₂, ReflTransGen Ledger.Stir rt.ledger l₁ ∧ Ledger.Tick fits l₁ l₂ ∧
      ReflTransGen Ledger.Stir l₂ (idleTick d).ledger := by
  refine ⟨d.ledger, d.ledger.idleTick, hstirs, .idle (fun q b hb hrun => ?_) ?_, ?_⟩
  · obtain ⟨p, hp, rfl⟩ := Option.map_eq_some_iff.mp hb
    have hst : d.abs.stateOf q = some .running := (abs_stateOf hp).trans (congrArg some hrun)
    rw [habs] at hst
    have hq : q = m.currentPid := hplaced.running q hst
    have hpos := hplaced.positive q (by rw [hst]; exact Option.some_ne_none _)
    omega
  · rw [← hstirs.clock.1] at hfits
    exact hfits
  · rw [ledger_idleTick]

/-- A pass takes a tick exactly if it says so. -/
theorem runtimePass_ledger {r : Bool × Runtime} (h : Consistent rt)
    (hfits : fits → rt.tick + 1 < 2 ^ 64) (hr : runtimePass fuel rt = some r) :
    r.1 = false ∧ Steps gone rt r.2 ∨ r.1 = true ∧ ∃ l₁ l₂, ReflTransGen Ledger.Stir rt.ledger l₁ ∧
      Ledger.Tick fits l₁ l₂ ∧ ReflTransGen Ledger.Stir l₂ r.2.ledger := by
  obtain ⟨hs, hsteps⟩ := passPrepare_spec h.sound
  have hplaced := h.placed.steps hsteps
  have hprepare := passPrepare_stirs rt
  rw [runtimePass] at hr
  generalize passPrepare rt = m at hs hplaced hprepare hr
  obtain ⟨hds, hd⟩ := dispatch_spec hs hplaced
  have hstirs : Stirs rt (dispatch m).2 := hprepare.trans (dispatch_stirs m)
  have hidle : (dispatch m).1 = false → m.currentPid < 0 := dispatch_false
  generalize dispatch m = d at hds hd hstirs hidle hr
  rcases hd with ⟨htrue, hpos, hsteps'⟩ | ⟨hfalse, habs, -⟩
  · rw [if_pos htrue] at hr
    have hledger : r.1 = false ∧ Steps gone d.2 r.2 ∨ r.1 = true ∧ ∃ l,
        Ledger.Tick fits d.2.ledger l ∧ ReflTransGen Ledger.Stir l r.2.ledger :=
      executeInstruction_ledger hds (hplaced.steps hsteps') hpos
        (by rw [hstirs.clock.1]; exact hfits) hr
    rcases hledger with ⟨hr1, hst⟩ | ⟨hr1, l, hburst, hst⟩
    · exact .inl ⟨hr1, hstirs.steps.trans hst⟩
    · exact .inr ⟨hr1, d.2.ledger, l, hstirs, hburst, hst⟩
  · rw [if_neg (by rw [hfalse]; exact nofun)] at hr
    rw [← Option.some.inj hr]
    exact .inr ⟨rfl, idleTick_ledger hplaced habs (hidle hfalse) hstirs hfits⟩

/-! ### Every operation -/

/-- The processes that lose their slots in an operation. -/
def RtOp.removed (rt : Runtime) : RtOp → List ℤ
  | .kill pid => if (runtimeKill rt pid).1 then [pid] else []
  | _ => []

theorem runtimeKill_steps (hgone : (runtimeKill rt pid).1 = true → pid ∈ gone) :
    Steps gone rt (runtimeKill rt pid).2 := by
  obtain ⟨k, hk⟩ : ∃ k, runtimeKill rt pid = k := ⟨_, rfl⟩
  rw [hk] at hgone ⊢
  rw [runtimeKill] at hk
  by_cases hget : (procGet rt.procs pid).isNone = true
  · rw [if_pos hget] at hk
    rw [← hk]
    exact .refl
  rw [if_neg hget] at hk
  dsimp only at hk
  obtain ⟨r, hr⟩ : ∃ r : Runtime,
    (if rt.currentPid = pid then { rt with currentPid := -1 } else rt) = r := ⟨_, rfl⟩
  have hl : r.ledger = rt.ledger := by
    rw [← hr]
    split_ifs <;> rfl
  rw [hr] at hk
  rw [Steps, ← hl]
  cases hmark : procMarkExited r.procs pid 130 r.tick with
  | none =>
    rw [hmark] at hk
    rw [← hk]
  | some procs =>
    rw [hmark] at hk
    dsimp only at hk
    rw [← hk] at hgone ⊢
    rw [ledger_rebuild, ledger_log, (releaseSlot_job _ pid).1]
    exact (ReflTransGen.single (procMarkExited_step hmark)).tail (.close pid (hgone rfl))

/-- A process that was killed has ended. -/
theorem runtimeKill_exited (h : (runtimeKill rt pid).1 = true) :
    (runtimeKill rt pid).2.abs.stateOf pid = some .exited := by
  obtain ⟨k, hk⟩ : ∃ k, runtimeKill rt pid = k := ⟨_, rfl⟩
  rw [hk] at h ⊢
  rw [runtimeKill] at hk
  by_cases hget : (procGet rt.procs pid).isNone = true
  · rw [if_pos hget] at hk
    rw [← hk] at h
    cases h
  rw [if_neg hget] at hk
  dsimp only at hk
  generalize (if rt.currentPid = pid then { rt with currentPid := -1 } else rt) = r at hk
  cases hmark : procMarkExited r.procs pid 130 r.tick with
  | none =>
    rw [hmark] at hk
    rw [← hk] at h
    cases h
  | some procs =>
    rw [hmark] at hk
    rw [← hk, abs_rebuild, abs_log]
    obtain ⟨⟨p, hp, -⟩, rfl⟩ := procMarkExited_eq_some.mp hmark
    have hprocs := (releaseSlot_job { r with
      procs := r.procs.modify pid fun p => p.markExited 130 r.tick } pid).2.2.1
    have hafter := procGet_modify_self (keepsId_markExited 130 r.tick) hp
    refine (abs_stateOf (p := p.markExited 130 r.tick) ?_).trans rfl
    rw [hprocs]
    exact hafter

/-- Only a pass takes time. -/
theorem RtOp.steps (h : rt.Sound) (op : RtOp) (hop : ∀ fuel, op ≠ .pass fuel) :
    Steps (op.removed rt) rt (RtOp.exec rt op) := by
  cases op with
  | pass fuel => exact absurd rfl (hop fuel)
  | runWorkload workload priority => exact runtimeRunWorkload_steps workload h priority
  | kill pid =>
    refine runtimeKill_steps fun htrue => ?_
    rw [RtOp.removed, if_pos htrue]
    exact List.mem_singleton_self pid
  | setScheduler algo =>
    rw [RtOp.exec, Steps, runtimeSetScheduler, ledger_rebuild]
    exact .refl
  | setNice pid niceValue =>
    rw [RtOp.exec, runtimeSetNice]
    split_ifs
    · exact .refl
    · rw [Steps, ledger_modify_keeps rt (f := fun p => { p with
        nice := clampNice niceValue
        priority := clampPrio (p.basePriority + clampNice niceValue) })
        (fun _ => ⟨rfl, rfl⟩) (fun _ => rfl) pid]
  | setPriority pid priority =>
    rw [RtOp.exec, runtimeSetPriority]
    split_ifs
    · exact .refl
    · rw [Steps, ledger_modify_keeps rt (f := fun p => { p with
        basePriority := clampPrio priority
        priority := clampPrio priority }) (fun _ => ⟨rfl, rfl⟩) (fun _ => rfl) pid]
  | setQuantum | setPolicy | yield | timerSignal => exact .refl

theorem RtOp.evolves (h : Consistent rt) (op : RtOp) (hfits : fits → rt.tick + 1 < 2 ^ 64) :
    Ledger.Evolves fits (op.removed rt) rt.ledger (RtOp.exec rt op).ledger := by
  by_cases hop : ∃ fuel, op = .pass fuel
  · obtain ⟨fuel, rfl⟩ := hop
    rw [RtOp.exec]
    cases hr : runtimePass fuel rt with
    | none => exact .still .refl
    | some r =>
      have hledger : r.1 = false ∧ Steps [] rt r.2 ∨ r.1 = true ∧ ∃ l₁ l₂,
          ReflTransGen Ledger.Stir rt.ledger l₁ ∧ Ledger.Tick fits l₁ l₂ ∧
            ReflTransGen Ledger.Stir l₂ r.2.ledger := runtimePass_ledger h hfits hr
      rcases hledger with ⟨-, hsteps⟩ | ⟨-, l₁, l₂, h₁, h₂, h₃⟩
      · exact .still hsteps
      · exact .tick l₁ l₂ h₁ h₂ h₃
  · exact .still (op.steps h.sound fun fuel hf => hop ⟨fuel, hf⟩)

theorem Moves.placed {op : RtOp} (h : Moves rt op rt') (hp : rt.abs.Placed) : rt'.abs.Placed := by
  cases h with
  | quiet _ hsteps => exact hp.steps hsteps
  | exec d fuel consumed _ _ hd hpos hinsn =>
    have hexec := executeInstruction_spec hd.sound hd.placed hpos hinsn
    obtain ⟨q, hcpu⟩ := hd.placed.onCpu hpos
    have hrun := Core.stateOf_eq hcpu.proc
    exact (hexec.2.moved hrun).placed hd.placed hrun
  | spawn pid first _ hnew hpos _ habs =>
    rw [habs]
    exact Core.placed_spawn hp hnew hpos
  | kill pid st _ hst _ habs =>
    rw [habs]
    exact Core.placed_kill hp (by rw [hst]; exact Option.some_ne_none st)

theorem Moves.exited {op : RtOp} (h : Moves rt op rt')
    (hx : rt.abs.stateOf pid = some .exited) : rt'.abs.stateOf pid = some .exited := by
  cases h with
  | quiet _ hsteps => exact Core.Quiet.exited_of_steps hsteps hx
  | exec d fuel consumed _ hsteps hd hpos hinsn =>
    have hexec := executeInstruction_spec hd.sound hd.placed hpos hinsn
    obtain ⟨q, hcpu⟩ := hd.placed.onCpu hpos
    have hrun := Core.stateOf_eq hcpu.proc
    exact (hexec.2.moved hrun).exited hrun (Core.Quiet.exited_of_steps hsteps hx)
  | spawn pid' first _ hnew _ _ habs =>
    rw [habs]
    exact Core.exited_spawn hnew hx
  | kill pid' st _ _ _ habs =>
    rw [habs]
    exact Core.exited_kill hx

/-- One operation: it is one of the moves, and the runtime stays sound. -/
theorem RtOp.moves (h : Consistent rt) (op : RtOp) :
    (RtOp.exec rt op).Sound ∧ Moves rt op (RtOp.exec rt op) := by
  cases op with
  | pass fuel =>
    obtain ⟨hs, hm, -⟩ := runtimePass_spec h fuel
    exact ⟨hs, hm⟩
  | runWorkload workload priority =>
    obtain ⟨hs, ha⟩ := runtimeRunWorkload_spec workload h.sound priority
    refine ⟨hs, ?_⟩
    rcases ha with ⟨ha, -⟩ | ⟨pid, hnew, hpos, hle, ha⟩
    · exact .still rfl ha
    · exact .spawn pid _ rfl hnew hpos hle ha rfl
  | kill pid =>
    obtain ⟨hs, ha⟩ := runtimeKill_spec h.sound h.placed pid
    refine ⟨hs, ?_⟩
    rcases ha with ha | ⟨⟨st, hst, hx⟩, ha⟩
    · exact .still rfl ha
    · exact .kill pid st rfl hst hx ha
  | setScheduler algo =>
    exact ⟨rebuildReadyQueues_sound h.sound.shape, .still rfl abs_rebuild⟩
  | setQuantum ticks => exact ⟨⟨h.sound.shape, h.sound.tracked⟩, .still rfl rfl⟩
  | setNice pid niceValue =>
    rw [RtOp.exec, runtimeSetNice]
    split_ifs
    · exact ⟨h.sound, .still rfl rfl⟩
    · have hkeep : Keeps fun p : Pcb => { p with
          nice := clampNice niceValue
          priority := clampPrio (p.basePriority + clampNice niceValue) } :=
        ⟨fun _ => ⟨rfl, rfl⟩, fun _ => rfl, fun _ => rfl, fun _ => rfl⟩
      exact ⟨h.sound.modify_keeps hkeep pid, .still rfl (abs_modify_keeps _ hkeep pid)⟩
  | setPriority pid priority =>
    rw [RtOp.exec, runtimeSetPriority]
    split_ifs
    · exact ⟨h.sound, .still rfl rfl⟩
    · have hkeep : Keeps fun p : Pcb => { p with
          basePriority := clampPrio priority
          priority := clampPrio priority } :=
        ⟨fun _ => ⟨rfl, rfl⟩, fun _ => rfl, fun _ => rfl, fun _ => rfl⟩
      exact ⟨h.sound.modify_keeps hkeep pid, .still rfl (abs_modify_keeps _ hkeep pid)⟩
  | setPolicy | yield | timerSignal => exact ⟨h.sound, .still rfl rfl⟩

theorem RtOp.consistent (h : Consistent rt) (op : RtOp) : Consistent (RtOp.exec rt op) := by
  obtain ⟨hs, hm⟩ := op.moves h
  exact ⟨hs, hm.placed h.placed⟩

theorem procGet_init (pid : ℤ) : procGet runtimeInit.procs pid = none := by
  cases hp : procGet procTableInit pid with
  | none => exact hp
  | some p =>
    obtain ⟨i, hi, -⟩ := packed_init.get_eq_some hp
    exact absurd hi (Nat.not_lt_zero i)

theorem runtimeInit_consistent : Consistent runtimeInit := by
  have hnone : ∀ pid, procGet procTableInit pid = none := procGet_init
  refine ⟨⟨⟨⟨0, packed_init, fun i _ hused => ?_⟩, fun pid p hp => ?_⟩, ?_⟩, ?_⟩
  · cases hused
  · have hp : procGet procTableInit pid = some p := hp
    rw [hnone] at hp
    cases hp
  · have hready : readyLevel .rr procTableInit = fun _ => none := by
      funext pid
      rw [readyLevel, hnone]
    show (schedInit .rr defaultQuantum).Tracks (readyLevel .rr procTableInit)
    rw [hready]
    exact schedInit_tracks _ _
  · have hst : ∀ pid, runtimeInit.abs.stateOf pid = none := by
      intro pid
      show ((procGet procTableInit pid).map _).map _ = none
      rw [hnone]
      rfl
    refine ⟨.inl rfl, fun pid hr => ?_, fun pid hne => absurd (hst pid) hne⟩
    rw [hst] at hr
    cases hr

theorem RtOp.run_consistent (ops : List RtOp) :
    Consistent (Runs.run RtOp.exec runtimeInit ops) :=
  Runs.run_invariant (fun _ op h _ => RtOp.consistent h op) runtimeInit_consistent
    (Runs.along_true _ _)

/-- What every operation keeps in consistent states, every run keeps. -/
theorem RtOp.run_keeps {I : Runtime → Prop} {ok : Runtime → RtOp → Prop} {ops : List RtOp}
    (hstep : ∀ rt op, Consistent rt → I rt → ok rt op → I (RtOp.exec rt op))
    (hinit : I runtimeInit) (hok : Runs.Along RtOp.exec ok runtimeInit ops) :
    I (Runs.run RtOp.exec runtimeInit ops) :=
  (Runs.run_invariant (I := fun rt => Consistent rt ∧ I rt)
    (fun rt op h hop => ⟨op.consistent h.1, hstep rt op h.1 h.2 hop⟩)
    ⟨runtimeInit_consistent, hinit⟩ hok).2

/-- The same of the ledger. -/
theorem RtOp.run_ledger {I : Ledger → Prop} (hinit : I runtimeInit.ledger)
    (hstep : ∀ gone l l', Ledger.Evolves False gone l l' → I l → I l') (ops : List RtOp) :
    I (Runs.run RtOp.exec runtimeInit ops).ledger :=
  RtOp.run_keeps (I := fun rt => I rt.ledger)
    (fun _ op hrt h _ => hstep _ _ _ (op.evolves hrt False.elim) h) hinit (Runs.along_true _ ops)

end Mosrt
