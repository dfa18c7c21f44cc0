/-
The address of an `ACCESS`.

`ACCESS a w` names the address `a`, or for a negative `a` the one `|a|` bytes behind the last
allocation.  The runtime casts it to 16 bits, so a byte of the first 64 KiB is the one named,
and any other wraps around to one of them.

* `StoreOk.exec` — along runs of the runtime, memory goes through steps of the memory system
  only, and every process has an address space;
* `touchByte_false` — the access of one byte fails exactly if it is refused beforehand;
* `access_named` — when an `ACCESS` does what its operand says.
-/
import Mosrt.AllocStore
import Mosrt.Eviction
import Mosrt.FlatMemory
import Mosrt.Protection
import Mosrt.RosterSpec

namespace Mosrt

open StateSim

variable {rt rt' d : Runtime} {s s' : VmSys} {pid : ℤ} {p : Pcb} {idx fuel addr vpn tick : ℕ}
  {insn : WorkloadInsn} {write : Bool} {last : ℤ → Option ℕ}

/-! ### Memory along runs -/

/-- Memory as its own steps leave it, with an address space for every process. -/
structure StoreOk (x : VmSys × (ℤ → Option ℕ)) : Prop where
  steps : MemSteps vmInit x.1
  live : ∀ pid, (x.1.vms pid).isSome = (x.2 pid).isSome

theorem SameExtents.isSome (h : SameExtents s s') (pid : ℤ) :
    (s'.vms pid).isSome = (s.vms pid).isSome := by
  have hsome := congrArg Option.isSome (h pid)
  rwa [Option.isSome_map, Option.isSome_map] at hsome

theorem StoreOk.pages (h : StoreOk (s, last)) (hsteps : PageSteps s s') : StoreOk (s', last) where
  steps := h.steps.trans hsteps.memSteps
  live := fun pid => (hsteps.extents.isSome pid).trans (h.live pid)

/-- An existing process allocates or frees. -/
theorem StoreOk.record (h : StoreOk (s, last)) (hsome : (last pid).isSome = true) (addr : ℕ) :
    StoreOk (s, Function.update last pid (some addr)) where
  steps := h.steps
  live := by
    intro q
    refine (h.live q).trans ?_
    dsimp only
    rw [Function.update_apply]
    split_ifs with hq
    · rw [hq, hsome]
      rfl
    · rfl

theorem growPages_isSome (n : ℕ) (s : VmSys) (q : ℤ) :
    (((fun s => growPage s pid)^[n] s).vms q).isSome = (s.vms q).isSome := by
  induction n generalizing s with
  | zero => rfl
  | succ n ih =>
    rw [Function.iterate_succ_apply, ih, growPage]
    exact modifyVm_isSome _ _

theorem StoreOk.grow (h : StoreOk (s, last)) (pid : ℤ) (tick n : ℕ) :
    StoreOk (((heapGrow (vmHeapOps pid tick) n).run s).2, last) where
  steps := h.steps.trans (heapGrow_steps pid tick n s)
  live := by
    intro q
    rw [← h.live q, heapGrow, run_get_bind]
    split_ifs
    · rfl
    · rfl
    · exact growPages_isSome n s q

/-- The allocator, call by call. -/
theorem storeOk_calls (pid : ℤ) (tick : ℕ) (last : ℤ → Option ℕ) :
    HeapCalls (vmHeapOps pid tick) (vmHeapOps pid tick) fun s t => s = t ∧ StoreOk (s, last) where
  hasVm := fun s t h => by rw [h.1]
  heapStart := fun s t h => by rw [h.1]
  heapBreak := fun s t h => by rw [h.1]
  readMem := by
    rintro addr len s _ ⟨rfl, hs⟩
    exact ⟨rfl, rfl, hs.pages (vmReadMem_steps s pid addr len tick)⟩
  writeMem := by
    rintro addr src s _ ⟨rfl, hs⟩
    exact ⟨rfl, rfl, hs.pages (vmWriteMem_steps s pid addr src tick)⟩
  heapGrow := by
    rintro n s _ ⟨rfl, hs⟩
    exact ⟨rfl, rfl, hs.grow pid tick n⟩

theorem StoreOk.flush (h : StoreOk (s, last)) : StoreOk ({ s with tlb := tlbFlush s.tlb }, last) :=
  h.pages (SoftStep.steps (.setTlb _ fun _ _ _ => tlbFlush_agrees))

theorem StoreOk.setPolicy (h : StoreOk (s, last)) (name : String) :
    StoreOk ((pagerSetPolicy s name).2, last) where
  steps := h.steps.tail (.setPolicy name)
  live := fun pid => by
    rw [(pagerSetPolicy_same s name).2.2.2]
    exact h.live pid

theorem StoreOk.spawn (h : StoreOk (s, last)) (hnone : last pid = none) :
    StoreOk ({ s with vms := Function.update s.vms pid (some vmProcInit) },
      Function.update last pid (some 0)) := by
  have hvm : (s.vms pid).isNone = true := by
    have hlive : (s.vms pid).isSome = (last pid).isSome := h.live pid
    rw [← Option.not_isSome, hlive, hnone]
    rfl
  have hspawn : vmSpawn s pid = { s with vms := Function.update s.vms pid (some vmProcInit) } := by
    rw [vmSpawn, if_pos hvm]
  constructor
  · rw [← hspawn]
    exact h.steps.tail (.spawn pid)
  · intro q
    dsimp only
    rw [Function.update_apply, Function.update_apply]
    split_ifs
    · rfl
    · exact h.live q

theorem OnCpu.recorded (hc : OnCpu rt p) : (rt.procs.lastAllocs rt.currentPid).isSome = true := by
  rw [ProcTable.lastAllocs, hc.get]
  rfl

theorem accessMem_steps (rt : Runtime) (pid : ℤ) (insn : WorkloadInsn) :
    PageSteps rt.vm (accessMem rt pid insn).2 := by
  rw [accessMem]
  split_ifs
  · exact vmWriteMem_steps _ _ _ _ _
  · exact vmReadMem_steps _ _ _ _ _

theorem StoreOk.executed {r : Bool × Runtime} (hs : StoreOk rt.store) (hc : Consistent rt)
    (hpos : 0 ≤ rt.currentPid) (hexec : executeInstruction fuel rt = some r) :
    StoreOk r.2.store := by
  obtain ⟨q, hcpu⟩ := hc.placed.onCpu hpos
  by_cases hmem : ∃ insn, rt.insnOf rt.currentPid = some insn ∧ insn.op.isMemory = true
  · obtain ⟨insn, hinsn, hmem⟩ := hmem
    obtain ⟨p, idx, hat⟩ := atInsn hc.sound hc.placed hpos hinsn
    rw [executeInstruction, hat.current] at hexec
    dsimp only at hexec
    cases hop : insn.op with
    | mmap =>
      rw [hop] at hexec
      obtain ⟨rt', hmmap, rfl⟩ := Option.map_eq_some_iff.mp hexec
      rcases execMmap_store hat hmmap with hstore | ⟨-, addr, -, hvm, hres⟩
      · exact hstore ▸ hs
      · have hmalloc := ((storeOk_calls rt.currentPid rt.tick rt.procs.lastAllocs).malloc fuel
          (mmapSize insn)).invariant hs
        have hvm : StoreOk (rt'.vm, rt.procs.lastAllocs) := hvm ▸ hmalloc
        rw [Runtime.store]
        rcases hres with ⟨-, hlast⟩ | ⟨-, hlast⟩
        · exact hlast ▸ hvm
        · exact hlast ▸ hvm.record hcpu.recorded addr
    | access =>
      rw [hop] at hexec
      cases hexec
      rcases execAccess_store rt idx insn with hstore | ⟨-, hstore⟩
      · exact hstore ▸ hs
      · exact hstore ▸ StoreOk.pages hs (accessMem_steps rt rt.currentPid insn)
    | mfree =>
      rw [hop] at hexec
      cases hexec
      rcases execMfree_store hat.cpu idx with hstore | ⟨-, hstore⟩
      · exact hstore ▸ hs
      · have hfree := ((storeOk_calls rt.currentPid rt.tick rt.procs.lastAllocs).free
          (vmLastAlloc rt rt.currentPid)).invariant hs
        exact hstore ▸ StoreOk.record hfree hcpu.recorded 0
    | cpu | io | send | recv | semWait | semPost | lock | unlock | exit =>
      rw [hop] at hmem
      cases hmem
  · refine executeInstruction_store hcpu hexec (fun insn hinsn => ?_) ▸ hs
    exact Bool.eq_false_iff.mpr fun hop => hmem ⟨insn, hinsn, hop⟩

theorem StoreOk.prepared (hs : StoreOk rt.store) : StoreOk (dispatch (passPrepare rt)).2.store := by
  rw [← store_passPrepare rt] at hs
  generalize passPrepare rt = m at hs ⊢
  rcases dispatch_store m with ⟨hstore, -⟩ | hstore
  · exact hstore ▸ hs
  · exact hstore ▸ StoreOk.flush hs

theorem StoreOk.pass (hs : StoreOk rt.store) (hc : Consistent rt) (fuel : ℕ) :
    StoreOk (RtOp.exec rt (.pass fuel)).store := by
  have hd := hs.prepared
  obtain ⟨hcons, hpos⟩ := hc.prepared
  rcases pass_cases rt fuel with ⟨htrue, ⟨-, hexec⟩ | ⟨r, hinsn, hexec⟩⟩ | ⟨-, hexec⟩
  · rw [hexec]
    exact hs
  · rw [hexec]
    exact hd.executed hcons (hpos htrue) hinsn
  · rw [hexec, store_idleTick]
    exact hd

theorem StoreOk.exec (op : RtOp) (hs : StoreOk rt.store) (hc : Consistent rt) :
    StoreOk (RtOp.exec rt op).store := by
  by_cases hpass : ∃ fuel, op = .pass fuel
  · obtain ⟨fuel, rfl⟩ := hpass
    exact hs.pass hc fuel
  · have hpass : ∀ fuel, op ≠ .pass fuel := fun fuel hop => hpass ⟨fuel, hop⟩
    cases hcreate : op.creates with
    | false =>
      rcases op.store_exec hpass hcreate with hstore | ⟨name, rfl⟩
      · rw [hstore]
        exact hs
      · exact StoreOk.setPolicy hs name
    | true =>
      cases op with
      | runWorkload workload priority =>
        rw [RtOp.exec]
        rcases runtimeRunWorkload_store hc.sound workload priority
          with hstore | ⟨q, habsent, hstore⟩
        · rw [hstore]
          exact hs
        · rw [hstore]
          refine StoreOk.spawn hs ?_
          rw [ProcTable.lastAllocs, habsent, Option.map_none]
      | _ => cases hcreate

theorem runtimeInit_storeOk : StoreOk runtimeInit.store where
  steps := .refl
  live := by
    intro pid
    show false = ((procGet runtimeInit.procs pid).map _).isSome
    rw [procGet_init]
    rfl

theorem run_storeOk (ops : List RtOp) :
    Consistent (Runs.run RtOp.exec runtimeInit ops) ∧
      StoreOk (Runs.run RtOp.exec runtimeInit ops).store :=
  Runs.run_invariant (I := fun rt => Consistent rt ∧ StoreOk rt.store)
    (fun _ op h _ => ⟨op.consistent h.1, h.2.exec op h.1⟩)
    ⟨runtimeInit_consistent, runtimeInit_storeOk⟩ (Runs.along_true _ _)

/-! ### A byte -/

/-- One byte is written at `addr`, or read there: whether it was, and the memory after. -/
def touchByte (s : VmSys) (pid : ℤ) (addr : ℕ) (write : Bool) (tick : ℕ) : Bool × VmSys :=
  if write then
    let r := vmWriteMem s pid addr [0xAA] tick
    (r.1, r.2.2)
  else
    let r := vmReadMem s pid addr 1 tick
    (r.1.isSome, r.2)

theorem accessMem_eq (rt : Runtime) (pid : ℤ) (insn : WorkloadInsn) :
    accessMem rt pid insn =
      touchByte rt.vm pid (accessAddr rt pid insn) (decide (insn.arg1 ≠ 0)) rt.tick := by
  rw [accessMem, touchByte]
  simp only [decide_eq_true_eq]

/-- The translation of a page number, for reading or writing. -/
def vmTranslate (s : VmSys) (pid : ℤ) (vpn : ℕ) (write : Bool) (tick : ℕ) : Option ℕ × VmSys :=
  if write then vmTranslateWrite s pid vpn tick else vmTranslateRead s pid vpn tick

/-- The byte is served if its page is translated. -/
theorem touchByte_translate (hvm : (s.vms pid).isSome = true) (haddr : addr < 65536) (write : Bool)
    (tick : ℕ) :
    ((touchByte s pid addr write tick).1 = false ↔
      (vmTranslate s pid (vpnOf addr) write tick).1 = none) ∧
    ((touchByte s pid addr write tick).1 = false →
      (touchByte s pid addr write tick).2 = (vmTranslate s pid (vpnOf addr) write tick).2) := by
  have hnone : ¬ (s.vms pid).isNone = true := by
    rw [← Option.not_isSome, hvm]
    exact nofun
  have hfits : ¬ addr + 1 > vmVirtAddrSpaceSize := by
    show ¬ addr + 1 > 65536
    omega
  have hcurr : currAddr addr 0 = addr := by
    show (addr + 0) % 65536 = addr
    omega
  rw [touchByte, vmTranslate]
  cases write with
  | true =>
    rw [if_pos rfl, if_pos rfl, vmWriteMem, if_neg hnone, if_neg (by exact hfits), vmWriteLoop,
      hcurr, vmWriteByte]
    obtain ⟨out, s₁, htr⟩ : ∃ out s₁, vmTranslateWrite s pid (vpnOf addr) tick = (out, s₁) :=
      ⟨_, _, rfl⟩
    rw [htr]
    cases out with
    | none => simp
    | some f => simp [vmWriteLoop]
  | false =>
    rw [if_neg (by decide), if_neg (by decide), vmReadMem, if_neg hnone, if_neg hfits, vmReadLoop,
      hcurr, vmReadByte]
    obtain ⟨out, s₁, htr⟩ : ∃ out s₁, vmTranslateRead s pid (vpnOf addr) tick = (out, s₁) :=
      ⟨_, _, rfl⟩
    rw [htr]
    cases out with
    | none => simp
    | some f => simp [vmReadLoop]

/-! ### Failed accesses -/

theorem pagerObtainFrame_exhausted (h : s.exhausted pid = true) (vpn : ℕ) :
    (pagerObtainFrame s pid vpn).1 = none := by
  have hfull : freeFrame s.frame = none := by
    rw [VmSys.exhausted, Bool.and_eq_true, Option.isNone_iff_eq_none] at h
    exact h.1
  have hev := pagerEvict_ok hfull pid
  have halloc : frameAlloc s.frame pid vpn = (none, s.frame) := by rw [frameAlloc, hfull]
  rw [pagerObtainFrame, halloc]
  obtain ⟨ok, s₁, heq⟩ : ∃ ok s₁, pagerEvict s pid = (ok, s₁) := ⟨_, _, rfl⟩
  rw [heq, h] at hev
  obtain rfl : ok = false := hev
  rw [heq]

theorem vmMiss_outOfMemory (h : s.outOfMemory pid vpn = true) :
    (vmMiss s pid vpn write tick).1 = none := by
  have herr : (pagerAccessPage s pid vpn write tick).1.isError = true := by
    rw [VmSys.outOfMemory] at h
    rw [pagerAccessPage]
    cases hvm : s.vms pid with
    | none => rfl
    | some vm =>
      have hpte : s.pte pid vpn = some (vm.pt vpn) := by
        rw [VmSys.pte, hvm]
        rfl
      rw [hpte] at h
      obtain ⟨habsent, hex⟩ := Bool.and_eq_true_iff.mp h
      have hno := pagerObtainFrame_exhausted hex vpn
      dsimp only
      obtain ⟨out, s₁, heq⟩ : ∃ out s₁, pagerObtainFrame s pid vpn = (out, s₁) := ⟨_, _, rfl⟩
      rw [heq] at hno ⊢
      obtain rfl : out = none := hno
      generalize (if write = true then vmProtWrite else vmProtRead) = req
      by_cases hval : (!pageTableValidatePermissions vm.pt vpn req) = true
      · rw [if_pos hval]
        rfl
      · rw [if_neg hval, if_neg (by simpa using habsent)]
        rfl
  rw [vmMiss]
  dsimp only
  rw [if_pos herr]

/-- An entry but for the bit that a search for a victim clears. -/
def Pte.unmarked (e : Pte) : Pte := { e with referenced := false }

/-- No page is used: frames, slots and entries are as before. -/
structure NoPageUsed (s s' : VmSys) : Prop where
  frame : s'.frame = s.frame
  swap : s'.swap = s.swap
  pte : ∀ p v, (s'.pte p v).map Pte.unmarked = (s.pte p v).map Pte.unmarked

theorem NoPageUsed.refl (s : VmSys) : NoPageUsed s s := ⟨rfl, rfl, fun _ _ => rfl⟩

theorem pagerPickVictim_unused (s : VmSys) (pid : ℤ) :
    NoPageUsed s (pagerPickVictim s pid).2 := by
  obtain ⟨-, -, -, hframe, hswap, -⟩ := pagerPickVictim_spec s pid
  refine ⟨hframe, hswap, fun p v => ?_⟩
  rw [pagerPickVictim]
  cases hvm : s.vms pid with
  | none => rfl
  | some vm =>
    dsimp only
    rw [modifyVm_pte]
    split_ifs with hp
    · obtain ⟨r, hr⟩ := policyEvict_pt s.pager.policy vm.pt v
      simp [VmSys.pte, hvm, hp, hr, Pte.unmarked]
    · rfl

theorem vmMiss_unused (hsound : s.paged.Sound)
    (hnone : (vmMiss s pid vpn write tick).1 = none) :
    NoPageUsed s (vmMiss s pid vpn write tick).2 := by
  have hres := pagerAccessPage_result hsound pid vpn write tick
  rw [vmMiss] at hnone ⊢
  obtain ⟨res, out, s₁, hacc⟩ : ∃ res out s₁,
    pagerAccessPage s pid vpn write tick = (res, out, s₁) := ⟨_, _, _, rfl⟩
  rw [hacc] at hres hnone ⊢
  dsimp only at hnone ⊢
  by_cases herr : res.isError = true
  · rw [if_pos herr]
    cases res with
    | errorOom =>
      obtain ⟨-, rfl⟩ : _ ∧ s₁ = (pagerPickVictim s pid).2 := hres
      exact pagerPickVictim_unused s pid
    | errorPerm | errorAddr =>
      obtain rfl : s₁ = s := hres
      exact .refl s₁
    | hit | faultMinor | faultMajor => cases herr
  · rw [if_neg herr] at hnone
    split at hnone <;> cases hnone

theorem vmTranslate_unused (hsound : s.paged.Sound)
    (hnone : (vmTranslate s pid vpn write tick).1 = none) :
    NoPageUsed s (vmTranslate s pid vpn write tick).2 := by
  have hmiss : (vmMiss (s.lookedUp vpn tick) pid vpn write tick).1 = none →
      NoPageUsed s (vmMiss (s.lookedUp vpn tick) pid vpn write tick).2 := by
    intro hnone
    have hsame := vmMiss_unused (s := s.lookedUp vpn tick) hsound hnone
    exact ⟨hsame.frame, hsame.swap, hsame.pte⟩
  rw [vmTranslate] at hnone ⊢
  cases write with
  | true =>
    rw [if_pos rfl, vmTranslateWrite] at hnone ⊢
    cases hr : (tlbLookup s.tlb vpn tick).1 with
    | none =>
      rw [hr] at hnone
      exact hmiss hnone
    | some r =>
      rw [hr] at hnone
      dsimp only at hnone ⊢
      split_ifs at hnone ⊢ with hperm
      exact ⟨rfl, rfl, fun _ _ => rfl⟩
  | false =>
    rw [if_neg (by decide), vmTranslateRead] at hnone ⊢
    cases hr : (tlbLookup s.tlb vpn tick).1 with
    | none =>
      rw [hr] at hnone
      exact hmiss hnone
    | some r =>
      rw [hr] at hnone
      dsimp only at hnone ⊢
      split_ifs at hnone ⊢ with hperm
      exact ⟨rfl, rfl, fun _ _ => rfl⟩

/-- The segment of a page forbids only writes, and those only below the data. -/
theorem default_permits (vpn : ℕ) (write : Bool) :
    pageTableGetSegmentDefaultPermissions vpn &&& reqPerm write = reqPerm write ∨
      write = true ∧ vpn < 32 := by
  cases write with
  | true =>
    by_cases hv : vpn < 32
    · exact .inr ⟨rfl, hv⟩
    · exact .inl ((writable_iff vpn).mpr (not_lt.mp hv))
  | false =>
    refine .inl ?_
    rw [pageTableGetSegmentDefaultPermissions, pageTableGetSegmentName]
    simp only [vmSegTextPages, vmSegRodataPages, vmSegDataPages, vmSegBssPages, vmSegHeapMaxPages,
      vmSegStackMaxPages, vmNumPages, vmVirtAddrSpaceSize, vmPageSize, reqPerm, vmProtRead,
      vmProtWrite, vmProtExec]
    -- the last segment, unknown, is empty
    split_ifs <;> first | rfl | omega

theorem outOfMemory_lookedUp (s : VmSys) (pid : ℤ) (vpn tick : ℕ) :
    (s.lookedUp vpn tick).outOfMemory pid vpn = s.outOfMemory pid vpn := by
  rw [VmSys.outOfMemory, VmSys.outOfMemory, exhausted_lookedUp]
  rfl

/-- The access of a byte will fail: the byte is write-protected, or its page is neither in the
TLB nor in a frame, and there is no frame to be had. -/
def VmSys.refuses (s : VmSys) (pid : ℤ) (addr : ℕ) (write : Bool) (tick : ℕ) : Bool :=
  write && decide (addr < writableStart) ||
    (tlbLookup s.tlb (vpnOf addr) tick).1.isNone && s.outOfMemory pid (vpnOf addr)

theorem refuses_iff : s.refuses pid addr write tick = true ↔
    write = true ∧ vpnOf addr < 32 ∨
      (tlbLookup s.tlb (vpnOf addr) tick).1 = none ∧ s.outOfMemory pid (vpnOf addr) = true := by
  have hpage : addr < writableStart ↔ vpnOf addr < 32 := by
    show addr < 8192 ↔ addr / 256 < 32
    omega
  rw [VmSys.refuses, Bool.or_eq_true, Bool.and_eq_true, Bool.and_eq_true, decide_eq_true_iff,
    Option.isNone_iff_eq_none, hpage]

theorem Translated.refused (h : Translated s pid vpn write tick none s') (hg : Guarded s)
    (hvm : (s.vms pid).isSome = true) :
    write = true ∧ vpn < 32 ∨
      (tlbLookup s.tlb vpn tick).1 = none ∧ s.outOfMemory pid vpn = true := by
  cases h with
  | tlbRefused hr hzero =>
    rw [hg.tlb.hit hr] at hzero
    refine .inl ((default_permits vpn write).resolve_left fun hok => ?_)
    rw [hzero] at hok
    cases write <;> cases hok
  | failed hmiss herr _ =>
    cases herr with
    | addr hnone =>
      rw [hnone] at hvm
      cases hvm
    | perm hperm hbad =>
      rw [hg.perms _ _ _ hperm] at hbad
      exact .inl ((default_permits vpn write).resolve_left hbad)
    | oom hframe hex =>
      refine .inr ⟨hmiss, ?_⟩
      obtain ⟨vm, hvm⟩ := Option.isSome_iff_exists.mp hvm
      have hpte : s.pte pid vpn = some (vm.pt vpn) := by
        rw [VmSys.pte, hvm]
        rfl
      rw [paged_entry hpte] at hframe
      rw [VmSys.outOfMemory, hpte, hex]
      simpa [entryOf] using hframe

theorem vmTranslate_none (hg : Guarded s) (hvm : (s.vms pid).isSome = true) :
    (vmTranslate s pid vpn write tick).1 = none ↔
      write = true ∧ vpn < 32 ∨
        (tlbLookup s.tlb vpn tick).1 = none ∧ s.outOfMemory pid vpn = true := by
  have hspec : Translated s pid vpn write tick (vmTranslate s pid vpn write tick).1
      (vmTranslate s pid vpn write tick).2 := by
    rw [vmTranslate]
    cases write with
    | true => exact vmTranslateWrite_spec hg.sound hvm vpn tick
    | false => exact vmTranslateRead_spec hg.sound pid vpn tick
  constructor
  · intro hnone
    rw [hnone] at hspec
    exact hspec.refused hg hvm
  · rintro (⟨rfl, hv⟩ | ⟨hmiss, hoom⟩)
    · rw [vmTranslate, if_pos rfl, vmTranslateWrite_refused hg hvm hv]
    · rw [← outOfMemory_lookedUp s pid vpn tick] at hoom
      rw [vmTranslate]
      cases write with
      | true =>
        rw [if_pos rfl, vmTranslateWrite, hmiss]
        exact vmMiss_outOfMemory hoom
      | false =>
        rw [if_neg (by decide), vmTranslateRead, hmiss]
        exact vmMiss_outOfMemory hoom

/-- The access of a byte fails exactly if it is refused beforehand, and uses no page then. -/
theorem touchByte_false (hg : Guarded s) (hvm : (s.vms pid).isSome = true) (haddr : addr < 65536)
    (write : Bool) (tick : ℕ) :
    ((touchByte s pid addr write tick).1 = false ↔ s.refuses pid addr write tick = true) ∧
      ((touchByte s pid addr write tick).1 = false →
        NoPageUsed s (touchByte s pid addr write tick).2) := by
  obtain ⟨hiff, hstate⟩ := touchByte_translate hvm haddr write tick
  refine ⟨hiff.trans ((vmTranslate_none hg hvm).trans refuses_iff.symm), fun hfail => ?_⟩
  rw [hstate hfail]
  exact vmTranslate_unused hg.sound (hiff.mp hfail)

/-! ### The instruction -/

/-- State and exit code of a process. -/
def Runtime.exitOf (rt : Runtime) (pid : ℤ) : Option (ProcState × ℤ) :=
  (procGet rt.procs pid).map fun p => (p.state, p.exitCode)

theorem exitCurrent_exitOf (rt : Runtime) (hc : OnCpu rt p) (code : ℤ) :
    (exitCurrent rt code).exitOf rt.currentPid = some (.exited, code) := by
  rw [exitCurrent, if_neg hc.not_neg, hc.markExited]
  show (procGet (rt.procs.modify rt.currentPid _) rt.currentPid).map _ = _
  rw [procGet_modify_self (keepsId_markExited code rt.tick) hc.get]
  rfl

theorem Runtime.exited_of_exitOf {code : ℤ} (rt : Runtime)
    (h : rt.exitOf pid = some (.exited, code)) : rt.abs.stateOf pid = some .exited := by
  obtain ⟨p, hp, heq⟩ := Option.map_eq_some_iff.mp h
  rw [abs_stateOf hp, (Prod.mk.inj heq).1]

/-- A process that makes an `ACCESS` exits with code 6 exactly if the access fails. -/
theorem execAccess_exitOf (h : AtInsn rt p idx insn)
    (hvm : (rt.vm.vms rt.currentPid).isSome = true) :
    (execAccess rt rt.currentPid idx insn).vm = (accessMem rt rt.currentPid insn).2 ∧
      ((execAccess rt rt.currentPid idx insn).exitOf rt.currentPid = some (.exited, 6) ↔
        (accessMem rt rt.currentPid insn).1 = false) := by
  have hlacks : ¬ lacksVm rt rt.currentPid = true := by
    simp [lacksVm, h.cpu.get, Option.isSome_iff_ne_none.mp hvm]
  rw [execAccess, if_neg hlacks]
  dsimp only
  generalize accessMem rt rt.currentPid insn = r
  generalize accessDetail rt rt.currentPid insn = detail
  by_cases hfail : r.1 = false
  · rw [if_pos hfail]
    refine ⟨congrArg Prod.fst (store_exitCurrent { rt with vm := r.2 } 6), fun _ => hfail,
      fun _ => ?_⟩
    exact exitCurrent_exitOf { rt with vm := r.2 } ⟨h.cpu.pos, h.cpu.get, h.cpu.running⟩ 6
  rw [if_neg hfail]
  obtain ⟨rt₁, hrt₁⟩ : ∃ r₁, ({ rt with vm := r.2 } : Runtime).log rt.currentPid "ACCESS" detail =
    r₁ := ⟨_, rfl⟩
  have hs₁ : rt₁.Sound := hrt₁ ▸ h.sound
  have hcpu₁ : OnCpu rt₁ p := hrt₁ ▸ ⟨h.cpu.pos, h.cpu.get, h.cpu.running⟩
  have hvm₁ : rt₁.vm = r.2 := hrt₁ ▸ rfl
  have hpid : rt.currentPid = rt₁.currentPid := hrt₁ ▸ rfl
  rw [hrt₁, hpid]
  split_ifs
  · obtain ⟨-, ha⟩ := sleep_spec hs₁ hcpu₁ ((rt₁.tick + vmPageFaultLatency) % 2 ^ 64) "page fault"
    refine ⟨?_, fun hexit => ?_, fun hfail' => absurd hfail' hfail⟩
    · refine (congrArg Prod.fst (store_blockCurrent _ _)).trans ?_
      exact (congrArg Prod.fst (store_setWakeup rt₁ _ _)).trans hvm₁
    · have hst := Runtime.exited_of_exitOf _ hexit
      rw [ha, Core.stateOf_leave, if_pos (by rfl)] at hst
      cases hst
  · refine ⟨hvm₁, fun hexit => ?_, fun hfail' => absurd hfail' hfail⟩
    have hst := rt₁.exited_of_exitOf hexit
    rw [abs_stateOf hcpu₁.get, hcpu₁.running] at hst
    cases hst

/-- The address that an `ACCESS` names: its operand, or as far behind the last allocation as a
negative operand says. -/
def namedAddr (rt : Runtime) (insn : WorkloadInsn) : ℤ :=
  if insn.arg0 < 0 then vmLastAlloc rt rt.currentPid + |insn.arg0| else insn.arg0

/-- The `ACCESS` that leads from `rt` to `rt'` touches only the address it names.  The difference
`vm_last_alloc - arg0` is one of 32-bit integers. -/
structure NamesAddress (rt : Runtime) (insn : WorkloadInsn) (rt' : Runtime) : Prop where
  fits : insn.arg0 < 0 → (vmLastAlloc rt rt.currentPid : ℤ) - insn.arg0 < 2 ^ 31
  within : namedAddr rt insn ≤ 65535 →
    (accessAddr rt rt.currentPid insn : ℤ) = namedAddr rt insn ∧
      rt'.vm = (touchByte rt.vm rt.currentPid (namedAddr rt insn).toNat (decide (insn.arg1 ≠ 0))
        rt.tick).2
  beyond : 65535 < namedAddr rt insn →
    rt'.exitOf rt.currentPid = some (.exited, 6) ∧ NoPageUsed rt.vm rt'.vm

theorem namedAddr_nonneg (rt : Runtime) (insn : WorkloadInsn) : 0 ≤ namedAddr rt insn := by
  rw [namedAddr]
  split_ifs
  · positivity
  · omega

/-- The cast to 16 bits. -/
theorem accessAddr_eq (rt : Runtime) (insn : WorkloadInsn) :
    accessAddr rt rt.currentPid insn = (namedAddr rt insn % 65536).toNat := by
  rw [accessAddr, namedAddr]
  split_ifs with hneg
  · rw [abs_of_neg hneg, ← sub_eq_add_neg]
    rfl
  · rfl

theorem AtInsn.named_iff (h : AtInsn rt p idx insn) (hg : Guarded rt.vm)
    (hvm : (rt.vm.vms rt.currentPid).isSome = true) :
    NamesAddress rt insn (execAccess rt rt.currentPid idx insn) ↔
      namedAddr rt insn ≤ 65535 ∨ (insn.arg0 < 0 → namedAddr rt insn < 2 ^ 31) ∧
        rt.vm.refuses rt.currentPid (namedAddr rt insn % 65536).toNat (decide (insn.arg1 ≠ 0))
          rt.tick = true := by
  obtain ⟨hvm', hexit⟩ := execAccess_exitOf h hvm
  have hnonneg := namedAddr_nonneg rt insn
  have haddr : accessAddr rt rt.currentPid insn < 65536 := by
    rw [accessAddr_eq]
    omega
  have hfits : (insn.arg0 < 0 → (vmLastAlloc rt rt.currentPid : ℤ) - insn.arg0 < 2 ^ 31) ↔
      (insn.arg0 < 0 → namedAddr rt insn < 2 ^ 31) := by
    refine forall_congr' fun hneg => ?_
    rw [namedAddr, if_pos hneg, abs_of_neg hneg, sub_eq_add_neg]
  obtain ⟨hfails, hunused⟩ := touchByte_false hg hvm haddr (decide (insn.arg1 ≠ 0)) rt.tick
  rw [← accessMem_eq] at hfails hunused
  rw [← accessAddr_eq, ← hfails]
  constructor
  · intro hnames
    by_cases hin : namedAddr rt insn ≤ 65535
    · exact .inl hin
    · exact .inr ⟨hfits.mp hnames.fits, hexit.mp (hnames.beyond (not_le.mp hin)).1⟩
  · intro hcond
    refine ⟨?_, ?_, ?_⟩
    · rcases hcond with hin | ⟨hsmall, -⟩
      · exact hfits.mpr fun _ => by omega
      · exact hfits.mpr hsmall
    · intro hin
      have hwhole : namedAddr rt insn % 65536 = namedAddr rt insn := by omega
      have hsame : accessAddr rt rt.currentPid insn = (namedAddr rt insn).toNat := by
        rw [accessAddr_eq, hwhole]
      refine ⟨?_, ?_⟩
      · rw [hsame]
        exact Int.toNat_of_nonneg hnonneg
      · rw [hvm', accessMem_eq, hsame]
    · intro hout
      obtain ⟨-, hfail⟩ := hcond.resolve_left (not_le.mpr hout)
      refine ⟨hexit.mpr hfail, ?_⟩
      rw [hvm']
      exact hunused hfail

theorem AtInsn.executes_access (h : AtInsn rt p idx insn) (hop : insn.op = .access) (fuel : ℕ) :
    executeInstruction fuel rt = some (false, execAccess rt rt.currentPid idx insn) := by
  rw [executeInstruction, h.current]
  dsimp only
  rw [hop]

/-- A pass that executes an instruction ends where the instruction does. -/
theorem exec_of_executing {r : Bool × Runtime} (hexec : RtOp.executing rt (.pass fuel) = some d)
    (hinsn : executeInstruction fuel d = some r) : RtOp.exec rt (.pass fuel) = r.2 := by
  obtain ⟨htrue, hd⟩ := executing_eq hexec
  rcases pass_cases rt fuel with ⟨-, ⟨hnone, -⟩ | ⟨r', hsome, hr'⟩⟩ | ⟨hfalse, -⟩
  · rw [← hd, hinsn] at hnone
    cases hnone
  · rw [← hd, hinsn] at hsome
    rw [hr', Option.some.inj hsome]
  · rw [htrue] at hfalse
    cases hfalse

/-- The state in which a pass executes its instruction. -/
theorem StoreOk.executing (hs : StoreOk rt.store) (hc : Consistent rt)
    (hexec : RtOp.executing rt (.pass fuel) = some d) :
    StoreOk d.store ∧ Consistent d ∧ 0 ≤ d.currentPid := by
  obtain ⟨htrue, hd⟩ := executing_eq hexec
  obtain ⟨hcons, hpos⟩ := hc.prepared
  rw [hd]
  exact ⟨hs.prepared, hcons, hpos htrue⟩

/-- **Named addresses.**  In every state that is reached, an `ACCESS` touches only the address it
names if and only if that address lies in the address space, or the one it wraps around to is
refused and the difference that leads there does not overflow. -/
theorem access_named (ops : List RtOp) (fuel : ℕ) (d : Runtime) (insn : WorkloadInsn)
    (hexec : RtOp.executing (Runs.run RtOp.exec runtimeInit ops) (.pass fuel) = some d)
    (hinsn : d.insnOf d.currentPid = some insn) (hop : insn.op = .access) :
    NamesAddress d insn (RtOp.exec (Runs.run RtOp.exec runtimeInit ops) (.pass fuel)) ↔
      namedAddr d insn ≤ 65535 ∨ (insn.arg0 < 0 → namedAddr d insn < 2 ^ 31) ∧
        d.vm.refuses d.currentPid (namedAddr d insn % 65536).toNat (decide (insn.arg1 ≠ 0))
          d.tick = true := by
  obtain ⟨hc, hs⟩ := run_storeOk ops
  generalize Runs.run RtOp.exec runtimeInit ops = rt at hexec hc hs ⊢
  obtain ⟨hstore, hcons, hpos⟩ := hs.executing hc hexec
  obtain ⟨p, idx, hat⟩ := atInsn hcons.sound hcons.placed hpos hinsn
  have hvm : (d.vm.vms d.currentPid).isSome = true := (hstore.live _).trans hat.cpu.recorded
  rw [exec_of_executing hexec (hat.executes_access hop fuel)]
  exact hat.named_iff (hstore.steps.guarded vmInit_guarded) hvm

/-- A process that writes eight bytes behind the address it was given. -/
def offsetOps : List RtOp :=
  [.runWorkload ⟨"offset", [⟨.mmap, 100, 0, 0⟩, ⟨.access, -8, 1, 0⟩]⟩ 20, .pass 4096]

set_option maxRecDepth 100000 in
theorem access_named_offset :
    ∃ d, RtOp.executing (Runs.run RtOp.exec runtimeInit offsetOps) (.pass 4096) = some d ∧
      NamesAddress d ⟨.access, -8, 1, 0⟩
        (RtOp.exec (Runs.run RtOp.exec runtimeInit offsetOps) (.pass 4096)) := by
  have hmap : (RtOp.executing (Runs.run RtOp.exec runtimeInit offsetOps) (.pass 4096)).map
      (fun d => (d.insnOf d.currentPid, namedAddr d ⟨.access, -8, 1, 0⟩)) =
        some (some ⟨.access, -8, 1, 0⟩, 16400) := by
    decide +kernel
  obtain ⟨d, hexec, hd⟩ := Option.map_eq_some_iff.mp hmap
  obtain ⟨hinsn, haddr⟩ := Prod.mk.inj hd
  exact ⟨d, hexec, (access_named offsetOps 4096 d ⟨.access, -8, 1, 0⟩ hexec hinsn rfl).mpr
    (.inl (by rw [haddr]; decide))⟩

def wrapOps : List RtOp := [.runWorkload ⟨"wrap", [⟨.access, 65536, 0, 0⟩]⟩ 20]

set_option maxRecDepth 100000 in
/-- `ACCESS 65536 0` reads the byte at address 0, and the process goes on. -/
theorem access_wraps :
    ∃ d, RtOp.executing (Runs.run RtOp.exec runtimeInit wrapOps) (.pass 0) = some d ∧
      d.insnOf d.currentPid = some ⟨.access, 65536, 0, 0⟩ ∧
      ¬ NamesAddress d ⟨.access, 65536, 0, 0⟩
        (RtOp.exec (Runs.run RtOp.exec runtimeInit wrapOps) (.pass 0)) := by
  have hmap : (RtOp.executing (Runs.run RtOp.exec runtimeInit wrapOps) (.pass 0)).map
      (fun d => (d.currentPid, d.insnOf d.currentPid)) =
        some (1, some ⟨.access, 65536, 0, 0⟩) := by
    decide +kernel
  have hafter : (RtOp.exec (Runs.run RtOp.exec runtimeInit wrapOps) (.pass 0)).exitOf 1 =
      some (.running, 0) := by
    decide +kernel
  obtain ⟨d, hexec, hd⟩ := Option.map_eq_some_iff.mp hmap
  obtain ⟨hpid, hinsn⟩ := Prod.mk.inj hd
  refine ⟨d, hexec, hinsn, fun hnames => ?_⟩
  have hexit := (hnames.beyond (by decide : (65535 : ℤ) < 65536)).1
  rw [hpid, hafter] at hexit
  cases hexit

end Mosrt
