/-
Allocation over whole runs of the runtime.

Headers lie between the bytes of the process, in pages that can be written, discarded or
grown over, and a walk along the block list trusts what it reads.  `RtOp.spares` says of an
operation, in the state before it, that it leaves the headers alone:

* an `ACCESS` discards no data and writes no byte of a header;
* an `MMAP` and an `MFREE` make harmless accesses only, and those of an `MFREE` are served.

`HeapsOk` holds along runs of such operations: every process that has not exited has a
well-formed heap, and its last allocation, if not released, is a block of it.

* `HeapsOk.exec` — one operation;
* `walks_visit_once` — no walk of an `MMAP` visits a header twice, and the `MMAP` ends;
* `walk_loops` — a process that writes into its first header sends the walk in circles.
-/
import Mosrt.AllocStore
import Mosrt.PagedHeap
import Mosrt.RosterSpec

namespace Mosrt

open BlockList StateSim

variable {rt rt' : Runtime} {s : VmSys} {pid : ℤ} {p : Pcb} {idx fuel addr : ℕ}
  {insn : WorkloadInsn} {h : FlatHeap} {last : Option ℕ}

/-! ### Operations that leave headers alone -/

/-- The address lies in a header of the block list. -/
def FlatHeap.inHeader (h : FlatHeap) (addr : ℕ) : Bool :=
  (h.headers 4096 vmSegHeapStart).any fun x => decide (x ≤ addr ∧ addr < x + vmBlockHdrSize)

/-- The access to memory that an `ACCESS` makes. -/
def accessCall (rt : Runtime) (insn : WorkloadInsn) : HeapCall :=
  if insn.arg1 ≠ 0 then .write (accessAddr rt rt.currentPid insn) [0xAA]
  else .read (accessAddr rt rt.currentPid insn) 1

/-- An `ACCESS` discards no data, and if it writes, it writes no byte of a header. -/
def accessSpares (rt : Runtime) (insn : WorkloadInsn) : Bool :=
  (accessCall rt insn).spares rt.currentPid rt.tick rt.vm &&
    (decide (insn.arg1 = 0) || !(rt.vm.heaps rt.currentPid).any fun h =>
      h.inHeader (accessAddr rt rt.currentPid insn))

/-- The instruction leaves the headers alone. -/
def insnSpares (fuel : ℕ) (rt : Runtime) (insn : WorkloadInsn) : Bool :=
  match insn.op with
  | .mmap =>
    (mallocCalls rt.currentPid rt.tick fuel (mmapSize insn) rt.vm).harmless rt.currentPid rt.tick
      false
  | .access => accessSpares rt insn
  | .mfree =>
    (freeCalls rt.currentPid rt.tick (vmLastAlloc rt rt.currentPid) rt.vm).harmless rt.currentPid
      rt.tick true
  | _ => true

def RtOp.spares (rt : Runtime) : RtOp → Bool
  | .pass fuel =>
    let r := dispatch (passPrepare rt)
    !r.1 || (r.2.insnOf r.2.currentPid).all (insnSpares fuel r.2)
  | _ => true

/-! ### The invariant -/

/-- A well-formed heap in which `last`, if it is an address, is that of a block in use. -/
def LastIntact (h : FlatHeap) (last : Option ℕ) : Prop :=
  ∃ bs, Tiled h bs ∧ Separated bs ∧
    ∀ a, last = some a → a = 0 ∨ ∃ k, (a, k) ∈ allocs 8 vmSegHeapStart bs

structure HeapsOk (rt : Runtime) : Prop where
  reliable : ∃ acting, rt.vm.Reliable acting ∧ (0 ≤ rt.currentPid → acting = rt.currentPid)
  born : ∀ pid, rt.procs.lastAllocs pid = none → rt.vm.heaps pid = none
  intact : ∀ pid h, rt.vm.heaps pid = some h → rt.abs.stateOf pid ≠ some .exited →
    LastIntact h (rt.procs.lastAllocs pid)

/-- Who has exited stays so. -/
def ExitedStay (rt rt' : Runtime) : Prop :=
  ∀ pid, rt.abs.stateOf pid = some .exited → rt'.abs.stateOf pid = some .exited

theorem HeapsOk.still (hk : HeapsOk rt) (hstore : rt'.store = rt.store)
    (hcur : rt'.currentPid = rt.currentPid ∨ rt'.currentPid < 0) (hexited : ExitedStay rt rt') :
    HeapsOk rt' := by
  have hvm : rt'.vm = rt.vm := congrArg Prod.fst hstore
  have hlast : rt'.procs.lastAllocs = rt.procs.lastAllocs := congrArg Prod.snd hstore
  refine ⟨?_, ?_, ?_⟩
  · obtain ⟨acting, hrel, hacting⟩ := hk.reliable
    refine ⟨acting, by rw [hvm]; exact hrel, fun hpos => ?_⟩
    rcases hcur with hcur | hcur
    · rw [hcur] at hpos ⊢
      exact hacting hpos
    · omega
  · rw [hvm, hlast]
    exact hk.born
  · intro pid h hh hx
    rw [hvm] at hh
    rw [hlast]
    exact hk.intact pid h hh fun hx' => hx (hexited pid hx')

theorem HeapsOk.setPolicy (hk : HeapsOk rt) (name : String) :
    HeapsOk (RtOp.exec rt (.setPolicy name)) := by
  have hbytes : (pagerSetPolicy rt.vm name).2.bytes = rt.vm.bytes := by
    funext p a
    rw [VmSys.bytes, pagerSetPolicy_paged, VmSys.bytes]
  have hheaps : (pagerSetPolicy rt.vm name).2.heaps = rt.vm.heaps := by
    funext p
    rw [VmSys.heaps, (pagerSetPolicy_same rt.vm name).2.2.2, hbytes, VmSys.heaps]
  refine ⟨?_, fun pid => hheaps ▸ hk.born pid, fun pid => hheaps ▸ hk.intact pid⟩
  obtain ⟨acting, hrel, hacting⟩ := hk.reliable
  exact ⟨acting, ⟨(pagerSetPolicy_sameMemory rt.vm name).ok hrel.ok,
    (MemStep.setPolicy name).guarded hrel.guarded⟩, hacting⟩

/-- The process on the CPU has changed its own heap. -/
theorem HeapsOk.changed (hk : HeapsOk rt) (hrel : rt'.vm.Reliable rt.currentPid)
    (hheaps : rt'.vm.heaps = Function.update rt.vm.heaps rt.currentPid (some h))
    (hlast : rt'.procs.lastAllocs = Function.update rt.procs.lastAllocs rt.currentPid last)
    (hsome : last ≠ none)
    (hown : rt'.abs.stateOf rt.currentPid ≠ some .exited → LastIntact h last)
    (hcur : rt'.currentPid = rt.currentPid ∨ rt'.currentPid < 0) (hexited : ExitedStay rt rt') :
    HeapsOk rt' := by
  refine ⟨⟨rt.currentPid, hrel, fun hpos => ?_⟩, ?_, ?_⟩
  · rcases hcur with hcur | hcur
    · exact hcur.symm
    · omega
  · intro pid hnone
    rw [hlast, Function.update_apply] at hnone
    rw [hheaps, Function.update_apply]
    split_ifs at hnone ⊢
    · exact absurd hnone hsome
    · exact hk.born pid hnone
  · intro pid h' hh hx
    rw [hheaps, Function.update_apply] at hh
    rw [hlast, Function.update_apply]
    split_ifs at hh ⊢ with hpid
    · rw [← Option.some.inj hh]
      rw [hpid] at hx
      exact hown hx
    · exact hk.intact pid h' hh fun hx' => hx (hexited pid hx')

/-! ### Before the instruction -/

theorem VmSys.Reliable.flush (hs : s.Reliable pid) (q : ℤ) :
    ({ s with tlb := tlbFlush s.tlb } : VmSys).Reliable q where
  ok := ⟨hs.ok.exact, tlbFlush_unique, tlbFlush_agrees⟩
  guarded := (SoftStep.steps (.setTlb _ fun _ _ _ => tlbFlush_agrees)).memSteps.guarded hs.guarded

theorem exitedStay_of_quiet (h : Relation.ReflTransGen Core.Quiet rt.abs rt'.abs) :
    ExitedStay rt rt' := fun _ hx => Core.Quiet.exited_of_steps h hx

theorem HeapsOk.dispatched (hk : HeapsOk rt) (hexited : ExitedStay rt (dispatch rt).2) :
    HeapsOk (dispatch rt).2 := by
  rcases dispatch_store rt with ⟨hstore, hcur⟩ | hstore
  · exact hk.still hstore (.inl hcur) hexited
  · generalize (dispatch rt).2 = d at hstore hexited ⊢
    have hvm : d.vm = { rt.vm with tlb := tlbFlush rt.vm.tlb } := congrArg Prod.fst hstore
    have hlast : d.procs.lastAllocs = rt.procs.lastAllocs := congrArg Prod.snd hstore
    have hheaps : d.vm.heaps = rt.vm.heaps := by
      rw [hvm]
      rfl
    obtain ⟨acting, hrel, -⟩ := hk.reliable
    refine ⟨⟨d.currentPid, by rw [hvm]; exact hrel.flush _, fun _ => rfl⟩, ?_, ?_⟩
    · rw [hlast, hheaps]
      exact hk.born
    · intro pid h hh hx
      rw [hheaps] at hh
      rw [hlast]
      exact hk.intact pid h hh fun hx' => hx (hexited pid hx')

/-! ### Instructions -/

/-- The heap of the process on the CPU. -/
theorem HeapsOk.own (hk : HeapsOk rt) (hc : OnCpu rt p)
    (hsome : (rt.vm.vms rt.currentPid).isSome = true) :
    rt.vm.Reliable rt.currentPid ∧
      ∃ h, rt.vm.heaps rt.currentPid = some h ∧ LastIntact h (some p.vmLastAlloc) := by
  obtain ⟨acting, hrel, hacting⟩ := hk.reliable
  rw [hacting hc.pos] at hrel
  obtain ⟨vm, hvm⟩ := Option.isSome_iff_exists.mp hsome
  have hh : rt.vm.heaps rt.currentPid = some ⟨rt.vm.bytes rt.currentPid, vm.heapBreak⟩ := by
    rw [VmSys.heaps, hvm, Option.map_some]
  have hlast : rt.procs.lastAllocs rt.currentPid = some p.vmLastAlloc := by
    rw [ProcTable.lastAllocs, hc.get, Option.map_some]
  refine ⟨hrel, _, hh, ?_⟩
  rw [← hlast]
  refine hk.intact _ _ hh ?_
  rw [abs_stateOf hc.get, hc.running]
  decide

theorem OnCpu.lastAllocs (hc : OnCpu rt p) :
    rt.procs.lastAllocs =
      Function.update rt.procs.lastAllocs rt.currentPid (some p.vmLastAlloc) := by
  have hlast : rt.procs.lastAllocs rt.currentPid = some p.vmLastAlloc := by
    rw [ProcTable.lastAllocs, hc.get, Option.map_some]
  rw [← hlast, Function.update_eq_self]

theorem HeapsOk.mmap (hk : HeapsOk rt) (hat : AtInsn rt p idx insn)
    (hspares : (mallocCalls rt.currentPid rt.tick fuel (mmapSize insn) rt.vm).harmless
      rt.currentPid rt.tick false = true)
    (hexec : execMmap fuel rt rt.currentPid idx insn = some rt')
    (hcur : rt'.currentPid = rt.currentPid ∨ rt'.currentPid < 0) (hexited : ExitedStay rt rt') :
    HeapsOk rt' := by
  rcases execMmap_store hat hexec with hstore | ⟨hsome, addr, haddr, hvm, hres⟩
  · exact hk.still hstore hcur hexited
  · obtain ⟨hrel, h, hh, bs, ht, hsep, -⟩ := hk.own hat.cpu hsome
    obtain ⟨-, -, hrel', h', hheaps, hblock⟩ := malloc_paged hrel hh ht hsep hspares
    have hrel' : rt'.vm.Reliable rt.currentPid := hvm ▸ hrel'
    have hheaps : rt'.vm.heaps = Function.update rt.vm.heaps rt.currentPid (some h') := hvm ▸ hheaps
    rcases hres with ⟨hx, hlast⟩ | ⟨hne, hlast⟩
    · exact hk.changed hrel' hheaps (hlast.trans hat.cpu.lastAllocs) (Option.some_ne_none _)
        (fun hno => absurd hx hno) hcur hexited
    · obtain ⟨bs', k, ht', hsep', hmem⟩ := hblock addr haddr hne
      refine hk.changed hrel' hheaps hlast (Option.some_ne_none _) (fun _ => ⟨bs', ht', hsep', ?_⟩)
        hcur hexited
      intro a ha
      rw [← Option.some.inj ha]
      exact .inr ⟨k, hmem⟩

/-- A write outside the headers. -/
theorem LastIntact.write {src : List UInt8} (hintact : LastIntact h last) (hlen : src.length ≤ 1)
    (hmiss : h.inHeader addr = false) : LastIntact (h.write addr src) last := by
  obtain ⟨bs, ht, hsep, hlast⟩ := hintact
  refine ⟨bs, ht.write fun x hx => ?_, hsep, hlast⟩
  have hne : bs ≠ [] := by
    rintro rfl
    cases hx
  rw [FlatHeap.inHeader, ht.headers le_rfl hne, List.any_eq_false] at hmiss
  have hout := hmiss x hx
  rw [decide_eq_true_iff] at hout
  have hsize : vmBlockHdrSize = 8 := rfl
  omega

theorem HeapsOk.access (hk : HeapsOk rt) (hat : AtInsn rt p idx insn)
    (hspares : accessSpares rt insn = true)
    (hcur : (execAccess rt rt.currentPid idx insn).currentPid = rt.currentPid ∨
      (execAccess rt rt.currentPid idx insn).currentPid < 0)
    (hexited : ExitedStay rt (execAccess rt rt.currentPid idx insn)) :
    HeapsOk (execAccess rt rt.currentPid idx insn) := by
  rcases execAccess_store rt idx insn with hstore | ⟨hsome, hstore⟩
  · exact hk.still hstore hcur hexited
  · generalize execAccess rt rt.currentPid idx insn = rt' at *
    obtain ⟨hrel, h, hh, hintact⟩ := hk.own hat.cpu hsome
    have hvm : rt'.vm = (accessMem rt rt.currentPid insn).2 := congrArg Prod.fst hstore
    have hlast := (congrArg Prod.snd hstore).trans hat.cpu.lastAllocs
    obtain ⟨hcall, hmiss⟩ := Bool.and_eq_true_iff.mp hspares
    rw [accessMem] at hvm
    rw [accessCall] at hcall
    by_cases hread : insn.arg1 = 0
    · rw [if_neg (not_not.mpr hread)] at hvm hcall
      obtain ⟨hrel', hheaps, -⟩ := vmReadMem_heaps hrel hcall
      have hheaps : rt'.vm.heaps = Function.update rt.vm.heaps rt.currentPid (some h) := by
        rw [hvm, ← hh, Function.update_eq_self]
        exact hheaps
      exact hk.changed (hvm ▸ hrel') hheaps hlast (Option.some_ne_none _)
        (fun _ => hintact) hcur hexited
    · rw [if_pos hread] at hvm hcall
      rw [decide_eq_false hread, Bool.false_or, hh, Option.any_some, Bool.not_eq_true'] at hmiss
      obtain ⟨hrel', hheaps⟩ := vmWriteMem_heaps hrel hh hcall
      refine hk.changed (hvm ▸ hrel') (hvm ▸ hheaps) hlast (Option.some_ne_none _)
        (fun _ => ?_) hcur
        hexited
      exact hintact.write (List.length_take_le' _ _) hmiss

theorem HeapsOk.mfree (hk : HeapsOk rt) (hat : AtInsn rt p idx insn)
    (hspares : (freeCalls rt.currentPid rt.tick (vmLastAlloc rt rt.currentPid) rt.vm).harmless
      rt.currentPid rt.tick true = true)
    (hcur : (execMfree rt rt.currentPid idx).currentPid = rt.currentPid ∨
      (execMfree rt rt.currentPid idx).currentPid < 0)
    (hexited : ExitedStay rt (execMfree rt rt.currentPid idx)) :
    HeapsOk (execMfree rt rt.currentPid idx) := by
  rcases execMfree_store hat.cpu idx with hstore | ⟨hsome, hstore⟩
  · exact hk.still hstore hcur hexited
  · generalize execMfree rt rt.currentPid idx = rt' at *
    obtain ⟨hrel, h, hh, bs, ht, hsep, hlive⟩ := hk.own hat.cpu hsome
    have hlast : vmLastAlloc rt rt.currentPid = p.vmLastAlloc := by
      rw [vmLastAlloc, hat.cpu.get, Option.map_some, Option.getD_some]
    rw [hlast] at hspares hstore
    obtain ⟨hrel', h', bs', hheaps, ht', hsep'⟩ := free_paged hrel hh ht hsep (hlive _ rfl) hspares
    have hvm : rt'.vm =
        ((vmAllocFree (vmHeapOps rt.currentPid rt.tick) p.vmLastAlloc).run rt.vm).2 :=
      congrArg Prod.fst hstore
    refine hk.changed (hvm ▸ hrel') (hvm ▸ hheaps) (congrArg Prod.snd hstore)
      (Option.some_ne_none _) (fun _ => ⟨bs', ht', hsep', fun a ha => .inl ?_⟩) hcur hexited
    exact (Option.some.inj ha).symm

/-- One instruction of the process on the CPU. -/
theorem HeapsOk.executed {r : Bool × Runtime} (hk : HeapsOk rt) (hc : Consistent rt)
    (hpos : 0 ≤ rt.currentPid)
    (hspares : (rt.insnOf rt.currentPid).all (insnSpares fuel rt) = true)
    (hexec : executeInstruction fuel rt = some r) : HeapsOk r.2 := by
  obtain ⟨q, hcpu⟩ := hc.placed.onCpu hpos
  have hrun := Core.stateOf_eq hcpu.proc
  have hmoved := (executeInstruction_spec hc.sound hc.placed hpos hexec).2.moved hrun
  have hexited : ExitedStay rt r.2 := fun _ hx => hmoved.exited hrun hx
  have hcur : r.2.currentPid = rt.currentPid ∨ r.2.currentPid < 0 := by
    rcases hmoved.current with ⟨hcur, -⟩ | ⟨hcur, -⟩
    · exact .inl hcur
    · have hcur : r.2.currentPid = -1 := hcur
      omega
  by_cases hmem : ∃ insn, rt.insnOf rt.currentPid = some insn ∧ insn.op.isMemory = true
  · obtain ⟨insn, hinsn, hmem⟩ := hmem
    obtain ⟨p, idx, hat⟩ := atInsn hc.sound hc.placed hpos hinsn
    rw [hinsn, Option.all_some, insnSpares] at hspares
    rw [executeInstruction, hat.current] at hexec
    dsimp only at hexec
    cases hop : insn.op with
    | mmap =>
      rw [hop] at hspares hexec
      obtain ⟨rt', hmmap, rfl⟩ := Option.map_eq_some_iff.mp hexec
      exact hk.mmap hat hspares hmmap hcur hexited
    | access =>
      rw [hop] at hspares hexec
      cases hexec
      exact hk.access hat hspares hcur hexited
    | mfree =>
      rw [hop] at hspares hexec
      cases hexec
      exact hk.mfree hat hspares hcur hexited
    | cpu | io | send | recv | semWait | semPost | lock | unlock | exit =>
      rw [hop] at hmem
      cases hmem
  · refine hk.still (executeInstruction_store hcpu hexec fun insn hinsn => ?_) hcur hexited
    exact Bool.eq_false_iff.mpr fun hop => hmem ⟨insn, hinsn, hop⟩

/-- A pass comes to its instruction with the heaps as they were. -/
theorem HeapsOk.prepared (hk : HeapsOk rt) (hc : Consistent rt) :
    HeapsOk (dispatch (passPrepare rt)).2 := by
  obtain ⟨hs, hsteps⟩ := passPrepare_spec hc.sound
  have hkept := hk.still (store_passPrepare rt) (.inl (passPrepare_current hc.sound))
    (exitedStay_of_quiet hsteps)
  have hplaced := hc.placed.steps hsteps
  generalize passPrepare rt = m at hs hkept hplaced ⊢
  refine hkept.dispatched (exitedStay_of_quiet ?_)
  rcases (dispatch_spec hs hplaced).2 with ⟨-, -, hsteps'⟩ | ⟨-, habs, -⟩
  · exact hsteps'
  · rw [habs]

theorem HeapsOk.idle (hk : HeapsOk rt) (hc : Consistent rt) : HeapsOk (idleTick rt) := by
  refine hk.still (store_idleTick rt) (.inl rfl) fun pid hx => ?_
  rw [(idleTick_spec hc.sound).2]
  exact hx

theorem HeapsOk.pass (hk : HeapsOk rt) (hc : Consistent rt)
    (hspares : (RtOp.pass fuel).spares rt = true) : HeapsOk (RtOp.exec rt (.pass fuel)) := by
  have hd := hk.prepared hc
  obtain ⟨hcons, hpos⟩ := hc.prepared
  rw [RtOp.spares] at hspares
  rcases pass_cases rt fuel with ⟨htrue, ⟨-, hexec⟩ | ⟨r, hinsn, hexec⟩⟩ | ⟨-, hexec⟩
  · rw [hexec]
    exact hk
  · rw [htrue, Bool.not_true, Bool.false_or] at hspares
    rw [hexec]
    exact hd.executed hcons (hpos htrue) hspares hinsn
  · rw [hexec]
    exact hd.idle hcons

/-! ### The other operations -/

theorem VmSys.Reliable.spawn (hs : s.Reliable pid) (q : ℤ) : (vmSpawn s q).Reliable pid :=
  ⟨vmSpawn_ok hs.ok q, vmSpawn_guarded hs.guarded q⟩

/-- A new address space has no heap yet. -/
theorem vmSpawn_heaps (hnone : s.vms pid = none) :
    (vmSpawn s pid).heaps =
      Function.update s.heaps pid (some ⟨s.bytes pid, vmSegHeapStart⟩) := by
  have hbytes : (vmSpawn s pid).bytes = s.bytes := by
    funext p a
    rw [VmSys.bytes, VmSys.bytes, vmSpawn_paged]
  have hvms : (vmSpawn s pid).vms = Function.update s.vms pid (some vmProcInit) := by
    rw [vmSpawn, if_pos (by rw [hnone]; rfl)]
  funext p
  rw [VmSys.heaps, hbytes, hvms, Function.update_apply, Function.update_apply]
  split_ifs with hp
  · rw [hp]
    rfl
  · rfl

theorem HeapsOk.created {workload : Workload} {priority : ℤ} (hk : HeapsOk rt) (hc : Consistent rt)
    (hcur : (runtimeRunWorkload rt workload priority).2.currentPid = rt.currentPid ∨
      (runtimeRunWorkload rt workload priority).2.currentPid < 0)
    (hexited : ExitedStay rt (runtimeRunWorkload rt workload priority).2) :
    HeapsOk (runtimeRunWorkload rt workload priority).2 := by
  rcases runtimeRunWorkload_store hc.sound workload priority with hstore | ⟨q, habsent, hstore⟩
  · exact hk.still hstore hcur hexited
  · generalize (runtimeRunWorkload rt workload priority).2 = rt' at hstore hcur hexited ⊢
    have hnone : rt.vm.vms q = none := by
      have hborn := hk.born q (by rw [ProcTable.lastAllocs, habsent, Option.map_none])
      rwa [VmSys.heaps, Option.map_eq_none_iff] at hborn
    have hvm : rt'.vm = vmSpawn rt.vm q := by
      rw [vmSpawn, if_pos (by rw [hnone]; rfl)]
      exact congrArg Prod.fst hstore
    have hheaps := vmSpawn_heaps hnone
    have hlast : rt'.procs.lastAllocs = Function.update rt.procs.lastAllocs q (some 0) :=
      congrArg Prod.snd hstore
    obtain ⟨acting, hrel, hacting⟩ := hk.reliable
    refine ⟨⟨acting, by rw [hvm]; exact hrel.spawn q, fun hpos => ?_⟩, ?_, ?_⟩
    · rcases hcur with hcur | hcur
      · rw [hcur] at hpos ⊢
        exact hacting hpos
      · omega
    · intro pid hpid
      rw [hlast, Function.update_apply] at hpid
      rw [hvm, hheaps, Function.update_apply]
      split_ifs at hpid ⊢
      exact hk.born pid hpid
    · intro pid h hh hx
      rw [hvm, hheaps, Function.update_apply] at hh
      rw [hlast, Function.update_apply]
      split_ifs at hh ⊢
      · rw [← Option.some.inj hh]
        refine ⟨[], tiled_nil _, List.isChain_nil, fun a ha => .inl ?_⟩
        exact (Option.some.inj ha).symm
      · exact hk.intact pid h hh fun hx' => hx (hexited pid hx')

theorem current_of_abs {c : Core} (h : rt.abs = c) : rt.currentPid = c.current :=
  congrArg Core.current h

/-- Only a pass puts a process on the CPU. -/
theorem RtOp.current_exec (h : Consistent rt) (op : RtOp) (hpass : ∀ fuel, op ≠ .pass fuel) :
    (RtOp.exec rt op).currentPid = rt.currentPid ∨ (RtOp.exec rt op).currentPid < 0 := by
  cases op with
  | pass fuel => exact absurd rfl (hpass fuel)
  | runWorkload workload priority =>
    rw [RtOp.exec]
    rcases (runtimeRunWorkload_spec workload h.sound priority).2 with ⟨ha, -⟩ | ⟨q, -, -, -, ha⟩
    · exact .inl (current_of_abs ha)
    · exact .inl (current_of_abs ha)
  | kill pid =>
    rw [RtOp.exec]
    rcases (runtimeKill_spec h.sound h.placed pid).2 with ha | ⟨-, ha⟩
    · exact .inl (current_of_abs ha)
    · have hcur : (runtimeKill rt pid).2.currentPid =
        if rt.currentPid = pid then -1 else rt.currentPid := current_of_abs ha
      rw [hcur]
      split_ifs <;> omega
  | setNice pid niceValue =>
    rw [RtOp.exec, runtimeSetNice]
    split_ifs <;> exact .inl rfl
  | setPriority pid priority =>
    rw [RtOp.exec, runtimeSetPriority]
    split_ifs <;> exact .inl rfl
  | setScheduler algo => exact .inl (current_of_abs abs_rebuild)
  | setQuantum | setPolicy | yield | timerSignal => exact .inl rfl

theorem HeapsOk.exec {op : RtOp} (hk : HeapsOk rt) (hc : Consistent rt)
    (hspares : op.spares rt = true) : HeapsOk (RtOp.exec rt op) := by
  have hexited : ExitedStay rt (RtOp.exec rt op) := fun _ hx => (op.moves hc).2.exited hx
  by_cases hpass : ∃ fuel, op = .pass fuel
  · obtain ⟨fuel, rfl⟩ := hpass
    exact hk.pass hc hspares
  · have hpass : ∀ fuel, op ≠ .pass fuel := fun fuel hop => hpass ⟨fuel, hop⟩
    have hcur := op.current_exec hc hpass
    cases hcreate : op.creates with
    | false =>
      rcases op.store_exec hpass hcreate with hstore | ⟨name, rfl⟩
      · exact hk.still hstore hcur hexited
      · exact hk.setPolicy name
    | true =>
      cases op with
      | runWorkload workload priority =>
        rw [RtOp.exec] at hcur hexited ⊢
        exact hk.created hc hcur hexited
      | _ => cases hcreate

theorem runtimeInit_heapsOk : HeapsOk runtimeInit where
  reliable := ⟨-1, ⟨memInit_ok, vmInit_guarded⟩, fun hpos => absurd hpos (by decide)⟩
  born := fun _ _ => rfl
  intact := nofun

/-- Along a run that leaves the headers alone, heaps stay well formed. -/
theorem run_heapsOk {ops : List RtOp}
    (hops : Runs.Along RtOp.exec (fun rt op => op.spares rt = true) runtimeInit ops) :
    Consistent (Runs.run RtOp.exec runtimeInit ops) ∧
      HeapsOk (Runs.run RtOp.exec runtimeInit ops) :=
  Runs.run_invariant (I := fun rt => Consistent rt ∧ HeapsOk rt)
    (fun _ op h hspares => ⟨op.consistent h.1, h.2.exec h.1 hspares⟩)
    ⟨runtimeInit_consistent, runtimeInit_heapsOk⟩ hops

/-! ### Walks -/

/-- The headers that each walk of the instruction visits. -/
def insnWalks (fuel : ℕ) (rt : Runtime) (insn : WorkloadInsn) : List (List ℕ) :=
  if insn.op = .mmap ∧ lacksVm rt rt.currentPid = false then
    (traceMalloc (vmHeapOps rt.currentPid rt.tick) fuel (mmapSize insn) rt.vm).1.1
  else []

/-- The headers that each walk of the next pass visits. -/
def passWalks (fuel : ℕ) (rt : Runtime) : List (List ℕ) :=
  let r := dispatch (passPrepare rt)
  if r.1 then (r.2.insnOf r.2.currentPid).elim [] (insnWalks fuel r.2) else []

/-- Only an `MMAP` may fail to end. -/
theorem executeInstruction_ends
    (hmmap : ∀ insn, rt.insnOf rt.currentPid = some insn → insn.op = .mmap →
      ∀ idx, (execMmap fuel rt rt.currentPid idx insn).isSome = true) :
    (executeInstruction fuel rt).isSome = true := by
  rw [executeInstruction]
  rw [Runtime.insnOf] at hmmap
  cases hcur : currentInsn rt rt.currentPid with
  | none => rfl
  | some c =>
    obtain ⟨idx, insn⟩ := c
    rw [hcur] at hmmap
    cases insn with
    | none => rfl
    | some insn =>
      dsimp only
      cases hop : insn.op with
      | mmap =>
        dsimp only
        rw [Option.isSome_map]
        exact hmmap insn rfl hop idx
      | cpu | io | send | recv | semWait | semPost | lock | unlock | access | mfree | exit => rfl

/-- The walks of an `MMAP`. -/
theorem HeapsOk.walks (hk : HeapsOk rt) (hcpu : OnCpu rt p)
    (hvm : ¬ lacksVm rt rt.currentPid = true)
    (hspares : (mallocCalls rt.currentPid rt.tick fuel (mmapSize insn) rt.vm).harmless
      rt.currentPid rt.tick false = true) :
    (∀ as ∈ (traceMalloc (vmHeapOps rt.currentPid rt.tick) fuel (mmapSize insn) rt.vm).1.1,
        as.Nodup) ∧
      (4096 ≤ fuel →
        (vmAllocMalloc (vmHeapOps rt.currentPid rt.tick) fuel (mmapSize insn) rt.vm).1.isSome =
          true) := by
  obtain ⟨hrel, h, hh, bs, ht, hsep, -⟩ := hk.own hcpu (vms_of_lacksVm hvm)
  obtain ⟨hwalks, hends, -⟩ := malloc_paged hrel hh ht hsep hspares
  exact ⟨hwalks, hends⟩

theorem HeapsOk.instruction (hk : HeapsOk rt) (hcpu : OnCpu rt p)
    (hspares : (rt.insnOf rt.currentPid).all (insnSpares fuel rt) = true) :
    (∀ as ∈ (rt.insnOf rt.currentPid).elim [] (insnWalks fuel rt), as.Nodup) ∧
      (4096 ≤ fuel → (executeInstruction fuel rt).isSome = true) := by
  have hmmap : ∀ insn, rt.insnOf rt.currentPid = some insn → insn.op = .mmap →
      (mallocCalls rt.currentPid rt.tick fuel (mmapSize insn) rt.vm).harmless rt.currentPid rt.tick
        false = true := by
    intro insn hinsn hop
    rwa [hinsn, Option.all_some, insnSpares, hop] at hspares
  constructor
  · cases hinsn : rt.insnOf rt.currentPid with
    | none => exact fun as has => absurd has List.not_mem_nil
    | some insn =>
      rw [Option.elim_some, insnWalks]
      split_ifs with hwalks
      · exact (hk.walks hcpu (by rw [hwalks.2]; exact nofun) (hmmap insn hinsn hwalks.1)).1
      · exact fun as has => absurd has List.not_mem_nil
  · intro hfuel
    refine executeInstruction_ends fun insn hinsn hop idx => ?_
    rw [execMmap]
    split_ifs with hvm
    · rfl
    · dsimp only
      rw [Option.isSome_map]
      exact (hk.walks hcpu hvm (hmmap insn hinsn hop)).2 hfuel

/-- **Walks end.**  Along every run whose operations leave the headers alone, no walk of an
`MMAP` visits a header twice, and with the headers of a full heap to go through, the `MMAP` ends. -/
theorem walks_visit_once (ops : List RtOp) (fuel : ℕ)
    (hops : Runs.Along RtOp.exec (fun rt op => op.spares rt = true) runtimeInit
      (ops ++ [.pass fuel])) :
    (∀ as ∈ passWalks fuel (Runs.run RtOp.exec runtimeInit ops), as.Nodup) ∧
      (4096 ≤ fuel → (runtimePass fuel (Runs.run RtOp.exec runtimeInit ops)).isSome = true) := by
  obtain ⟨hbefore, hpass⟩ := Runs.along_append.mp hops
  obtain ⟨hc, hk⟩ := run_heapsOk hbefore
  have hspares := hpass.1
  generalize Runs.run RtOp.exec runtimeInit ops = rt at hc hk hspares ⊢
  have hd := hk.prepared hc
  obtain ⟨hcons, hpos⟩ := hc.prepared
  rw [passWalks, runtimePass]
  rw [RtOp.spares] at hspares
  generalize dispatch (passPrepare rt) = r at hd hcons hpos hspares ⊢
  by_cases htrue : r.1 = true
  · rw [if_pos htrue, if_pos htrue]
    rw [htrue, Bool.not_true, Bool.false_or] at hspares
    obtain ⟨p, hcpu⟩ := hcons.placed.onCpu (hpos htrue)
    exact hd.instruction hcpu hspares
  · rw [if_neg htrue, if_neg htrue]
    exact ⟨fun as has => absurd has List.not_mem_nil, fun _ => rfl⟩

/-- A process that writes into its block, releases another, and allocates more than is free. -/
def tidyWorkload : Workload where
  insns := [⟨.mmap, 100, 0, 0⟩, ⟨.access, 16400, 1, 0⟩, ⟨.mmap, 40, 0, 0⟩, ⟨.mfree, 0, 0, 0⟩,
    ⟨.mmap, 300, 0, 0⟩]

def tidyOps : List RtOp := .runWorkload tidyWorkload 0 :: List.replicate 4 (.pass 4096)

set_option maxRecDepth 100000 in
theorem walks_visit_once_tidy :
    passWalks 4096 (Runs.run RtOp.exec runtimeInit tidyOps) = [[16384, 16492]] ∧
      (∀ as ∈ passWalks 4096 (Runs.run RtOp.exec runtimeInit tidyOps), as.Nodup) ∧
      (4096 ≤ 4096 →
        (runtimePass 4096 (Runs.run RtOp.exec runtimeInit tidyOps)).isSome = true) :=
  ⟨by decide +kernel, walks_visit_once tidyOps 4096 (by decide +kernel)⟩

/-- A process that writes a header of its own making into its block, at `43690` and followed by
`43690`, and then the address of it into its first header. -/
def loopWorkload : Workload where
  insns := [⟨.mmap, 30000, 0, 0⟩, ⟨.access, 43694, 1, 0⟩, ⟨.access, 43695, 1, 0⟩,
    ⟨.access, 16388, 1, 0⟩, ⟨.access, 16389, 1, 0⟩, ⟨.mmap, 1000, 0, 0⟩]

set_option maxRecDepth 100000 in
/-- The walk goes from the first header to the one at `43690` and from there on in circles. -/
theorem walk_loops :
    passWalks 8 (Runs.run RtOp.exec runtimeInit
        (.runWorkload loopWorkload 0 :: List.replicate 5 (.pass 8))) =
      [[16384, 43690, 43690, 43690, 43690, 43690, 43690]] := by
  decide +kernel

end Mosrt
