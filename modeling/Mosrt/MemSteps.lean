/-
The memory system, step by step.

Whatever a process does to memory, bytes, headers and heap growth included, comes down to
five kinds of steps (`MemStep`): a creation, a page access, a policy change, one page of heap
growth within the limit, and steps that move no page (`SoftStep`).  An invariant of the
memory system is proved once for each of them.

* `vmReadMem_steps`, `vmWriteMem_steps`, `heapGrow_steps` — the calls;
* `HeapOp.exec_steps` — every operation is a sequence of steps;
* `HeapOp.run_steps` — an invariant of the steps holds in every state that is reached.
-/
import Mosrt.Isolation

namespace Mosrt

open StateSim

variable {s s' s'' : VmSys} {pid : ℤ} {vpn tick : ℕ} {write : Bool}

/-- Where the heap of a process is. -/
def VmState.extent (vm : VmState) : ℕ × ℕ := (vm.heapStart, vm.heapBreak)

/-- No page moves: frames keep their owners, entries change in their use bits only, and what
the TLB says of permissions comes from the TLB or from an entry. -/
structure SoftStep (s s' : VmSys) : Prop where
  pager : s'.pager = s.pager
  swap : s'.swap = s.swap
  owner : frameGetOwner s'.frame = frameGetOwner s.frame
  pte : ∀ p v, ∃ a d, s'.pte p v = (s.pte p v).map fun e => { e with accessed := a, dirty := d }
  extent : ∀ p, (s'.vms p).map VmState.extent = (s.vms p).map VmState.extent
  tlb : ∀ g : ℕ → ℕ → Prop, s.tlb.Agrees (fun v _ perm _ => g v perm) →
    (∀ p v perm, s.perms p v = some perm → g v perm) → s'.tlb.Agrees fun v _ perm _ => g v perm

/-- One step of the memory system. -/
inductive MemStep (s : VmSys) : VmSys → Prop
  | spawn (pid : ℤ) : MemStep s (vmSpawn s pid)
  | access (pid : ℤ) (vpn : ℕ) (write : Bool) (tick : ℕ) :
      MemStep s (pagerAccessPage s pid vpn write tick).2.2
  | setPolicy (name : String) : MemStep s (pagerSetPolicy s name).2
  | grow (pid : ℤ) (vm : VmState) : s.vms pid = some vm →
      (vm.heapBreak - vm.heapStart) / vmPageSize < vmSegHeapMaxPages → MemStep s (growPage s pid)
  | soft {s' : VmSys} : SoftStep s s' → MemStep s s'

abbrev MemSteps : VmSys → VmSys → Prop := Relation.ReflTransGen MemStep

/-- The steps of an access to memory. -/
inductive PageStep (s : VmSys) : VmSys → Prop
  | access (pid : ℤ) (vpn : ℕ) (write : Bool) (tick : ℕ) :
      PageStep s (pagerAccessPage s pid vpn write tick).2.2
  | soft {s' : VmSys} : SoftStep s s' → PageStep s s'

abbrev PageSteps : VmSys → VmSys → Prop := Relation.ReflTransGen PageStep

theorem MemStep.steps (h : MemStep s s') : MemSteps s s' := .single h

theorem SoftStep.steps (h : SoftStep s s') : PageSteps s s' := .single (.soft h)

theorem PageStep.memStep (h : PageStep s s') : MemStep s s' := by
  cases h with
  | access pid vpn write tick => exact .access pid vpn write tick
  | soft hsoft => exact .soft hsoft

theorem PageSteps.memSteps (h : PageSteps s s') : MemSteps s s' := by
  induction h with
  | refl => exact .refl
  | tail _ hstep ih => exact ih.tail hstep.memStep

/-! ### Steps that move no page -/

theorem pte_soft_refl (s : VmSys) (p : ℤ) (v : ℕ) :
    ∃ a d, s.pte p v = (s.pte p v).map fun e => { e with accessed := a, dirty := d } := by
  cases s.pte p v with
  | none => exact ⟨false, false, rfl⟩
  | some e => exact ⟨e.accessed, e.dirty, rfl⟩

theorem SoftStep.setTlb (t : TlbState)
    (ht : ∀ g : ℕ → ℕ → Prop, s.tlb.Agrees (fun v _ perm _ => g v perm) →
      (∀ p v perm, s.perms p v = some perm → g v perm) → t.Agrees fun v _ perm _ => g v perm) :
    SoftStep s { s with tlb := t } :=
  ⟨rfl, rfl, rfl, pte_soft_refl s, fun _ => rfl, ht⟩

theorem SoftStep.lookedUp (s : VmSys) (vpn tick : ℕ) : SoftStep s (s.lookedUp vpn tick) :=
  .setTlb _ fun _ ht _ => ht.lookup

theorem SoftStep.setFrame {fr : FrameState} (hfr : frameGetOwner fr = frameGetOwner s.frame) :
    SoftStep s { s with frame := fr } :=
  ⟨rfl, rfl, hfr, pte_soft_refl s, fun _ => rfl, fun _ ht _ => ht⟩

/-- Changes of the statistics of an address space. -/
theorem SoftStep.modifyVm {f : VmState → VmState} (hpt : ∀ vm, (f vm).pt = vm.pt)
    (hext : ∀ vm, (f vm).extent = vm.extent) : SoftStep s (s.modifyVm pid f) where
  pager := rfl
  swap := rfl
  owner := rfl
  pte := by
    intro p v
    have hsame : (s.modifyVm pid f).pte p v = s.pte p v := by
      rw [modifyVm_pte]
      split_ifs with hp
      · rw [hp, VmSys.pte]
        simp only [hpt]
      · rfl
    rw [hsame]
    exact pte_soft_refl s p v
  extent := by
    intro p
    rw [VmSys.modifyVm]
    dsimp only
    rw [Function.update_apply]
    split_ifs with hp
    · rw [hp, Option.map_map]
      exact congrArg (fun g => (s.vms pid).map g) (funext hext)
    · rfl
  tlb := fun _ ht _ => ht

/-- Changes of the use bits of an entry. -/
theorem SoftStep.modifyPte {f : Pte → Pte}
    (hf : ∀ e, ∃ a d, f e = { e with accessed := a, dirty := d }) :
    SoftStep s (s.modifyPte pid vpn f) where
  pager := rfl
  swap := rfl
  owner := rfl
  pte := by
    intro p v
    rw [modifyPte_pte]
    split_ifs with hpv
    · rw [hpv.1, hpv.2]
      cases s.pte pid vpn with
      | none => exact ⟨false, false, rfl⟩
      | some e =>
        obtain ⟨a, d, heq⟩ := hf e
        exact ⟨a, d, congrArg some heq⟩
    · exact pte_soft_refl s p v
  extent := by
    intro p
    rw [VmSys.modifyPte, VmSys.modifyVm]
    dsimp only
    rw [Function.update_apply]
    split_ifs with hp
    · rw [hp, Option.map_map]
      rfl
    · rfl
  tlb := fun _ ht _ => ht

/-! ### Bytes -/

theorem TlbState.Agrees.insert_same {t : TlbState} {g : TlbCond} {f perm n : ℕ} {d : Bool}
    (h : t.Agrees g) (hnew : g vpn f perm d) : (tlbInsert t vpn f d perm n).Agrees g := by
  intro i hi hv
  simp only [tlbInsert, Function.update_apply] at hv ⊢
  split_ifs at hv ⊢ with hii
  · exact hnew
  · exact h i hi hv

theorem vmMiss_steps (s : VmSys) (pid : ℤ) (vpn : ℕ) (write : Bool) (tick : ℕ) :
    PageSteps s (vmMiss s pid vpn write tick).2 := by
  have hacc : PageSteps s _ := .single (.access pid vpn write tick)
  rw [vmMiss]
  obtain ⟨res, out, s₁, heq⟩ : ∃ res out s₁,
    pagerAccessPage s pid vpn write tick = (res, out, s₁) := ⟨_, _, _, rfl⟩
  rw [heq] at hacc ⊢
  dsimp only at hacc ⊢
  split_ifs
  · exact hacc
  · have hcount : SoftStep s₁ (s₁.modifyVm pid fun vm => vm.countFault res) :=
      .modifyVm (fun vm => countFault_pt vm res) fun vm => by cases res <;> rfl
    generalize s₁.modifyVm pid (fun vm => vm.countFault res) = s₂ at hcount ⊢
    cases hpte : s₂.pte pid vpn with
    | none => exact hacc.trans hcount.steps
    | some pte =>
      refine (hacc.trans hcount.steps).trans (SoftStep.steps (.setTlb _ ?_))
      intro g ht hperms
      refine ht.insert_same (hperms pid vpn _ ?_)
      rw [VmSys.perms, hpte]
      rfl

theorem vmTranslateRead_steps (s : VmSys) (pid : ℤ) (vpn tick : ℕ) :
    PageSteps s (vmTranslateRead s pid vpn tick).2 := by
  have hlook := (SoftStep.lookedUp s vpn tick).steps
  rw [vmTranslateRead]
  split
  · split_ifs
    · exact hlook
    · exact hlook.trans (SoftStep.steps (.modifyPte fun e => ⟨true, e.dirty, rfl⟩))
  · exact hlook.trans (vmMiss_steps _ _ _ _ _)

theorem vmTranslateWrite_steps (s : VmSys) (pid : ℤ) (vpn tick : ℕ) :
    PageSteps s (vmTranslateWrite s pid vpn tick).2 := by
  have hlook := (SoftStep.lookedUp s vpn tick).steps
  rw [vmTranslateWrite]
  split
  · next hit hhit =>
    split_ifs
    · exact hlook
    · exact hlook.trans (SoftStep.steps (.modifyPte fun e => ⟨true, true, rfl⟩))
    · -- the entry written back carries the permissions of the one found
      have hset := SoftStep.setTlb (s := s)
        (tlbInsert (tlbLookup s.tlb vpn tick).2 vpn hit.pfn true hit.permissions tick)
        fun g ht _ => ht.lookup.insert_same (ht.hit hhit)
      exact hset.steps.trans (SoftStep.steps (.modifyPte fun e => ⟨true, true, rfl⟩))
  · exact hlook.trans (vmMiss_steps _ _ _ _ _)

theorem vmReadByte_steps (s : VmSys) (pid : ℤ) (addr tick : ℕ) :
    PageSteps s (vmReadByte s pid addr tick).2 := by
  have htr := vmTranslateRead_steps s pid (vpnOf addr) tick
  rw [vmReadByte]
  split
  · next heq =>
    rw [heq] at htr
    exact htr
  · next heq =>
    rw [heq] at htr
    exact htr

theorem vmWriteByte_steps (s : VmSys) (pid : ℤ) (addr : ℕ) (b : UInt8) (tick : ℕ) :
    PageSteps s (vmWriteByte s pid addr b tick).2 := by
  have htr := vmTranslateWrite_steps s pid (vpnOf addr) tick
  rw [vmWriteByte]
  split
  · next heq =>
    rw [heq] at htr
    exact htr
  · next heq =>
    rw [heq] at htr
    exact htr.trans (SoftStep.steps (.setFrame (frameGetOwner_frameWriteByte _ _)))

/-! ### Calls -/

theorem vmReadLoop_steps (pid : ℤ) (virtAddr tick n i : ℕ) (s : VmSys) :
    PageSteps s (vmReadLoop pid virtAddr tick n i s).2 := by
  induction n generalizing i s with
  | zero => exact .refl
  | succ n ih =>
    have hbyte := vmReadByte_steps s pid (currAddr virtAddr i) tick
    rw [vmReadLoop]
    split
    · next heq =>
      rw [heq] at hbyte
      exact hbyte
    · next b s₁ heq =>
      rw [heq] at hbyte
      have hrest := ih (i + 1) s₁
      split
      · next heq' =>
        rw [heq'] at hrest
        exact hbyte.trans hrest
      · next heq' =>
        rw [heq'] at hrest
        exact hbyte.trans hrest

theorem vmWriteLoop_steps (pid : ℤ) (virtAddr tick : ℕ) (bs : List UInt8) (i : ℕ) (s : VmSys) :
    PageSteps s (vmWriteLoop pid virtAddr tick bs i s).2 := by
  induction bs generalizing i s with
  | nil => exact .refl
  | cons b bs ih =>
    have hbyte := vmWriteByte_steps s pid (currAddr virtAddr i) b tick
    rw [vmWriteLoop]
    split
    · next heq =>
      rw [heq] at hbyte
      exact hbyte
    · next s₁ heq =>
      rw [heq] at hbyte
      exact hbyte.trans (ih (i + 1) s₁)

theorem vmCharge_steps (before s : VmSys) (pid : ℤ) : PageSteps s (vmCharge before s pid) := by
  rw [vmCharge]
  refine SoftStep.steps (.modifyVm ?_ ?_)
  · intro vm
    dsimp only
  · intro vm
    simp only [VmState.extent]

theorem vmReadMem_steps (s : VmSys) (pid : ℤ) (virtAddr len tick : ℕ) :
    PageSteps s (vmReadMem s pid virtAddr len tick).2 := by
  have hloop := vmReadLoop_steps pid virtAddr tick len 0 s
  rw [vmReadMem]
  split_ifs
  · exact .refl
  · exact .refl
  · split
    · next heq =>
      rw [heq] at hloop
      exact hloop
    · next heq =>
      rw [heq] at hloop
      exact hloop.trans (vmCharge_steps _ _ _)

theorem vmWriteMem_steps (s : VmSys) (pid : ℤ) (virtAddr : ℕ) (src : List UInt8) (tick : ℕ) :
    PageSteps s (vmWriteMem s pid virtAddr src tick).2.2 := by
  have hloop := vmWriteLoop_steps pid virtAddr tick src 0 s
  rw [vmWriteMem]
  split_ifs
  · exact .refl
  · exact .refl
  · split
    next k s₁ heq =>
    rw [heq] at hloop
    split_ifs
    · exact hloop.trans (vmCharge_steps _ _ _)
    · exact hloop

/-! ### Growth -/

theorem growPage_vms {vm : VmState} (hvm : s.vms pid = some vm) :
    (growPage s pid).vms pid = some { vm with
      pt := Function.update vm.pt (vpnOf vm.heapBreak)
        { vm.pt (vpnOf vm.heapBreak) with
          permissions := vmProtRead ||| vmProtWrite, present := false, inSwap := false }
      heapBreak := (vm.heapBreak + vmPageSize) % 2 ^ 16 } := by
  rw [growPage, VmSys.modifyVm, hvm]
  exact Function.update_self ..

/-- Growing by pages that the limit allows. -/
theorem growPages_steps (n : ℕ) (s : VmSys) (vm : VmState) (hvm : s.vms pid = some vm)
    (hroom : (vm.heapBreak - vm.heapStart) / vmPageSize + n ≤ vmSegHeapMaxPages) :
    MemSteps s ((fun s => growPage s pid)^[n] s) := by
  induction n generalizing s vm with
  | zero => exact .refl
  | succ n ih =>
    have hstep := MemStep.grow pid vm hvm (by omega)
    refine hstep.steps.trans ?_
    rw [Function.iterate_succ_apply]
    refine ih (growPage s pid) _ (growPage_vms hvm) ?_
    have hle := Nat.mod_le (vm.heapBreak + vmPageSize) (2 ^ 16)
    have hpage : vmPageSize = 256 := rfl
    dsimp only
    rw [hpage] at hroom hle ⊢
    omega

theorem heapGrow_steps (pid : ℤ) (tick n : ℕ) (s : VmSys) :
    MemSteps s ((heapGrow (vmHeapOps pid tick) n).run s).2 := by
  rw [heapGrow, run_get_bind]
  split_ifs with hnone hfull
  · exact .refl
  · exact .refl
  · cases hvm : s.vms pid with
    | none =>
      refine absurd (.inl ?_) hnone
      show (s.vms pid).isSome = false
      rw [hvm]
      rfl
    | some vm =>
      refine growPages_steps n s vm hvm ?_
      have hbreak : (vmHeapOps pid tick).heapBreak s = vm.heapBreak := by
        show ((s.vms pid).map (·.heapBreak)).getD 0 = _
        rw [hvm]
        rfl
      have hstart : (vmHeapOps pid tick).heapStart s = vm.heapStart := by
        show ((s.vms pid).map (·.heapStart)).getD 0 = _
        rw [hvm]
        rfl
      rw [hbreak, hstart] at hfull
      exact not_lt.mp hfull

/-- The allocator takes steps. -/
theorem vmHeapOps_steps (pid : ℤ) (tick : ℕ) (s₀ : VmSys) :
    HeapCalls (vmHeapOps pid tick) (vmHeapOps pid tick) fun s t => s = t ∧ MemSteps s₀ s where
  hasVm := fun s t h => by rw [h.1]
  heapStart := fun s t h => by rw [h.1]
  heapBreak := fun s t h => by rw [h.1]
  readMem := by
    rintro addr len s _ ⟨rfl, hs⟩
    exact ⟨rfl, rfl, hs.trans (vmReadMem_steps s pid addr len tick).memSteps⟩
  writeMem := by
    rintro addr src s _ ⟨rfl, hs⟩
    exact ⟨rfl, rfl, hs.trans (vmWriteMem_steps s pid addr src tick).memSteps⟩
  heapGrow := by
    rintro n s _ ⟨rfl, hs⟩
    exact ⟨rfl, rfl, hs.trans (heapGrow_steps pid tick n s)⟩

/-! ### Operations -/

/-- Every operation is a sequence of steps. -/
theorem HeapOp.exec_steps (m : MemSys) (op : HeapOp) : MemSteps m.sys (op.exec m).sys := by
  cases op with
  | mem op =>
    cases op with
    | create pid => exact MemStep.steps (.spawn pid)
    | dispatch pid => exact (SoftStep.steps (.setTlb _ fun _ _ _ => tlbFlush_agrees)).memSteps
    | read virtAddr len tick => exact (vmReadMem_steps _ _ _ _ _).memSteps
    | write virtAddr src tick => exact (vmWriteMem_steps _ _ _ _ _).memSteps
    | setPolicy name => exact MemStep.steps (.setPolicy name)
  | malloc size tick fuel =>
    exact ((vmHeapOps_steps m.acting tick m.sys).malloc fuel size).invariant
      (s := m.sys) Relation.ReflTransGen.refl
  | free addr tick =>
    exact ((vmHeapOps_steps m.acting tick m.sys).free addr).invariant
      (s := m.sys) Relation.ReflTransGen.refl

/-- What every step keeps holds after every sequence of steps. -/
theorem MemSteps.invariant {I : VmSys → Prop} (hstep : ∀ s s', MemStep s s' → I s → I s')
    (h : MemSteps s s') (hs : I s) : I s' := by
  induction h with
  | refl => exact hs
  | tail _ hlast ih => exact hstep _ _ hlast ih

theorem HeapOp.run_steps (ops : List HeapOp) :
    MemSteps vmInit (Runs.run HeapOp.exec memInit ops).sys :=
  Runs.run_invariant (I := fun m : MemSys => MemSteps vmInit m.sys)
    (fun m op hm _ => hm.trans (HeapOp.exec_steps m op)) Relation.ReflTransGen.refl
    (Runs.along_true _ _)

/-! ### What every step keeps -/

theorem SoftStep.perms (h : SoftStep s s') : s'.perms = s.perms := by
  funext p v
  obtain ⟨a, d, heq⟩ := h.pte p v
  rw [VmSys.perms, VmSys.perms, heq, Option.map_map]
  rfl

theorem SoftStep.frame (h : SoftStep s s') (k : PageKey) :
    (s'.paged.entry k).frame = (s.paged.entry k).frame ∧
      (s'.paged.entry k).slot = (s.paged.entry k).slot := by
  obtain ⟨a, d, heq⟩ := h.pte k.1 k.2
  simp only [VmSys.paged, heq]
  cases s.pte k.1 k.2 with
  | none => exact ⟨rfl, rfl⟩
  | some e => exact ⟨rfl, rfl⟩

theorem AccessSpec.sound {res : PagerResult} {out : Option ℕ}
    (h : AccessSpec s pid vpn write tick res out s') (hs : s.paged.Sound) : s'.paged.Sound := by
  cases h with
  | error _ hsame =>
    rw [hsame.paged]
    exact hs
  | hit _ _ _ hp =>
    rw [hp]
    split_ifs
    · exact hs.markDirty
    · exact hs
  | fault _ _ _ hroom _ hfree _ hfill hp =>
    have hst := hroom.sound hs
    rw [hp]
    refine hst.load hfree _ _ ?_
    cases hfill with
    | major hslot _ =>
      rintro sl ⟨⟩
      exact hst.slot_owned hslot
    | minor => exact nofun

/-- The claims of pages stay sound. -/
theorem MemStep.sound (h : MemStep s s') (hs : s.paged.Sound) : s'.paged.Sound := by
  cases h with
  | spawn pid =>
    rw [vmSpawn_paged]
    exact hs
  | access pid vpn write tick => exact (pagerAccessPage_spec hs pid vpn write tick).sound hs
  | setPolicy name =>
    rw [pagerSetPolicy_paged]
    exact hs
  | grow pid vm hvm _ =>
    rw [growPage_paged hvm]
    exact hs.forget
  | soft hsoft =>
    have howner : s'.paged.owner = s.paged.owner := hsoft.owner
    have hslots : s'.paged.slotOwner = s.paged.slotOwner := by
      show swapGetOwner s'.swap = _
      rw [hsoft.swap]
      rfl
    refine ⟨fun hf => ?_, fun hsl => ?_⟩
    · rw [howner]
      exact hs.frame_owned ((hsoft.frame _).1 ▸ hf)
    · rw [hslots]
      exact hs.slot_owned ((hsoft.frame _).2 ▸ hsl)

end Mosrt
