/-
Write protection.

Every page keeps the permissions of its segment, and so does every TLB entry
(`Guarded`): page accesses copy permissions, and heap growth, which overwrites them,
stays within the heap segment.  Text and read-only data, the pages below 0x2000, can
therefore not be written, and hold zeros.

* `MemStep.guarded` — every step of the memory system keeps this;
* `vmWriteMem_below` — a write that begins below 0x2000 fails at its first byte, through
  the TLB or the page table;
* `HeapOp.run_above` — so no byte is ever stored there, by a process or its allocator;
* `write_protection` — the guarantee in every state that is reached.
-/
import Mosrt.MemSteps

namespace Mosrt

open StateSim

variable {s s' : VmSys} {pid : ℤ} {vpn tick f : ℕ} {write : Bool}

/-! ### Where the heap is -/

/-- No address space changes where its heap is. -/
def SameExtents (s s' : VmSys) : Prop :=
  ∀ p, (s'.vms p).map VmState.extent = (s.vms p).map VmState.extent

theorem SameExtents.refl (s : VmSys) : SameExtents s s := fun _ => rfl

theorem SameExtents.trans {s'' : VmSys} (h : SameExtents s s') (h' : SameExtents s' s'') :
    SameExtents s s'' := fun p => (h' p).trans (h p)

theorem SameExtents.modifyVm (hvms : s'.vms = s.vms) {g : VmState → VmState}
    (hg : ∀ vm, (g vm).extent = vm.extent) : SameExtents s (s'.modifyVm pid g) := by
  intro p
  rw [VmSys.modifyVm]
  dsimp only
  rw [Function.update_apply, hvms]
  split_ifs with hp
  · rw [hp, Option.map_map]
    exact congrArg (fun g => (s.vms pid).map g) (funext hg)
  · rfl

theorem SameExtents.modifyPte (hvms : s'.vms = s.vms) (g : Pte → Pte) :
    SameExtents s (s'.modifyPte pid vpn g) := .modifyVm hvms fun _ => rfl

theorem pagerPickVictim_extents (s : VmSys) (pid : ℤ) :
    SameExtents s (pagerPickVictim s pid).2 := by
  rw [pagerPickVictim]
  split
  · exact .refl s
  · exact .modifyVm rfl fun _ => rfl

theorem pagerUnmap_extents (f : ℕ) (p : ℤ) (v : ℕ) : SameExtents s (pagerUnmap s f p v) := by
  intro q
  exact SameExtents.modifyPte (s := s) rfl (fun e => { e with present := false, dirty := false }) q

theorem pagerWriteBack_extents {p : ℤ} {v : ℕ} {pte : Pte}
    (h : pagerWriteBack s f p v pte = some s') : SameExtents s s' := by
  rw [pagerWriteBack] at h
  split at h
  · cases h
  · rw [← Option.some.inj h]
    exact .modifyPte rfl _

theorem pagerEvict_extents (s : VmSys) (pid : ℤ) : SameExtents s (pagerEvict s pid).2 := by
  have hpicked := pagerPickVictim_extents s pid
  rw [pagerEvict]
  obtain ⟨victim, s₁, hpick⟩ : ∃ victim s₁, pagerPickVictim s pid = (victim, s₁) := ⟨_, _, rfl⟩
  rw [hpick] at hpicked ⊢
  dsimp only at hpicked ⊢
  split
  · exact hpicked
  · split
    · exact hpicked
    · split
      · exact hpicked
      · split_ifs
        · split
          · exact hpicked
          · next hwb => exact hpicked.trans ((pagerWriteBack_extents hwb).trans
              (pagerUnmap_extents _ _ _))
        · exact hpicked.trans (pagerUnmap_extents _ _ _)

theorem pagerObtainFrame_extents (s : VmSys) (pid : ℤ) (vpn : ℕ) :
    SameExtents s (pagerObtainFrame s pid vpn).2 := by
  have hev := pagerEvict_extents s pid
  rw [pagerObtainFrame]
  split
  · exact .refl s
  · split
    · next heq =>
      rw [heq] at hev
      exact hev
    · next heq =>
      rw [heq] at hev
      split <;> exact hev

theorem pagerPageIn_extents (f : ℕ) (isMajor write : Bool) (tick : ℕ) :
    SameExtents s (pagerPageIn s pid vpn f isMajor write tick) := by
  have hfill : SameExtents s (pagerFill s pid vpn f isMajor) := by
    rw [pagerFill]
    split_ifs
    · exact .modifyPte rfl _
    · exact .refl s
  intro p
  rw [pagerPageIn_vms]
  exact (hfill.trans (.modifyPte rfl _)) p

theorem pagerAccessPage_extents (s : VmSys) (pid : ℤ) (vpn : ℕ) (write : Bool) (tick : ℕ) :
    SameExtents s (pagerAccessPage s pid vpn write tick).2.2 := by
  have hobtain := pagerObtainFrame_extents s pid vpn
  rw [pagerAccessPage]
  obtain ⟨out, s₁, hframe⟩ : ∃ out s₁, pagerObtainFrame s pid vpn = (out, s₁) := ⟨_, _, rfl⟩
  rw [hframe] at hobtain ⊢
  cases hvm : s.vms pid with
  | none => exact .refl s
  | some vm =>
    dsimp only
    by_cases hperm : (!pageTableValidatePermissions vm.pt vpn
        (if write then vmProtWrite else vmProtRead)) = true
    · rw [if_pos hperm]
      exact .refl s
    · rw [if_neg hperm]
      by_cases hpresent : (vm.pt vpn).present = true
      · rw [if_pos hpresent]
        intro p
        exact SameExtents.modifyPte (s := s) rfl (fun e => { e with
          accessed := true, referenced := true, lastAccessedTick := tick % 2 ^ 32,
          dirty := e.dirty || write }) p
      · rw [if_neg hpresent]
        cases out with
        | none => exact hobtain
        | some pfn => exact hobtain.trans (pagerPageIn_extents _ _ _ _)

theorem PageSteps.extents (h : PageSteps s s') : SameExtents s s' := by
  induction h with
  | refl => exact .refl s
  | tail _ hstep ih =>
    cases hstep with
    | access pid vpn write tick => exact ih.trans (pagerAccessPage_extents _ pid vpn write tick)
    | soft hsoft => exact ih.trans hsoft.extent

/-! ### The invariant -/

/-- Permissions are those of the segment, in page tables and TLB, and the heap begins where
its segment does. -/
structure Guarded (s : VmSys) : Prop where
  sound : s.paged.Sound
  perms : ∀ p v perm, s.perms p v = some perm → perm = pageTableGetSegmentDefaultPermissions v
  tlb : s.tlb.Agrees fun v _ perm _ => perm = pageTableGetSegmentDefaultPermissions v
  heap : ∀ p e, (s.vms p).map VmState.extent = some e → e.1 = vmSegHeapStart ∧ vmSegHeapStart ≤ e.2

/-- Heap pages can be read and written. -/
theorem default_heap {v : ℕ} (hlow : 64 ≤ v) (hhigh : v < 192) :
    pageTableGetSegmentDefaultPermissions v = vmProtRead ||| vmProtWrite := by
  have hseg : pageTableGetSegmentName v = .heap := by
    rw [pageTableGetSegmentName]
    simp only [vmSegTextPages, vmSegRodataPages, vmSegDataPages, vmSegBssPages, vmSegHeapMaxPages]
    rw [if_neg (by omega), if_neg (by omega), if_neg (by omega), if_neg (by omega),
      if_pos (by omega)]
  rw [pageTableGetSegmentDefaultPermissions, hseg]

theorem vmSpawn_guarded (h : Guarded s) (pid : ℤ) : Guarded (vmSpawn s pid) := by
  refine ⟨?_, ?_, ?_, ?_⟩
  · rw [vmSpawn_paged]
    exact h.sound
  · intro p v perm hperm
    rw [vmSpawn] at hperm
    split_ifs at hperm
    · by_cases hp : p = pid
      · subst hp
        simp [VmSys.perms, VmSys.pte, vmProcInit, pageTableInit] at hperm
        exact hperm.symm
      · refine h.perms p v perm ?_
        simpa [VmSys.perms, VmSys.pte, hp] using hperm
    · exact h.perms p v perm hperm
  · rw [vmSpawn_tlb]
    exact h.tlb
  · intro p e he
    rw [vmSpawn] at he
    split_ifs at he
    · by_cases hp : p = pid
      · subst hp
        simp [VmState.extent, vmProcInit] at he
        rw [← he]
        exact ⟨rfl, le_rfl⟩
      · refine h.heap p e ?_
        simpa [hp] using he
    · exact h.heap p e he

theorem AccessSpec.guarded {res : PagerResult} {out : Option ℕ}
    (hspec : AccessSpec s pid vpn write tick res out s') (h : Guarded s)
    (hext : SameExtents s s') : Guarded s' := by
  refine ⟨hspec.sound h.sound, ?_, ?_, fun p e he => h.heap p e ((hext p).symm.trans he)⟩
  · rw [hspec.perms]
    exact h.perms
  · cases hspec with
    | error _ hsame =>
      rw [hsame.tlb]
      exact h.tlb
    | hit _ hperm _ _ ht =>
      rw [ht]
      exact h.tlb.insert_same (h.perms _ _ _ hperm)
    | fault _ hperm _ hroom _ _ _ _ _ ht =>
      rw [ht]
      refine TlbState.Agrees.insert_same (TlbState.Agrees.flushEntry ?_ fun _ _ _ _ _ hg => hg)
        (h.perms _ _ _ hperm)
      cases hroom with
      | free => exact h.tlb
      | evicted _ _ _ _ => exact h.tlb.flushEntry fun _ _ _ _ _ hg => hg

/-- Growing makes a heap page readable and writable, which it is already. -/
theorem growPage_guarded (h : Guarded s) {vm : VmState} (hvm : s.vms pid = some vm)
    (hroom : (vm.heapBreak - vm.heapStart) / vmPageSize < vmSegHeapMaxPages) :
    Guarded (growPage s pid) := by
  obtain ⟨hstart, hbreak⟩ := h.heap pid vm.extent (by rw [hvm]; rfl)
  have hstart : vm.heapStart = 16384 := hstart
  have hbreak : 16384 ≤ vm.heapBreak := hbreak
  have hpage : vmPageSize = 256 := rfl
  have hmax : vmSegHeapMaxPages = 128 := rfl
  rw [hstart, hpage, hmax] at hroom
  have hsegment : pageTableGetSegmentDefaultPermissions (vpnOf vm.heapBreak) =
      vmProtRead ||| vmProtWrite := by
    refine default_heap ?_ ?_
    · show 64 ≤ vm.heapBreak / 256
      omega
    · show vm.heapBreak / 256 < 192
      omega
  refine ⟨?_, ?_, h.tlb, ?_⟩
  · rw [growPage_paged hvm]
    exact h.sound.forget
  · intro p v perm hperm
    rw [VmSys.perms, growPage, modifyVm_pte] at hperm
    split_ifs at hperm with hp
    · rw [hvm, Option.map_some, Option.map_some, Option.some_inj] at hperm
      dsimp only at hperm
      rw [Function.update_apply] at hperm
      split_ifs at hperm with hv
      · rw [← hperm, hv, hsegment]
      · refine h.perms pid v perm ?_
        simpa [VmSys.perms, VmSys.pte, hvm] using hperm
    · exact h.perms p v perm hperm
  · intro p e he
    by_cases hp : p = pid
    · subst hp
      rw [growPage_vms hvm, Option.map_some, Option.some_inj] at he
      rw [← he]
      refine ⟨hstart, ?_⟩
      show 16384 ≤ (vm.heapBreak + 256) % 2 ^ 16
      omega
    · refine h.heap p e ?_
      have hother : (growPage s pid).vms p = s.vms p := Function.update_of_ne hp _ _
      rw [← hother]
      exact he

theorem MemStep.guarded (hstep : MemStep s s') (h : Guarded s) : Guarded s' := by
  cases hstep with
  | spawn pid => exact vmSpawn_guarded h pid
  | access pid vpn write tick =>
    exact (pagerAccessPage_spec h.sound pid vpn write tick).guarded h
      (pagerAccessPage_extents s pid vpn write tick)
  | setPolicy name =>
    obtain ⟨-, -, htlb, hvms⟩ := pagerSetPolicy_same s name
    refine ⟨?_, ?_, ?_, ?_⟩
    · rw [pagerSetPolicy_paged]
      exact h.sound
    · intro p v perm hperm
      rw [VmSys.perms, VmSys.pte, hvms] at hperm
      exact h.perms p v perm hperm
    · rw [htlb]
      exact h.tlb
    · rw [hvms]
      exact h.heap
  | grow pid vm hvm hroom => exact growPage_guarded h hvm hroom
  | soft hsoft =>
    refine ⟨(MemStep.soft hsoft).sound h.sound, ?_, hsoft.tlb _ h.tlb h.perms, ?_⟩
    · rw [hsoft.perms]
      exact h.perms
    · intro p e he
      exact h.heap p e ((hsoft.extent p).symm.trans he)

theorem vmInit_guarded : Guarded vmInit := by
  refine ⟨vmInit_exact.toSound, ?_, ?_, ?_⟩
  · intro p v perm hperm
    cases hperm
  · intro i _ hv
    cases hv
  · intro p e he
    cases he

theorem MemSteps.guarded (h : MemSteps s s') (hs : Guarded s) : Guarded s' :=
  MemSteps.invariant (fun _ _ hstep => hstep.guarded) h hs

/-! ### Writes -/

/-- Where the writable segments begin. -/
def writableStart : ℕ := 0x2000

theorem default_below {v : ℕ} (hv : v < 32) :
    pageTableGetSegmentDefaultPermissions v &&& vmProtWrite = 0 := by
  have hseg : pageTableGetSegmentName v = .text ∨ pageTableGetSegmentName v = .rodata := by
    rw [pageTableGetSegmentName]
    simp only [vmSegTextPages, vmSegRodataPages]
    by_cases htext : v < 16
    · exact .inl (if_pos htext)
    · exact .inr (by rw [if_neg htext, if_pos (by omega)])
  rw [pageTableGetSegmentDefaultPermissions]
  rcases hseg with hseg | hseg <;> rw [hseg] <;> rfl

theorem vpnOf_below {addr : ℕ} (haddr : addr < writableStart) : vpnOf addr < 32 := by
  have haddr : addr < 8192 := haddr
  show addr / 256 < 32
  omega

/-- The page table refuses the write before anything is done. -/
theorem vmMiss_refused (h : Guarded s) (hvm : (s.vms pid).isSome) (hvpn : vpn < 32) :
    vmMiss s pid vpn true tick = (none, s) := by
  obtain ⟨vm, hvm⟩ := Option.isSome_iff_exists.mp hvm
  have hperm : (vm.pt vpn).permissions &&& vmProtWrite = 0 := by
    rw [h.perms pid vpn (vm.pt vpn).permissions (by simp [VmSys.perms, VmSys.pte, hvm])]
    exact default_below hvpn
  have hrefused : pageTableValidatePermissions vm.pt vpn vmProtWrite = false := by
    rw [pageTableValidatePermissions, hperm]
    simp [vmProtWrite]
  have hacc : pagerAccessPage s pid vpn true tick = (.errorPerm, none, s) := by
    rw [pagerAccessPage, hvm]
    dsimp only
    rw [if_pos rfl, hrefused, if_pos (by rfl)]
  rw [vmMiss, hacc]
  rfl

/-- So does the TLB, whose entries have the same permissions. -/
theorem vmTranslateWrite_refused (h : Guarded s) (hvm : (s.vms pid).isSome) (hvpn : vpn < 32) :
    vmTranslateWrite s pid vpn tick = (none, s.lookedUp vpn tick) := by
  rw [vmTranslateWrite]
  cases hr : (tlbLookup s.tlb vpn tick).1 with
  | none =>
    have hlooked : Guarded (s.lookedUp vpn tick) := (MemStep.soft (.lookedUp s vpn tick)).guarded h
    exact vmMiss_refused hlooked hvm hvpn
  | some r =>
    have hperm : r.permissions = pageTableGetSegmentDefaultPermissions vpn := h.tlb.hit hr
    dsimp only
    rw [hperm, default_below hvpn, if_pos rfl]
    rfl

theorem vmWriteMem_below (h : Guarded s) {virtAddr : ℕ} (haddr : virtAddr < writableStart)
    {src : List UInt8} (hsrc : src ≠ []) (pid : ℤ) (tick : ℕ) :
    (vmWriteMem s pid virtAddr src tick).1 = false ∧
      (vmWriteMem s pid virtAddr src tick).2.1 = 0 ∧
      (vmWriteMem s pid virtAddr src tick).2.2.frame = s.frame ∧
      (vmWriteMem s pid virtAddr src tick).2.2.swap = s.swap := by
  obtain ⟨b, bs, rfl⟩ := List.exists_cons_of_ne_nil hsrc
  rw [vmWriteMem]
  split_ifs with hnone hlong
  · exact ⟨rfl, rfl, rfl, rfl⟩
  · exact ⟨rfl, rfl, rfl, rfl⟩
  · have hvm : (s.vms pid).isSome := by simpa [Option.isSome_iff_ne_none] using hnone
    have hcurr : currAddr virtAddr 0 = virtAddr := by
      have haddr : virtAddr < 8192 := haddr
      show (virtAddr + 0) % 65536 = virtAddr
      omega
    -- the loop ends in its first iteration
    have hloop : vmWriteLoop pid virtAddr tick (b :: bs) 0 s =
        (0, s.lookedUp (vpnOf virtAddr) tick) := by
      rw [vmWriteLoop, hcurr, vmWriteByte, vmTranslateWrite_refused h hvm (vpnOf_below haddr)]
    rw [hloop]
    dsimp only
    rw [if_neg (by simp)]
    exact ⟨rfl, rfl, rfl, rfl⟩

/-! ### What is stored -/

/-- No stored byte lies below the writable segments. -/
def StoreLog.Above (log : StoreLog) : Prop := ∀ e ∈ log, writableStart ≤ e.2.1

theorem StoreLog.Above.append {log log' : StoreLog} (h : log.Above) (h' : log'.Above) :
    StoreLog.Above (log ++ log') := by
  intro e he
  rcases List.mem_append.mp he with he | he
  · exact h e he
  · exact h' e he

theorem storedBytes_above (h : Guarded s) (pid : ℤ) (virtAddr : ℕ) (src : List UInt8) (tick : ℕ) :
    StoreLog.Above (storedBytes pid virtAddr src (vmWriteMem s pid virtAddr src tick).2.1) := by
  intro e he
  by_cases hbelow : virtAddr < writableStart ∧ src ≠ []
  · rw [(vmWriteMem_below h hbelow.1 hbelow.2 pid tick).2.1] at he
    cases he
  · obtain ⟨i, hi, rfl⟩ := List.mem_map.mp he
    by_cases hsrc : src = []
    · -- an empty write stores nothing
      subst hsrc
      rw [vmWriteMem] at hi
      split_ifs at hi <;> simp [vmWriteLoop] at hi
    · have habove : writableStart ≤ virtAddr := not_lt.mp fun hlt => hbelow ⟨hlt, hsrc⟩
      exact habove.trans (Nat.le_add_right _ _)

/-- Growing the heap stores nothing. -/
theorem heapGrow_logged (pid : ℤ) (tick n : ℕ) (s : VmSys × StoreLog) :
    ((heapGrow (loggedHeapOps pid tick) n).run s).2.2 = s.2 := by
  have hiter : ∀ n s, (((loggedHeapOps pid tick).growPage^[n]) s).2 = s.2 := by
    intro n
    induction n with
    | zero => exact fun _ => rfl
    | succ n ih =>
      intro s
      rw [Function.iterate_succ_apply, ih]
      rfl
  rw [heapGrow, run_get_bind]
  split_ifs
  · rfl
  · rfl
  · exact hiter n s

theorem loggedHeapOps_above (pid : ℤ) (tick : ℕ) :
    HeapCalls (loggedHeapOps pid tick) (loggedHeapOps pid tick)
      fun s t => s = t ∧ Guarded s.1 ∧ s.2.Above where
  hasVm := fun s t h => by rw [h.1]
  heapStart := fun s t h => by rw [h.1]
  heapBreak := fun s t h => by rw [h.1]
  readMem := by
    rintro addr len s _ ⟨rfl, hs, hlog⟩
    exact ⟨rfl, rfl, (vmReadMem_steps s.1 pid addr len tick).memSteps.guarded hs, hlog⟩
  writeMem := by
    rintro addr src s _ ⟨rfl, hs, hlog⟩
    exact ⟨rfl, rfl, (vmWriteMem_steps s.1 pid addr src tick).memSteps.guarded hs,
      hlog.append (storedBytes_above hs pid addr src tick)⟩
  heapGrow := by
    rintro n s _ ⟨rfl, hs, hlog⟩
    refine ⟨rfl, rfl, ?_, ?_⟩
    · -- the log aside, this is growth of the plain heap
      rw [((loggedHeapOps_sim pid tick).calls.heapGrow n s s.1 rfl).2]
      exact (heapGrow_steps pid tick n s.1).guarded hs
    · rw [heapGrow_logged]
      exact hlog

theorem HeapOp.stored_above (op : HeapOp) {m : MemSys} (hm : Guarded m.sys) :
    (op.stored m).Above := by
  have hnil : StoreLog.Above [] := by
    intro e he
    cases he
  cases op with
  | mem op =>
    cases op with
    | write virtAddr src tick => exact storedBytes_above hm m.acting virtAddr src tick
    | _ => exact hnil
  | malloc size tick fuel =>
    exact (((loggedHeapOps_above m.acting tick).malloc fuel size).invariant
      (s := (m.sys, [])) ⟨hm, hnil⟩).2
  | free addr tick =>
    exact (((loggedHeapOps_above m.acting tick).free addr).invariant
      (s := (m.sys, [])) ⟨hm, hnil⟩).2

theorem HeapOp.run_guarded (ops : List HeapOp) : Guarded (Runs.run HeapOp.exec memInit ops).sys :=
  (HeapOp.run_steps ops).guarded vmInit_guarded

theorem HeapOp.run_above (ops : List HeapOp) :
    StoreLog.Above (Runs.history HeapOp.exec (fun m op => op.stored m) memInit ops) := by
  have hinit : Guarded memInit.sys ∧ StoreLog.Above [] := by
    refine ⟨vmInit_guarded, ?_⟩
    intro e he
    cases he
  have hstep : ∀ (m : MemSys) (log : StoreLog) (op : HeapOp), Guarded m.sys ∧ log.Above → True →
      Guarded (op.exec m).sys ∧ StoreLog.Above (log ++ op.stored m) := by
    intro m log op hm _
    exact ⟨(HeapOp.exec_steps m op).guarded hm.1, hm.2.append (op.stored_above hm.1)⟩
  exact (Runs.run_history (I := fun (m : MemSys) log => Guarded m.sys ∧ StoreLog.Above log)
    hstep hinit (Runs.along_true _ _)).2

/-! ### The guarantee -/

/-- **Write protection**: after any operations every page has the permissions of its segment,
a write that begins in text or read-only data fails and changes no byte of RAM or swap, and
what is read there is zero. -/
theorem write_protection (ops : List HeapOp) :
    let m := Runs.run HeapOp.exec memInit ops
    (∀ p v pte, m.sys.pte p v = some pte →
      pte.permissions = pageTableGetSegmentDefaultPermissions v) ∧
    (∀ pid virtAddr src tick, virtAddr < writableStart → src ≠ [] →
      let r := vmWriteMem m.sys pid virtAddr src tick
      r.1 = false ∧ r.2.2.frame = m.sys.frame ∧ r.2.2.swap = m.sys.swap) ∧
    ∀ virtAddr len tick bs, (vmReadMem m.sys m.acting virtAddr len tick).1 = some bs →
      ∀ i b, bs[i]? = some b → virtAddr + i < writableStart → b = 0 := by
  have hguarded := HeapOp.run_guarded ops
  refine ⟨?_, ?_, ?_⟩
  · intro p v pte hpte
    exact hguarded.perms p v pte.permissions (by rw [VmSys.perms, hpte, Option.map_some])
  · intro pid virtAddr src tick haddr hsrc
    obtain ⟨hfail, -, hframe, hswap⟩ := vmWriteMem_below hguarded haddr hsrc pid tick
    exact ⟨hfail, hframe, hswap⟩
  · intro virtAddr len tick bs hread i b hb hbelow
    obtain ⟨-, hbytes⟩ := vmReadMem_isolated (HeapOp.run_isolated ops) virtAddr len tick
    rcases (hbytes bs hread).2 i b hb with hzero | hstored
    · exact hzero
    · exact absurd (HeapOp.run_above ops _ hstored) (not_le.mpr hbelow)

/-- A process that has allocated cannot write its text. -/
theorem write_protection_text :
    (vmWriteMem (Runs.run HeapOp.exec memInit
      [.mem (.create 1), .mem (.dispatch 1), .malloc 4 0 2]).sys 1 0 [7] 1).1 = false :=
  ((write_protection [.mem (.create 1), .mem (.dispatch 1), .malloc 4 0 2]).2.1 1 0 [7] 1
    (by decide) (by simp)).1

end Mosrt
