/-
What a page access can do.

`VmSys.paged` reads the globals as a `PagedStore` over pages `(pid, vpn)`:
replacement state, statistics, use bits and use times are forgotten.  The main
result, `pagerAccessPage_spec`, lists the outcomes of `pagerAccessPage` in these
terms once and for all (`AccessSpec`): an error leaves the store and the TLB
alone, a hit may mark the page dirty, a fault loads the page into a free frame,
possibly after an eviction (`Evicted`).  Every invariant of the memory system is
derived from this list.
-/
import Mosrt.Pager
import Mosrt.PagedStore

namespace Mosrt

/-- A page of a process. -/
abbrev PageKey := ℤ × ℕ

/-- The part of an entry that says where the page is. -/
def entryOf (e : Pte) : PageEntry ℕ ℕ where
  frame := if e.present then some e.frameNum else none
  slot := if e.inSwap then some e.swapSlot else none
  dirty := e.dirty

/-- The globals as an abstract store.  A page of a process that does not exist is nowhere. -/
def VmSys.paged (s : VmSys) : PagedStore PageKey ℕ ℕ PageContents where
  entry := fun k => ((s.pte k.1 k.2).map entryOf).getD {}
  owner := frameGetOwner s.frame
  ram := frameBytes s.frame
  slotOwner := swapGetOwner s.swap
  disk := slotBytes s.swap

/-- The permissions of the pages of existing processes. -/
def VmSys.perms (s : VmSys) (pid : ℤ) (vpn : ℕ) : Option ℕ := (s.pte pid vpn).map (·.permissions)

/-! ### Entries under updates -/

variable {s s' : VmSys} {pid p : ℤ} {vpn v : ℕ}

@[simp] theorem modifyVm_frame (f : VmState → VmState) : (s.modifyVm pid f).frame = s.frame := rfl
@[simp] theorem modifyVm_swap (f : VmState → VmState) : (s.modifyVm pid f).swap = s.swap := rfl
@[simp] theorem modifyVm_tlb (f : VmState → VmState) : (s.modifyVm pid f).tlb = s.tlb := rfl
@[simp] theorem modifyVm_pager (f : VmState → VmState) : (s.modifyVm pid f).pager = s.pager := rfl
@[simp] theorem modifyPte_frame (f : Pte → Pte) : (s.modifyPte pid vpn f).frame = s.frame := rfl
@[simp] theorem modifyPte_swap (f : Pte → Pte) : (s.modifyPte pid vpn f).swap = s.swap := rfl
@[simp] theorem modifyPte_tlb (f : Pte → Pte) : (s.modifyPte pid vpn f).tlb = s.tlb := rfl
@[simp] theorem modifyPte_pager (f : Pte → Pte) : (s.modifyPte pid vpn f).pager = s.pager := rfl

theorem modifyVm_pte (f : VmState → VmState) :
    (s.modifyVm pid f).pte p v =
      if p = pid then (s.vms pid).map (fun vm => (f vm).pt v) else s.pte p v := by
  simp only [VmSys.pte, VmSys.modifyVm, Function.update_apply]
  split_ifs with hp
  · rw [Option.map_map]
    rfl
  · rfl

theorem modifyPte_pte (f : Pte → Pte) :
    (s.modifyPte pid vpn f).pte p v =
      if p = pid ∧ v = vpn then (s.pte pid vpn).map f else s.pte p v := by
  rw [VmSys.modifyPte, modifyVm_pte]
  by_cases hp : p = pid
  · subst hp
    by_cases hv : v = vpn
    · subst hv
      cases hvm : s.vms p with
      | none => simp [VmSys.pte, hvm]
      | some vm => simp [VmSys.pte, hvm]
    · cases hvm : s.vms p with
      | none => simp [VmSys.pte, hvm]
      | some vm => simp [VmSys.pte, hvm, hv]
  · simp [hp]

@[simp] theorem modifyVm_isSome (f : VmState → VmState) (p : ℤ) :
    ((s.modifyVm pid f).vms p).isSome = (s.vms p).isSome := by
  simp only [VmSys.modifyVm, Function.update_apply]
  split_ifs with hp
  · simp [hp]
  · rfl

@[simp] theorem modifyPte_isSome (f : Pte → Pte) (p : ℤ) :
    ((s.modifyPte pid vpn f).vms p).isSome = (s.vms p).isSome := modifyVm_isSome _ p

/-- An update of an address space that keeps `entryOf` of all entries is invisible. -/
theorem paged_modifyVm {f : VmState → VmState}
    (hf : ∀ vm, s.vms pid = some vm → ∀ v, entryOf ((f vm).pt v) = entryOf (vm.pt v)) :
    (s.modifyVm pid f).paged = s.paged := by
  refine PagedStore.ext ?_ rfl rfl rfl rfl
  funext ⟨p, v⟩
  simp only [VmSys.paged, modifyVm_pte]
  split_ifs with hp
  · subst hp
    cases hvm : s.vms p with
    | none => simp [VmSys.pte, hvm]
    | some vm => simp [VmSys.pte, hvm, hf vm hvm v]
  · rfl

theorem paged_modifyPte {e : Pte} (he : s.pte pid vpn = some e) (f : Pte → Pte) :
    (s.modifyPte pid vpn f).paged = s.paged.setEntry (pid, vpn) (entryOf (f e)) := by
  refine PagedStore.ext ?_ rfl rfl rfl rfl
  funext ⟨p, v⟩
  simp only [VmSys.paged, PagedStore.setEntry, modifyPte_pte, Function.update_apply,
    Prod.mk.injEq]
  split_ifs
  · simp [he]
  · rfl

theorem paged_modifyPte_soft {f : Pte → Pte} (hf : ∀ e, entryOf (f e) = entryOf e) :
    (s.modifyPte pid vpn f).paged = s.paged := by
  refine paged_modifyVm ?_
  intro vm _ v
  simp only [Function.update_apply]
  split_ifs with hv
  · rw [hv, hf]
  · rfl

theorem paged_entry {e : Pte} (he : s.pte pid vpn = some e) :
    s.paged.entry (pid, vpn) = entryOf e := by
  simp [VmSys.paged, he]

theorem perms_modifyVm {f : VmState → VmState}
    (hf : ∀ vm, s.vms pid = some vm → ∀ v, ((f vm).pt v).permissions = (vm.pt v).permissions) :
    (s.modifyVm pid f).perms = s.perms := by
  funext p v
  simp only [VmSys.perms, modifyVm_pte]
  split_ifs with hp
  · subst hp
    cases hvm : s.vms p with
    | none => simp [VmSys.pte, hvm]
    | some vm => simp [VmSys.pte, hvm, hf vm hvm v]
  · rfl

theorem perms_modifyPte {f : Pte → Pte} (hf : ∀ e, (f e).permissions = e.permissions) :
    (s.modifyPte pid vpn f).perms = s.perms := by
  refine perms_modifyVm ?_
  intro vm _ v
  simp only [Function.update_apply]
  split_ifs with hv
  · rw [hv, hf]
  · rfl

/-! ### The policy changes use bits only -/

/-- The clock sweep clears referenced bits and touches nothing else of an entry. -/
theorem clockScan_pt (n : ℕ) (c : ClockState) (pt : PageTable) (v : ℕ) :
    ∃ r, (clockScan n c pt).2.2 v = { pt v with referenced := r } := by
  induction n generalizing c pt with
  | zero => exact ⟨_, rfl⟩
  | succ n ih =>
    unfold clockScan
    dsimp only
    by_cases href : (pt (c.pages.getD c.hand 0)).referenced
    · rw [if_pos href]
      obtain ⟨r, hr⟩ := ih { c with hand := (c.hand + 1) % c.pages.length }
        (Function.update pt (c.pages.getD c.hand 0)
          { pt (c.pages.getD c.hand 0) with referenced := false })
      refine ⟨r, hr.trans ?_⟩
      simp only [Function.update_apply]
      split_ifs with hv
      · rw [hv]
      · rfl
    · rw [if_neg href]
      exact ⟨_, rfl⟩

theorem policyEvict_pt (pol : Policy) (pt : PageTable) (v : ℕ) :
    ∃ r, (pol.evict pt).2.2 v = { pt v with referenced := r } := by
  cases pol with
  | fifo queue => exact ⟨_, rfl⟩
  | lru pages => exact ⟨_, rfl⟩
  | clock c =>
    simp only [Policy.evict, clockEvict]
    split_ifs
    · exact ⟨_, rfl⟩
    · exact clockScan_pt _ c pt v

/-- Asking the policy for a victim changes nothing the store sees. -/
theorem pagerPickVictim_spec (s : VmSys) (pid : ℤ) :
    (pagerPickVictim s pid).2.paged = s.paged ∧ (pagerPickVictim s pid).2.tlb = s.tlb ∧
      (pagerPickVictim s pid).2.perms = s.perms ∧
      (pagerPickVictim s pid).2.frame = s.frame ∧ (pagerPickVictim s pid).2.swap = s.swap ∧
      ∀ q, ((pagerPickVictim s pid).2.vms q).isSome = (s.vms q).isSome := by
  unfold pagerPickVictim
  cases hvm : s.vms pid with
  | none => exact ⟨rfl, rfl, rfl, rfl, rfl, fun _ => rfl⟩
  | some vm =>
    dsimp only
    set s₁ : VmSys :=
      { s with pager := { s.pager with policy := (s.pager.policy.evict vm.pt).2.1 } } with hs₁
    have hvm₁ : ∀ vm', s₁.vms pid = some vm' → vm' = vm := by
      intro vm' h
      rw [hs₁] at h
      exact (Option.some_inj.mp (hvm.symm.trans h)).symm
    refine ⟨?_, rfl, ?_, rfl, rfl, fun q => modifyVm_isSome _ q⟩
    · refine (paged_modifyVm ?_).trans rfl
      intro vm' h v
      rw [hvm₁ vm' h]
      obtain ⟨r, hr⟩ := policyEvict_pt s.pager.policy vm.pt v
      simp only [hr]
      rfl
    · refine (perms_modifyVm ?_).trans rfl
      intro vm' h v
      rw [hvm₁ vm' h]
      obtain ⟨r, hr⟩ := policyEvict_pt s.pager.policy vm.pt v
      simp only [hr]

/-! ### Eviction -/

/-- The four parts of the state that only some step may change are unchanged. -/
structure SameMemory (s s' : VmSys) : Prop where
  paged : s'.paged = s.paged
  tlb : s'.tlb = s.tlb
  perms : s'.perms = s.perms
  procs : ∀ q, (s'.vms q).isSome = (s.vms q).isSome

theorem SameMemory.refl (s : VmSys) : SameMemory s s := ⟨rfl, rfl, rfl, fun _ => rfl⟩

theorem pagerUnmap_paged {f : ℕ} {e : Pte} (he : s.pte p v = some e) :
    (pagerUnmap s f p v).paged = s.paged.release (p, v) f := by
  have hmod := paged_modifyPte he fun e => { e with present := false, dirty := false }
  refine PagedStore.ext ?_ ?_ ?_ rfl rfl
  · have := congrArg PagedStore.entry hmod
    refine Eq.trans this ?_
    simp only [PagedStore.setEntry, PagedStore.release, paged_entry he]
    rfl
  · exact frameGetOwner_frameFree
  · exact frameBytes_frameFree

theorem pagerUnmap_perms (f : ℕ) : (pagerUnmap s f p v).perms = s.perms :=
  perms_modifyPte (s := s) (f := fun e => { e with present := false, dirty := false })
    fun _ => rfl

theorem pagerUnmap_isSome (f : ℕ) (q : ℤ) :
    ((pagerUnmap s f p v).vms q).isSome = (s.vms q).isSome :=
  modifyPte_isSome (s := s) (fun e => { e with present := false, dirty := false }) q

/-- Writing back: the page gets the slot, the slot gets the frame's contents. -/
theorem pagerWriteBack_some (hsound : s.paged.Sound) {f : ℕ} {e : Pte} (he : s.pte p v = some e)
    (hf : f < vmNumFrames) (h : pagerWriteBack s f p v e = some s') :
    ∃ slot, ((s.paged.entry (p, v)).slot = some slot ∨
        (s.paged.entry (p, v)).slot = none ∧ s.paged.slotOwner slot = none) ∧
      s'.paged = s.paged.writeBack (p, v) f slot ∧ s'.tlb = s.tlb ∧ s'.perms = s.perms ∧
      s'.pte p v = some { e with swapSlot := slot, inSwap := true } ∧
      ∀ q, (s'.vms q).isSome = (s.vms q).isSome := by
  have hent := paged_entry he
  -- both ways to a slot give: the slot is a real one, it becomes the page's, contents unchanged
  obtain ⟨sw, slot, hslot, hown, hbytes, hlt, hs'⟩ : ∃ sw slot,
      ((s.paged.entry (p, v)).slot = some slot ∨
        (s.paged.entry (p, v)).slot = none ∧ s.paged.slotOwner slot = none) ∧
      swapGetOwner sw = Function.update (swapGetOwner s.swap) slot (some (p, v)) ∧
      slotBytes sw = slotBytes s.swap ∧ slot < vmNumSwapSlots ∧
      s' = { s with swap := swapOut sw s.frame f slot }.modifyPte p v
        fun e => { e with swapSlot := slot, inSwap := true } := by
    unfold pagerWriteBack at h
    by_cases hin : e.inSwap = true
    · simp only [hin, if_true, Option.some.injEq] at h
      have hslot : (s.paged.entry (p, v)).slot = some e.swapSlot := by simp [hent, entryOf, hin]
      have hown : swapGetOwner s.swap e.swapSlot = some (p, v) := hsound.slot_owned hslot
      refine ⟨s.swap, e.swapSlot, Or.inl hslot, ?_, rfl, swapGetOwner_lt hown, h.symm⟩
      rw [← hown, Function.update_eq_self]
    · simp only [Bool.not_eq_true] at hin
      simp only [hin, Bool.false_eq_true, if_false] at h
      have hnone : (s.paged.entry (p, v)).slot = none := by simp [hent, entryOf, hin]
      obtain ⟨r, sw, hr⟩ : ∃ r sw, swapAlloc s.swap p v = (r, sw) := ⟨_, _, rfl⟩
      rw [hr] at h
      cases r with
      | none => simp at h
      | some slot =>
        obtain ⟨hlt, hfree, hown, hbytes⟩ := swapAlloc_some hr
        simp only [Option.some.injEq] at h
        exact ⟨sw, slot, Or.inr ⟨hnone, hfree⟩, hown, hbytes, hlt, h.symm⟩
  subst hs'
  refine ⟨slot, hslot, ?_, rfl, perms_modifyPte fun _ => rfl, ?_, fun q => modifyPte_isSome _ q⟩
  · have he' : ({ s with swap := swapOut sw s.frame f slot } : VmSys).pte p v = some e := he
    rw [paged_modifyPte he']
    refine PagedStore.ext ?_ rfl rfl ?_ ?_
    · simp only [PagedStore.setEntry, PagedStore.writeBack, hent]
      simp [VmSys.paged, entryOf]
      rfl
    · refine (swapGetOwner_swapOut).trans ?_
      exact hown
    · refine (slotBytes_swapOut hlt hf).trans ?_
      rw [hbytes]
      rfl
  · rw [modifyPte_pte, if_pos ⟨rfl, rfl⟩]
    exact congrArg (Option.map _) he

/-- The frame the policy gives up next, with its owner. -/
def VmSys.victim (s : VmSys) (pid : ℤ) : Option (ℕ × PageKey) :=
  (pagerPickVictim s pid).1.bind fun f => (frameGetOwner s.frame f).map fun k => (f, k)

/-- `pagerEvict` takes the victim's frame away or changes nothing. -/
theorem pagerEvict_spec (hsound : s.paged.Sound) (pid : ℤ) :
    (pagerEvict s pid).1 = false ∧ SameMemory s (pagerEvict s pid).2 ∨
    (pagerEvict s pid).1 = true ∧ ∃ f k, s.victim pid = some (f, k) ∧ s.paged.owner f = some k ∧
      s.paged.Evicted k f (pagerEvict s pid).2.paged ∧
      (pagerEvict s pid).2.tlb = tlbFlushEntry s.tlb k.2 ∧
      (pagerEvict s pid).2.perms = s.perms ∧
      ∀ q, ((pagerEvict s pid).2.vms q).isSome = (s.vms q).isSome := by
  obtain ⟨hpaged, htlb, hperms, hframe, hswap, hsome⟩ := pagerPickVictim_spec s pid
  unfold pagerEvict VmSys.victim
  obtain ⟨victim, s₁, hpick⟩ : ∃ victim s₁, pagerPickVictim s pid = (victim, s₁) := ⟨_, _, rfl⟩
  rw [hpick] at hpaged htlb hperms hframe hswap hsome ⊢
  dsimp only at hpaged htlb hperms hframe hswap hsome ⊢
  have hsame : SameMemory s s₁ := ⟨hpaged, htlb, hperms, hsome⟩
  cases victim with
  | none => exact Or.inl ⟨rfl, hsame⟩
  | some f =>
    dsimp only [Option.bind_some]
    rw [hframe]
    cases hown : frameGetOwner s.frame f with
    | none => exact Or.inl ⟨rfl, hsame⟩
    | some k =>
      obtain ⟨p, v⟩ := k
      dsimp only [Option.map_some]
      have hlt := frameGetOwner_lt hown
      have hown' : s.paged.owner f = some (p, v) := hown
      cases hpte : s₁.pte p v with
      | none => exact Or.inl ⟨rfl, hsame⟩
      | some e =>
        dsimp only
        have hent : s.paged.entry (p, v) = entryOf e := by rw [← hpaged, paged_entry hpte]
        by_cases hd : e.dirty = true
        · rw [if_pos hd]
          have hsound₁ : s₁.paged.Sound := by rw [hpaged]; exact hsound
          cases hwb : pagerWriteBack s₁ f p v e with
          | none => exact Or.inl ⟨rfl, hsame⟩
          | some s₂ =>
            obtain ⟨slot, hslot, hpaged₂, htlb₂, hperms₂, hpte₂, hsome₂⟩ :=
              pagerWriteBack_some hsound₁ hpte hlt hwb
            refine Or.inr ⟨rfl, f, (p, v), rfl, hown', ?_, ?_, ?_, ?_⟩
            · dsimp only
              rw [pagerUnmap_paged hpte₂, hpaged₂, hpaged]
              rw [hpaged] at hslot
              exact .dirty (by simp [hent, entryOf, hd]) hslot
            · show tlbFlushEntry s₂.tlb v = tlbFlushEntry s.tlb v
              rw [htlb₂, htlb]
            · rw [pagerUnmap_perms, hperms₂, hperms]
            · intro q
              rw [pagerUnmap_isSome, hsome₂, hsome]
        · rw [if_neg hd]
          refine Or.inr ⟨rfl, f, (p, v), rfl, hown', ?_, ?_, ?_, ?_⟩
          · dsimp only
            rw [pagerUnmap_paged hpte, hpaged]
            exact .clean (by simpa [hent, entryOf] using hd)
          · show tlbFlushEntry s₁.tlb v = tlbFlushEntry s.tlb v
            rw [htlb]
          · rw [pagerUnmap_perms, hperms]
          · intro q
            rw [pagerUnmap_isSome, hsome]

/-- The frame just freed is there to be allocated. -/
theorem pagerEvict_frees (hsound : s.paged.Sound) (pid : ℤ) (h : (pagerEvict s pid).1 = true) :
    freeFrame (pagerEvict s pid).2.frame ≠ none := by
  rcases pagerEvict_spec hsound pid with ⟨hfalse, -⟩ | ⟨-, f, k, -, hown, he, -⟩
  · rw [h] at hfalse
    cases hfalse
  · intro hnone
    have hall := freeFrame_eq_none.mp hnone f (frameGetOwner_lt hown)
    have hnow : frameGetOwner (pagerEvict s pid).2.frame f = none := by
      have := congrFun he.owner f
      rwa [Function.update_self] at this
    simp [frameGetOwner, frameGetOwner_lt hown, hall] at hnow

/-- No frame is free and none can be freed: the policy names no owned frame, its owner is
gone, or the page in it is dirty, has no slot, and no slot is left. -/
def VmSys.exhausted (s : VmSys) (pid : ℤ) : Bool :=
  (freeFrame s.frame).isNone &&
    match s.victim pid with
    | none => true
    | some (_, k) =>
      match s.pte k.1 k.2 with
      | none => true
      | some e => e.dirty && !e.inSwap && (freeSlot s.swap).isNone

/-- An eviction fails exactly if there is no frame to be had. -/
theorem pagerEvict_ok (hfull : freeFrame s.frame = none) (pid : ℤ) :
    (pagerEvict s pid).1 = !s.exhausted pid := by
  obtain ⟨hpaged, -, -, hframe, hswap, hsome⟩ := pagerPickVictim_spec s pid
  rw [pagerEvict, VmSys.exhausted, hfull, VmSys.victim]
  obtain ⟨victim, s₁, hpick⟩ : ∃ victim s₁, pagerPickVictim s pid = (victim, s₁) := ⟨_, _, rfl⟩
  rw [hpick] at hpaged hframe hswap hsome ⊢
  dsimp only at hpaged hframe hswap hsome ⊢
  cases victim with
  | none => rfl
  | some f =>
    dsimp only [Option.bind_some]
    rw [hframe]
    cases hown : frameGetOwner s.frame f with
    | none => rfl
    | some k =>
      obtain ⟨p, v⟩ := k
      simp only [Option.map_some]
      cases hpte : s.pte p v with
      | none =>
        have hpte₁ : s₁.pte p v = none := by
          rw [← Option.not_isSome_iff_eq_none, VmSys.pte, Option.isSome_map, hsome,
            ← Option.isSome_map, ← VmSys.pte, hpte]
          simp
        rw [hpte₁]
        rfl
      | some e =>
        -- the policy may have cleared the use bit of this very entry
        obtain ⟨e₁, hpte₁⟩ : ∃ e₁, s₁.pte p v = some e₁ := by
          rw [← Option.isSome_iff_exists, VmSys.pte, Option.isSome_map, hsome, ← Option.isSome_map,
            ← VmSys.pte, hpte]
          rfl
        have hent : entryOf e₁ = entryOf e := by
          rw [← paged_entry hpte₁, ← paged_entry hpte, hpaged]
        have hdirty : e₁.dirty = e.dirty := congrArg PageEntry.dirty hent
        have hslot : (entryOf e₁).slot = (entryOf e).slot := congrArg PageEntry.slot hent
        have hin : e₁.inSwap = e.inSwap := by
          rw [entryOf, entryOf] at hslot
          cases h1 : e₁.inSwap <;> cases h2 : e.inSwap <;> simp [h1, h2] at hslot ⊢
        rw [hpte₁]
        simp only [hdirty]
        by_cases hd : e.dirty = true
        · rw [if_pos hd, pagerWriteBack, hin, hswap]
          cases hin' : e.inSwap with
          | true => simp
          | false =>
            cases hfs : freeSlot s.swap with
            | none => simp [swapAlloc, hfs, hd]
            | some slot => simp [swapAlloc, hfs]
        · rw [if_neg hd]
          simp [hd]

/-! ### A frame for the page -/

/-- How a frame becomes free: one already was, or the policy's victim lost its own. -/
inductive Room (s : VmSys) (pid : ℤ) :
    PagedStore PageKey ℕ ℕ PageContents → TlbState → Prop
  | free : Room s pid s.paged s.tlb
  | evicted {f : ℕ} {k : PageKey} {st : PagedStore PageKey ℕ ℕ PageContents} :
      freeFrame s.frame = none → s.victim pid = some (f, k) → s.paged.owner f = some k →
      s.paged.Evicted k f st → Room s pid st (tlbFlushEntry s.tlb k.2)

/-- A page keeps its slot while room is made. -/
theorem Room.slot {st : PagedStore PageKey ℕ ℕ PageContents} {t : TlbState} (h : Room s pid st t)
    {k : PageKey} {slot : ℕ} (hs : (s.paged.entry k).slot = some slot) :
    (st.entry k).slot = some slot := by
  cases h with
  | free => exact hs
  | evicted _ _ _ he => exact he.slot hs

theorem Room.sound {st : PagedStore PageKey ℕ ℕ PageContents} {t : TlbState} (h : Room s pid st t)
    (hs : s.paged.Sound) : st.Sound := by
  cases h with
  | free => exact hs
  | evicted _ _ hf he => exact hs.evicted hf he

/-- A zeroed frame `f` handed to `k`, before the page is mapped. -/
def handOver (st : PagedStore PageKey ℕ ℕ PageContents) (k : PageKey) (f : ℕ) :
    PagedStore PageKey ℕ ℕ PageContents :=
  { st with
    owner := Function.update st.owner f (some k)
    ram := Function.update st.ram f fun _ => 0 }

theorem frameAlloc_paged {f : ℕ} {fr : FrameState}
    (h : frameAlloc s.frame pid vpn = (some f, fr)) :
    f < vmNumFrames ∧ s.paged.owner f = none ∧
      ({ s with frame := fr } : VmSys).paged = handOver s.paged (pid, vpn) f := by
  obtain ⟨hlt, hfree, hown, hbytes⟩ := frameAlloc_some h
  exact ⟨hlt, hfree, PagedStore.ext rfl hown hbytes rfl rfl⟩

theorem pagerObtainFrame_spec (hsound : s.paged.Sound) (pid : ℤ) (vpn : ℕ) :
    (pagerObtainFrame s pid vpn).1 = none ∧ s.exhausted pid = true ∧
      SameMemory s (pagerObtainFrame s pid vpn).2 ∨
    ∃ f st t, (pagerObtainFrame s pid vpn).1 = some f ∧ Room s pid st t ∧ f < vmNumFrames ∧
      st.owner f = none ∧
      (pagerObtainFrame s pid vpn).2.paged = handOver st (pid, vpn) f ∧
      (pagerObtainFrame s pid vpn).2.tlb = t ∧ (pagerObtainFrame s pid vpn).2.perms = s.perms ∧
      ∀ q, ((pagerObtainFrame s pid vpn).2.vms q).isSome = (s.vms q).isSome := by
  rw [pagerObtainFrame]
  obtain ⟨r, fr, halloc⟩ : ∃ r fr, frameAlloc s.frame pid vpn = (r, fr) := ⟨_, _, rfl⟩
  rw [halloc]
  cases r with
  | some f =>
    obtain ⟨hlt, hfree, hpaged⟩ := frameAlloc_paged halloc
    exact Or.inr ⟨f, s.paged, s.tlb, rfl, .free, hlt, hfree, hpaged, rfl, rfl, fun _ => rfl⟩
  | none =>
    obtain ⟨-, hfull⟩ := frameAlloc_none halloc
    obtain ⟨ok, s₁, hev⟩ : ∃ ok s₁, pagerEvict s pid = (ok, s₁) := ⟨_, _, rfl⟩
    have hspec := pagerEvict_spec hsound pid
    rw [hev] at hspec ⊢
    dsimp only at hspec
    rcases hspec with ⟨rfl, hsame⟩ | ⟨rfl, f, k, hvic, hown, he, htlb, hperms, hsome⟩
    · have hok := pagerEvict_ok hfull pid
      rw [hev] at hok
      exact Or.inl ⟨rfl, by simpa using hok, hsame⟩
    · dsimp only
      have hroom : freeFrame s₁.frame ≠ none := by
        have := pagerEvict_frees hsound pid
        rw [hev] at this
        exact this rfl
      obtain ⟨r', fr', halloc'⟩ : ∃ r' fr', frameAlloc s₁.frame pid vpn = (r', fr') := ⟨_, _, rfl⟩
      rw [halloc']
      cases r' with
      | none => exact absurd (frameAlloc_none halloc').2 hroom
      | some g =>
        obtain ⟨hlt, hfree, hpaged⟩ := frameAlloc_paged halloc'
        exact Or.inr ⟨g, s₁.paged, _, rfl, .evicted hfull hvic hown he, hlt, hfree, hpaged, htlb,
          hperms, hsome⟩

/-! ### Page-in -/

/-- What the frame is filled with and which slot is freed: the page's slot on a major
fault, zeros and none on a minor one. -/
inductive Filled (st : PagedStore PageKey ℕ ℕ PageContents) (k : PageKey) :
    Bool → PageContents → Option ℕ → Prop
  | major {slot : ℕ} : (st.entry k).slot = some slot → slot < vmNumSwapSlots →
      Filled st k true (st.disk slot) (some slot)
  | minor : Filled st k false (fun _ => 0) none

/-- Filling a frame, as seen by the store: all but the page's own entry. -/
theorem pagerFill_spec {f : ℕ} {isMajor : Bool} {c : PageContents} {freed : Option ℕ}
    (hf : f < vmNumFrames) (hfill : Filled s.paged (pid, vpn) isMajor c freed) :
    (pagerFill s pid vpn f isMajor).paged.ram = Function.update s.paged.ram f c ∧
      (pagerFill s pid vpn f isMajor).paged.owner = s.paged.owner ∧
      (pagerFill s pid vpn f isMajor).paged.disk = s.paged.disk ∧
      (pagerFill s pid vpn f isMajor).paged.slotOwner =
        (fun sl => if freed = some sl then none else s.paged.slotOwner sl) := by
  cases hfill with
  | minor =>
    refine ⟨frameBytes_frameWriteBlock hf _, frameGetOwner_frameWriteBlock _, rfl, ?_⟩
    funext sl
    rw [if_neg (by simp)]
    rfl
  | @major slot hslot hlt =>
    obtain ⟨hin1, hin2, hin3⟩ := swapIn_eq s.swap s.frame f hlt
    -- the slot the entry names is the slot of the page
    have hsl : ((s.pte pid vpn).map (·.swapSlot)).getD 0 = slot := by
      cases hpte : s.pte pid vpn with
      | none => simp [VmSys.paged, hpte] at hslot
      | some e =>
        rw [paged_entry hpte, entryOf] at hslot
        dsimp only at hslot
        split_ifs at hslot
        exact Option.some_inj.mp hslot
    simp only [pagerFill, hsl, if_true]
    refine ⟨?_, ?_, ?_, ?_⟩
    · show frameBytes (swapIn s.swap s.frame slot f).2 = _
      rw [hin3, frameBytes_frameWriteBlock hf]
      rfl
    · show frameGetOwner (swapIn s.swap s.frame slot f).2 = _
      rw [hin3, frameGetOwner_frameWriteBlock]
      rfl
    · show slotBytes (swapFree (swapIn s.swap s.frame slot f).1 slot) = _
      rw [slotBytes_swapFree, hin2]
      rfl
    · show swapGetOwner (swapFree (swapIn s.swap s.frame slot f).1 slot) = _
      rw [swapGetOwner_swapFree, hin1]
      rfl

theorem pagerFill_tlb (f : ℕ) (isMajor : Bool) : (pagerFill s pid vpn f isMajor).tlb = s.tlb := by
  cases isMajor <;> rfl

theorem pagerFill_pte (f : ℕ) (isMajor : Bool) (hne : ¬(p = pid ∧ v = vpn)) :
    (pagerFill s pid vpn f isMajor).pte p v = s.pte p v := by
  rw [pagerFill]
  split_ifs
  · rw [modifyPte_pte, if_neg hne]
    rfl
  · rfl

theorem pagerFill_perms (f : ℕ) (isMajor : Bool) :
    (pagerFill s pid vpn f isMajor).perms = s.perms := by
  rw [pagerFill]
  split_ifs
  · exact perms_modifyPte (f := fun e => { e with inSwap := false, swapSlot := 0 }) fun _ => rfl
  · rfl

theorem pagerFill_isSome (f : ℕ) (isMajor : Bool) (q : ℤ) :
    ((pagerFill s pid vpn f isMajor).vms q).isSome = (s.vms q).isSome := by
  rw [pagerFill]
  split_ifs
  · exact modifyPte_isSome (fun e => { e with inSwap := false, swapSlot := 0 }) q
  · rfl

/-- What mapping and the assignments after it make of the faulting page's entry. -/
def mapIn (f : ℕ) (write : Bool) (tick : ℕ) (e : Pte) : Pte :=
  { e with frameNum := f, present := true, inSwap := false, accessed := true, referenced := true,
           dirty := write, lastAccessedTick := tick % 2 ^ 32 }

theorem pagerPageIn_vms (f : ℕ) (isMajor write : Bool) (tick : ℕ) :
    (pagerPageIn s pid vpn f isMajor write tick).vms =
      ((pagerFill s pid vpn f isMajor).modifyPte pid vpn (mapIn f write tick)).vms := by
  simp only [pagerPageIn, VmSys.modifyPte, VmSys.modifyVm, Function.update_idem,
    Function.update_self]
  congr 1
  cases (pagerFill s pid vpn f isMajor).vms pid with
  | none => rfl
  | some vm => simp [pageTableMap, mapIn]

theorem pagerPageIn_pte (f : ℕ) (isMajor write : Bool) (tick : ℕ) :
    (pagerPageIn s pid vpn f isMajor write tick).pte p v =
      ((pagerFill s pid vpn f isMajor).modifyPte pid vpn (mapIn f write tick)).pte p v := by
  rw [VmSys.pte, pagerPageIn_vms, VmSys.pte]

theorem pagerPageIn_perms (f : ℕ) (isMajor write : Bool) (tick : ℕ) :
    (pagerPageIn s pid vpn f isMajor write tick).perms = s.perms := by
  have hmap : (pagerPageIn s pid vpn f isMajor write tick).perms =
      ((pagerFill s pid vpn f isMajor).modifyPte pid vpn (mapIn f write tick)).perms := by
    funext p v
    rw [VmSys.perms, pagerPageIn_pte, VmSys.perms]
  rw [hmap, perms_modifyPte (f := mapIn f write tick) (fun _ => rfl), pagerFill_perms]

theorem pagerPageIn_isSome (f : ℕ) (isMajor write : Bool) (tick : ℕ) (q : ℤ) :
    ((pagerPageIn s pid vpn f isMajor write tick).vms q).isSome = (s.vms q).isSome := by
  rw [pagerPageIn_vms, modifyPte_isSome, pagerFill_isSome]

/-- A page-in loads the page into the frame it was given. -/
theorem pagerPageIn_spec {st : PagedStore PageKey ℕ ℕ PageContents} {f : ℕ} {isMajor : Bool}
    {c : PageContents} {freed : Option ℕ} {perm : ℕ} (write : Bool) (tick : ℕ)
    (hs : s.paged = handOver st (pid, vpn) f) (hf : f < vmNumFrames)
    (hperm : s.perms pid vpn = some perm) (hfill : Filled st (pid, vpn) isMajor c freed) :
    (pagerPageIn s pid vpn f isMajor write tick).paged = st.load (pid, vpn) f c write freed ∧
      (pagerPageIn s pid vpn f isMajor write tick).tlb =
        tlbInsert (tlbFlushEntry s.tlb vpn) vpn f write perm tick := by
  have hfill' : Filled s.paged (pid, vpn) isMajor c freed := by
    rw [hs]
    cases hfill with
    | major hslot hlt => exact .major hslot hlt
    | minor => exact .minor
  obtain ⟨hram, hown, hdisk, hslots⟩ := pagerFill_spec hf hfill'
  obtain ⟨e, he, hep⟩ : ∃ e, (pagerFill s pid vpn f isMajor).pte pid vpn = some e ∧
      e.permissions = perm := by
    rw [← pagerFill_perms f isMajor, VmSys.perms, Option.map_eq_some_iff] at hperm
    exact hperm
  constructor
  · refine PagedStore.ext ?_ ?_ ?_ ?_ ?_
    · funext ⟨p, v⟩
      have hst : s.paged.entry (p, v) = st.entry (p, v) := by rw [hs]; rfl
      simp only [VmSys.paged, pagerPageIn_pte, modifyPte_pte, PagedStore.load,
        Function.update_apply,
        Prod.mk.injEq]
      split_ifs with hpv
      · simp [he, mapIn, entryOf]
      · rw [pagerFill_pte f isMajor hpv, ← hst]
        rfl
    · refine hown.trans ?_
      rw [hs]
      rfl
    · refine hram.trans ?_
      rw [hs]
      simp [handOver, PagedStore.load]
    · refine hslots.trans ?_
      rw [hs]
      rfl
    · refine hdisk.trans ?_
      rw [hs]
      rfl
  · have hpte : (pagerPageIn s pid vpn f isMajor write tick).pte pid vpn
        = some (mapIn f write tick e) := by
      rw [pagerPageIn_pte, modifyPte_pte, if_pos ⟨rfl, rfl⟩, he, Option.map_some]
    show tlbInsert (tlbFlushEntry (pagerFill s pid vpn f isMajor).tlb vpn) vpn f write
      (((pagerPageIn s pid vpn f isMajor write tick).pte pid vpn).map (·.permissions) |>.getD 0)
      tick = _
    rw [hpte, pagerFill_tlb, ← hep]
    rfl

/-! ### The whole access -/

/-- What a hit makes of the entry. -/
def touch (write : Bool) (tick : ℕ) (e : Pte) : Pte :=
  { e with accessed := true, referenced := true, lastAccessedTick := tick % 2 ^ 32,
           dirty := e.dirty || write }

theorem pagerHit_spec {e : Pte} (he : s.pte pid vpn = some e) (write : Bool) (tick : ℕ) :
    (pagerHit s pid vpn e write tick).paged =
        (if write then s.paged.markDirty (pid, vpn) else s.paged) ∧
      (pagerHit s pid vpn e write tick).tlb =
        tlbInsert s.tlb vpn e.frameNum (e.dirty || write) e.permissions tick ∧
      (pagerHit s pid vpn e write tick).perms = s.perms ∧
      ∀ q, ((pagerHit s pid vpn e write tick).vms q).isSome = (s.vms q).isSome := by
  refine ⟨?_, rfl, ?_, ?_⟩
  · show (s.modifyPte pid vpn (touch write tick)).paged = _
    rw [paged_modifyPte he]
    cases write with
    | true => simp [PagedStore.markDirty, paged_entry he, entryOf, touch]
    | false =>
      refine PagedStore.ext ?_ rfl rfl rfl rfl
      refine Function.update_eq_self_iff.mpr ?_
      simp [paged_entry he, entryOf, touch]
  · exact perms_modifyPte (s := s) (f := touch write tick) fun _ => rfl
  · exact modifyPte_isSome (s := s) (touch write tick)

/-- The permission an access asks for. -/
def reqPerm (write : Bool) : ℕ := if write then vmProtWrite else vmProtRead

/-- Why an access fails. -/
inductive AccessError (s : VmSys) (pid : ℤ) (vpn : ℕ) (write : Bool) : PagerResult → Prop
  | addr : s.vms pid = none → AccessError s pid vpn write .errorAddr
  | perm {perm : ℕ} : s.perms pid vpn = some perm → perm &&& reqPerm write ≠ reqPerm write →
      AccessError s pid vpn write .errorPerm
  | oom : (s.paged.entry (pid, vpn)).frame = none → s.exhausted pid = true →
      AccessError s pid vpn write .errorOom

theorem AccessError.isError {res : PagerResult} {write : Bool}
    (h : AccessError s pid vpn write res) :
    res.isError = true := by
  cases h <;> rfl

/-- The outcomes of a page access: result, frame and state after. -/
inductive AccessSpec (s : VmSys) (pid : ℤ) (vpn : ℕ) (write : Bool) (tick : ℕ) :
    PagerResult → Option ℕ → VmSys → Prop
  | error {res : PagerResult} {s' : VmSys} : AccessError s pid vpn write res → SameMemory s s' →
      AccessSpec s pid vpn write tick res none s'
  | hit {f perm : ℕ} {s' : VmSys} : (s.paged.entry (pid, vpn)).frame = some f →
      s.perms pid vpn = some perm → perm &&& reqPerm write = reqPerm write →
      s'.paged = (if write then s.paged.markDirty (pid, vpn) else s.paged) →
      s'.tlb = tlbInsert s.tlb vpn f ((s.paged.entry (pid, vpn)).dirty || write) perm tick →
      s'.perms = s.perms → (∀ q, (s'.vms q).isSome = (s.vms q).isSome) →
      AccessSpec s pid vpn write tick .hit (some f) s'
  | fault {f perm : ℕ} {st : PagedStore PageKey ℕ ℕ PageContents} {t : TlbState} {c : PageContents}
      {freed : Option ℕ} {isMajor : Bool} {s' : VmSys} :
      (s.paged.entry (pid, vpn)).frame = none →
      s.perms pid vpn = some perm → perm &&& reqPerm write = reqPerm write →
      Room s pid st t → f < vmNumFrames → st.owner f = none →
      isMajor = (s.paged.entry (pid, vpn)).slot.isSome → Filled st (pid, vpn) isMajor c freed →
      s'.paged = st.load (pid, vpn) f c write freed →
      s'.tlb = tlbInsert (tlbFlushEntry t vpn) vpn f write perm tick →
      s'.perms = s.perms → (∀ q, (s'.vms q).isSome = (s.vms q).isSome) →
      AccessSpec s pid vpn write tick (if isMajor then .faultMajor else .faultMinor) (some f) s'

/-- Every page access has one of these outcomes. -/
theorem pagerAccessPage_spec (hsound : s.paged.Sound) (pid : ℤ) (vpn : ℕ) (write : Bool)
    (tick : ℕ) :
    AccessSpec s pid vpn write tick (pagerAccessPage s pid vpn write tick).1
      (pagerAccessPage s pid vpn write tick).2.1 (pagerAccessPage s pid vpn write tick).2.2 := by
  rw [pagerAccessPage]
  cases hvm : s.vms pid with
  | none => exact .error (.addr hvm) (SameMemory.refl s)
  | some vm =>
    have hpte : s.pte pid vpn = some (vm.pt vpn) := by simp [VmSys.pte, hvm]
    have hperm : s.perms pid vpn = some (vm.pt vpn).permissions := by simp [VmSys.perms, hpte]
    have hent := paged_entry hpte
    dsimp only
    by_cases hval : pageTableValidatePermissions vm.pt vpn (reqPerm write) = true
    · have hok : (vm.pt vpn).permissions &&& reqPerm write = reqPerm write := by
        simpa [pageTableValidatePermissions] using hval
      rw [reqPerm] at hval
      rw [hval]
      simp only [Bool.not_true, Bool.false_eq_true, if_false]
      cases hpres : (vm.pt vpn).present with
      | true =>
        obtain ⟨h1, h2, h3, h4⟩ := pagerHit_spec hpte write tick
        rw [if_pos rfl]
        refine .hit ?_ hperm hok h1 ?_ h3 h4
        · simp [hent, entryOf, hpres]
        · rw [h2, hent]
          rfl
      | false =>
        have hframe : (s.paged.entry (pid, vpn)).frame = none := by simp [hent, entryOf, hpres]
        rw [if_neg (by simp)]
        have hobtain := pagerObtainFrame_spec hsound pid vpn
        obtain ⟨r, s₁, hr⟩ : ∃ r s₁, pagerObtainFrame s pid vpn = (r, s₁) := ⟨_, _, rfl⟩
        rw [hr] at hobtain ⊢
        dsimp only at hobtain
        rcases hobtain with ⟨rfl, hex, hsame⟩ |
          ⟨f, st, t, rfl, hroom, hlt, hfree, hpaged, rfl, hperms, hsome⟩
        · exact .error (.oom hframe hex) hsame
        · have hslot : (vm.pt vpn).inSwap = (s.paged.entry (pid, vpn)).slot.isSome := by
            rw [hent, entryOf]
            cases (vm.pt vpn).inSwap <;> rfl
          obtain ⟨c, freed, hfill⟩ : ∃ c freed,
              Filled st (pid, vpn) (vm.pt vpn).inSwap c freed := by
            cases hin : (vm.pt vpn).inSwap with
            | false => exact ⟨_, _, .minor⟩
            | true =>
              have hs : (s.paged.entry (pid, vpn)).slot = some (vm.pt vpn).swapSlot := by
                simp [hent, entryOf, hin]
              exact ⟨_, _, .major (hroom.slot hs) (swapGetOwner_lt (hsound.slot_owned hs))⟩
          obtain ⟨hp, ht⟩ := pagerPageIn_spec write tick hpaged hlt
            ((congrFun₂ hperms _ _).trans hperm)
            hfill
          refine .fault hframe hperm hok hroom hlt hfree hslot hfill hp ht ?_ ?_
          · rw [pagerPageIn_perms, hperms]
          · intro q
            rw [pagerPageIn_isSome, hsome]
    · have hbad : (vm.pt vpn).permissions &&& reqPerm write ≠ reqPerm write := by
        simpa [pageTableValidatePermissions] using hval
      rw [reqPerm, Bool.not_eq_true] at hval
      rw [hval]
      exact .error (.perm hperm hbad) (SameMemory.refl s)

end Mosrt
