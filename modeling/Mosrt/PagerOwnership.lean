/-
Frame and swap ownership is exact.

`AccessSpec.exact` and `pagerAccessPage_counted` say what one page access keeps:
the store is `Exact`, and the counters count.  `ownership_exact` reads this off
in the source's terms for every state that creations, page accesses and policy
changes reach from `vm_init`.
-/
import Mosrt.PagerSpec
import Mosrt.Runs

namespace Mosrt

variable {s s' : VmSys} {pid : ℤ} {vpn : ℕ} {write : Bool} {tick : ℕ} {res : PagerResult}
  {out : Option ℕ} {st : PagedStore PageKey ℕ ℕ PageContents} {t : TlbState} {k : PageKey}

/-! ### Exactness through a page access -/

theorem Room.exact (h : Room s pid st t) (he : s.paged.Exact) : st.Exact := by
  cases h with
  | free => exact he
  | evicted _ _ hf hev => exact he.evicted hf hev

/-- The page that loses its frame had one, so an absent page keeps its entry. -/
theorem Room.entry_absent (h : Room s pid st t) (he : s.paged.Exact)
    (hk : (s.paged.entry k).frame = none) : st.entry k = s.paged.entry k := by
  cases h with
  | free => rfl
  | evicted _ _ hf hev =>
    refine hev.entry_ne ?_
    rintro rfl
    rw [he.owner_claims hf] at hk
    cases hk

/-- A page that is not resident is filled with its own value, and its slot is freed. -/
theorem Filled.eq_value {isMajor : Bool} {c : PageContents} {freed : Option ℕ}
    (h : Filled st k isMajor c freed) (hk : (st.entry k).frame = none)
    (hmajor : isMajor = (st.entry k).slot.isSome) :
    c = st.value (fun _ => 0) k ∧ freed = (st.entry k).slot := by
  cases h with
  | major hslot _ => exact ⟨(PagedStore.value_of_slot hk hslot).symm, hslot.symm⟩
  | minor =>
    have hslot : (st.entry k).slot = none := by simpa using hmajor.symm
    exact ⟨(PagedStore.value_of_absent hk hslot).symm, hslot.symm⟩

theorem AccessSpec.exact (h : AccessSpec s pid vpn write tick res out s') (he : s.paged.Exact) :
    s'.paged.Exact := by
  cases h with
  | error _ hsame =>
    rw [hsame.paged]
    exact he
  | hit hf _ _ hp =>
    rw [hp]
    split_ifs
    · exact he.markDirty (by simp [hf])
    · exact he
  | fault hframe _ _ hroom _ hfree hmajor hfill hp =>
    have hent := hroom.entry_absent he hframe
    rw [← hent] at hframe hmajor
    obtain ⟨-, hfreed⟩ := hfill.eq_value hframe hmajor
    rw [hp, hfreed]
    exact (hroom.exact he).load hframe hfree _ _

/-! ### Counters through a page access -/

/-- Both counters are right. -/
def VmSys.Counted (s : VmSys) : Prop := s.frame.Counted ∧ s.swap.Counted

theorem pagerWriteBack_counted (h : s.Counted) {f v : ℕ} {p : ℤ} {e : Pte}
    (hs : pagerWriteBack s f p v e = some s') : s'.Counted := by
  rw [pagerWriteBack] at hs
  cases hin : e.inSwap with
  | true =>
    simp only [hin, if_true, Option.some.injEq] at hs
    rw [← hs]
    exact ⟨h.1, h.2.out _ _ _⟩
  | false =>
    simp only [hin, Bool.false_eq_true, if_false] at hs
    have hcount := h.2.alloc p v
    obtain ⟨r, sw, hr⟩ : ∃ r sw, swapAlloc s.swap p v = (r, sw) := ⟨_, _, rfl⟩
    rw [hr] at hs hcount
    cases r with
    | none => simp at hs
    | some slot =>
      simp only [Option.some.injEq] at hs
      rw [← hs]
      exact ⟨h.1, hcount.out _ _ _⟩

theorem pagerEvict_counted (h : s.Counted) : (pagerEvict s pid).2.Counted := by
  obtain ⟨-, -, -, hframe, hswap, -⟩ := pagerPickVictim_spec s pid
  have h₁ : (pagerPickVictim s pid).2.Counted := by rw [VmSys.Counted, hframe, hswap]; exact h
  rw [pagerEvict]
  obtain ⟨victim, s₁, hpick⟩ : ∃ victim s₁, pagerPickVictim s pid = (victim, s₁) := ⟨_, _, rfl⟩
  rw [hpick] at h₁ ⊢
  dsimp only at h₁ ⊢
  split
  · exact h₁
  · split
    · exact h₁
    · split
      · exact h₁
      · split_ifs
        · split
          · exact h₁
          · next hwb =>
            have h₂ := pagerWriteBack_counted h₁ hwb
            exact ⟨h₂.1.free _, h₂.2⟩
        · exact ⟨h₁.1.free _, h₁.2⟩

theorem pagerObtainFrame_counted (h : s.Counted) : (pagerObtainFrame s pid vpn).2.Counted := by
  have halloc := h.1.alloc pid vpn
  have hev : (pagerEvict s pid).2.Counted := pagerEvict_counted h
  rw [pagerObtainFrame]
  split
  · next hr =>
    rw [hr] at halloc
    exact ⟨halloc, h.2⟩
  · split
    · next he =>
      rw [he] at hev
      exact hev
    · next he =>
      rw [he] at hev
      have halloc' := hev.1.alloc pid vpn
      split
      · next hr =>
        rw [hr] at halloc'
        exact ⟨halloc', hev.2⟩
      · next hr =>
        rw [hr] at halloc'
        exact ⟨halloc', hev.2⟩

theorem pagerPageIn_counted (h : s.Counted) (f : ℕ) (isMajor : Bool) :
    (pagerPageIn s pid vpn f isMajor write tick).Counted := by
  cases isMajor with
  | false => exact ⟨h.1.writeBlock _ _, h.2⟩
  | true => exact ⟨h.1.swapIn _ _ _, (h.2.swapIn _ _ _).free _⟩

/-- Every page access keeps the counters right, whatever its result. -/
theorem pagerAccessPage_counted (h : s.Counted) :
    (pagerAccessPage s pid vpn write tick).2.2.Counted := by
  have hobtain : (pagerObtainFrame s pid vpn).2.Counted := pagerObtainFrame_counted h
  rw [pagerAccessPage]
  cases s.vms pid with
  | none => exact h
  | some vm =>
    dsimp only
    generalize (if write = true then vmProtWrite else vmProtRead) = req
    by_cases hval : (!pageTableValidatePermissions vm.pt vpn req) = true
    · rw [if_pos hval]
      exact h
    · rw [if_neg hval]
      by_cases hpres : (vm.pt vpn).present = true
      · rw [if_pos hpres]
        exact h
      · rw [if_neg hpres]
        obtain ⟨r, s₁, hr⟩ : ∃ r s₁, pagerObtainFrame s pid vpn = (r, s₁) := ⟨_, _, rfl⟩
        rw [hr] at hobtain ⊢
        cases r with
        | none => exact hobtain
        | some f => exact pagerPageIn_counted hobtain f _

/-! ### Reachable states -/

/-- What may happen to the memory system below the byte level. -/
inductive PagerOp where
  | create (pid : ℤ)
  | access (pid : ℤ) (vpn : ℕ) (write : Bool) (tick : ℕ)
  | setPolicy (name : String)

def PagerOp.exec (s : VmSys) : PagerOp → VmSys
  | .create pid => vmSpawn s pid
  | .access pid vpn write tick => (pagerAccessPage s pid vpn write tick).2.2
  | .setPolicy name => (pagerSetPolicy s name).2

/-- A fresh address space has no page anywhere, like no address space. -/
theorem vmSpawn_paged (s : VmSys) (pid : ℤ) : (vmSpawn s pid).paged = s.paged := by
  rw [vmSpawn]
  split_ifs with hnone
  · refine PagedStore.ext ?_ rfl rfl rfl rfl
    funext ⟨p, v⟩
    by_cases hp : p = pid
    · subst hp
      rw [Option.isNone_iff_eq_none] at hnone
      simp [VmSys.paged, VmSys.pte, hnone, vmProcInit, pageTableInit, entryOf]
    · simp [VmSys.paged, VmSys.pte, hp]
  · rfl

theorem pagerSetPolicy_same (s : VmSys) (name : String) :
    (pagerSetPolicy s name).2.frame = s.frame ∧ (pagerSetPolicy s name).2.swap = s.swap ∧
      (pagerSetPolicy s name).2.tlb = s.tlb ∧ (pagerSetPolicy s name).2.vms = s.vms := by
  rw [pagerSetPolicy]
  split <;> exact ⟨rfl, rfl, rfl, rfl⟩

theorem pagerSetPolicy_paged (s : VmSys) (name : String) :
    (pagerSetPolicy s name).2.paged = s.paged := by
  obtain ⟨hframe, hswap, -, hvms⟩ := pagerSetPolicy_same s name
  rw [VmSys.paged, VmSys.paged, hframe, hswap]
  simp only [VmSys.pte, hvms]

theorem PagerOp.exec_invariant (op : PagerOp) (h : s.paged.Exact ∧ s.Counted) :
    (op.exec s).paged.Exact ∧ (op.exec s).Counted := by
  obtain ⟨he, hc⟩ := h
  cases op with
  | create pid =>
    refine ⟨?_, ?_⟩
    · rw [PagerOp.exec, vmSpawn_paged]
      exact he
    · rw [PagerOp.exec, vmSpawn]
      split_ifs <;> exact hc
  | access pid vpn write tick =>
    exact ⟨(pagerAccessPage_spec he.toSound pid vpn write tick).exact he,
      pagerAccessPage_counted hc⟩
  | setPolicy name =>
    obtain ⟨hframe, hswap, -, -⟩ := pagerSetPolicy_same s name
    refine ⟨?_, ?_⟩
    · rw [PagerOp.exec, pagerSetPolicy_paged]
      exact he
    · rw [PagerOp.exec, VmSys.Counted, hframe, hswap]
      exact hc

theorem vmInit_exact : vmInit.paged.Exact := by
  constructor
  · constructor
    · intro k f h
      cases h
    · intro k sl h
      cases h
  · intro k f h
    simp [VmSys.paged, vmInit, frameInit, frameGetOwner] at h
  · intro k sl h
    simp [VmSys.paged, vmInit, swapInit, swapGetOwner] at h
  · exact fun _ => Or.inl rfl
  · intro k h
    cases h

theorem vmInit_counted : vmInit.Counted := ⟨frameInit_counted, swapInit_counted⟩

theorem PagerOp.run_invariant (ops : List PagerOp) :
    (Runs.run PagerOp.exec vmInit ops).paged.Exact ∧ (Runs.run PagerOp.exec vmInit ops).Counted :=
  Runs.run_invariant (I := fun s : VmSys => s.paged.Exact ∧ s.Counted)
    (fun _ op h _ => PagerOp.exec_invariant op h) ⟨vmInit_exact, vmInit_counted⟩
    (Runs.along_true _ _)

theorem entry_frame_iff {p : ℤ} {v f : ℕ} :
    (s.paged.entry (p, v)).frame = some f ↔
      ∃ e, s.pte p v = some e ∧ e.present = true ∧ e.frameNum = f := by
  cases hpte : s.pte p v with
  | none => simp [VmSys.paged, hpte]
  | some e => simp [paged_entry hpte, entryOf]

theorem entry_slot_iff {p : ℤ} {v sl : ℕ} :
    (s.paged.entry (p, v)).slot = some sl ↔
      ∃ e, s.pte p v = some e ∧ e.inSwap = true ∧ e.swapSlot = sl := by
  cases hpte : s.pte p v with
  | none => simp [VmSys.paged, hpte]
  | some e => simp [paged_entry hpte, entryOf]

/-- **Ownership is exact** in every state reached from `vm_init`: frames and swap slots
belong to the pages that say so and to no others, no page is in both, only resident
pages are dirty, and the statistics count. -/
theorem ownership_exact (ops : List PagerOp) :
    let s := Runs.run PagerOp.exec vmInit ops
    (∀ f p v, frameGetOwner s.frame f = some (p, v) ↔
      ∃ e, s.pte p v = some e ∧ e.present = true ∧ e.frameNum = f ∧ f < vmNumFrames) ∧
    (∀ sl p v, swapGetOwner s.swap sl = some (p, v) ↔
      ∃ e, s.pte p v = some e ∧ e.inSwap = true ∧ e.swapSlot = sl) ∧
    (∀ p v e, s.pte p v = some e →
      ¬(e.present = true ∧ e.inSwap = true) ∧ (e.dirty = true → e.present = true)) ∧
    (frameGetStats s.frame).allocatedFrames = allocatedAmong s.frame.frames vmNumFrames ∧
    (frameGetStats s.frame).allocatedFrames + (frameGetStats s.frame).freeFrames = vmNumFrames ∧
    s.swap.allocatedSlots = allocatedAmong s.swap.slots vmNumSwapSlots ∧
    s.swap.allocatedSlots + s.swap.freeSlots = vmNumSwapSlots := by
  intro s
  obtain ⟨he, hframe, hswap⟩ : s.paged.Exact ∧ s.frame.Counted ∧ s.swap.Counted :=
    PagerOp.run_invariant ops
  refine ⟨?_, ?_, ?_, hframe, hframe.stats, hswap.1, hswap.2⟩
  · intro f p v
    constructor
    · intro hown
      obtain ⟨e, h1, h2, h3⟩ := entry_frame_iff.mp (he.owner_claims hown)
      exact ⟨e, h1, h2, h3, frameGetOwner_lt hown⟩
    · rintro ⟨e, h1, h2, h3, -⟩
      exact he.frame_owned (entry_frame_iff.mpr ⟨e, h1, h2, h3⟩)
  · intro sl p v
    constructor
    · intro hown
      exact entry_slot_iff.mp (he.slotOwner_claims hown)
    · intro h
      exact he.slot_owned (entry_slot_iff.mpr h)
  · intro p v e hpte
    have hent := paged_entry hpte
    constructor
    · rintro ⟨hp, hs⟩
      have hone := he.one_place (p, v)
      simp [hent, entryOf, hp, hs] at hone
    · intro hd
      have hres := he.dirty_resident (k := (p, v)) (by simpa [hent, entryOf] using hd)
      simpa [hent, entryOf] using hres

end Mosrt
