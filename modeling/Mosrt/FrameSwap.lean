/-
Physical frames (`frame.c`) and swap slots (`swap.c`).

Both allocators keep a table of slots with their owner and hand out the first
free one.  `-1` results become `none`.  RAM is a function from physical
addresses to bytes; `frameBytes` reads it per frame.

The lemmas give, for each operation, the owner table (`frameGetOwner`,
`swapGetOwner`) and the contents (`frameBytes`, `slotBytes`) it leaves, as point
updates of the ones before it, and keep the counters equal to the number of
allocated entries (`FrameState.Counted`, `SwapState.Counted`).
-/
import Mosrt.PageTable

namespace Mosrt

/-! ### Frames -/

/-- `frame_meta_t`. -/
structure FrameMeta where
  pid : ℤ := 0
  vpn : ℕ := 0
  allocated : Bool := false
deriving DecidableEq, Repr

/-- The globals of `frame.c`. -/
structure FrameState where
  ram : ℕ → UInt8
  frames : ℕ → FrameMeta
  allocatedCount : ℕ

def frameInit : FrameState where
  ram := fun _ => 0
  frames := fun _ => {}
  allocatedCount := 0

/-- `memset(&g_ram[pfn * VM_PAGE_SIZE], ...)` and `memcpy` into the same range:
overwrite the bytes of one frame. -/
def fillFrame (ram : ℕ → UInt8) (pfn : ℕ) (block : ℕ → UInt8) : ℕ → UInt8 :=
  fun a => if pfn * vmPageSize ≤ a ∧ a < pfn * vmPageSize + vmPageSize
    then block (a - pfn * vmPageSize) else ram a

/-- First frame that is not allocated. -/
def freeFrame (s : FrameState) : Option ℕ :=
  (List.range vmNumFrames).find? fun i => !(s.frames i).allocated

def frameAlloc (s : FrameState) (pid : ℤ) (vpn : ℕ) : Option ℕ × FrameState :=
  match freeFrame s with
  | none => (none, s)
  | some i =>
    (some i,
      { ram := fillFrame s.ram i fun _ => 0
        frames := Function.update s.frames i { pid := pid, vpn := vpn, allocated := true }
        allocatedCount := s.allocatedCount + 1 })

def frameFree (s : FrameState) (pfn : ℕ) : FrameState :=
  if pfn < vmNumFrames ∧ (s.frames pfn).allocated then
    { s with
      frames := Function.update s.frames pfn { pid := 0, vpn := 0, allocated := false }
      allocatedCount := s.allocatedCount - 1 }
  else s

def frameReadByte (s : FrameState) (physAddr : ℕ) : UInt8 :=
  if physAddr < vmPhysMemSize then s.ram physAddr else 0

def frameWriteByte (s : FrameState) (physAddr : ℕ) (val : UInt8) : FrameState :=
  if physAddr < vmPhysMemSize then { s with ram := Function.update s.ram physAddr val } else s

/-- `frame_write_block`. -/
def frameWriteBlock (s : FrameState) (pfn : ℕ) (src : ℕ → UInt8) : FrameState :=
  if pfn < vmNumFrames then { s with ram := fillFrame s.ram pfn src } else s

/-- `frame_get_owner`: the owner of an allocated frame. -/
def frameGetOwner (s : FrameState) (pfn : ℕ) : Option (ℤ × ℕ) :=
  if pfn < vmNumFrames ∧ (s.frames pfn).allocated then
    some ((s.frames pfn).pid, (s.frames pfn).vpn)
  else none

/-- `frame_stats_t`. -/
structure FrameStats where
  allocatedFrames : ℕ
  freeFrames : ℕ

/-- `frame_get_stats`; the difference is taken in `uint32_t`. -/
def frameGetStats (s : FrameState) : FrameStats where
  allocatedFrames := s.allocatedCount
  freeFrames := (vmNumFrames + 2 ^ 32 - s.allocatedCount) % 2 ^ 32

/-- Byte `off` of frame `pfn`. -/
def FrameState.byte (s : FrameState) (pfn off : ℕ) : UInt8 := s.ram (pfn * vmPageSize + off)

/-! ### Swap -/

/-- The globals of `swap.c`.  The owner record has the shape of `frame_meta_t`. -/
structure SwapState where
  mem : ℕ → ℕ → UInt8
  slots : ℕ → FrameMeta
  allocatedSlots : ℕ
  freeSlots : ℕ
  swapIns : ℕ
  swapOuts : ℕ

def swapInit : SwapState where
  mem := fun _ _ => 0
  slots := fun _ => {}
  allocatedSlots := 0
  freeSlots := vmNumSwapSlots
  swapIns := 0
  swapOuts := 0

/-- First swap slot that is not allocated. -/
def freeSlot (s : SwapState) : Option ℕ :=
  (List.range vmNumSwapSlots).find? fun i => !(s.slots i).allocated

def swapAlloc (s : SwapState) (pid : ℤ) (vpn : ℕ) : Option ℕ × SwapState :=
  match freeSlot s with
  | none => (none, s)
  | some i =>
    (some i,
      { s with
        slots := Function.update s.slots i { pid := pid, vpn := vpn, allocated := true }
        allocatedSlots := s.allocatedSlots + 1
        freeSlots := s.freeSlots - 1 })

def swapFree (s : SwapState) (slot : ℕ) : SwapState :=
  if slot < vmNumSwapSlots ∧ (s.slots slot).allocated then
    { s with
      slots := Function.update s.slots slot { pid := 0, vpn := 0, allocated := false }
      allocatedSlots := s.allocatedSlots - 1
      freeSlots := s.freeSlots + 1 }
  else s

/-- `swap_out`: copy a frame into a slot (`frame_read_block` checks the frame). -/
def swapOut (s : SwapState) (fr : FrameState) (pfn slot : ℕ) : SwapState :=
  if slot < vmNumSwapSlots then
    { s with
      mem := if pfn < vmNumFrames then
          Function.update s.mem slot fun off =>
            if off < vmPageSize then fr.byte pfn off else s.mem slot off
        else s.mem
      swapOuts := incr32 s.swapOuts }
  else s

/-- `swap_in`: copy a slot into a frame; both modules change. -/
def swapIn (s : SwapState) (fr : FrameState) (slot pfn : ℕ) : SwapState × FrameState :=
  if slot < vmNumSwapSlots then
    ({ s with swapIns := incr32 s.swapIns }, frameWriteBlock fr pfn (s.mem slot))
  else (s, fr)

/-! ### Contents and owners -/

/-- The contents of a page. -/
abbrev PageContents := Fin vmPageSize → UInt8

def frameBytes (s : FrameState) (pfn : ℕ) : PageContents := fun off => s.byte pfn off

def slotBytes (s : SwapState) (slot : ℕ) : PageContents := fun off => s.mem slot off

/-- The owner of an allocated swap slot. -/
def swapGetOwner (s : SwapState) (slot : ℕ) : Option (ℤ × ℕ) :=
  if slot < vmNumSwapSlots ∧ (s.slots slot).allocated then
    some ((s.slots slot).pid, (s.slots slot).vpn)
  else none

theorem fillFrame_apply (ram : ℕ → UInt8) (pfn pfn' : ℕ) (block : ℕ → UInt8)
    (off : Fin vmPageSize) :
    fillFrame ram pfn block (pfn' * vmPageSize + off) =
      if pfn' = pfn then block off else ram (pfn' * vmPageSize + off) := by
  have hoff := off.isLt
  unfold fillFrame
  by_cases h : pfn' = pfn
  · subst h
    rw [if_pos ⟨by omega, by omega⟩, if_pos rfl, Nat.add_sub_cancel_left]
  · rw [if_neg, if_neg h]
    rintro ⟨h1, h2⟩
    simp only [vmPageSize] at *
    omega

theorem frameGetOwner_lt {s : FrameState} {pfn : ℕ} {k : ℤ × ℕ}
    (h : frameGetOwner s pfn = some k) : pfn < vmNumFrames := by
  unfold frameGetOwner at h
  split_ifs at h with hc
  exact hc.1

theorem swapGetOwner_lt {s : SwapState} {slot : ℕ} {k : ℤ × ℕ}
    (h : swapGetOwner s slot = some k) : slot < vmNumSwapSlots := by
  unfold swapGetOwner at h
  split_ifs at h with hc
  exact hc.1

theorem freeFrame_eq_some {s : FrameState} {i : ℕ} (h : freeFrame s = some i) :
    i < vmNumFrames ∧ (s.frames i).allocated = false := by
  have h1 := List.find?_some h
  have h2 := List.mem_of_find?_eq_some h
  exact ⟨List.mem_range.mp h2, by simpa using h1⟩

theorem freeFrame_eq_none {s : FrameState} :
    freeFrame s = none ↔ ∀ i < vmNumFrames, (s.frames i).allocated = true := by
  simp only [freeFrame, List.find?_eq_none, List.mem_range, Bool.not_eq_true', Bool.not_eq_false]

theorem freeSlot_eq_some {s : SwapState} {i : ℕ} (h : freeSlot s = some i) :
    i < vmNumSwapSlots ∧ (s.slots i).allocated = false := by
  have h1 := List.find?_some h
  have h2 := List.mem_of_find?_eq_some h
  exact ⟨List.mem_range.mp h2, by simpa using h1⟩

/-! ### What each operation does to them -/

section FrameOps

variable {s s' : FrameState} {pid : ℤ} {vpn pfn : ℕ}

theorem frameAlloc_some (h : frameAlloc s pid vpn = (some pfn, s')) :
    pfn < vmNumFrames ∧ frameGetOwner s pfn = none ∧
      frameGetOwner s' = Function.update (frameGetOwner s) pfn (some (pid, vpn)) ∧
      frameBytes s' = Function.update (frameBytes s) pfn fun _ => 0 := by
  unfold frameAlloc at h
  cases hfree : freeFrame s with
  | none => simp [hfree] at h
  | some i =>
    obtain ⟨hi, halloc⟩ := freeFrame_eq_some hfree
    simp only [hfree, Prod.mk.injEq, Option.some.injEq] at h
    obtain ⟨rfl, rfl⟩ := h
    refine ⟨hi, by simp [frameGetOwner, halloc], ?_, ?_⟩
    · funext f
      simp only [frameGetOwner, Function.update_apply]
      by_cases hf : f = i
      · subst hf
        simp [hi]
      · simp [hf]
    · funext f off
      simp only [frameBytes, FrameState.byte, fillFrame_apply, Function.update_apply]
      split_ifs <;> rfl

theorem frameAlloc_none (h : frameAlloc s pid vpn = (none, s')) :
    s' = s ∧ freeFrame s = none := by
  unfold frameAlloc at h
  cases hfree : freeFrame s with
  | none =>
    simp only [hfree, Prod.mk.injEq, true_and] at h
    exact ⟨h.symm, rfl⟩
  | some i => simp [hfree] at h

theorem frameGetOwner_frameFree :
    frameGetOwner (frameFree s pfn) = Function.update (frameGetOwner s) pfn none := by
  funext f
  by_cases hc : pfn < vmNumFrames ∧ (s.frames pfn).allocated = true
  · simp only [frameFree, if_pos hc, frameGetOwner, Function.update_apply]
    by_cases hf : f = pfn
    · simp [hf]
    · simp [hf]
  · simp only [frameFree, if_neg hc, Function.update_apply]
    split_ifs with hf
    · subst hf
      simp only [frameGetOwner, if_neg hc]
    · rfl

theorem frameBytes_frameFree : frameBytes (frameFree s pfn) = frameBytes s := by
  unfold frameFree
  split_ifs <;> rfl

theorem frameGetOwner_frameWriteBlock (src : ℕ → UInt8) :
    frameGetOwner (frameWriteBlock s pfn src) = frameGetOwner s := by
  unfold frameWriteBlock
  split_ifs <;> rfl

theorem frameBytes_frameWriteBlock (h : pfn < vmNumFrames) (src : ℕ → UInt8) :
    frameBytes (frameWriteBlock s pfn src) =
      Function.update (frameBytes s) pfn fun off => src off := by
  funext f off
  simp only [frameWriteBlock, if_pos h, frameBytes, FrameState.byte, fillFrame_apply,
    Function.update_apply]
  split_ifs <;> rfl

theorem frameGetOwner_frameWriteByte (a : ℕ) (b : UInt8) :
    frameGetOwner (frameWriteByte s a b) = frameGetOwner s := by
  unfold frameWriteByte
  split_ifs <;> rfl

theorem frameReadByte_eq (h : pfn < vmNumFrames) (off : Fin vmPageSize) :
    frameReadByte s (pfn * vmPageSize + off) = frameBytes s pfn off := by
  have hoff := off.isLt
  unfold frameReadByte
  rw [if_pos]
  · rfl
  · simp only [vmPageSize, vmNumFrames, vmPhysMemSize] at *
    omega

theorem frameBytes_frameWriteByte (h : pfn < vmNumFrames) (off : Fin vmPageSize) (b : UInt8) :
    frameBytes (frameWriteByte s (pfn * vmPageSize + off) b) =
      Function.update (frameBytes s) pfn (Function.update (frameBytes s pfn) off b) := by
  have hoff := off.isLt
  have hlt : pfn * vmPageSize + off < vmPhysMemSize := by
    simp only [vmPageSize, vmNumFrames, vmPhysMemSize] at *
    omega
  funext f o
  have ho := o.isLt
  -- two addresses agree only if frame and offset do
  have hiff : f * vmPageSize + o = pfn * vmPageSize + off ↔ f = pfn ∧ o = off := by
    constructor
    · intro heq
      simp only [vmPageSize] at *
      exact ⟨by omega, Fin.ext (by omega)⟩
    · rintro ⟨rfl, rfl⟩
      rfl
  simp only [frameWriteByte, if_pos hlt, frameBytes, FrameState.byte, Function.update_apply, hiff]
  by_cases hf : f = pfn
  · subst hf
    by_cases hoo : o = off
    · simp [hoo]
    · simp [hoo, frameBytes, FrameState.byte]
  · simp [hf, frameBytes, FrameState.byte]

end FrameOps

section SwapOps

variable {s s' : SwapState} {fr : FrameState} {pid : ℤ} {vpn pfn slot : ℕ}

theorem swapAlloc_some (h : swapAlloc s pid vpn = (some slot, s')) :
    slot < vmNumSwapSlots ∧ swapGetOwner s slot = none ∧
      swapGetOwner s' = Function.update (swapGetOwner s) slot (some (pid, vpn)) ∧
      slotBytes s' = slotBytes s := by
  unfold swapAlloc at h
  cases hfree : freeSlot s with
  | none => simp [hfree] at h
  | some i =>
    obtain ⟨hi, halloc⟩ := freeSlot_eq_some hfree
    simp only [hfree, Prod.mk.injEq, Option.some.injEq] at h
    obtain ⟨rfl, rfl⟩ := h
    refine ⟨hi, by simp [swapGetOwner, halloc], ?_, rfl⟩
    funext f
    simp only [swapGetOwner, Function.update_apply]
    by_cases hf : f = i
    · subst hf
      simp [hi]
    · simp [hf]

theorem swapGetOwner_swapFree :
    swapGetOwner (swapFree s slot) = fun sl => if some slot = some sl then none
      else swapGetOwner s sl := by
  funext f
  simp only [Option.some.injEq]
  by_cases hc : slot < vmNumSwapSlots ∧ (s.slots slot).allocated = true
  · simp only [swapFree, if_pos hc, swapGetOwner, Function.update_apply]
    by_cases hf : slot = f
    · simp [hf]
    · simp [hf, Ne.symm hf]
  · simp only [swapFree, if_neg hc]
    split_ifs with hf
    · subst hf
      simp only [swapGetOwner, if_neg hc]
    · rfl

theorem slotBytes_swapFree : slotBytes (swapFree s slot) = slotBytes s := by
  unfold swapFree
  split_ifs <;> rfl

theorem swapGetOwner_swapOut : swapGetOwner (swapOut s fr pfn slot) = swapGetOwner s := by
  unfold swapOut
  split_ifs <;> rfl

theorem slotBytes_swapOut (hs : slot < vmNumSwapSlots) (hf : pfn < vmNumFrames) :
    slotBytes (swapOut s fr pfn slot) =
      Function.update (slotBytes s) slot (frameBytes fr pfn) := by
  funext f off
  simp only [swapOut, if_pos hs, if_pos hf, slotBytes, Function.update_apply]
  by_cases hff : f = slot
  · subst hff
    simp [frameBytes]
  · simp [hff, slotBytes]

theorem swapIn_eq (s : SwapState) (fr : FrameState) (pfn : ℕ) (hs : slot < vmNumSwapSlots) :
    swapGetOwner (swapIn s fr slot pfn).1 = swapGetOwner s ∧
      slotBytes (swapIn s fr slot pfn).1 = slotBytes s ∧
      (swapIn s fr slot pfn).2 = frameWriteBlock fr pfn (s.mem slot) := by
  simp only [swapIn, if_pos hs]
  exact ⟨rfl, rfl, trivial⟩

end SwapOps

/-! ### Counters -/

/-- Switching one index on adds one to the count. -/
theorem card_filter_switch {p q : ℕ → Bool} {n i : ℕ} (hi : i < n) (hp : p i = false)
    (hq : q i = true) (hpq : ∀ j, j ≠ i → q j = p j) :
    ((Finset.range n).filter fun j => q j = true).card =
      ((Finset.range n).filter fun j => p j = true).card + 1 := by
  have hins : (Finset.range n).filter (fun j => q j = true) =
      insert i ((Finset.range n).filter fun j => p j = true) := by
    ext j
    by_cases hj : j = i
    · subst hj
      simp [hi, hq]
    · simp [hj, hpq j hj]
  rw [hins, Finset.card_insert_of_notMem (by simp [hp])]

/-- The number of allocated entries among the first `n`. -/
def allocatedAmong (table : ℕ → FrameMeta) (n : ℕ) : ℕ :=
  ((Finset.range n).filter fun i => (table i).allocated = true).card

theorem allocatedAmong_alloc {table : ℕ → FrameMeta} {n i : ℕ} (m : FrameMeta) (hi : i < n)
    (hfree : (table i).allocated = false) (hm : m.allocated = true) :
    allocatedAmong (Function.update table i m) n = allocatedAmong table n + 1 :=
  card_filter_switch (p := fun j => (table j).allocated)
    (q := fun j => (Function.update table i m j).allocated) hi hfree (by simpa using hm)
    (fun j hj => by simp [hj])

theorem allocatedAmong_free {table : ℕ → FrameMeta} {n i : ℕ} (m : FrameMeta) (hi : i < n)
    (hused : (table i).allocated = true) (hm : m.allocated = false) :
    allocatedAmong table n = allocatedAmong (Function.update table i m) n + 1 :=
  card_filter_switch (p := fun j => (Function.update table i m j).allocated)
    (q := fun j => (table j).allocated) hi (by simpa using hm) hused
    (fun j hj => by simp [hj])

/-- `g_allocated_count` is the number of allocated frames. -/
def FrameState.Counted (s : FrameState) : Prop :=
  s.allocatedCount = allocatedAmong s.frames vmNumFrames

/-- The slot counters are the numbers of allocated and of free slots. -/
def SwapState.Counted (s : SwapState) : Prop :=
  s.allocatedSlots = allocatedAmong s.slots vmNumSwapSlots ∧
    s.allocatedSlots + s.freeSlots = vmNumSwapSlots

theorem frameInit_counted : frameInit.Counted := by
  simp [FrameState.Counted, frameInit, allocatedAmong]

theorem swapInit_counted : swapInit.Counted := by
  simp [SwapState.Counted, swapInit, allocatedAmong]

theorem FrameState.Counted.alloc {s : FrameState} (h : s.Counted) (pid : ℤ) (vpn : ℕ) :
    (frameAlloc s pid vpn).2.Counted := by
  unfold frameAlloc
  cases hfree : freeFrame s with
  | none => exact h
  | some i =>
    obtain ⟨hi, halloc⟩ := freeFrame_eq_some hfree
    unfold Counted at h ⊢
    rw [allocatedAmong_alloc _ hi halloc rfl, h]

theorem FrameState.Counted.free {s : FrameState} (h : s.Counted) (pfn : ℕ) :
    (frameFree s pfn).Counted := by
  unfold frameFree
  split_ifs with hc
  · have hcount := allocatedAmong_free { pid := 0, vpn := 0, allocated := false } hc.1 hc.2 rfl
    unfold Counted at h ⊢
    dsimp only
    omega
  · exact h

theorem FrameState.Counted.writeBlock {s : FrameState} (h : s.Counted) (pfn : ℕ)
    (src : ℕ → UInt8) : (frameWriteBlock s pfn src).Counted := by
  unfold frameWriteBlock
  split_ifs <;> exact h

theorem SwapState.Counted.alloc {s : SwapState} (h : s.Counted) (pid : ℤ) (vpn : ℕ) :
    (swapAlloc s pid vpn).2.Counted := by
  unfold swapAlloc
  cases hfree : freeSlot s with
  | none => exact h
  | some i =>
    obtain ⟨hi, halloc⟩ := freeSlot_eq_some hfree
    have hcount := allocatedAmong_alloc { pid := pid, vpn := vpn, allocated := true } hi halloc rfl
    -- a free slot exists, so the count before is below the size and no counter wraps
    have hle : allocatedAmong (Function.update s.slots i
        { pid := pid, vpn := vpn, allocated := true }) vmNumSwapSlots ≤ vmNumSwapSlots :=
      (Finset.card_filter_le _ _).trans (Finset.card_range _).le
    obtain ⟨h1, h2⟩ := h
    refine ⟨?_, ?_⟩
    · dsimp only
      omega
    · dsimp only
      omega

theorem SwapState.Counted.free {s : SwapState} (h : s.Counted) (slot : ℕ) :
    (swapFree s slot).Counted := by
  unfold swapFree
  split_ifs with hc
  · have hcount := allocatedAmong_free { pid := 0, vpn := 0, allocated := false } hc.1 hc.2 rfl
    obtain ⟨h1, h2⟩ := h
    refine ⟨?_, ?_⟩
    · dsimp only
      omega
    · dsimp only
      omega
  · exact h

theorem SwapState.Counted.out {s : SwapState} (h : s.Counted) (fr : FrameState) (pfn slot : ℕ) :
    (swapOut s fr pfn slot).Counted := by
  unfold swapOut
  split_ifs <;> exact h

theorem FrameState.Counted.swapIn {fr : FrameState} (h : fr.Counted) (s : SwapState)
    (slot pfn : ℕ) : (Mosrt.swapIn s fr slot pfn).2.Counted := by
  rw [Mosrt.swapIn]
  split_ifs
  · exact h.writeBlock _ _
  · exact h

theorem SwapState.Counted.swapIn {s : SwapState} (h : s.Counted) (fr : FrameState)
    (slot pfn : ℕ) : (Mosrt.swapIn s fr slot pfn).1.Counted := by
  unfold Mosrt.swapIn
  split_ifs <;> exact h

/-- With a right counter the statistics add up to the number of frames. -/
theorem FrameState.Counted.stats {s : FrameState} (h : s.Counted) :
    (frameGetStats s).allocatedFrames + (frameGetStats s).freeFrames = vmNumFrames := by
  have hle : s.allocatedCount ≤ vmNumFrames := by
    rw [h, allocatedAmong]
    exact (Finset.card_filter_le _ _).trans_eq (Finset.card_range _)
  have hnum : vmNumFrames = 64 := rfl
  rw [frameGetStats]
  dsimp only
  omega

end Mosrt
