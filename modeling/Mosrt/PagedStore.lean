/-
Demand paging in the abstract: pages `K`, frames `F`, swap slots `S`, page
contents `C`.

A `PagedStore` says where each page has a copy (`entry`), which page each
allocated frame and slot belongs to (`owner`, `slotOwner`), and what the frames
and slots hold.  Its moves are the ones a pager composes: writing a page back,
releasing its frame, loading it into a free frame, marking it dirty, storing
into a frame, and forgetting where a page is.

* `Sound` — a page that claims a frame or a slot owns it; every move keeps it;
* `Exact` — ownership and claims are inverse to each other, a page is in one
  place at most and only resident pages are dirty; every move but `forget`
  keeps it;
* `Evicted` — the eviction a pager performs: write back if dirty, then release;
* `value` — the contents of a page wherever it is; under `Exact` only a release
  of a clean frame can change it (`value_release`);
* `Within P` — every owned frame and slot holds contents that `P` allows for its
  owner; every move keeps it.
-/
import Mathlib

/-- Where a page has a copy, and whether the resident copy was modified. -/
structure PageEntry (F S : Type*) where
  frame : Option F := none
  slot : Option S := none
  dirty : Bool := false

@[ext] structure PagedStore (K F S C : Type*) where
  entry : K → PageEntry F S
  owner : F → Option K
  ram : F → C
  slotOwner : S → Option K
  disk : S → C

namespace PagedStore

variable {K F S C : Type*} {st st' : PagedStore K F S C} {k : K} {f : F} {s : S} {zero : C}
  {P Q : K → C → Prop}

/-! ### Claims, contents and provenance -/

/-- A page that claims a frame or a slot owns it. -/
structure Sound (st : PagedStore K F S C) : Prop where
  frame_owned : ∀ {k f}, (st.entry k).frame = some f → st.owner f = some k
  slot_owned : ∀ {k s}, (st.entry k).slot = some s → st.slotOwner s = some k

/-- Ownership and claims are inverse; a page is in one place at most; only resident
pages are dirty. -/
structure Exact (st : PagedStore K F S C) : Prop extends Sound st where
  owner_claims : ∀ {k f}, st.owner f = some k → (st.entry k).frame = some f
  slotOwner_claims : ∀ {k s}, st.slotOwner s = some k → (st.entry k).slot = some s
  one_place : ∀ k, (st.entry k).frame = none ∨ (st.entry k).slot = none
  dirty_resident : ∀ {k}, (st.entry k).dirty = true → (st.entry k).frame ≠ none

/-- In an exact store a page with a frame has no slot. -/
theorem Exact.slot_of_frame (h : st.Exact) (hf : (st.entry k).frame = some f) :
    (st.entry k).slot = none := by
  rcases h.one_place k with h' | h'
  · rw [hf] at h'
    cases h'
  · exact h'

/-- What was written to the page is in a frame and marked as such, or in a slot. -/
def Saved (st : PagedStore K F S C) (k : K) : Prop :=
  (st.entry k).frame.isSome = true ∧ (st.entry k).dirty = true ∨ (st.entry k).slot.isSome = true

/-- The contents of a page, wherever it is; `zero` where it was never touched. -/
def value (st : PagedStore K F S C) (zero : C) (k : K) : C :=
  match (st.entry k).frame with
  | some f => st.ram f
  | none =>
    match (st.entry k).slot with
    | some s => st.disk s
    | none => zero

theorem value_of_frame (zero : C) (hf : (st.entry k).frame = some f) :
    st.value zero k = st.ram f := by
  simp [value, hf]

theorem value_of_slot (hf : (st.entry k).frame = none) (hs : (st.entry k).slot = some s) :
    st.value zero k = st.disk s := by
  simp [value, hf, hs]

theorem value_of_absent (hf : (st.entry k).frame = none) (hs : (st.entry k).slot = none) :
    st.value zero k = zero := by
  simp [value, hf, hs]

/-- The value of `k` is decided by its entry and by what its own frame and slot hold. -/
theorem value_congr {st' : PagedStore K F S C} (he : st'.entry k = st.entry k)
    (hr : ∀ f, (st.entry k).frame = some f → st'.ram f = st.ram f)
    (hd : ∀ s, (st.entry k).slot = some s → st'.disk s = st.disk s) :
    st'.value zero k = st.value zero k := by
  unfold value
  rw [he]
  cases hf : (st.entry k).frame with
  | some f => exact hr f hf
  | none =>
    cases hs : (st.entry k).slot with
    | some s => exact hd s hs
    | none => rfl

/-- Every owned frame and slot holds contents that `P` allows for its owner. -/
structure Within (P : K → C → Prop) (st : PagedStore K F S C) : Prop where
  ram_within : ∀ {f k}, st.owner f = some k → P k (st.ram f)
  disk_within : ∀ {s k}, st.slotOwner s = some k → P k (st.disk s)

theorem Within.mono (h : st.Within P) (hPQ : ∀ k c, P k c → Q k c) : st.Within Q :=
  ⟨fun hf => hPQ _ _ (h.ram_within hf), fun hs => hPQ _ _ (h.disk_within hs)⟩

/-! ### Storing into a frame -/

section Store

variable [DecidableEq F]

def store (st : PagedStore K F S C) (f : F) (c : C) : PagedStore K F S C :=
  { st with ram := Function.update st.ram f c }

theorem Sound.store (h : st.Sound) (c : C) : (st.store f c).Sound :=
  ⟨h.frame_owned, h.slot_owned⟩

theorem Exact.store (h : st.Exact) (c : C) : (st.store f c).Exact :=
  { h.toSound.store c with
    owner_claims := h.owner_claims, slotOwner_claims := h.slotOwner_claims,
    one_place := h.one_place, dirty_resident := h.dirty_resident }

theorem Within.store (h : st.Within P) (hf : st.owner f = some k) {c : C} (hc : P k c) :
    (st.store f c).Within P := by
  refine ⟨?_, h.disk_within⟩
  intro f' k' hown
  simp only [PagedStore.store, Function.update_apply] at hown ⊢
  split_ifs with hff
  · subst hff
    rw [hf, Option.some_inj] at hown
    subst hown
    exact hc
  · exact h.ram_within hown

/-- Storing into the frame of a resident page sets its value and changes no other. -/
theorem value_store [DecidableEq K] (h : st.Exact) (hf : (st.entry k).frame = some f)
    (c : C) (k' : K) :
    (st.store f c).value zero k' = if k' = k then c else st.value zero k' := by
  split_ifs with hkk
  · subst hkk
    rw [value_of_frame zero (f := f) (by simpa [PagedStore.store] using hf)]
    simp [PagedStore.store]
  · refine value_congr rfl ?_ (fun _ _ => rfl)
    intro f' hf'
    simp only [PagedStore.store, Function.update_apply]
    rw [if_neg]
    rintro rfl
    have h1 := h.frame_owned hf
    rw [h.frame_owned hf', Option.some_inj] at h1
    exact hkk h1

end Store

variable [DecidableEq K]

/-! ### Marking and forgetting -/

def setEntry (st : PagedStore K F S C) (k : K) (e : PageEntry F S) : PagedStore K F S C :=
  { st with entry := Function.update st.entry k e }

def markDirty (st : PagedStore K F S C) (k : K) : PagedStore K F S C :=
  st.setEntry k { st.entry k with dirty := true }

/-- Drop the page's claims without releasing what it owns. -/
def forget (st : PagedStore K F S C) (k : K) : PagedStore K F S C :=
  st.setEntry k { st.entry k with frame := none, slot := none }

theorem Sound.markDirty (h : st.Sound) : (st.markDirty k).Sound := by
  constructor
  · intro k' f' hk
    simp only [PagedStore.markDirty, setEntry, Function.update_apply] at hk ⊢
    split_ifs at hk with hkk
    · subst hkk
      exact h.frame_owned hk
    · exact h.frame_owned hk
  · intro k' s' hk
    simp only [PagedStore.markDirty, setEntry, Function.update_apply] at hk ⊢
    split_ifs at hk with hkk
    · subst hkk
      exact h.slot_owned hk
    · exact h.slot_owned hk

theorem markDirty_frame (k' : K) : ((st.markDirty k).entry k').frame = (st.entry k').frame := by
  simp only [PagedStore.markDirty, setEntry, Function.update_apply]
  split_ifs with hkk
  · rw [hkk]
  · rfl

theorem markDirty_dirty {k' : K} (h : (st.entry k').dirty = true) :
    ((st.markDirty k).entry k').dirty = true := by
  simp only [PagedStore.markDirty, setEntry, Function.update_apply]
  split_ifs
  · rfl
  · exact h

theorem markDirty_dirty_self : ((st.markDirty k).entry k).dirty = true := by
  simp [PagedStore.markDirty, setEntry]

theorem Exact.markDirty (h : st.Exact) (hk : (st.entry k).frame ≠ none) :
    (st.markDirty k).Exact := by
  refine { h.toSound.markDirty with
    owner_claims := ?_, slotOwner_claims := ?_, one_place := ?_, dirty_resident := ?_ }
  · intro k' f' hown
    have hc := h.owner_claims hown
    simp only [PagedStore.markDirty, setEntry, Function.update_apply]
    split_ifs with hkk
    · rw [← hkk]
      exact hc
    · exact hc
  · intro k' s' hown
    have hc := h.slotOwner_claims hown
    simp only [PagedStore.markDirty, setEntry, Function.update_apply]
    split_ifs with hkk
    · rw [← hkk]
      exact hc
    · exact hc
  · intro k'
    simp only [PagedStore.markDirty, setEntry, Function.update_apply]
    split_ifs
    · exact h.one_place k
    · exact h.one_place k'
  · intro k' hd
    simp only [PagedStore.markDirty, setEntry, Function.update_apply] at hd ⊢
    split_ifs at hd ⊢
    · exact hk
    · exact h.dirty_resident hd

theorem Saved.markDirty {k' : K} (h : st.Saved k') : (st.markDirty k).Saved k' := by
  by_cases hk : k' = k
  · subst hk
    simp only [Saved, PagedStore.markDirty, PagedStore.setEntry, Function.update_self]
    exact h.imp (fun hf => ⟨hf.1, trivial⟩) id
  · simpa [Saved, PagedStore.markDirty, PagedStore.setEntry, hk] using h

theorem value_markDirty (k' : K) : (st.markDirty k).value zero k' = st.value zero k' := by
  unfold value
  by_cases hkk : k' = k
  · subst hkk
    simp [PagedStore.markDirty, setEntry]
  · simp [PagedStore.markDirty, setEntry, hkk]

/-- A page that is nowhere has nothing to forget. -/
theorem forget_of_absent (hf : (st.entry k).frame = none) (hs : (st.entry k).slot = none) :
    st.forget k = st := by
  have hself : ({ st.entry k with frame := none, slot := none } : PageEntry F S) = st.entry k := by
    generalize st.entry k = e at hf hs ⊢
    obtain ⟨frame, slot, dirty⟩ := e
    obtain rfl : frame = none := hf
    obtain rfl : slot = none := hs
    rfl
  rw [PagedStore.forget, setEntry, hself, Function.update_eq_self]

theorem Sound.forget (h : st.Sound) : (st.forget k).Sound := by
  constructor
  · intro k' f' hk
    simp only [PagedStore.forget, setEntry, Function.update_apply] at hk ⊢
    split_ifs at hk
    exact h.frame_owned hk
  · intro k' s' hk
    simp only [PagedStore.forget, setEntry, Function.update_apply] at hk ⊢
    split_ifs at hk
    exact h.slot_owned hk

theorem Within.setEntry (h : st.Within P) (e : PageEntry F S) : (st.setEntry k e).Within P :=
  ⟨h.ram_within, h.disk_within⟩

/-- Each frame and each slot holds what was written to one page only. -/
theorem Sound.card_saved_le (h : st.Sound) (frames : Finset F) (slots : Finset S)
    (hframes : ∀ f k, st.owner f = some k → f ∈ frames)
    (hslots : ∀ s k, st.slotOwner s = some k → s ∈ slots) (ks : Finset K)
    (hks : ∀ k ∈ ks, st.Saved k) : ks.card ≤ frames.card + slots.card := by
  have hone : ∀ o : Option K, o.toFinset.card ≤ 1 := by
    intro o
    cases o <;> simp
  have hcover : ks ⊆ frames.biUnion (fun f => (st.owner f).toFinset) ∪
      slots.biUnion fun s => (st.slotOwner s).toFinset := by
    intro k hk
    rw [Finset.mem_union, Finset.mem_biUnion, Finset.mem_biUnion]
    rcases hks k hk with ⟨hf, -⟩ | hs
    · obtain ⟨f, hf⟩ := Option.isSome_iff_exists.mp hf
      have hown := h.frame_owned hf
      exact .inl ⟨f, hframes f k hown, by simp [hown]⟩
    · obtain ⟨s, hs⟩ := Option.isSome_iff_exists.mp hs
      have hown := h.slot_owned hs
      exact .inr ⟨s, hslots s k hown, by simp [hown]⟩
  calc ks.card ≤ _ := Finset.card_le_card hcover
    _ ≤ _ := Finset.card_union_le _ _
    _ ≤ frames.card * 1 + slots.card * 1 := by
      refine Nat.add_le_add ?_ ?_
      · exact Finset.card_biUnion_le_card_mul _ _ _ fun f _ => hone _
      · exact Finset.card_biUnion_le_card_mul _ _ _ fun s _ => hone _
    _ = frames.card + slots.card := by rw [Nat.mul_one, Nat.mul_one]

/-! ### Releasing a frame -/

section Release

variable [DecidableEq F]

/-- Take frame `f` away from page `k`. -/
def release (st : PagedStore K F S C) (k : K) (f : F) : PagedStore K F S C :=
  { st with
    entry := Function.update st.entry k { st.entry k with frame := none, dirty := false }
    owner := Function.update st.owner f none }

theorem Sound.release (h : st.Sound) (hf : st.owner f = some k) : (st.release k f).Sound := by
  constructor
  · intro k' f' hk
    simp only [PagedStore.release, Function.update_apply] at hk ⊢
    split_ifs at hk with hkk
    · have hown := h.frame_owned hk
      rw [if_neg]
      · exact hown
      · rintro rfl
        rw [hf, Option.some_inj] at hown
        exact hkk hown.symm
  · intro k' s' hk
    simp only [PagedStore.release, Function.update_apply] at hk ⊢
    split_ifs at hk with hkk
    · subst hkk
      exact h.slot_owned hk
    · exact h.slot_owned hk

theorem Exact.release (h : st.Exact) (hf : st.owner f = some k) : (st.release k f).Exact := by
  have hkf := h.owner_claims hf
  refine { h.toSound.release hf with
    owner_claims := ?_, slotOwner_claims := ?_, one_place := ?_, dirty_resident := ?_ }
  · intro k' f' hown
    simp only [PagedStore.release, Function.update_apply] at hown ⊢
    split_ifs at hown with hff
    have hc := h.owner_claims hown
    rw [if_neg]
    · exact hc
    · rintro rfl
      rw [hkf, Option.some_inj] at hc
      exact hff hc.symm
  · intro k' s' hown
    simp only [PagedStore.release, Function.update_apply] at hown ⊢
    split_ifs with hkk
    · subst hkk
      exact h.slotOwner_claims hown
    · exact h.slotOwner_claims hown
  · intro k'
    simp only [PagedStore.release, Function.update_apply]
    split_ifs
    · exact Or.inl rfl
    · exact h.one_place k'
  · intro k' hd
    simp only [PagedStore.release, Function.update_apply] at hd ⊢
    split_ifs at hd ⊢
    exact h.dirty_resident hd

/-- Releasing the frame of a page replaces its value by `zero` and changes no other. -/
theorem value_release (h : st.Exact) (hf : st.owner f = some k) (k' : K) :
    (st.release k f).value zero k' = if k' = k then zero else st.value zero k' := by
  have hkf := h.owner_claims hf
  split_ifs with hkk
  · subst hkk
    exact value_of_absent (by simp [PagedStore.release])
      (by simpa [PagedStore.release] using h.slot_of_frame hkf)
  · refine value_congr ?_ (fun _ _ => rfl) (fun _ _ => rfl)
    simp [PagedStore.release, hkk]

theorem Within.release (h : st.Within P) : (st.release k f).Within P := by
  refine ⟨?_, h.disk_within⟩
  intro f' k' hown
  simp only [PagedStore.release, Function.update_apply] at hown
  split_ifs at hown
  exact h.ram_within hown

end Release

/-! ### Writing a page back -/

section WriteBack

variable [DecidableEq S]

/-- Copy frame `f` of page `k` into slot `s`, which becomes the page's slot. -/
def writeBack (st : PagedStore K F S C) (k : K) (f : F) (s : S) : PagedStore K F S C :=
  { st with
    entry := Function.update st.entry k { st.entry k with slot := some s }
    slotOwner := Function.update st.slotOwner s (some k)
    disk := Function.update st.disk s (st.ram f) }

theorem Sound.writeBack (h : st.Sound)
    (hs : (st.entry k).slot = some s ∨ st.slotOwner s = none) : (st.writeBack k f s).Sound := by
  have hfree : ∀ k', k' ≠ k → st.slotOwner s ≠ some k' := by
    intro k' hk' hown
    rcases hs with hs | hs
    · rw [h.slot_owned hs, Option.some_inj] at hown
      exact hk' hown.symm
    · rw [hs] at hown
      cases hown
  constructor
  · intro k' f' hk
    simp only [PagedStore.writeBack, Function.update_apply] at hk ⊢
    split_ifs at hk with hkk
    · subst hkk
      exact h.frame_owned hk
    · exact h.frame_owned hk
  · intro k' s' hk
    simp only [PagedStore.writeBack, Function.update_apply] at hk ⊢
    split_ifs at hk with hkk
    · rw [Option.some_inj] at hk
      rw [if_pos hk.symm, hkk]
    · have hown := h.slot_owned hk
      rw [if_neg]
      · exact hown
      · rintro rfl
        exact hfree k' hkk hown

theorem Within.writeBack (h : st.Within P) (hf : st.owner f = some k) :
    (st.writeBack k f s).Within P := by
  refine ⟨h.ram_within, ?_⟩
  intro s' k' hown
  simp only [PagedStore.writeBack, Function.update_apply] at hown ⊢
  split_ifs at hown ⊢
  · rw [Option.some_inj] at hown
    subst hown
    exact h.ram_within hf
  · exact h.disk_within hown

end WriteBack

variable [DecidableEq F] [DecidableEq S]

/-! ### Eviction -/

/-- Writing a resident page back and releasing its frame: the page moves to the slot. -/
theorem Exact.writeBack_release (h : st.Exact) (hf : st.owner f = some k)
    (hs : st.slotOwner s = none) : ((st.writeBack k f s).release k f).Exact := by
  have hkf := h.owner_claims hf
  have hks := h.slot_of_frame hkf
  refine { (h.toSound.writeBack (f := f) (Or.inr hs)).release (k := k) (f := f) hf with
    owner_claims := ?_, slotOwner_claims := ?_, one_place := ?_, dirty_resident := ?_ }
  · intro k' f' hown
    simp only [PagedStore.release, PagedStore.writeBack, Function.update_apply] at hown ⊢
    split_ifs at hown with hff
    have hc := h.owner_claims hown
    have hkk : k' ≠ k := by
      rintro rfl
      rw [hkf, Option.some_inj] at hc
      exact hff hc.symm
    simp only [if_neg hkk]
    exact hc
  · intro k' s' hown
    simp only [PagedStore.release, PagedStore.writeBack, Function.update_apply] at hown ⊢
    split_ifs at hown with hss
    · rw [Option.some_inj] at hown
      simp [hown, hss]
    · have hc := h.slotOwner_claims hown
      have hkk : k' ≠ k := by
        rintro rfl
        rw [hks] at hc
        cases hc
      simp only [if_neg hkk]
      exact hc
  · intro k'
    simp only [PagedStore.release, PagedStore.writeBack, Function.update_apply]
    split_ifs
    · exact Or.inl rfl
    · exact h.one_place k'
  · intro k' hd
    simp only [PagedStore.release, PagedStore.writeBack, Function.update_apply] at hd ⊢
    split_ifs at hd ⊢
    exact h.dirty_resident hd

/-- Writing a page back and releasing its frame changes no value. -/
theorem value_writeBack_release (h : st.Exact) (hf : st.owner f = some k)
    (hs : st.slotOwner s = none) (k' : K) :
    ((st.writeBack k f s).release k f).value zero k' = st.value zero k' := by
  have hkf := h.owner_claims hf
  by_cases hkk : k' = k
  · subst hkk
    rw [value_of_frame zero hkf, value_of_slot (s := s)]
    · simp [PagedStore.release, PagedStore.writeBack]
    · simp [PagedStore.release]
    · simp [PagedStore.release, PagedStore.writeBack]
  · refine value_congr ?_ (fun _ _ => rfl) ?_
    · simp [PagedStore.release, PagedStore.writeBack, hkk]
    · intro s' hs'
      have hown := h.slot_owned hs'
      simp only [PagedStore.release, PagedStore.writeBack, Function.update_apply]
      rw [if_neg]
      rintro rfl
      rw [hs] at hown
      cases hown

/-- Page `k` loses frame `f`: a dirty page is written back first, to the slot it still
has or to a free one; a clean page is discarded. -/
inductive Evicted (st : PagedStore K F S C) (k : K) (f : F) : PagedStore K F S C → Prop
  | dirty {s : S} : (st.entry k).dirty = true →
      ((st.entry k).slot = some s ∨ (st.entry k).slot = none ∧ st.slotOwner s = none) →
      Evicted st k f ((st.writeBack k f s).release k f)
  | clean : (st.entry k).dirty = false → Evicted st k f (st.release k f)

theorem Sound.evicted (h : st.Sound) (hf : st.owner f = some k) (he : st.Evicted k f st') :
    st'.Sound := by
  cases he with
  | dirty _ hs => exact (h.writeBack (hs.imp id And.right)).release hf
  | clean _ => exact h.release hf

theorem Exact.evicted (h : st.Exact) (hf : st.owner f = some k) (he : st.Evicted k f st') :
    st'.Exact := by
  cases he with
  | dirty _ hs =>
    rcases hs with hs | ⟨_, hs⟩
    · rw [h.slot_of_frame (h.owner_claims hf)] at hs
      cases hs
    · exact h.writeBack_release hf hs
  | clean _ => exact h.release hf

/-- The evicted frame is free afterwards. -/
theorem Evicted.owner (he : st.Evicted k f st') : st'.owner = Function.update st.owner f none := by
  cases he <;> rfl

/-- Only the evicted page changes its entry. -/
theorem Evicted.entry_ne (he : st.Evicted k f st') {k' : K} (hk : k' ≠ k) :
    st'.entry k' = st.entry k' := by
  cases he <;> simp [PagedStore.release, PagedStore.writeBack, hk]

/-- A page that has a slot still has it after an eviction. -/
theorem Evicted.slot (he : st.Evicted k f st') {k' : K} {s : S}
    (hs : (st.entry k').slot = some s) : (st'.entry k').slot = some s := by
  by_cases hk : k' = k
  · subst hk
    cases he with
    | dirty _ hslot =>
      rcases hslot with hslot | ⟨hslot, _⟩
      · rw [hs] at hslot
        simpa [PagedStore.release, PagedStore.writeBack] using hslot.symm
      · rw [hs] at hslot
        cases hslot
    | clean _ => simpa [PagedStore.release] using hs
  · rw [he.entry_ne hk]
    exact hs

/-- After an eviction the evicted page has no frame. -/
theorem Evicted.frame (he : st.Evicted k f st') : (st'.entry k).frame = none := by
  cases he <;> simp [PagedStore.release]

theorem Saved.evicted {k' : K} (h : st.Saved k') (he : st.Evicted k f st') : st'.Saved k' := by
  by_cases hk : k' = k
  · subst hk
    refine .inr ?_
    cases he with
    | dirty _ _ => simp [PagedStore.release, PagedStore.writeBack]
    | clean hclean =>
      rcases h with ⟨-, hdirty⟩ | hslot
      · rw [hclean] at hdirty
        cases hdirty
      · simpa [PagedStore.release] using hslot
  · rw [Saved, he.entry_ne hk]
    exact h

/-- An eviction changes no value, unless it discards a clean page that is not `zero`. -/
theorem value_evicted (h : st.Exact) (hf : st.owner f = some k) (he : st.Evicted k f st')
    (hclean : (st.entry k).dirty = false → st.ram f = zero) (k' : K) :
    st'.value zero k' = st.value zero k' := by
  have hkf := h.owner_claims hf
  cases he with
  | dirty _ hs =>
    rcases hs with hs | ⟨_, hs⟩
    · rw [h.slot_of_frame hkf] at hs
      cases hs
    · exact value_writeBack_release h hf hs k'
  | clean hd =>
    rw [value_release h hf]
    split_ifs with hkk
    · rw [hkk, value_of_frame zero hkf, hclean hd]
    · rfl

theorem Within.evicted (h : st.Within P) (hf : st.owner f = some k) (he : st.Evicted k f st') :
    st'.Within P := by
  cases he with
  | dirty _ _ => exact (h.writeBack hf).release
  | clean _ => exact h.release

/-! ### Loading -/

/-- Give frame `f` with contents `c` to page `k`, which gives up its slot claim; the
slot `freed`, if any, is freed. -/
def load (st : PagedStore K F S C) (k : K) (f : F) (c : C) (dirty : Bool) (freed : Option S) :
    PagedStore K F S C :=
  { st with
    entry := Function.update st.entry k { frame := some f, slot := none, dirty := dirty }
    owner := Function.update st.owner f (some k)
    ram := Function.update st.ram f c
    slotOwner := fun s => if freed = some s then none else st.slotOwner s }

theorem Sound.load (h : st.Sound) (hf : st.owner f = none) (c : C) (d : Bool) {freed : Option S}
    (hfreed : ∀ s, freed = some s → st.slotOwner s = some k) :
    (st.load k f c d freed).Sound := by
  constructor
  · intro k' f' hk
    simp only [PagedStore.load, Function.update_apply] at hk ⊢
    split_ifs at hk with hkk
    · rw [Option.some_inj] at hk
      rw [if_pos hk.symm, hkk]
    · have hown := h.frame_owned hk
      rw [if_neg]
      · exact hown
      · rintro rfl
        rw [hf] at hown
        cases hown
  · intro k' s' hk
    simp only [PagedStore.load, Function.update_apply] at hk ⊢
    split_ifs at hk with hkk
    have hown := h.slot_owned hk
    rw [if_neg]
    · exact hown
    · intro hs
      rw [hfreed _ hs, Option.some_inj] at hown
      exact hkk hown.symm

/-- Loading an absent page into a free frame. -/
theorem Exact.load (h : st.Exact) (hk : (st.entry k).frame = none) (hf : st.owner f = none)
    (c : C) (d : Bool) : (st.load k f c d (st.entry k).slot).Exact := by
  refine { h.toSound.load hf c d (fun _ hs => h.slot_owned hs) with
    owner_claims := ?_, slotOwner_claims := ?_, one_place := ?_, dirty_resident := ?_ }
  · intro k' f' hown
    simp only [PagedStore.load, Function.update_apply] at hown ⊢
    split_ifs at hown with hff
    · rw [Option.some_inj] at hown
      rw [if_pos hown.symm, hff]
    · have hc := h.owner_claims hown
      rw [if_neg]
      · exact hc
      · rintro rfl
        rw [hk] at hc
        cases hc
  · intro k' s' hown
    simp only [PagedStore.load, Function.update_apply] at hown ⊢
    split_ifs at hown with hss
    have hc := h.slotOwner_claims hown
    rw [if_neg]
    · exact hc
    · rintro rfl
      exact hss hc
  · intro k'
    simp only [PagedStore.load, Function.update_apply]
    split_ifs
    · exact Or.inr rfl
    · exact h.one_place k'
  · intro k' hd
    simp only [PagedStore.load, Function.update_apply] at hd ⊢
    split_ifs at hd ⊢
    · simp
    · exact h.dirty_resident hd

theorem saved_load (c : C) (freed : Option S) : (st.load k f c true freed).Saved k := by
  simp [Saved, PagedStore.load]

theorem Saved.load {k' : K} (h : st.Saved k') (c : C) (freed : Option S) :
    (st.load k f c true freed).Saved k' := by
  by_cases hk : k' = k
  · rw [hk]
    exact saved_load c freed
  · simpa [Saved, PagedStore.load, hk] using h

/-- Loading a page that is not resident with its own value changes no value. -/
theorem value_load (h : st.Exact) (hf : st.owner f = none) (d : Bool) (freed : Option S) (k' : K) :
    (st.load k f (st.value zero k) d freed).value zero k' = st.value zero k' := by
  by_cases hkk : k' = k
  · subst hkk
    rw [value_of_frame zero (f := f) (by simp [PagedStore.load])]
    simp [PagedStore.load]
  · refine value_congr ?_ ?_ (fun _ _ => rfl)
    · simp [PagedStore.load, hkk]
    · intro f' hf'
      have hown := h.frame_owned hf'
      simp only [PagedStore.load, Function.update_apply]
      rw [if_neg]
      rintro rfl
      rw [hf] at hown
      cases hown

theorem Within.load (h : st.Within P) {c : C} (hc : P k c) (d : Bool) (freed : Option S) :
    (st.load k f c d freed).Within P := by
  constructor
  · intro f' k' hown
    simp only [PagedStore.load, Function.update_apply] at hown ⊢
    split_ifs at hown ⊢
    · rw [Option.some_inj] at hown
      subst hown
      exact hc
    · exact h.ram_within hown
  · intro s' k' hown
    simp only [PagedStore.load] at hown
    split_ifs at hown
    exact h.disk_within hown

end PagedStore
