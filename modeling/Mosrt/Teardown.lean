/-
Tearing down an address space (`vm_proc_destroy`).

The loop walks the page table and gives back the frames and the swap slots it finds there.
Nobody tells the replacement policy: a frame that is given back stays where it is in the
tracker, and when it is used again it does not count as newly mapped.

* `released_spec` — what the loop leaves of the owners;
* `teardown` — the address space is torn down completely and locally exactly if the policy
  tracked no frame of the process; when the tracker matched RAM before, this means that the
  process had no page in memory.
-/
import Mosrt.TrackerRuns
import Mosrt.Vm

namespace Mosrt

variable {s : VmSys} {pid : ℤ} {pt : PageTable}

/-! ### The release loop -/

/-- Some page among the first `n` has frame `f`. -/
def HoldsFrame (pt : PageTable) (n f : ℕ) : Prop :=
  ∃ v < n, (pt v).present = true ∧ (pt v).frameNum = f

/-- Some page among the first `n` has swap slot `sl`. -/
def HoldsSlot (pt : PageTable) (n sl : ℕ) : Prop :=
  ∃ v < n, (pt v).inSwap = true ∧ (pt v).swapSlot = sl

instance (pt : PageTable) (n f : ℕ) : Decidable (HoldsFrame pt n f) :=
  inferInstanceAs (Decidable (∃ v < n, _))

instance (pt : PageTable) (n sl : ℕ) : Decidable (HoldsSlot pt n sl) :=
  inferInstanceAs (Decidable (∃ v < n, _))

/-- What is left of the owners when the first `n` pages are released. -/
structure Released (s s' : VmSys) (pt : PageTable) (n : ℕ) : Prop where
  owner : ∀ f, frameGetOwner s'.frame f =
    if HoldsFrame pt n f then none else frameGetOwner s.frame f
  slotOwner : ∀ sl, swapGetOwner s'.swap sl =
    if HoldsSlot pt n sl then none else swapGetOwner s.swap sl
  ram : frameBytes s'.frame = frameBytes s.frame
  disk : slotBytes s'.swap = slotBytes s.swap
  vms : s'.vms = s.vms
  pager : s'.pager = s.pager

theorem holdsFrame_succ (pt : PageTable) (n f : ℕ) : HoldsFrame pt (n + 1) f ↔
    HoldsFrame pt n f ∨ (pt n).present = true ∧ (pt n).frameNum = f := by
  rw [HoldsFrame, Nat.exists_lt_succ_right]
  rfl

theorem holdsSlot_succ (pt : PageTable) (n sl : ℕ) : HoldsSlot pt (n + 1) sl ↔
    HoldsSlot pt n sl ∨ (pt n).inSwap = true ∧ (pt n).swapSlot = sl := by
  rw [HoldsSlot, Nat.exists_lt_succ_right]
  rfl

theorem vmReleasePage_frame (pt : PageTable) (s : VmSys) (vpn : ℕ) :
    (vmReleasePage pt s vpn).frame =
      if (pt vpn).present then frameFree s.frame (pt vpn).frameNum else s.frame := by
  rw [vmReleasePage]
  split_ifs <;> rfl

theorem vmReleasePage_swap (pt : PageTable) (s : VmSys) (vpn : ℕ) :
    (vmReleasePage pt s vpn).swap =
      if (pt vpn).inSwap then swapFree s.swap (pt vpn).swapSlot else s.swap := by
  rw [vmReleasePage]
  split_ifs <;> rfl

/-- One iteration. -/
theorem Released.succ {s' : VmSys} {n : ℕ} (h : Released s s' pt n) :
    Released s (vmReleasePage pt s' n) pt (n + 1) where
  owner f := by
    rw [vmReleasePage_frame]
    simp only [holdsFrame_succ]
    by_cases hpresent : (pt n).present = true
    · rw [if_pos hpresent, frameGetOwner_frameFree, Function.update_apply, h.owner]
      by_cases hf : f = (pt n).frameNum
      · rw [if_pos hf, if_pos (.inr ⟨hpresent, hf.symm⟩)]
      · have hno : ¬ ((pt n).present = true ∧ (pt n).frameNum = f) := fun h => hf h.2.symm
        rw [if_neg hf]
        exact if_congr (or_iff_left hno).symm rfl rfl
    · have hno : ¬ ((pt n).present = true ∧ (pt n).frameNum = f) := fun h => hpresent h.1
      rw [if_neg hpresent, h.owner]
      exact if_congr (or_iff_left hno).symm rfl rfl
  slotOwner sl := by
    rw [vmReleasePage_swap]
    simp only [holdsSlot_succ]
    by_cases hswap : (pt n).inSwap = true
    · rw [if_pos hswap, swapGetOwner_swapFree]
      simp only [Option.some.injEq]
      by_cases hsl : (pt n).swapSlot = sl
      · rw [if_pos hsl, if_pos (.inr ⟨hswap, hsl⟩)]
      · have hno : ¬ ((pt n).inSwap = true ∧ (pt n).swapSlot = sl) := fun h => hsl h.2
        rw [if_neg hsl, h.slotOwner]
        exact if_congr (or_iff_left hno).symm rfl rfl
    · have hno : ¬ ((pt n).inSwap = true ∧ (pt n).swapSlot = sl) := fun h => hswap h.1
      rw [if_neg hswap, h.slotOwner]
      exact if_congr (or_iff_left hno).symm rfl rfl
  ram := by
    rw [vmReleasePage_frame]
    split_ifs
    · rw [frameBytes_frameFree, h.ram]
    · exact h.ram
  disk := by
    rw [vmReleasePage_swap]
    split_ifs
    · rw [slotBytes_swapFree, h.disk]
    · exact h.disk
  vms := by
    rw [← h.vms, vmReleasePage]
    split_ifs <;> rfl
  pager := by
    rw [← h.pager, vmReleasePage]
    split_ifs <;> rfl

/-- The loop over the page table. -/
theorem released_spec (s : VmSys) (pt : PageTable) (n : ℕ) :
    Released s ((List.range n).foldl (vmReleasePage pt) s) pt n := by
  induction n with
  | zero =>
    have hframe : ∀ f, ¬ HoldsFrame pt 0 f := fun f h => by
      obtain ⟨v, hv, -⟩ := h
      exact absurd hv (Nat.not_lt_zero v)
    have hslot : ∀ sl, ¬ HoldsSlot pt 0 sl := fun sl h => by
      obtain ⟨v, hv, -⟩ := h
      exact absurd hv (Nat.not_lt_zero v)
    exact ⟨fun f => (if_neg (hframe f)).symm,
      fun sl => (if_neg (hslot sl)).symm, rfl, rfl, rfl, rfl⟩
  | succ n ih =>
    rw [List.range_succ, List.foldl_append]
    exact ih.succ

/-! ### Ownership -/

/-- Frames and swap slots belong to the pages that say so, and to no others; a page table has 256
entries. -/
structure VmSys.OwnsExactly (s : VmSys) : Prop where
  frame : ∀ f p v, frameGetOwner s.frame f = some (p, v) ↔
    v < vmNumPages ∧ ∃ e, s.pte p v = some e ∧ e.present = true ∧ e.frameNum = f
  slot : ∀ sl p v, swapGetOwner s.swap sl = some (p, v) ↔
    v < vmNumPages ∧ ∃ e, s.pte p v = some e ∧ e.inSwap = true ∧ e.swapSlot = sl

/-- The process is gone with its frames and slots, everything else is as it was, and the policy
tracks the frames that are still in use; a frame that is mapped from now on comes last in fifo. -/
structure TornDown (s s' : VmSys) (pid : ℤ) : Prop where
  frames : ∀ f, frameGetOwner s'.frame f = (frameGetOwner s.frame f).filter fun k => k.1 ≠ pid
  slots : ∀ sl, swapGetOwner s'.swap sl = (swapGetOwner s.swap sl).filter fun k => k.1 ≠ pid
  vms : s'.vms = Function.update s.vms pid none
  ram : frameBytes s'.frame = frameBytes s.frame
  disk : slotBytes s'.swap = slotBytes s.swap
  tracks : TracksAll s'
  newest : ∀ queue f, s'.pager.policy = .fifo queue → f < vmNumFrames →
    frameGetOwner s'.frame f = none → fifoInsert queue f = queue ++ [f]

/-- The policy tracks the frames of the other processes, and no other frames. -/
structure TracksOthers (s : VmSys) (pid : ℤ) : Prop where
  ok : PolicyOk s.pager.policy
  exact : ∀ f, f ∈ s.pager.policy.tracked ↔
    ∃ k, frameGetOwner s.frame f = some k ∧ k.1 ≠ pid

/-- In the owner table those entries are deleted that the page table names. -/
theorem filter_owner {owner : Option PageKey} {c : Prop} [Decidable c]
    (h : c ↔ ∃ k, owner = some k ∧ k.1 = pid) :
    (if c then none else owner) = owner.filter fun k => k.1 ≠ pid := by
  cases owner with
  | none => rw [ite_self]; rfl
  | some k =>
    by_cases hk : k.1 = pid
    · rw [if_pos (h.mpr ⟨k, rfl, hk⟩), Option.filter_some_neg (by simpa using hk)]
    · have hc : ¬ c := by
        intro hc
        obtain ⟨k', hk', hpid⟩ := h.mp hc
        exact hk (Option.some.inj hk' ▸ hpid)
      rw [if_neg hc, Option.filter_some_pos (by simpa using hk)]

theorem VmSys.OwnsExactly.holdsFrame (h : s.OwnsExactly) {vm : VmState} (hvm : s.vms pid = some vm)
    (f : ℕ) : HoldsFrame vm.pt vmNumPages f ↔
      ∃ k, frameGetOwner s.frame f = some k ∧ k.1 = pid := by
  have hpte : ∀ v, s.pte pid v = some (vm.pt v) := fun v => by rw [VmSys.pte, hvm]; rfl
  constructor
  · rintro ⟨v, hv, hpresent, hf⟩
    exact ⟨(pid, v), (h.frame f pid v).mpr ⟨hv, vm.pt v, hpte v, hpresent, hf⟩, rfl⟩
  · rintro ⟨⟨p, v⟩, hown, rfl⟩
    obtain ⟨hv, e, he, hpresent, hf⟩ := (h.frame f p v).mp hown
    rw [hpte v, Option.some_inj] at he
    exact ⟨v, hv, by rw [he]; exact hpresent, by rw [he]; exact hf⟩

theorem VmSys.OwnsExactly.holdsSlot (h : s.OwnsExactly) {vm : VmState} (hvm : s.vms pid = some vm)
    (sl : ℕ) : HoldsSlot vm.pt vmNumPages sl ↔
      ∃ k, swapGetOwner s.swap sl = some k ∧ k.1 = pid := by
  have hpte : ∀ v, s.pte pid v = some (vm.pt v) := fun v => by rw [VmSys.pte, hvm]; rfl
  constructor
  · rintro ⟨v, hv, hswap, hsl⟩
    exact ⟨(pid, v), (h.slot sl pid v).mpr ⟨hv, vm.pt v, hpte v, hswap, hsl⟩, rfl⟩
  · rintro ⟨⟨p, v⟩, hown, rfl⟩
    obtain ⟨hv, e, he, hswap, hsl⟩ := (h.slot sl p v).mp hown
    rw [hpte v, Option.some_inj] at he
    exact ⟨v, hv, by rw [he]; exact hswap, by rw [he]; exact hsl⟩

/-- A process without an address space owns nothing. -/
theorem VmSys.OwnsExactly.owner_ne (h : s.OwnsExactly) (hvm : s.vms pid = none) (k : PageKey) :
    (∀ f, frameGetOwner s.frame f = some k → k.1 ≠ pid) ∧
      ∀ sl, swapGetOwner s.swap sl = some k → k.1 ≠ pid := by
  obtain ⟨p, v⟩ := k
  have hpte : p = pid → s.pte p v = none := fun hp => by rw [VmSys.pte, hp, hvm]; rfl
  refine ⟨fun f hf hp => ?_, fun sl hsl hp => ?_⟩
  · obtain ⟨-, e, he, -⟩ := (h.frame f p v).mp hf
    rw [hpte hp] at he
    cases he
  · obtain ⟨-, e, he, -⟩ := (h.slot sl p v).mp hsl
    rw [hpte hp] at he
    cases he

/-- What `vm_proc_destroy` does; the policy is left as it is. -/
theorem vmProcDestroy_spec (h : s.OwnsExactly) (pid : ℤ) :
    (∀ f, frameGetOwner (vmProcDestroy s pid).frame f =
        (frameGetOwner s.frame f).filter fun k => k.1 ≠ pid) ∧
      (∀ sl, swapGetOwner (vmProcDestroy s pid).swap sl =
        (swapGetOwner s.swap sl).filter fun k => k.1 ≠ pid) ∧
      (vmProcDestroy s pid).vms = Function.update s.vms pid none ∧
      frameBytes (vmProcDestroy s pid).frame = frameBytes s.frame ∧
      slotBytes (vmProcDestroy s pid).swap = slotBytes s.swap ∧
      (vmProcDestroy s pid).pager = s.pager := by
  cases hvm : s.vms pid with
  | none =>
    have heq : vmProcDestroy s pid = s := by rw [vmProcDestroy, hvm]
    have hkeep : ∀ {owner : Option PageKey}, (∀ k, owner = some k → k.1 ≠ pid) →
        owner = owner.filter fun k => k.1 ≠ pid := by
      intro owner howner
      cases owner with
      | none => rfl
      | some k => rw [Option.filter_some_pos (by simpa using howner k rfl)]
    rw [heq]
    refine ⟨fun f => hkeep fun k => (h.owner_ne hvm k).1 f,
      fun sl => hkeep fun k => (h.owner_ne hvm k).2 sl, ?_, rfl, rfl, rfl⟩
    rw [← hvm, Function.update_eq_self]
  | some vm =>
    have hspec := released_spec s vm.pt vmNumPages
    have heq : vmProcDestroy s pid =
        { (List.range vmNumPages).foldl (vmReleasePage vm.pt) s with
          vms := Function.update ((List.range vmNumPages).foldl (vmReleasePage vm.pt) s).vms pid
            none } := by
      rw [vmProcDestroy, hvm]
    rw [heq]
    refine ⟨fun f => ?_, fun sl => ?_, ?_, hspec.ram, hspec.disk, hspec.pager⟩
    · exact (hspec.owner f).trans (filter_owner (h.holdsFrame hvm f))
    · exact (hspec.slotOwner sl).trans (filter_owner (h.holdsSlot hvm sl))
    · rw [hspec.vms]

/-! ### The tracker -/

theorem filter_isSome {owner : Option PageKey} : (owner.filter fun k => k.1 ≠ pid).isSome = true ↔
    ∃ k, owner = some k ∧ k.1 ≠ pid := by
  rw [Option.isSome_iff_exists]
  refine exists_congr fun k => ?_
  rw [Option.filter_eq_some_iff, decide_eq_true_eq]

theorem tracksAll_destroyed (h : s.OwnsExactly) :
    TracksAll (vmProcDestroy s pid) ↔ TracksOthers s pid := by
  obtain ⟨howner, -, -, -, -, hpager⟩ := vmProcDestroy_spec h pid
  have hsome : ∀ f, ((vmProcDestroy s pid).paged.owner f).isSome = true ↔
      ∃ k, frameGetOwner s.frame f = some k ∧ k.1 ≠ pid := by
    intro f
    rw [← filter_isSome, ← howner f]
    rfl
  constructor
  · rintro ⟨hok, hexact⟩
    rw [hpager] at hok hexact
    exact ⟨hok, fun f => (hexact f).trans (hsome f)⟩
  · rintro ⟨hok, hexact⟩
    refine ⟨?_, fun f => ?_⟩
    · rw [hpager]
      exact hok
    · rw [hpager]
      exact (hexact f).trans (hsome f).symm

/-- A frame that is not in use comes last when it is mapped. -/
theorem TracksAll.newest (h : TracksAll s) {queue : List ℕ} (hfifo : s.pager.policy = .fifo queue)
    {f : ℕ} (hf : f < vmNumFrames) (hfree : frameGetOwner s.frame f = none) :
    fifoInsert queue f = queue ++ [f] := by
  have hnot := h.not_mem hfree
  have hlt : ∀ g ∈ s.pager.policy.tracked, g < vmNumFrames := fun g hg =>
    owner_lt ((h.exact g).mp hg)
  have hlen := length_lt_of_not_mem h.ok.nodup hlt hf hnot
  have hinsert : (s.pager.policy.insert f 0).tracked = s.pager.policy.tracked ++ [f] :=
    tracked_insert hnot hlen
  rw [hfifo] at hinsert
  exact hinsert

/-- **Teardown.**  For every state with exact ownership and every process, the address space is
torn down completely and locally, with the policy in step, exactly if the policy tracked nothing
but the frames of the others.  When it tracked the frames in use, this means that the process had
no page in memory. -/
theorem teardown (s : VmSys) (h : s.OwnsExactly) (pid : ℤ) :
    (TornDown s (vmProcDestroy s pid) pid ↔ TracksOthers s pid) ∧
      (TracksAll s → (TornDown s (vmProcDestroy s pid) pid ↔
        ∀ f v, frameGetOwner s.frame f ≠ some (pid, v))) := by
  obtain ⟨howner, hslot, hvms, hram, hdisk, hpager⟩ := vmProcDestroy_spec h pid
  have hiff : TornDown s (vmProcDestroy s pid) pid ↔ TracksOthers s pid := by
    rw [← tracksAll_destroyed h]
    exact ⟨fun ht => ht.tracks, fun ht => ⟨howner, hslot, hvms, hram, hdisk, ht,
      fun queue f hfifo hf hfree => ht.newest hfifo hf hfree⟩⟩
  refine ⟨hiff, fun htracks => hiff.trans ⟨fun hothers f v hown => ?_, fun hnone => ?_⟩⟩
  · have hmem : f ∈ s.pager.policy.tracked := (htracks.exact f).mpr (by
      rw [Option.isSome_iff_exists]
      exact ⟨_, hown⟩)
    obtain ⟨k, hk, hne⟩ := (hothers.exact f).mp hmem
    rw [hown, Option.some_inj] at hk
    exact hne (by rw [← hk])
  · refine ⟨htracks.ok, fun f => (htracks.exact f).trans ?_⟩
    rw [Option.isSome_iff_exists]
    refine exists_congr fun k => ⟨fun hk => ⟨hk, ?_⟩, fun hk => hk.1⟩
    rintro rfl
    exact hnone f k.2 hk

/-- Page numbers that are handed out have eight bits. -/
theorem PagerOp.ownsExactly (ops : List PagerOp)
    (hframe : ∀ f < vmNumFrames, ∀ k ∈ frameGetOwner (Runs.run PagerOp.exec vmInit ops).frame f,
      k.2 < vmNumPages)
    (hslot : ∀ sl < vmNumSwapSlots, ∀ k ∈ swapGetOwner (Runs.run PagerOp.exec vmInit ops).swap sl,
      k.2 < vmNumPages) : (Runs.run PagerOp.exec vmInit ops).OwnsExactly := by
  obtain ⟨he, -⟩ := PagerOp.run_invariant ops
  refine ⟨fun f p v => ⟨fun hown => ?_, fun hclaim => ?_⟩,
    fun sl p v => ⟨fun hown => ?_, fun hclaim => ?_⟩⟩
  · exact ⟨hframe f (frameGetOwner_lt hown) (p, v) hown, entry_frame_iff.mp (he.owner_claims hown)⟩
  · exact he.frame_owned (entry_frame_iff.mpr hclaim.2)
  · exact ⟨hslot sl (swapGetOwner_lt hown) (p, v) hown,
      entry_slot_iff.mp (he.slotOwner_claims hown)⟩
  · exact he.slot_owned (entry_slot_iff.mpr hclaim.2)

/-- A process without pages beside one that has one. -/
def idleRun : List PagerOp := [.create 1, .create 2, .access 2 40 true 1]

theorem teardown_idle :
    TornDown (Runs.run PagerOp.exec vmInit idleRun)
      (vmProcDestroy (Runs.run PagerOp.exec vmInit idleRun) 1) 1 := by
  have hpolicy : (Runs.run PagerOp.exec vmInit idleRun).pager.policy = .fifo [0] := by
    decide +kernel
  have howner : ∀ f < vmNumFrames, f ∈ [0] ↔
      ((frameGetOwner (Runs.run PagerOp.exec vmInit idleRun).frame f).filter fun k =>
        k.1 ≠ (1 : ℤ)).isSome = true := by decide +kernel
  refine (teardown _ (PagerOp.ownsExactly idleRun (by decide +kernel) (by decide +kernel)) 1).1.mpr
    ⟨?_, fun f => ?_⟩
  · rw [hpolicy]
    exact List.nodup_singleton 0
  · rw [hpolicy, ← filter_isSome]
    by_cases hf : f < vmNumFrames
    · exact howner f hf
    · have hnone : frameGetOwner (Runs.run PagerOp.exec vmInit idleRun).frame f = none :=
        if_neg fun h => hf h.1
      rw [hnone]
      refine iff_of_false (fun hmem => ?_) nofun
      rw [List.mem_singleton.mp hmem] at hf
      exact hf (by decide)

/-- Each of two processes has one page, the first one was mapped first. -/
def twoPages : List PagerOp := [.create 1, .create 2, .access 1 40 true 1, .access 2 40 true 2]

/-- The frame of the process that is gone is still the next one to be given up, also when it holds
a new page of the other process. -/
theorem teardown_stale :
    let s := Runs.run PagerOp.exec vmInit twoPages
    let s' := (PagerOp.access 2 41 true 3).exec (vmProcDestroy s 1)
    s.OwnsExactly ∧ frameGetOwner (vmProcDestroy s 1).frame 0 = none ∧
      (vmProcDestroy s 1).pager.policy = .fifo [0, 1] ∧
      frameGetOwner s'.frame 0 = some (2, 41) ∧ s'.pager.policy = .fifo [0, 1] :=
  ⟨PagerOp.ownsExactly twoPages (by decide +kernel) (by decide +kernel), by decide +kernel,
    by decide +kernel, by decide +kernel, by decide +kernel⟩

end Mosrt
