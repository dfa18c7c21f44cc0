/-
What the replacement policies track.

The three policies keep their pages in different ways; `Policy.tracked` is the list of
them, and the operations do the same to it whichever policy is active:

* `tracked_insert`, `tracked_update` — a new page goes to the end, a known one stays;
* `Policy.evict_nil`, `Policy.evict_cons` — an eviction takes one page out, or there is
  none;
* `policyReinsert_spec` — a policy just selected tracks the allocated frames, in order.
-/
import Mosrt.Pager
import Mosrt.ClockHand

namespace Mosrt

variable {pol : Policy} {pt : PageTable} {f tick vpn : ℕ} {pages pages' rest : List LruEntry}
  {e best : LruEntry}

/-- The pages a policy tracks, in its own order. -/
def Policy.tracked : Policy → List ℕ
  | .fifo queue => queue
  | .lru pages => pages.map (·.vpn)
  | .clock c => c.pages

/-- No page is tracked twice, and the hand of the clock points to one. -/
def PolicyOk : Policy → Prop
  | .fifo queue => queue.Nodup
  | .lru pages => (pages.map (·.vpn)).Nodup
  | .clock c => ClockOk c

theorem PolicyOk.nodup (h : PolicyOk pol) : pol.tracked.Nodup := by
  cases pol with
  | fifo queue => exact h
  | lru pages => exact h
  | clock c => exact ClockOk.nodup h

/-- The policy is fifo. -/
def Policy.isFifo : Policy → Bool
  | .fifo _ => true
  | _ => false

theorem isFifo_update : (pol.update f tick).isFifo = pol.isFifo := by
  cases pol <;> rfl

theorem isFifo_insert : (pol.insert f tick).isFifo = pol.isFifo := by
  cases pol <;> rfl

theorem isFifo_evict : (pol.evict pt).2.1.isFifo = pol.isFifo := by
  cases pol <;> rfl

/-! ### Least recently used -/

/-- Refreshing an entry changes its tick only. -/
theorem lruRefresh_spec (vpn tick : ℕ) (pages : List LruEntry) :
    (vpn ∉ pages.map (·.vpn) ∧ lruRefresh vpn tick pages = none) ∨
      vpn ∈ pages.map (·.vpn) ∧ ∃ pages', lruRefresh vpn tick pages = some pages' ∧
        pages'.map (·.vpn) = pages.map (·.vpn) := by
  induction pages with
  | nil => exact .inl ⟨List.not_mem_nil, rfl⟩
  | cons e rest ih =>
    rw [lruRefresh, List.map_cons]
    by_cases he : e.vpn = vpn
    · rw [if_pos he]
      exact .inr ⟨List.mem_cons.mpr (.inl he.symm), _, rfl, rfl⟩
    · rw [if_neg he]
      rcases ih with ⟨hnot, hnone⟩ | ⟨hmem, pages', hsome, hmap⟩
      · refine .inl ⟨?_, by rw [hnone]; rfl⟩
        exact List.not_mem_cons_of_ne_of_not_mem (fun heq => he heq.symm) hnot
      · refine .inr ⟨List.mem_cons_of_mem _ hmem, e :: pages', by rw [hsome]; rfl, ?_⟩
        rw [List.map_cons, hmap]

theorem lruUpdate_known (hmem : vpn ∈ pages.map (·.vpn)) :
    (lruUpdate pages vpn tick).map (·.vpn) = pages.map (·.vpn) := by
  rcases lruRefresh_spec vpn tick pages with
    ⟨hnot, -⟩ | ⟨-, pages', hsome, hmap⟩
  · exact absurd hmem hnot
  · rw [lruUpdate, hsome]
    exact hmap

theorem lruUpdate_new (hnot : vpn ∉ pages.map (·.vpn)) (hlen : pages.length < maxLruPages) :
    lruUpdate pages vpn tick = pages ++ [{ vpn := vpn, lastTick := tick % 2 ^ 32 }] := by
  rcases lruRefresh_spec vpn tick pages with ⟨-, hnone⟩ | ⟨hmem, -⟩
  · rw [lruUpdate, hnone]
    exact if_pos hlen
  · exact absurd hmem hnot

/-- The entries after an update: the one for the page, with the tick, and the others. -/
theorem mem_lruUpdate (hn : (pages.map (·.vpn)).Nodup) (he : e ∈ lruUpdate pages vpn tick) :
    (e.vpn = vpn ∧ e.lastTick = tick % 2 ^ 32) ∨ e.vpn ≠ vpn ∧ e ∈ pages := by
  have hrefresh : ∀ pages pages' : List LruEntry, (pages.map (·.vpn)).Nodup →
      lruRefresh vpn tick pages = some pages' → e ∈ pages' →
        (e.vpn = vpn ∧ e.lastTick = tick % 2 ^ 32) ∨ e.vpn ≠ vpn ∧ e ∈ pages := by
    intro pages
    induction pages with
    | nil => exact nofun
    | cons d rest ih =>
      intro pages' hn hsome he
      obtain ⟨hd, hn⟩ := List.nodup_cons.mp hn
      rw [lruRefresh] at hsome
      split_ifs at hsome with hdv
      · rw [← Option.some.inj hsome] at he
        rcases List.mem_cons.mp he with rfl | he
        · exact .inl ⟨hdv, rfl⟩
        · refine .inr ⟨fun hev => hd ?_, List.mem_cons_of_mem _ he⟩
          show d.vpn ∈ rest.map _
          rw [hdv, ← hev]
          exact List.mem_map_of_mem he
      · obtain ⟨rest', hrest, rfl⟩ := Option.map_eq_some_iff.mp hsome
        rcases List.mem_cons.mp he with rfl | he
        · exact .inr ⟨hdv, List.mem_cons_self⟩
        · exact (ih rest' hn hrest he).imp_right fun h => ⟨h.1, List.mem_cons_of_mem _ h.2⟩
  rcases lruRefresh_spec vpn tick pages with ⟨hnot, hnone⟩ | ⟨-, pages', hsome, -⟩
  · have hother : ∀ d ∈ pages, d.vpn ≠ vpn := by
      rintro d hd rfl
      exact hnot (List.mem_map_of_mem hd)
    rw [lruUpdate, hnone] at he
    dsimp only at he
    split_ifs at he
    · rcases List.mem_append.mp he with he | he
      · exact .inr ⟨hother e he, he⟩
      · rw [List.mem_singleton.mp he]
        exact .inl ⟨rfl, rfl⟩
    · exact .inr ⟨hother e he, he⟩
  · rw [lruUpdate, hsome] at he
    exact hrefresh pages pages' hn hsome he

/-- The entry chosen is one of them, and none has an older tick. -/
theorem lruOldest_spec (best : LruEntry) (rest : List LruEntry) :
    lruOldest best rest ∈ best :: rest ∧
      ∀ e ∈ best :: rest, (lruOldest best rest).lastTick ≤ e.lastTick := by
  induction rest generalizing best with
  | nil => exact ⟨List.mem_cons_self, fun e he => by rw [List.mem_singleton.mp he]; rfl⟩
  | cons d rest ih =>
    rw [lruOldest]
    split_ifs with hlt
    · obtain ⟨hmem, hmin⟩ := ih d
      refine ⟨List.mem_cons_of_mem _ hmem, fun e he => ?_⟩
      rcases List.mem_cons.mp he with rfl | he
      · exact (hmin d List.mem_cons_self).trans hlt.le
      · exact hmin e he
    · obtain ⟨hmem, hmin⟩ := ih best
      have hbest := hmin best List.mem_cons_self
      refine ⟨?_, fun e he => ?_⟩
      · rcases List.mem_cons.mp hmem with heq | hmem
        · rw [heq]
          exact List.mem_cons_self
        · exact List.mem_cons_of_mem _ (List.mem_cons_of_mem _ hmem)
      · rcases List.mem_cons.mp he with rfl | he
        · exact hbest
        · rcases List.mem_cons.mp he with rfl | he
          · omega
          · exact hmin e (List.mem_cons_of_mem _ he)

/-- With distinct images, removing an element removes its image. -/
theorem map_erase_of_nodup {α β : Type*} [DecidableEq α] [DecidableEq β] {g : α → β} {l : List α}
    {a : α} (hn : (l.map g).Nodup) (ha : a ∈ l) : (l.erase a).map g = (l.map g).erase (g a) := by
  induction l with
  | nil => cases ha
  | cons b l ih =>
    obtain ⟨hb, hn⟩ := List.nodup_cons.mp hn
    by_cases heq : b = a
    · rw [heq, List.erase_cons_head, List.map_cons, List.erase_cons_head]
    · have ha : a ∈ l := (List.mem_cons.mp ha).resolve_left fun h => heq h.symm
      have hg : g b ≠ g a := fun h => hb (h ▸ List.mem_map_of_mem ha)
      rw [List.erase_cons_tail (by simpa using heq), List.map_cons, List.map_cons,
        List.erase_cons_tail (by simpa using hg), ih hn ha]

/-- An eviction takes out an entry with the oldest tick. -/
theorem lruEvict_spec (hn : (pages.map (·.vpn)).Nodup) (hne : pages ≠ []) :
    ∃ e ∈ pages, (∀ d ∈ pages, e.lastTick ≤ d.lastTick) ∧
      lruEvict pages = (some e.vpn, pages.erase e) ∧
      (pages.erase e).map (·.vpn) = (pages.map (·.vpn)).erase e.vpn := by
  obtain ⟨best, rest, rfl⟩ := List.exists_cons_of_ne_nil hne
  obtain ⟨hmem, hmin⟩ := lruOldest_spec best rest
  exact ⟨lruOldest best rest, hmem, hmin, rfl, map_erase_of_nodup hn hmem⟩

/-! ### The active policy -/

theorem tracked_update (hmem : f ∈ pol.tracked) :
    (pol.update f tick).tracked = pol.tracked := by
  cases pol with
  | fifo queue => rfl
  | lru pages => exact lruUpdate_known hmem
  | clock c => rfl

theorem tracked_insert (hnot : f ∉ pol.tracked) (hlen : pol.tracked.length < vmNumFrames) :
    (pol.insert f tick).tracked = pol.tracked ++ [f] := by
  have hbig : vmNumFrames ≤ maxQueueSize := by decide
  cases pol with
  | fifo queue =>
    have hnot : f ∉ queue := hnot
    have hlen : queue.length < maxQueueSize := lt_of_lt_of_le hlen hbig
    show fifoInsert queue f = queue ++ [f]
    rw [fifoInsert, if_neg hnot, if_pos hlen]
  | lru pages =>
    have hlen' : pages.length < maxLruPages := by
      rw [Policy.tracked, List.length_map] at hlen
      exact lt_of_lt_of_le hlen hbig
    show (lruUpdate pages f tick).map (·.vpn) = pages.map (·.vpn) ++ [f]
    rw [lruUpdate_new hnot hlen', List.map_append]
    rfl
  | clock c =>
    have hnot : f ∉ c.pages := hnot
    have hlen : c.pages.length < vmNumFrames := hlen
    show (clockInsert c f).pages = c.pages ++ [f]
    rw [clockInsert, if_neg hnot, if_pos hlen]

theorem PolicyOk.lruUpdate (hn : (pages.map (·.vpn)).Nodup) :
    ((lruUpdate pages vpn tick).map (·.vpn)).Nodup := by
  by_cases hmem : vpn ∈ pages.map (·.vpn)
  · rw [lruUpdate_known hmem]
    exact hn
  · by_cases hlen : pages.length < maxLruPages
    · rw [lruUpdate_new hmem hlen, List.map_append]
      exact hn.append (List.nodup_singleton vpn) (List.disjoint_singleton.mpr hmem)
    · rcases lruRefresh_spec vpn tick pages with
        ⟨-, hnone⟩ | ⟨hmem', -⟩
      · rw [Mosrt.lruUpdate, hnone]
        dsimp only
        rw [if_neg hlen]
        exact hn
      · exact absurd hmem' hmem

theorem PolicyOk.update (h : PolicyOk pol) : PolicyOk (pol.update f tick) := by
  cases pol with
  | fifo queue => exact h
  | lru pages => exact PolicyOk.lruUpdate h
  | clock c => exact h

theorem PolicyOk.insert (h : PolicyOk pol) : PolicyOk (pol.insert f tick) := by
  cases pol with
  | fifo queue =>
    show (fifoInsert queue f).Nodup
    rw [fifoInsert]
    split_ifs with hmem hlen
    · exact h
    · exact List.Nodup.append h (List.nodup_singleton f) (List.disjoint_singleton.mpr hmem)
    · exact h
  | lru pages => exact PolicyOk.lruUpdate h
  | clock c => exact ClockOk.insert h f

/-- Nothing but the page itself comes in. -/
theorem mem_tracked_lruUpdate {g : ℕ} (hmem : g ∈ (lruUpdate pages vpn tick).map (·.vpn)) :
    g ∈ pages.map (·.vpn) ∨ g = vpn := by
  rcases lruRefresh_spec vpn tick pages with ⟨-, hnone⟩ | ⟨hknown, -⟩
  · rw [lruUpdate, hnone] at hmem
    dsimp only at hmem
    split_ifs at hmem
    · rw [List.map_append] at hmem
      exact (List.mem_append.mp hmem).imp_right List.mem_singleton.mp
    · exact .inl hmem
  · rw [lruUpdate_known hknown] at hmem
    exact .inl hmem

theorem mem_tracked_update {g : ℕ} (hmem : g ∈ (pol.update f tick).tracked) :
    g ∈ pol.tracked ∨ g = f := by
  cases pol with
  | fifo queue => exact .inl hmem
  | lru pages => exact mem_tracked_lruUpdate hmem
  | clock c => exact .inl hmem

theorem mem_tracked_insert {g : ℕ} (hmem : g ∈ (pol.insert f tick).tracked) :
    g ∈ pol.tracked ∨ g = f := by
  cases pol with
  | fifo queue =>
    change g ∈ fifoInsert queue f at hmem
    rw [fifoInsert] at hmem
    split_ifs at hmem
    · exact .inl hmem
    · exact (List.mem_append.mp hmem).imp_right List.mem_singleton.mp
    · exact .inl hmem
  | lru pages => exact mem_tracked_lruUpdate hmem
  | clock c =>
    change g ∈ (clockInsert c f).pages at hmem
    rw [clockInsert] at hmem
    split_ifs at hmem
    · exact .inl hmem
    · exact (List.mem_append.mp hmem).imp_right List.mem_singleton.mp
    · exact .inl hmem

/-- A policy that tracks nothing gives nothing up. -/
theorem Policy.evict_nil (hnil : pol.tracked = []) (pt : PageTable) :
    pol.evict pt = (none, pol, pt) := by
  cases pol with
  | fifo queue =>
    obtain rfl : queue = [] := hnil
    rfl
  | lru pages =>
    obtain rfl : pages = [] := List.map_eq_nil_iff.mp hnil
    rfl
  | clock c =>
    have hlen : c.pages.length = 0 := List.length_eq_zero_iff.mpr hnil
    rw [Policy.evict, clockEvict, if_pos hlen]

/-- Otherwise it gives up one of the pages it tracks, and keeps the others in order. -/
theorem Policy.evict_cons (h : PolicyOk pol) (hne : pol.tracked ≠ []) (pt : PageTable) :
    ∃ f ∈ pol.tracked, (pol.evict pt).1 = some f ∧
      (pol.evict pt).2.1.tracked = pol.tracked.erase f ∧ PolicyOk (pol.evict pt).2.1 := by
  cases pol with
  | fifo queue =>
    obtain ⟨f, rest, rfl⟩ : ∃ f rest, queue = f :: rest := List.exists_cons_of_ne_nil hne
    exact ⟨f, List.mem_cons_self, rfl, (List.erase_cons_head ..).symm, (List.nodup_cons.mp h).2⟩
  | lru pages =>
    have hne' : pages ≠ [] := fun hnil => hne (by rw [hnil]; rfl)
    obtain ⟨e, he, -, heq, hmap⟩ := lruEvict_spec h hne'
    refine ⟨e.vpn, List.mem_map_of_mem he, ?_, ?_, ?_⟩
    · rw [Policy.evict, heq]
    · rw [Policy.evict, heq]
      exact hmap
    · rw [Policy.evict, heq]
      show ((pages.erase e).map (·.vpn)).Nodup
      rw [hmap]
      exact List.Nodup.erase _ h
  | clock c =>
    obtain ⟨v, hv, -, heq, -⟩ := clockEvict_eq h hne pt
    have hok := ClockOk.evict h pt
    rw [heq] at hok
    refine ⟨v, hv, ?_, ?_, ?_⟩
    · rw [Policy.evict, heq]
    · rw [Policy.evict, heq]
      exact List.eraseIdx_idxOf_eq_erase v c.pages
    · rw [Policy.evict, heq]
      exact hok

/-! ### Selection -/

theorem Policy.ofName_fresh {name : String} (h : Policy.ofName name = some pol) :
    pol.tracked = [] ∧ PolicyOk pol := by
  rw [Policy.ofName] at h
  split_ifs at h <;> cases h
  · exact ⟨rfl, List.nodup_nil⟩
  · exact ⟨rfl, List.nodup_nil⟩
  · exact ⟨rfl, List.nodup_nil, .inl ⟨rfl, rfl⟩⟩

/-- The frames in use among the first `n`. -/
def allocatedBelow (fr : FrameState) (n : ℕ) : List ℕ :=
  (List.range n).filter fun f => (frameGetOwner fr f).isSome

theorem allocatedBelow_succ (fr : FrameState) (n : ℕ) :
    allocatedBelow fr (n + 1) =
      allocatedBelow fr n ++ if (frameGetOwner fr n).isSome then [n] else [] := by
  rw [allocatedBelow, List.range_succ, List.filter_append, List.filter_singleton, allocatedBelow]
  cases (frameGetOwner fr n).isSome <;> rfl

theorem length_allocatedBelow_le (fr : FrameState) (n : ℕ) : (allocatedBelow fr n).length ≤ n := by
  have := List.length_filter_le (fun f => (frameGetOwner fr f).isSome) (List.range n)
  rwa [List.length_range] at this

/-- A policy just selected tracks the frames in use, in the order of their numbers. -/
theorem policyReinsert_spec (fr : FrameState) (hnil : pol.tracked = []) (hok : PolicyOk pol) :
    (policyReinsert fr pol).tracked = allocatedBelow fr vmNumFrames ∧
      PolicyOk (policyReinsert fr pol) := by
  have key : ∀ n ≤ vmNumFrames, ((List.range n).foldl
      (fun p pfn => if (frameGetOwner fr pfn).isSome then p.insert pfn 0 else p) pol).tracked =
        allocatedBelow fr n ∧
      PolicyOk ((List.range n).foldl
        (fun p pfn => if (frameGetOwner fr pfn).isSome then p.insert pfn 0 else p) pol) := by
    intro n hn
    induction n with
    | zero => exact ⟨hnil, hok⟩
    | succ n ih =>
      obtain ⟨htracked, hok'⟩ := ih (by omega)
      rw [List.range_succ, List.foldl_append, allocatedBelow_succ]
      generalize (List.range n).foldl
        (fun p pfn => if (frameGetOwner fr pfn).isSome then p.insert pfn 0 else p) pol = p at *
      rw [List.foldl_cons, List.foldl_nil]
      by_cases hown : (frameGetOwner fr n).isSome = true
      · rw [if_pos hown, if_pos hown]
        refine ⟨?_, hok'.insert⟩
        rw [tracked_insert, htracked]
        · rw [htracked, allocatedBelow]
          simp
        · rw [htracked]
          exact lt_of_le_of_lt (length_allocatedBelow_le fr n) (by omega)
      · rw [if_neg hown, if_neg hown, List.append_nil]
        exact ⟨htracked, hok'⟩
  exact key vmNumFrames le_rfl

end Mosrt
