/-
The walks of an allocation on a well-formed heap.

* `traceWalk_visits` — a walk visits the first headers of the list, one after the other;
* `traceMalloc_spec` — no walk of an allocation visits a header twice, with fuel for every
  block the call comes to an end, and a call that ends leaves the heap well formed.
-/
import Mosrt.AllocTrace
import Mosrt.HeapSpec

namespace Mosrt

open BlockList StateSim

variable {fresh : FlatHeap → ℕ → UInt8} {h h' : FlatHeap} {hd : BlockHdr} {a n p fuel : ℕ}
  {bs : List Block}

/-! ### One walk -/

/-- One iteration of a walk on a reliable store. -/
theorem traceWalk_step :
    (traceWalk (flatHeapOps fresh) n (fuel + 1) a hd).run h =
      if a < h.heapBreak then
        if (h.hdr a).isFree = true ∧ n ≤ (h.hdr a).size then (([a], some (.found a (h.hdr a))), h)
        else if (h.hdr a).next = 0 then (([a], some (.exhausted a (h.hdr a))), h)
        else
          let r := (traceWalk (flatHeapOps fresh) n fuel (h.hdr a).next (h.hdr a)).run h
          ((a :: r.1.1, r.1.2), r.2)
      else (([], some (.exhausted a hd)), h) := by
  have hbreak : (flatHeapOps fresh).heapBreak h = h.heapBreak := rfl
  have hread : (readHdr (flatHeapOps fresh) a).run h = (some (h.hdr a), h) := rfl
  rw [traceWalk, run_get_bind, hbreak]
  split_ifs with hlt hfits hnext
  · rw [run_bind, hread]
    dsimp only
    rw [if_pos hfits]
    rfl
  · rw [run_bind, hread]
    dsimp only
    rw [if_neg hfits, if_pos hnext]
    rfl
  · rw [run_bind, hread]
    dsimp only
    rw [if_neg hfits, if_neg hnext, run_bind]
    rfl
  · rfl

theorem traceWalk_heap (fresh : FlatHeap → ℕ → UInt8) (n fuel a : ℕ) (hd : BlockHdr)
    (h : FlatHeap) : ((traceWalk (flatHeapOps fresh) n fuel a hd).run h).2 = h := by
  induction fuel generalizing a hd with
  | zero => rfl
  | succ fuel ih =>
    rw [traceWalk_step]
    split_ifs
    · rfl
    · rfl
    · exact ih _ _
    · rfl

/-- A walk visits headers of the list in their order. -/
theorem traceWalk_visits (fresh : FlatHeap → ℕ → UInt8) (n fuel : ℕ) (hd : BlockHdr)
    (hs : Seg h p a bs 0) (hend : a + extent 8 bs = h.heapBreak) :
    ((traceWalk (flatHeapOps fresh) n fuel a hd).run h).1.1 <+: addrs 8 a bs := by
  induction fuel generalizing p a bs hd with
  | zero => exact List.nil_prefix
  | succ fuel ih =>
    rw [traceWalk_step]
    cases bs with
    | nil =>
      -- behind the last block the walk stops at once
      rw [extent_nil] at hend
      rw [if_neg (by omega)]
      exact List.nil_prefix
    | cons b bs =>
      obtain ⟨hh, hrest⟩ := hs
      rw [extent_cons] at hend
      rw [if_pos (by omega), addrs]
      have hone : [a] <+: a :: addrs 8 (a + 8 + b.size) bs :=
        List.cons_prefix_cons.mpr ⟨rfl, List.nil_prefix⟩
      split_ifs with hfits hnext
      · exact hone
      · exact hone
      · have hlink : (h.hdr a).next = a + 8 + b.size := by
          rw [hh.next] at hnext ⊢
          exact (nextLink_cases _ _).resolve_left hnext
        rw [hlink]
        exact List.cons_prefix_cons.mpr ⟨rfl, ih _ hrest (by omega)⟩

theorem addrs_nodup (a : ℕ) (bs : List Block) : (addrs 8 a bs).Nodup := by
  induction bs generalizing a with
  | nil => exact List.nodup_nil
  | cons b bs ih =>
    rw [addrs, List.nodup_cons]
    refine ⟨fun hmem => ?_, ih _⟩
    have := (addrs_bounds hmem).1
    omega

/-! ### The list of headers -/

/-- The headers that `next` links from the one at `a`, as far as `fuel` goes. -/
def FlatHeap.headers (h : FlatHeap) : ℕ → ℕ → List ℕ
  | 0, _ => []
  | fuel + 1, a =>
    if a = 0 ∨ h.heapBreak ≤ a then [] else a :: h.headers fuel (h.hdr a).next

theorem FlatHeap.headers_zero (h : FlatHeap) (fuel : ℕ) : h.headers fuel 0 = [] := by
  cases fuel with
  | zero => rfl
  | succ fuel => rw [headers, if_pos (.inl rfl)]

theorem Seg.headers (hs : Seg h p a bs 0) (ha : 0 < a) (hend : a + extent 8 bs = h.heapBreak)
    (hfuel : bs.length ≤ fuel) : h.headers fuel (nextLink bs 0 a) = addrs 8 a bs := by
  induction bs generalizing p a fuel with
  | nil => rw [nextLink, if_pos rfl, h.headers_zero, addrs]
  | cons b bs ih =>
    obtain ⟨fuel, rfl⟩ : ∃ k, fuel = k + 1 := ⟨fuel - 1, by rw [List.length_cons] at hfuel; omega⟩
    rw [extent_cons] at hend
    rw [List.length_cons] at hfuel
    rw [nextLink, if_neg (List.cons_ne_nil _ _), FlatHeap.headers, if_neg (by omega), hs.1.next,
      ih hs.2 (by omega) (by omega) (by omega), addrs]

/-- The list has every block in it. -/
theorem Tiled.headers (ht : Tiled h bs) (hfuel : 4096 ≤ fuel) (hne : bs ≠ []) :
    h.headers fuel vmSegHeapStart = addrs 8 vmSegHeapStart bs := by
  have hlen := ht.length_le
  have hlist := ht.seg.headers (by decide) ht.tiles (by omega : bs.length ≤ fuel)
  rw [nextLink, if_neg hne] at hlist
  exact hlist

/-! ### The walks of a call -/

/-- A walk that ends without a block that fits ends at the last one. -/
theorem allocWalk_exhausted {fresh : FlatHeap → ℕ → UInt8} {currAddr : ℕ} {currHdr : BlockHdr}
    (ht : Tiled h bs) (hne : bs ≠ [])
    (hwalk : (allocWalk (flatHeapOps fresh) n fuel vmSegHeapStart hd).run h =
      (some (.exhausted currAddr currHdr), h)) :
    ∃ xs b, bs = xs ++ [b] ∧ currAddr = vmSegHeapStart + extent 8 xs ∧
      currHdr = h.hdr currAddr := by
  have hfull := allocWalk_mono hwalk (Nat.le_add_right fuel bs.length)
  rcases allocWalk_run fresh n hd ht.seg ht.tiles hne
    (Nat.le_add_left bs.length fuel) with ⟨xs, b, ys, -, -, -, hrun⟩ | ⟨xs, b, hbs, -, hrun⟩
  · rw [hrun] at hfull
    cases hfull
  · rw [hrun] at hfull
    cases hfull
    exact ⟨xs, b, hbs, rfl, rfl⟩

theorem traceMalloc_visits {size : ℕ} (ht : Tiled h bs) :
    ∀ as ∈ ((traceMalloc (flatHeapOps fresh) fuel size).run h).1.1, as.Nodup := by
  induction fuel generalizing size h bs with
  | zero => exact fun as has => absurd has List.not_mem_nil
  | succ fuel ih =>
    rw [traceMalloc, run_get_bind]
    dsimp only
    split_ifs with hguard
    · exact fun as has => absurd has List.not_mem_nil
    obtain ⟨h₁, hinit, ht₁, -⟩ := init_spec fresh ht
    have hne₁ : initBlocks bs ≠ [] := initBlocks_ne_nil
    generalize initBlocks bs = bs₁ at ht₁ hne₁
    obtain ⟨m, hm⟩ : ∃ m, alignUp size 4 = m := ⟨_, rfl⟩
    have hstart : (flatHeapOps fresh).heapStart h₁ = vmSegHeapStart := rfl
    rw [hm] at hguard ⊢
    rw [run_bind, hinit]
    dsimp only
    rw [if_pos rfl, run_get_bind, hstart, run_bind]
    have hvisits := traceWalk_visits fresh m fuel {} ht₁.seg ht₁.tiles
    have hsame := traceWalk_heap fresh m fuel vmSegHeapStart {} h₁
    have hrun := traceWalk_run (flatHeapOps fresh) m fuel vmSegHeapStart {} h₁
    obtain ⟨⟨as, w⟩, h₂, hwalk⟩ : ∃ w h₂,
      (traceWalk (flatHeapOps fresh) m fuel vmSegHeapStart {}).run h₁ = (w, h₂) := ⟨_, _, rfl⟩
    rw [hwalk] at hvisits hsame hrun ⊢
    dsimp only at hvisits hsame hrun ⊢
    subst hsame
    have hnodup : as.Nodup := hvisits.sublist.nodup (addrs_nodup _ _)
    have hone : ∀ bs ∈ [as], bs.Nodup :=
      fun bs hbs => by rw [List.mem_singleton.mp hbs]; exact hnodup
    rcases w with _ | _ | ⟨_, _⟩ | ⟨currAddr, currHdr⟩
    · exact hone
    · exact hone
    · exact hone
    · obtain ⟨xs, b, rfl, rfl, rfl⟩ := allocWalk_exhausted ht₁ hne₁ hrun
      dsimp only
      rw [run_bind]
      have hlt : m < 2 ^ 16 := by omega
      by_cases hfull : 128 < extent 8 (xs ++ [b]) / 256 + (m + 263) / 256
      · rw [grow_full fresh ht₁ hlt hfull]
        exact hone
      · obtain ⟨h₃, hgrow, ht₃, -⟩ := grow_spec fresh ht₁ rfl hlt hfull
        rw [hgrow]
        intro bs hbs
        rcases List.mem_cons.mp hbs with rfl | hbs
        · exact hnodup
        · exact ih ht₃ bs hbs

/-- An allocation on a well-formed heap, whatever its fuel. -/
theorem traceMalloc_spec (fresh : FlatHeap → ℕ → UInt8) (ht : Tiled h bs) (hsep : Separated bs)
    (fuel size : ℕ) :
    (∀ as ∈ ((traceMalloc (flatHeapOps fresh) fuel size).run h).1.1, as.Nodup) ∧
      (4096 ≤ fuel → ((traceMalloc (flatHeapOps fresh) fuel size).run h).1.2.isSome) ∧
      ∀ r, ((traceMalloc (flatHeapOps fresh) fuel size).run h).1.2 = some r →
        ∃ bs', Tiled ((traceMalloc (flatHeapOps fresh) fuel size).run h).2 bs' ∧ Separated bs' ∧
          MallocOutcome bs bs' size r := by
  refine ⟨traceMalloc_visits ht, ?_, ?_⟩
  · intro hfuel
    obtain ⟨r, h', -, hrun, -⟩ := malloc_spec fresh ht hsep hfuel size
    rw [traceMalloc_run] at hrun
    rw [(Prod.mk.inj hrun).1]
    rfl
  · intro r hr
    have hrun := traceMalloc_run (flatHeapOps fresh) fuel size h
    rw [hr] at hrun
    obtain ⟨r', h', bs', hmore, ht', hsep', -, ho, -⟩ :=
      malloc_spec fresh ht hsep (Nat.le_add_left 4096 fuel) size
    rw [vmAllocMalloc_mono hrun (Nat.le_add_right fuel 4096)] at hmore
    obtain ⟨hr', hh⟩ := Prod.mk.inj hmore
    obtain rfl := Option.some.inj hr'
    rw [hh]
    exact ⟨bs', ht', hsep', ho⟩

end Mosrt
