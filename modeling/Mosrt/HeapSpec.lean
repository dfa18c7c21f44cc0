/-
`vm_alloc_malloc` and `vm_alloc_free` on a reliable byte store, each as one step on the
list of blocks.

* `vmAllocMalloc_first_fit` — an allocation takes the first block that is free and large
  enough, and grows the heap only if there is none;
* `malloc_spec` — it ends, and either leaves the blocks in use as they were or adds one of
  at least the size asked for;
* `free_spec` — a release takes one block out of use;
* both keep the heap tiled, free blocks apart, and the payloads of other blocks as they
  were.
-/
import Mosrt.FlatHeap

namespace Mosrt

open BlockList StateSim

variable {fresh : FlatHeap → ℕ → UInt8} {h h' : FlatHeap} {hd : BlockHdr} {a n p : ℕ} {b c : Block}
  {xs ys bs : List Block}

/-! ### The first block -/

theorem extent_pos (hne : bs ≠ []) : 0 < extent 8 bs := by
  obtain ⟨b, bs, rfl⟩ := List.exists_cons_of_ne_nil hne
  rw [extent_cons]
  omega

theorem init_nonempty (fresh : FlatHeap → ℕ → UInt8) (ht : Tiled h bs) (hne : bs ≠ []) :
    (allocInit (flatHeapOps fresh)).run h = (true, h) := by
  have hbreak : (flatHeapOps fresh).heapBreak h = h.heapBreak := rfl
  have hstart : (flatHeapOps fresh).heapStart h = vmSegHeapStart := rfl
  have hpos := extent_pos hne
  have htiles := ht.tiles
  rw [allocInit, run_get_bind, hbreak, hstart, if_neg (by omega)]
  rfl

/-- An empty heap gets two pages as one free block. -/
theorem init_empty (fresh : FlatHeap → ℕ → UInt8) (ht : Tiled h []) :
    ∃ h', (allocInit (flatHeapOps fresh)).run h = (true, h') ∧ Tiled h' [⟨504, true⟩] ∧
      ∀ gs, KeepsMarks h h' gs := by
  have hbreak : (flatHeapOps fresh).heapBreak h = h.heapBreak := rfl
  have hstart : (flatHeapOps fresh).heapStart h = vmSegHeapStart := rfl
  have hempty : h.heapBreak = vmSegHeapStart := ht.tiles.symm
  rw [allocInit, run_get_bind, hbreak, hstart]
  have hroom : ¬ 128 < extent 8 [] / 256 + 2 := by decide
  obtain ⟨-, hgrown, -, -, -, hlow⟩ := grown fresh ht hroom
  rw [if_pos hempty, run_bind, heapGrow_run fresh ht (by decide), if_neg hroom]
  generalize (flatHeapOps fresh).growPage^[2] h = g at hgrown hlow ⊢
  have hsize : (g.heapBreak - vmSegHeapStart - vmBlockHdrSize) % 2 ^ 16 = 504 := by
    rw [hgrown]
    rfl
  have hf : ({ size := 504, free := 1 } : BlockHdr).Fits := ⟨by decide, by decide, by decide⟩
  refine ⟨g.put vmSegHeapStart { size := 504, free := 1 }, ?_, ?_, fun gs => .of_eq ?_ ?_⟩
  · rw [← hsize]
    rfl
  · refine ⟨⟨HdrIs.put hf rfl rfl, trivial⟩, ?_, ?_, ?_, ?_⟩
    · exact hgrown.symm
    · exact sized_cons.mpr ⟨by decide, nofun⟩
    · decide
    · decide
  · rw [FlatHeap.heapBreak_put, hgrown, hempty]
    exact Nat.le_add_right _ _
  · intro z hz
    rw [FlatHeap.mem_put (.inl (by omega)), hlow z hz]

/-- The blocks an allocation starts from. -/
def initBlocks (bs : List Block) : List Block := if bs = [] then [⟨504, true⟩] else bs

theorem initBlocks_ne_nil : initBlocks bs ≠ [] := by
  rw [initBlocks]
  split_ifs with hne
  · exact List.cons_ne_nil _ _
  · exact hne

theorem allocs_initBlocks :
    allocs 8 vmSegHeapStart (initBlocks bs) = allocs 8 vmSegHeapStart bs := by
  rw [initBlocks]
  split_ifs with hne
  · rw [hne]
    rfl
  · rfl

theorem separated_initBlocks (hsep : Separated bs) : Separated (initBlocks bs) := by
  rw [initBlocks]
  split_ifs
  · exact List.isChain_singleton _
  · exact hsep

/-- An empty heap gets a first block; another heap is left as it is. -/
theorem init_spec (fresh : FlatHeap → ℕ → UInt8) (ht : Tiled h bs) :
    ∃ h', (allocInit (flatHeapOps fresh)).run h = (true, h') ∧ Tiled h' (initBlocks bs) ∧
      (bs ≠ [] → h' = h) ∧ ∀ gs, KeepsMarks h h' gs := by
  rw [initBlocks]
  by_cases hne : bs = []
  · rw [if_pos hne]
    rw [hne] at ht
    obtain ⟨h', hrun, ht', hmarks⟩ := init_empty fresh ht
    exact ⟨h', hrun, ht', fun h0 => absurd hne h0, hmarks⟩
  · rw [if_neg hne]
    exact ⟨h, init_nonempty fresh ht hne, ht, fun _ => rfl, .refl h⟩

/-- The first block is not in use. -/
theorem Untouched.init (hsame : bs ≠ [] → h' = h) : Untouched h h' bs := by
  by_cases hne : bs = []
  · rw [hne]
    exact fun q m hq => nomatch hq
  · rw [hsame hne]
    exact .refl h bs

/-! ### Allocation -/

/-- A request that is served if there is room. -/
def SizeOk (size : ℕ) : Prop := 0 < size ∧ (size + 3) / 4 * 4 < 2 ^ 16

/-- A request that is refused at once. -/
theorem malloc_refused {fuel size : ℕ} (hsize : ¬ SizeOk size) :
    (vmAllocMalloc (flatHeapOps fresh) (fuel + 1) size).run h = (some 0, h) := by
  have hguard : (flatHeapOps fresh).hasVm h = false ∨ size = 0 ∨ 2 ^ 16 - 1 < size ∨
      alignUp size 4 = 0 ∨ 2 ^ 16 - 1 < alignUp size 4 := by
    by_cases h0 : size = 0
    · exact .inr (.inl h0)
    by_cases hbig : 2 ^ 16 - 1 < size
    · exact .inr (.inr (.inl hbig))
    · rw [SizeOk] at hsize
      rw [alignUp_four (by omega)]
      omega
  rw [vmAllocMalloc, run_get_bind]
  dsimp only
  rw [if_pos hguard]
  rfl

/-- What an allocation of `n` bytes does where the walk ended. -/
def afterWalk (fresh : FlatHeap → ℕ → UInt8) (fuel n : ℕ) : WalkEnd → StateM FlatHeap (Option ℕ)
  | .failed => pure (some 0)
  | .found currAddr currHdr => do
    let a ← allocTake (flatHeapOps fresh) n currAddr currHdr
    pure (some a)
  | .exhausted currAddr currHdr => do
    if ← allocGrow (flatHeapOps fresh) n currAddr currHdr then
      vmAllocMalloc (flatHeapOps fresh) fuel n
    else pure (some 0)

theorem malloc_walk {fuel size : ℕ} {h₁ h₂ : FlatHeap} {r : WalkEnd} (hsize : SizeOk size)
    (hinit : (allocInit (flatHeapOps fresh)).run h = (true, h₁))
    (hwalk : (allocWalk (flatHeapOps fresh) ((size + 3) / 4 * 4) fuel vmSegHeapStart {}).run h₁ =
      (some r, h₂)) :
    (vmAllocMalloc (flatHeapOps fresh) (fuel + 1) size).run h =
      (afterWalk fresh fuel ((size + 3) / 4 * 4) r).run h₂ := by
  have halign : alignUp size 4 = (size + 3) / 4 * 4 := alignUp_four (by have := hsize.2; omega)
  have hguard : ¬ ((flatHeapOps fresh).hasVm h = false ∨ size = 0 ∨ 2 ^ 16 - 1 < size ∨
      alignUp size 4 = 0 ∨ 2 ^ 16 - 1 < alignUp size 4) := by
    obtain ⟨hpos, hlt⟩ := hsize
    rw [halign]
    rintro (hvm | h0 | hbig | h0 | hbig)
    · cases hvm
    all_goals omega
  have hstart : (flatHeapOps fresh).heapStart h₁ = vmSegHeapStart := rfl
  rw [vmAllocMalloc, run_get_bind]
  dsimp only
  rw [if_neg hguard, run_bind, hinit]
  dsimp only
  rw [if_pos rfl, run_get_bind, hstart, halign, run_bind, hwalk]
  dsimp only
  cases r <;> rfl

/-- Blocks are large enough that there are few of them. -/
theorem Tiled.length_le (ht : Tiled h bs) : bs.length ≤ 2730 := by
  have hlen : ∀ bs : List Block, Sized 4 bs → bs.length * 12 ≤ extent 8 bs := by
    intro bs
    induction bs with
    | nil => exact fun _ => Nat.zero_le _
    | cons b bs ih =>
      intro hs
      obtain ⟨⟨hpos, hdvd⟩, hs⟩ := sized_cons.mp hs
      have := ih hs
      rw [List.length_cons, extent_cons]
      omega
  have h1 := hlen bs ht.sized
  have h2 := ht.bound
  omega

/-- What an allocation of `size` bytes may return, by the blocks in use before and after. -/
inductive MallocOutcome (bs bs' : List Block) (size : ℕ) : ℕ → Prop
  | refused : allocs 8 vmSegHeapStart bs' = allocs 8 vmSegHeapStart bs → MallocOutcome bs bs' size 0
  | granted (r k : ℕ) : 0 < r → size ≤ k →
      (∀ q m, (q, m) ∈ allocs 8 vmSegHeapStart bs' ↔
        (q, m) = (r, k) ∨ (q, m) ∈ allocs 8 vmSegHeapStart bs) →
      (∀ m, (r, m) ∉ allocs 8 vmSegHeapStart bs) → MallocOutcome bs bs' size r

/-- The payload of a free block is not in use. -/
theorem fresh_payload (hfree : b.free = true) (m : ℕ) :
    (vmSegHeapStart + extent 8 xs + 8, m) ∉ allocs 8 vmSegHeapStart (xs ++ b :: ys) := by
  intro hmem
  rw [allocs_append, allocs, hfree, if_pos rfl, List.nil_append] at hmem
  rcases List.mem_append.mp hmem with hmem | hmem
  · have := (allocs_bounds hmem).2
    omega
  · have := (allocs_bounds hmem).1
    omega

/-- Taking the block that was found. -/
theorem malloc_found {fuel size : ℕ} {h₁ : FlatHeap} (hsize : SizeOk size)
    (hinit : (allocInit (flatHeapOps fresh)).run h = (true, h₁)) (ht : Tiled h₁ (xs ++ b :: ys))
    (hb : Suits ((size + 3) / 4 * 4) b)
    (hwalk : (allocWalk (flatHeapOps fresh) ((size + 3) / 4 * 4) fuel vmSegHeapStart {}).run h₁ =
      (some (.found (vmSegHeapStart + extent 8 xs) (h₁.hdr (vmSegHeapStart + extent 8 xs))), h₁)) :
    ∃ h', (vmAllocMalloc (flatHeapOps fresh) (fuel + 1) size).run h =
        (some (vmSegHeapStart + extent 8 xs + 8), h') ∧
      Tiled h' (xs ++ (cut 8 4 ((size + 3) / 4 * 4) b ++ ys)) ∧ Untouched h₁ h' (xs ++ b :: ys) ∧
      KeepsMarks h₁ h' (xs ++ (cut 8 4 ((size + 3) / 4 * 4) b ++ ys)) := by
  have hpos := hsize.1
  obtain ⟨h', htake, htiled, hu, hmarks⟩ := take_spec fresh ht hb.1
    (n := (size + 3) / 4 * 4) ⟨by omega, Nat.dvd_mul_left _ _⟩ hb.2 rfl
  refine ⟨h', ?_, htiled, hu, hmarks⟩
  rw [malloc_walk hsize hinit hwalk, afterWalk, run_bind, htake]
  rfl

/-- If nobody before the last suits, the last one is found. -/
theorem found_last {P : Block → Prop} (heq : bs ++ [c] = xs ++ b :: ys)
    (hall : ∀ d ∈ bs, ¬ P d) (hb : P b) : xs = bs ∧ b = c ∧ ys = [] := by
  rcases List.eq_nil_or_concat ys with rfl | ⟨ys', d, rfl⟩
  · obtain ⟨h1, h2⟩ := List.append_inj' heq rfl
    exact ⟨h1.symm, (List.cons.inj h2).1.symm, rfl⟩
  · have hsplit : xs ++ b :: ys'.concat d = (xs ++ b :: ys') ++ [d] := by
      rw [List.concat_eq_append, List.append_assoc]
      rfl
    rw [hsplit] at heq
    obtain ⟨h1, -⟩ := List.append_inj' heq rfl
    refine absurd hb (hall b ?_)
    rw [h1]
    exact List.mem_append_right _ List.mem_cons_self

/-- An allocation where no block suits and there is room for the pages it needs: the new
block is found at once. -/
theorem malloc_grown {fuel size : ℕ} {h₁ : FlatHeap} (hsize : SizeOk size)
    (hfuel : 4094 ≤ fuel) (hinit : (allocInit (flatHeapOps fresh)).run h = (true, h₁))
    (ht : Tiled h₁ (xs ++ [b]))
    (hall : ∀ c ∈ xs ++ [b], ¬ Suits ((size + 3) / 4 * 4) c)
    (hwalk : (allocWalk (flatHeapOps fresh) ((size + 3) / 4 * 4) (fuel + 1) vmSegHeapStart {}).run
      h₁ = (some (.exhausted (vmSegHeapStart + extent 8 xs)
        (h₁.hdr (vmSegHeapStart + extent 8 xs))), h₁))
    (hroom : ¬ 128 < extent 8 (xs ++ [b]) / 256 + ((size + 3) / 4 * 4 + 263) / 256) :
    ∃ h', (vmAllocMalloc (flatHeapOps fresh) (fuel + 2) size).run h =
        (some (h₁.heapBreak + 8), h') ∧
      Tiled h' (xs ++ [b] ++ cut 8 4 ((size + 3) / 4 * 4)
        ⟨((size + 3) / 4 * 4 + 263) / 256 * 256 - 8, true⟩) ∧
      Untouched h₁ h' (xs ++ [b]) ∧
      KeepsMarks h₁ h' (xs ++ [b] ++ cut 8 4 ((size + 3) / 4 * 4)
        ⟨((size + 3) / 4 * 4 + 263) / 256 * 256 - 8, true⟩) := by
  have hrun := malloc_walk hsize hinit hwalk
  rw [afterWalk, run_bind] at hrun
  obtain ⟨h₂, hgrow, ht₂, hu₂, hmarks₂⟩ := grow_spec fresh ht rfl hsize.2 hroom
  rw [hgrow] at hrun
  dsimp only at hrun
  rw [if_pos rfl] at hrun
  -- the second attempt asks for the rounded size and takes the block just made
  obtain ⟨m, hm⟩ : ∃ m, (size + 3) / 4 * 4 = m := ⟨_, rfl⟩
  obtain ⟨k, hk⟩ : ∃ k, (m + 263) / 256 * 256 - 8 = k := ⟨_, rfl⟩
  have hsame : (m + 3) / 4 * 4 = m := by omega
  have hsize' : SizeOk m := ⟨by have := hsize.1; omega, by have := hsize.2; omega⟩
  rw [hm] at hall hrun ht₂ hmarks₂ ⊢
  rw [hk] at ht₂ hmarks₂ ⊢
  have hinit₂ := init_nonempty fresh ht₂ (by simp)
  have hlen₂ := ht₂.length_le
  have hnew : Suits m ⟨k, true⟩ := ⟨rfl, by show m ≤ k; omega⟩
  rcases allocWalk_run fresh m {} ht₂.seg ht₂.tiles (by simp)
    (hlen₂.trans (by omega : 2730 ≤ fuel)) with
    ⟨xs', b', ys', heq, -, hb', hwalk'⟩ | ⟨xs', b', -, hall', -⟩
  · obtain ⟨rfl, rfl, rfl⟩ := found_last heq hall hb'
    rw [← hsame] at hwalk' hb'
    obtain ⟨h', hrun', htiled, hu, hmarks⟩ := malloc_found hsize' hinit₂ ht₂ hb' hwalk'
    rw [ht.tiles, hsame, List.append_nil] at *
    refine ⟨h', hrun.trans hrun', htiled, hu₂.trans fun q j hq => hu q j ?_,
      (hmarks₂.widen fun x hx => ?_).trans hmarks⟩
    · rw [allocs_concat_free]
      exact hq
    · rw [addrs_append] at hx ⊢
      refine (List.mem_append.mp hx).elim (List.mem_append_left _) fun hx => ?_
      rw [List.mem_singleton.mp hx]
      exact List.mem_append_right _ addrs_cut
  · exact absurd hnew (hall' _ (List.mem_append_right _ List.mem_cons_self))

/-- What an allocation of `size` bytes does on a heap of blocks `bs`: it takes the first block
that suits; else it adds the pages that are needed; else there is no room for them. -/
inductive FirstFit (h : FlatHeap) (bs : List Block) (m : ℕ) : ℕ × FlatHeap → Prop
  | taken (xs : List Block) (b : Block) (ys : List Block) (h' : FlatHeap) :
      bs = xs ++ b :: ys → (∀ c ∈ xs, ¬ Suits m c) → Suits m b →
      Tiled h' (xs ++ (cut 8 4 m b ++ ys)) → Untouched h h' bs →
      FirstFit h bs m (vmSegHeapStart + extent 8 xs + 8, h')
  | grown (h' : FlatHeap) : (∀ c ∈ bs, ¬ Suits m c) → extent 8 bs / 256 + (m + 263) / 256 ≤ 128 →
      Tiled h' (bs ++ cut 8 4 m ⟨(m + 263) / 256 * 256 - 8, true⟩) → Untouched h h' bs →
      FirstFit h bs m (h.heapBreak + 8, h')
  | full : (∀ c ∈ bs, ¬ Suits m c) → 128 < extent 8 bs / 256 + (m + 263) / 256 →
      FirstFit h bs m (0, h)

theorem malloc_run (fresh : FlatHeap → ℕ → UInt8) {fuel size : ℕ} (hfuel : 4096 ≤ fuel)
    (hsize : SizeOk size) (ht : Tiled h bs) :
    ∃ h₁ r h', (allocInit (flatHeapOps fresh)).run h = (true, h₁) ∧ Tiled h₁ (initBlocks bs) ∧
      (bs ≠ [] → h₁ = h) ∧
      (vmAllocMalloc (flatHeapOps fresh) fuel size).run h = (some r, h') ∧
      FirstFit h₁ (initBlocks bs) ((size + 3) / 4 * 4) (r, h') ∧
      ∀ gs, Tiled h' gs → KeepsMarks h h' gs := by
  obtain ⟨fuel, rfl⟩ : ∃ k, fuel = k + 2 := ⟨fuel - 2, by omega⟩
  obtain ⟨h₁, hinit, ht₁, hsame, hfirst⟩ := init_spec fresh ht
  have hlen := ht₁.length_le
  have hne : initBlocks bs ≠ [] := initBlocks_ne_nil
  generalize initBlocks bs = gs at ht₁ hlen hne ⊢
  rcases allocWalk_run fresh ((size + 3) / 4 * 4) {} ht₁.seg ht₁.tiles hne
    (hlen.trans (by omega : 2730 ≤ fuel + 1)) with
    ⟨xs, b, ys, rfl, hxs, hb, hwalk⟩ | ⟨xs, b, rfl, hall, hwalk⟩
  · obtain ⟨h', hrun, htiled, hu, hmarks⟩ := malloc_found hsize hinit ht₁ hb hwalk
    refine ⟨h₁, _, h', hinit, ht₁, hsame, hrun, .taken xs b ys h' rfl hxs hb htiled hu, ?_⟩
    intro gs hgs
    rw [hgs.unique htiled]
    exact (hfirst _).trans hmarks
  · by_cases hfull : 128 < extent 8 (xs ++ [b]) / 256 + ((size + 3) / 4 * 4 + 263) / 256
    · have hrun := malloc_walk hsize hinit hwalk
      rw [afterWalk, run_bind, grow_full fresh ht₁ hsize.2 hfull] at hrun
      exact ⟨h₁, 0, h₁, hinit, ht₁, hsame, hrun, .full hall hfull, fun gs _ => hfirst gs⟩
    · obtain ⟨h', hrun, htiled, hu, hmarks⟩ :=
        malloc_grown hsize (by omega) hinit ht₁ hall hwalk hfull
      refine ⟨h₁, _, h', hinit, ht₁, hsame, hrun, .grown h' hall (not_lt.mp hfull) htiled hu, ?_⟩
      intro gs hgs
      rw [hgs.unique htiled]
      exact (hfirst _).trans hmarks

/-- **Allocation is first fit with growth on demand.**  An empty heap first gets two pages as one
free block.  The lowest free block that is large enough is taken, and what is left of it is a
free block exactly if that is 12 bytes or more; without such a block the heap grows by the pages
the request needs, if the limit allows, and else nothing changes. -/
theorem vmAllocMalloc_first_fit (fresh : FlatHeap → ℕ → UInt8) {fuel n m : ℕ}
    (hfuel : 4096 ≤ fuel) (ht : Tiled h bs) (hn : 1 ≤ n) (hm : m = (n + 3) / 4 * 4)
    (hmax : m ≤ 65535) :
    ∃ g gs r h', (vmAllocMalloc (flatHeapOps fresh) fuel n).run h = (some r, h') ∧ Tiled g gs ∧
      (bs = [] → gs = [⟨504, true⟩] ∧ g.heapBreak = h.heapBreak + 2 * vmPageSize) ∧
      (bs ≠ [] → gs = bs ∧ g = h) ∧
      ((∃ xs b ys, gs = xs ++ b :: ys ∧ (∀ c ∈ xs, ¬ (c.free = true ∧ m ≤ c.size)) ∧
          (b.free = true ∧ m ≤ b.size) ∧ r = vmSegHeapStart + extent 8 xs + 8 ∧
          h'.heapBreak = g.heapBreak ∧
          Tiled h' (xs ++ ((if m + 12 ≤ b.size then [⟨m, false⟩, ⟨b.size - m - 8, true⟩]
            else [⟨b.size, false⟩]) ++ ys))) ∨
        (∀ c ∈ gs, ¬ (c.free = true ∧ m ≤ c.size)) ∧
          if (g.heapBreak - vmSegHeapStart) / vmPageSize + (8 + m + 255) / 256 ≤ 128 then
            r = g.heapBreak + 8 ∧
            h'.heapBreak = g.heapBreak + (8 + m + 255) / 256 * vmPageSize ∧
            Tiled h' (gs ++ cut 8 4 m ⟨(8 + m + 255) / 256 * vmPageSize - 8, true⟩)
          else r = 0 ∧ h' = g) := by
  subst hm
  obtain ⟨g, r, h', -, hg, hsame, hrun, hfit, -⟩ :=
    malloc_run fresh hfuel ⟨hn, Nat.lt_succ_of_le hmax⟩ ht
  have htiles := ht.tiles
  refine ⟨g, initBlocks bs, r, h', hrun, hg, ?_, ?_, ?_⟩
  · rintro rfl
    exact ⟨rfl, by rw [← hg.tiles, ← htiles]; rfl⟩
  · exact fun hne => ⟨if_neg hne, hsame hne⟩
  have hgtiles := hg.tiles
  have hpages : (g.heapBreak - vmSegHeapStart) / vmPageSize = extent 8 (initBlocks bs) / 256 := by
    rw [← hgtiles, Nat.add_sub_cancel_left]
  have hceil : 8 + (n + 3) / 4 * 4 + 255 = (n + 3) / 4 * 4 + 263 := by omega
  rw [hpages, hceil]
  generalize initBlocks bs = gs at hfit hgtiles ⊢
  cases hfit with
  | taken xs b ys h' heq hxs hb htiled hu =>
    refine .inl ⟨xs, b, ys, heq, hxs, hb, rfl, ?_, htiled⟩
    rw [← htiled.tiles, ← hgtiles, heq, extent_append, extent_append, extent_append, extent_cut,
      extent_cons]
  | grown h' hall hroom htiled hu =>
    refine .inr ⟨hall, ?_⟩
    rw [if_pos hroom]
    refine ⟨rfl, ?_, htiled⟩
    rw [← htiled.tiles, ← hgtiles, extent_append, extent_cut]
    show _ + (_ + (8 + (((n + 3) / 4 * 4 + 263) / 256 * 256 - 8))) = _ + _ * 256
    omega
  | full hall hroom =>
    refine .inr ⟨hall, ?_⟩
    rw [if_neg (not_le.mpr hroom)]
    exact ⟨rfl, rfl⟩

/-- The second allocation finds the block of the first in use, and takes from the free one. -/
theorem vmAllocMalloc_first_fit_second :
    ∃ h r h', Tiled h [⟨4, false⟩, ⟨492, true⟩] ∧
      (vmAllocMalloc (flatHeapOps fun _ _ => 0) 4096 100).run h = (some r, h') ∧
      r = vmSegHeapStart + 20 ∧ Tiled h' [⟨4, false⟩, ⟨100, false⟩, ⟨384, true⟩] := by
  obtain ⟨g, gs, r, h, -, -, hinit, -, hone⟩ :=
    vmAllocMalloc_first_fit (fun _ _ => 0) (le_refl 4096) (tiled_nil fun _ => 0) (le_refl 1)
      (m := 4) rfl (by decide)
  obtain ⟨rfl, -⟩ := hinit rfl
  rcases hone with ⟨xs, b, ys, heq, -, -, -, -, ht⟩ | ⟨hno, -⟩
  · obtain ⟨rfl, hys⟩ : xs = [] ∧ b :: ys = [⟨504, true⟩] := by
      simpa [List.append_eq_singleton_iff] using heq.symm
    cases hys
    obtain ⟨g, gs, r, h', hrun, -, -, hsame, htwo⟩ :=
      vmAllocMalloc_first_fit (fun _ _ => 0) (le_refl 4096) ht (n := 100) (by decide)
        (m := 100) rfl (by decide)
    obtain ⟨rfl, rfl⟩ := hsame (by decide)
    refine ⟨g, r, h', ht, hrun, ?_⟩
    rcases htwo with ⟨xs, b, ys, heq, -, hb, hr, -, ht'⟩ | ⟨hno, -⟩
    · cases xs with
      | nil =>
        cases heq
        cases hb.1
      | cons x xs =>
        obtain ⟨rfl, hxs⟩ := List.cons.inj heq
        obtain ⟨rfl, hys⟩ : xs = [] ∧ b :: ys = [⟨492, true⟩] := by
          simpa [List.append_eq_singleton_iff] using hxs.symm
        cases hys
        exact ⟨hr, ht'⟩
    · exact absurd ⟨rfl, by decide⟩ (hno ⟨492, true⟩ (by decide))
  · exact absurd ⟨rfl, by decide⟩ (hno ⟨504, true⟩ (by decide))

/-- Whichever way it went, the blocks stay tiled and at most one more is in use. -/
theorem FirstFit.outcome {r m size : ℕ} (hf : FirstFit h bs m (r, h')) (ht : Tiled h bs)
    (hsep : Separated bs) (hm : size ≤ m) :
    ∃ bs', Tiled h' bs' ∧ Separated bs' ∧ Untouched h h' bs ∧ MallocOutcome bs bs' size r := by
  cases hf with
  | taken xs b ys h' heq hxs hb htiled hu =>
    subst heq
    obtain ⟨k, hk, hmem⟩ := mem_allocs_cut xs ys hb.1 hb.2
    exact ⟨_, htiled, separated_cut hsep hb.1, hu,
      .granted _ k (by omega) (by omega) hmem (fresh_payload hb.1)⟩
  | grown h' hall hroom htiled hu =>
    obtain ⟨k, hk, hmem⟩ := mem_allocs_cut bs [] (n := m)
      (b := ⟨(m + 263) / 256 * 256 - 8, true⟩) rfl (by dsimp only; omega)
    rw [List.append_nil, allocs_concat_free, ht.tiles] at hmem
    have hnew : ∀ j, (vmSegHeapStart + extent 8 bs + 8, j) ∉
        allocs 8 vmSegHeapStart (bs ++ [⟨(m + 263) / 256 * 256 - 8, true⟩]) := fresh_payload rfl
    rw [allocs_concat_free, ht.tiles] at hnew
    exact ⟨_, htiled, separated_grow hsep, hu, .granted _ k (by omega) (by omega) hmem hnew⟩
  | full hall hroom => exact ⟨bs, ht, hsep, .refl h bs, .refused rfl⟩

theorem malloc_spec (fresh : FlatHeap → ℕ → UInt8) {fuel : ℕ} (ht : Tiled h bs)
    (hsep : Separated bs) (hfuel : 4096 ≤ fuel) (size : ℕ) :
    ∃ r h' bs', (vmAllocMalloc (flatHeapOps fresh) fuel size).run h = (some r, h') ∧
      Tiled h' bs' ∧ Separated bs' ∧ Untouched h h' bs ∧ MallocOutcome bs bs' size r ∧
      KeepsMarks h h' bs' := by
  by_cases hsize : SizeOk size
  swap
  · obtain ⟨fuel, rfl⟩ : ∃ k, fuel = k + 1 := ⟨fuel - 1, by omega⟩
    exact ⟨0, h, bs, malloc_refused hsize, ht, hsep, .refl h bs, .refused rfl, .refl h bs⟩
  obtain ⟨h₁, r, h', -, ht₁, hsame, hrun, hfit, hmarks⟩ := malloc_run fresh hfuel hsize ht
  obtain ⟨bs', ht', hsep', hu, ho⟩ :=
    hfit.outcome ht₁ (separated_initBlocks hsep) (by omega : size ≤ (size + 3) / 4 * 4)
  refine ⟨r, h', bs', hrun, ht', hsep', (Untouched.init hsame).trans fun q m hq => ?_, ?_,
    hmarks bs' ht'⟩
  · rw [← allocs_initBlocks] at hq
    exact hu q m hq
  · -- what the first block adds is free
    cases ho with
    | refused heq => exact .refused (heq.trans allocs_initBlocks)
    | granted _ k hr hk hmem hnew =>
      rw [allocs_initBlocks] at hmem hnew
      exact .granted r k hr hk hmem hnew

/-! ### Release -/

/-- What both coalescings write: `b`, at `a`, takes over its successor. -/
theorem Cut.absorb {merged : BlockHdr} (hc : Cut h xs b (c :: ys) a) (ha : 0 < a) (h4 : 4 ∣ a)
    (hend : a + 8 + b.size + 8 + c.size ≤ 49152) (hfree : b.free = true)
    (hm : { h.hdr a with size := b.size + 8 + c.size, next := (h.hdr (a + 8 + b.size)).next } =
      merged) :
    ((h.put a merged).relink merged.next a).hdr a = merged ∧
      Cut ((h.put a merged).relink merged.next a) xs ⟨b.size + 8 + c.size, true⟩ ys a ∧
      ((h.put a merged).relink merged.next a).heapBreak = h.heapBreak ∧
      Untouched h ((h.put a merged).relink merged.next a) (xs ++ b :: c :: ys) ∧
      ∀ gs, (nextLink ys 0 (a + 8 + b.size + 8 + c.size) = 0 ∨
          nextLink ys 0 (a + 8 + b.size + 8 + c.size) ∈ addrs 8 vmSegHeapStart gs) →
        KeepsMarks h ((h.put a merged).relink merged.next a) gs := by
  have hchdr := hc.behind.1
  have hmnext : merged.next = nextLink ys 0 (a + 8 + b.size + 8 + c.size) := by
    rw [← hm]
    exact hchdr.next
  have hlink : merged.next = 0 ∨ merged.next = a + 8 + b.size + 8 + c.size := by
    rw [hmnext]
    exact nextLink_cases _ _
  have hf : merged.Fits := by
    rw [← hm]
    exact ⟨by show b.size + 8 + c.size < 2 ^ 16; omega, (h.hdr_fits _).next, (h.hdr_fits a).prev⟩
  refine ⟨FlatHeap.hdr_put_relink hf (by omega), ?_, ?_, ?_, fun gs hgs => ?_⟩
  · refine hc.merge ha hend ?_ ?_ ?_ ?_
    · rw [← hm]
    · rw [← hm, ← hfree]
      exact hc.header.free
    · rw [← hm]
    · rw [← hm]
  · rw [FlatHeap.heapBreak_relink, FlatHeap.heapBreak_put]
  · have hmem : a ∈ addrs 8 vmSegHeapStart (xs ++ b :: c :: ys) := by
      rw [hc.addr]
      exact mem_addrs
    refine (Untouched.put hmem).trans (Untouched.relink ?_)
    have hlist : xs ++ b :: c :: ys = (xs ++ [b]) ++ c :: ys := by
      rw [List.append_assoc]
      rfl
    rw [hmnext, hlist]
    refine nextLink_mem c ys ?_
    rw [extent_append, extent_cons, extent_nil, hc.addr]
    omega
  · rw [← hmnext] at hgs
    have hisFree : (h.hdr a).isFree = true := hc.header.free.trans hfree
    refine (KeepsMarks.rewrite h4 ?_ ?_).trans (.relink hgs)
    · rw [← hm]
      exact bne_iff_ne.mp hisFree
    · rw [← hm]

/-- Coalescing with the successor. -/
theorem freeMergeNext_run (fresh : FlatHeap → ℕ → UInt8) (hc : Cut h xs ⟨n, true⟩ ys a)
    (ha : 0 < a) (h4 : 4 ∣ a) (hend : a + 8 + n + extent 8 ys ≤ 49152) :
    ∃ h', (freeMergeNext (flatHeapOps fresh) a (h.hdr a)).run h = (some (h'.hdr a), h') ∧
      Cut h' xs (mergeNext 8 n ys).1 (mergeNext 8 n ys).2 a ∧ h'.heapBreak = h.heapBreak ∧
      Untouched h h' (xs ++ ⟨n, true⟩ :: ys) ∧
      ∀ gs, (nextLink (mergeNext 8 n ys).2 0 (a + 8 + (mergeNext 8 n ys).1.size) = 0 ∨
          nextLink (mergeNext 8 n ys).2 0 (a + 8 + (mergeNext 8 n ys).1.size) ∈
            addrs 8 vmSegHeapStart gs) → KeepsMarks h h' gs := by
  have hnext := hc.header.next
  rw [freeMergeNext]
  cases ys with
  | nil =>
    have h0 : (h.hdr a).next = 0 := hnext
    rw [if_pos h0]
    exact ⟨h, rfl, hc, rfl, .refl h _, fun gs _ => .refl h gs⟩
  | cons c ys =>
    rw [extent_cons] at hend
    have hnext' : (h.hdr a).next = a + 8 + n := hnext
    have hchdr := hc.behind.1
    rw [if_neg (by omega), hnext', run_bind, readHdr_run]
    dsimp only
    rw [hchdr.free]
    by_cases hfree : c.free = true
    · have hmerge : mergeNext 8 n (c :: ys) = (⟨n + 8 + c.size, true⟩, ys) := if_pos hfree
      have hsum : ((h.hdr a).size + vmBlockHdrSize + (h.hdr (a + 8 + n)).size) % 2 ^ 16 =
          n + 8 + c.size := by
        rw [hc.header.size, hchdr.size]
        exact Nat.mod_eq_of_lt (by show n + 8 + c.size < 2 ^ 16; omega)
      obtain ⟨merged, hm⟩ : ∃ merged : BlockHdr, { h.hdr a with
        size := n + 8 + c.size, next := (h.hdr (a + 8 + n)).next } = merged := ⟨_, rfl⟩
      have hmnext : (h.hdr (a + 8 + n)).next = merged.next := by rw [← hm]
      obtain ⟨hself, hcut, hbreak, hu, hmarks⟩ := hc.absorb ha h4 (by dsimp only; omega) rfl hm
      rw [if_pos hfree, hsum, hmerge, run_bind, writeHdr_run]
      dsimp only
      rw [if_pos rfl, hm, hmnext, run_bind, relinkPrev_run]
      have hend' : a + 8 + (n + 8 + c.size) = a + 8 + n + 8 + c.size := by omega
      refine ⟨_, ?_, hcut, hbreak, hu, fun gs hgs => hmarks gs ?_⟩
      · rw [hself]
        rfl
      · rw [hend'] at hgs
        exact hgs
    · rw [if_neg hfree]
      have hmerge : mergeNext 8 n (c :: ys) = (⟨n, true⟩, c :: ys) := if_neg hfree
      rw [hmerge]
      exact ⟨h, rfl, hc, rfl, .refl h _, fun gs _ => .refl h gs⟩

/-- The same heap, seen from the block before. -/
theorem Cut.pred (hc : Cut h (xs ++ [b]) c ys a) :
    Cut h xs b (c :: ys) (vmSegHeapStart + extent 8 xs) := by
  have hseg := hc.seg
  rw [List.append_assoc, List.singleton_append] at hseg
  obtain ⟨hbefore, hheader, hbehind⟩ := seg_append.mp hseg
  exact ⟨rfl, hbefore, hheader, hbehind⟩

/-- Coalescing with the predecessor. -/
theorem freeMergePrev_run (fresh : FlatHeap → ℕ → UInt8) (hc : Cut h xs c ys a)
    (hsized : Sized 4 xs) (hend : a + 8 + c.size ≤ 49152) :
    ∃ h', (freeMergePrev (flatHeapOps fresh) (h.hdr a)).run h = ((), h') ∧
      Seg h' 0 vmSegHeapStart (mergePrev 8 xs c ys) 0 ∧ h'.heapBreak = h.heapBreak ∧
      Untouched h h' (xs ++ c :: ys) ∧
      ∀ gs, (nextLink ys 0 (a + 8 + c.size) = 0 ∨
        nextLink ys 0 (a + 8 + c.size) ∈ addrs 8 vmSegHeapStart gs) → KeepsMarks h h' gs := by
  have hprev := hc.header.prev
  have haddr := hc.addr
  rw [freeMergePrev]
  rcases List.eq_nil_or_concat xs with rfl | ⟨xs, b, rfl⟩
  · have h0 : (h.hdr a).prev = 0 := hprev
    rw [if_pos h0]
    exact ⟨h, rfl, hc.seg, rfl, .refl h _, fun gs _ => .refl h gs⟩
  · rw [List.concat_eq_append] at hc hprev haddr ⊢
    have hpred := hc.pred
    rw [lastAddr_concat] at hprev
    rw [extent_append, extent_cons, extent_nil] at haddr
    obtain ⟨a', ha'⟩ : ∃ a', vmSegHeapStart + extent 8 xs = a' := ⟨_, rfl⟩
    rw [ha'] at hpred hprev
    have hstart : vmSegHeapStart = 16384 := rfl
    have ha : a = a' + 8 + b.size := by omega
    rw [mergePrev_concat, if_neg (by omega), hprev, run_bind, readHdr_run, List.append_assoc,
      List.singleton_append]
    dsimp only
    rw [hpred.header.free]
    by_cases hfree : b.free = true
    · have hsum : ((h.hdr a').size + vmBlockHdrSize + (h.hdr a).size) % 2 ^ 16 =
          b.size + 8 + c.size := by
        rw [hpred.header.size, hc.header.size]
        exact Nat.mod_eq_of_lt (by show b.size + 8 + c.size < 2 ^ 16; omega)
      obtain ⟨merged, hm⟩ : ∃ merged : BlockHdr, { h.hdr a' with
        size := b.size + 8 + c.size, next := (h.hdr a).next } = merged := ⟨_, rfl⟩
      have hmnext : (h.hdr a).next = merged.next := by rw [← hm]
      have hm' := hm
      rw [ha] at hm'
      have hdvd : 4 ∣ extent 8 xs :=
        dvd_extent (by decide) (sized_append.mp (List.concat_eq_append ▸ hsized)).1
      obtain ⟨-, hcut, hbreak, hu, hmarks⟩ :=
        hpred.absorb (by omega) (by omega) (by omega) hfree hm'
      rw [if_pos hfree, if_pos hfree, hsum, run_bind, writeHdr_run]
      dsimp only
      rw [if_pos rfl, hm, hmnext, run_bind, relinkPrev_run]
      exact ⟨_, rfl, hcut.seg, hbreak, hu, by rw [ha]; exact hmarks⟩
    · rw [if_neg hfree, if_neg hfree]
      exact ⟨h, rfl, hpred.seg, rfl, .refl h _, fun gs _ => .refl h gs⟩

/-- Marking a block free takes its payload out of use, and no other. -/
theorem mem_allocs_freed {m q k : ℕ} :
    (q, k) ∈ allocs 8 vmSegHeapStart (xs ++ ⟨m, true⟩ :: ys) ↔
      (q, k) ∈ allocs 8 vmSegHeapStart (xs ++ ⟨m, false⟩ :: ys) ∧
        q ≠ vmSegHeapStart + extent 8 xs + 8 := by
  have hold : (q, k) ∈ allocs 8 vmSegHeapStart (xs ++ ⟨m, false⟩ :: ys) ↔
      (q, k) ∈ allocs 8 vmSegHeapStart (xs ++ ⟨m, true⟩ :: ys) ∨
        (q, k) = (vmSegHeapStart + extent 8 xs + 8, m) := by
    rw [allocs_append, allocs_append, List.mem_append, List.mem_append, mem_allocs_cons,
      mem_allocs_cons, Prod.mk.injEq]
    simp only [Bool.true_eq_false, true_and, false_and, false_or]
    tauto
  rw [hold]
  constructor
  · intro hmem
    refine ⟨.inl hmem, ?_⟩
    rintro rfl
    exact fresh_payload rfl k hmem
  · rintro ⟨hmem | heq, hne⟩
    · exact hmem
    · exact absurd (Prod.mk.inj heq).1 hne

/-- The link behind the block that a release leaves. -/
theorem nextLink_release (ha : vmSegHeapStart + extent 8 xs = a) :
    nextLink (mergeNext 8 n ys).2 0 (a + 8 + (mergeNext 8 n ys).1.size) = 0 ∨
      nextLink (mergeNext 8 n ys).2 0 (a + 8 + (mergeNext 8 n ys).1.size) ∈
        addrs 8 vmSegHeapStart (release 8 xs n ys) := by
  rw [release]
  generalize (mergeNext 8 n ys).1 = c
  generalize (mergeNext 8 n ys).2 = zs
  cases zs with
  | nil => exact .inl rfl
  | cons d zs =>
    obtain ⟨ws, hws, hext⟩ := mergePrev_behind (H := 8) xs c (d :: zs)
    have haddr : a + 8 + c.size = vmSegHeapStart + extent 8 ws := by omega
    rw [hws, haddr]
    exact .inr mem_addrs

/-- A release, by what it writes: the block is marked free, then coalesced with its successor
and its predecessor. -/
theorem free_run (fresh : FlatHeap → ℕ → UInt8) {m : ℕ} (ht : Tiled h (xs ++ ⟨m, false⟩ :: ys)) :
    ∃ h', (vmAllocFree (flatHeapOps fresh) (vmSegHeapStart + extent 8 xs + 8)).run h = ((), h') ∧
      Seg h' 0 vmSegHeapStart (release 8 xs m ys) 0 ∧ h'.heapBreak = h.heapBreak ∧
      Untouched h h' (xs ++ ⟨m, true⟩ :: ys) ∧
      KeepsMarks (h.put (vmSegHeapStart + extent 8 xs)
        { h.hdr (vmSegHeapStart + extent 8 xs) with free := 1 }) h' (release 8 xs m ys) := by
  obtain ⟨ha0, hend⟩ := ht.range rfl
  have hbound := ht.bound
  have htiles := ht.tiles
  rw [extent_append, extent_cons] at hbound htiles
  dsimp only at hbound htiles hend
  have hcut := ht.cut
  obtain ⟨a, ha⟩ : ∃ a, vmSegHeapStart + extent 8 xs = a := ⟨_, rfl⟩
  have hstart : vmSegHeapStart = 16384 := rfl
  rw [ha] at hcut ha0 hend ⊢
  obtain ⟨h₁, hh₁⟩ : ∃ h₁, h.put a { h.hdr a with free := 1 } = h₁ := ⟨_, rfl⟩
  have hc₁ : Cut h₁ xs ⟨m, true⟩ ys a := by
    rw [← hh₁]
    exact hcut.mark 1
  have hhdr : h₁.hdr a = { h.hdr a with free := 1 } := by
    rw [← hh₁]
    exact FlatHeap.hdr_put_self ⟨(h.hdr_fits a).size, (h.hdr_fits a).next, (h.hdr_fits a).prev⟩
  have hu₁ : Untouched h h₁ (xs ++ ⟨m, true⟩ :: ys) := by
    rw [← hh₁, ← ha]
    exact .put mem_addrs
  have hsized := sized_append.mp ht.sized
  have hdvd : 4 ∣ extent 8 xs := dvd_extent (by decide) hsized.1
  have h4 : 4 ∣ a := by omega
  obtain ⟨h₂, hrun₂, hc₂, hbreak₂, hu₂, hmarks₂⟩ := freeMergeNext_run fresh hc₁ ha0 h4 (by omega)
  have hext : extent 8 ((mergeNext 8 m ys).1 :: (mergeNext 8 m ys).2) = 8 + m + extent 8 ys :=
    extent_mergeNext
  rw [extent_cons] at hext
  obtain ⟨h₃, hrun₃, hseg₃, hbreak₃, hu₃, hmarks₃⟩ :=
    freeMergePrev_run fresh hc₂ hsized.1 (by omega)
  -- the block behind, whose link is rewritten, stays in the list
  have hbehind : nextLink (mergeNext 8 m ys).2 0 (a + 8 + (mergeNext 8 m ys).1.size) = 0 ∨
      nextLink (mergeNext 8 m ys).2 0 (a + 8 + (mergeNext 8 m ys).1.size) ∈
        addrs 8 vmSegHeapStart (release 8 xs m ys) := nextLink_release ha
  refine ⟨h₃, ?_, hseg₃, ?_, ?_, ?_⟩
  · have hguard : ¬ ((flatHeapOps fresh).hasVm h = false ∨
        a + 8 < (flatHeapOps fresh).heapStart h + vmBlockHdrSize ∨
        (flatHeapOps fresh).heapBreak h ≤ a + 8) := by
      rintro (hvm | hlt | hle)
      · cases hvm
      · have : a + 8 < vmSegHeapStart + 8 := hlt
        omega
      · have : h.heapBreak ≤ a + 8 := hle
        have hpos := (sized_cons.mp (sized_append.mp ht.sized).2).1.1
        dsimp only at hpos
        omega
    have hback : a + 8 - vmBlockHdrSize = a := rfl
    rw [vmAllocFree, run_get_bind, if_neg hguard]
    dsimp only
    rw [hback, run_bind, readHdr_run]
    dsimp only
    rw [hcut.header.free, if_neg Bool.false_ne_true, run_bind, writeHdr_run, hh₁]
    dsimp only
    rw [if_pos rfl, run_bind, ← hhdr, hrun₂]
    exact hrun₃
  · rw [hbreak₃, hbreak₂, ← hh₁]
    rfl
  · refine hu₁.trans (hu₂.trans fun q k hq => hu₃ q k ?_)
    rw [allocs_append_mergeNext]
    exact hq
  · rw [hh₁]
    exact (hmarks₂ _ hbehind).trans (hmarks₃ _ hbehind)

theorem free_spec (fresh : FlatHeap → ℕ → UInt8) {m : ℕ} (ht : Tiled h bs) (hsep : Separated bs)
    (hmem : (p, m) ∈ allocs 8 vmSegHeapStart bs) :
    ∃ h' bs', (vmAllocFree (flatHeapOps fresh) p).run h = ((), h') ∧ Tiled h' bs' ∧
      Separated bs' ∧ Untouched h h' bs' ∧
      (∀ q k, (q, k) ∈ allocs 8 vmSegHeapStart bs' ↔
        (q, k) ∈ allocs 8 vmSegHeapStart bs ∧ q ≠ p) ∧
      KeepsMarks (h.put (p - 8) { h.hdr (p - 8) with free := 1 }) h' bs' := by
  obtain ⟨xs, ys, rfl, rfl⟩ := exists_of_mem_allocs hmem
  obtain ⟨h', hrun, hseg, hbreak, hu, hmarks⟩ := free_run fresh ht
  have hsys := separated_used_cons.mp (separated_append.mp hsep).2.1
  have hallocs : allocs 8 vmSegHeapStart (release 8 xs m ys) =
      allocs 8 vmSegHeapStart (xs ++ ⟨m, true⟩ :: ys) := allocs_release hsys
  refine ⟨h', release 8 xs m ys, hrun, ⟨hseg, ?_, ?_, ?_, ?_⟩, separated_release hsep, ?_, ?_,
    hmarks⟩
  · rw [extent_release, hbreak]
    exact ht.tiles
  · exact sized_release (by decide) ht.sized
  · rw [extent_release]
    exact ht.paged
  · rw [extent_release]
    exact ht.bound
  · rw [Untouched, hallocs]
    exact hu
  · intro q k
    rw [hallocs]
    exact mem_allocs_freed

end Mosrt
