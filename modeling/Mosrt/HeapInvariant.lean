/-
The heap over whole histories of its clients.

The memory is a reliable byte store.  Clients allocate, release what they were given, and write
inside their own allocations; `live` records what they hold.

* `HeapOk.step` — one operation keeps the heap tiled by blocks, of which those in use are the
  live allocations;
* `heap_well_formed` — the list that `next` links from the start of the heap, after any history;
* `allocations_disjoint` — where an allocation lies, and what no operation of the allocator
  changes.
-/
import Mosrt.HeapSpec
import Mosrt.Runs

namespace Mosrt

open BlockList StateSim

/-- The heap, and the address and the requested size of each live allocation. -/
structure HeapClients where
  heap : FlatHeap
  live : List (ℕ × ℕ)

inductive ClientOp where
  | malloc (size : ℕ)
  | free (addr : ℕ)
  | store (addr : ℕ) (src : List UInt8)

/-- One operation; `fresh` is what is in a page that the heap grows into, and `fuel` bounds the
steps of an allocation. -/
def ClientOp.exec (fresh : FlatHeap → ℕ → UInt8) (fuel : ℕ) (s : HeapClients) :
    ClientOp → HeapClients
  | .malloc size =>
    let r := (vmAllocMalloc (flatHeapOps fresh) fuel size).run s.heap
    ⟨r.2, if r.1.getD 0 = 0 then s.live else (r.1.getD 0, size) :: s.live⟩
  | .free addr =>
    ⟨((vmAllocFree (flatHeapOps fresh) addr).run s.heap).2, s.live.filter fun e => e.1 != addr⟩
  | .store addr src => ⟨s.heap.write addr src, s.live⟩

/-- Clients release live addresses and write inside their own allocations. -/
def ClientOp.Proper (s : HeapClients) : ClientOp → Prop
  | .malloc _ => True
  | .free addr => ∃ e ∈ s.live, e.1 = addr
  | .store addr src => ∃ e ∈ s.live, e.1 ≤ addr ∧ addr + src.length ≤ e.1 + e.2

instance (s : HeapClients) (op : ClientOp) : Decidable (op.Proper s) := by
  cases op <;> unfold ClientOp.Proper <;> infer_instance

/-- Before the first allocation; the memory holds anything. -/
def heapClientsInit (mem : ℕ → UInt8) : HeapClients := ⟨⟨mem, vmSegHeapStart⟩, []⟩

/-- Operations that leave the contents of the allocation at `addr` to its client. -/
def ClientOp.Spares (addr : ℕ) : ClientOp → Prop
  | .malloc _ => True
  | .free a => a ≠ addr
  | .store _ _ => False

/-! ### The invariant -/

variable {fresh : FlatHeap → ℕ → UInt8} {fuel : ℕ} {s : HeapClients} {h : FlatHeap} {a p : ℕ}
  {bs : List Block}

/-- The blocks `bs` tile the heap, and those in use are the live allocations. -/
structure HeapOk (s : HeapClients) (bs : List Block) : Prop where
  tiled : Tiled s.heap bs
  separated : Separated bs
  holds : ∀ q n, (q, n) ∈ s.live → ∃ k, n ≤ k ∧ (q, k) ∈ allocs 8 vmSegHeapStart bs
  held : ∀ q k, (q, k) ∈ allocs 8 vmSegHeapStart bs → ∃ n, (q, n) ∈ s.live

theorem HeapOk.init (mem : ℕ → UInt8) : HeapOk (heapClientsInit mem) [] :=
  ⟨tiled_nil mem, List.isChain_nil, (fun _ _ hq => nomatch hq), (fun _ _ hq => nomatch hq)⟩

/-- What one operation does to the payloads it is not about. -/
def Spared (s s' : HeapClients) (op : ClientOp) : Prop :=
  ∀ q n, (q, n) ∈ s.live → op.Spares q → ∀ x, q ≤ x → x < q + n → s'.heap.mem x = s.heap.mem x

theorem HeapOk.malloc (hs : HeapOk s bs) (hfuel : 4096 ≤ fuel) (size : ℕ) :
    (∃ bs', HeapOk (ClientOp.exec fresh fuel s (.malloc size)) bs') ∧
      Spared s (ClientOp.exec fresh fuel s (.malloc size)) (.malloc size) := by
  obtain ⟨r, h', bs', hrun, ht, hsep, hu, ho, -⟩ :=
    malloc_spec fresh hs.tiled hs.separated hfuel size
  have hexec : ClientOp.exec fresh fuel s (.malloc size) =
      ⟨h', if r = 0 then s.live else (r, size) :: s.live⟩ := by
    rw [ClientOp.exec, hrun]
    rfl
  rw [hexec]
  refine ⟨⟨bs', ht, hsep, ?_, ?_⟩, ?_⟩
  · intro q n hq
    cases ho with
    | refused hsame =>
      rw [hsame]
      exact hs.holds q n hq
    | granted _ k hr hk hmem _ =>
      rw [if_neg hr.ne'] at hq
      rcases List.mem_cons.mp hq with heq | hq
      · obtain ⟨rfl, rfl⟩ := Prod.mk.inj heq
        exact ⟨k, hk, (hmem q k).mpr (.inl rfl)⟩
      · obtain ⟨k', hk', hq'⟩ := hs.holds q n hq
        exact ⟨k', hk', (hmem q k').mpr (.inr hq')⟩
  · intro q k hq
    cases ho with
    | refused hsame =>
      rw [hsame] at hq
      exact hs.held q k hq
    | granted _ k' hr _ hmem _ =>
      rw [if_neg hr.ne']
      rcases (hmem q k).mp hq with heq | hq
      · obtain ⟨rfl, rfl⟩ := Prod.mk.inj heq
        exact ⟨size, List.mem_cons_self⟩
      · obtain ⟨n, hn⟩ := hs.held q k hq
        exact ⟨n, List.mem_cons_of_mem _ hn⟩
  · intro q n hq _ x hx hx'
    obtain ⟨k, hk, hmem⟩ := hs.holds q n hq
    exact hu q k hmem x hx (by omega)

theorem HeapOk.free (hs : HeapOk s bs) (hlive : ∃ e ∈ s.live, e.1 = p) :
    (∃ bs', HeapOk (ClientOp.exec fresh fuel s (.free p)) bs') ∧
      Spared s (ClientOp.exec fresh fuel s (.free p)) (.free p) := by
  obtain ⟨⟨_, n⟩, hp, rfl⟩ := hlive
  obtain ⟨m, -, hm⟩ := hs.holds _ n hp
  obtain ⟨h', bs', hrun, ht, hsep, hu, hmem, -⟩ := free_spec fresh hs.tiled hs.separated hm
  rename_i p
  have hexec : ClientOp.exec fresh fuel s (.free p) =
      ⟨h', s.live.filter fun e => e.1 != p⟩ := by
    rw [ClientOp.exec, hrun]
  rw [hexec]
  refine ⟨⟨bs', ht, hsep, ?_, ?_⟩, ?_⟩
  · intro q n hq
    obtain ⟨hq, hne⟩ := List.mem_filter.mp hq
    obtain ⟨k, hk, hqk⟩ := hs.holds q n hq
    exact ⟨k, hk, (hmem q k).mpr ⟨hqk, bne_iff_ne.mp hne⟩⟩
  · intro q k hq
    obtain ⟨hqk, hne⟩ := (hmem q k).mp hq
    obtain ⟨n, hn⟩ := hs.held q k hqk
    exact ⟨n, List.mem_filter.mpr ⟨hn, bne_iff_ne.mpr hne⟩⟩
  · intro q n hq hne x hx hx'
    obtain ⟨k, hk, hqk⟩ := hs.holds q n hq
    exact hu q k ((hmem q k).mpr ⟨hqk, Ne.symm hne⟩) x hx (by omega)

/-- Clients do not reach a header. -/
theorem HeapOk.store {src : List UInt8} (hs : HeapOk s bs)
    (hlive : ∃ e ∈ s.live, e.1 ≤ a ∧ a + src.length ≤ e.1 + e.2) :
    HeapOk (ClientOp.exec fresh fuel s (.store a src)) bs := by
  obtain ⟨⟨q, n⟩, hq, hle, hle'⟩ := hlive
  obtain ⟨k, hk, hqk⟩ := hs.holds q n hq
  dsimp only at hle hle'
  refine ⟨hs.tiled.write fun x hx => ?_, hs.separated, hs.holds, hs.held⟩
  have := addrs_apart hx hqk
  omega

theorem HeapOk.step {op : ClientOp} (hs : HeapOk s bs) (hfuel : 4096 ≤ fuel) (hop : op.Proper s) :
    (∃ bs', HeapOk (op.exec fresh fuel s) bs') ∧ Spared s (op.exec fresh fuel s) op := by
  cases op with
  | malloc size => exact hs.malloc hfuel size
  | free p => exact hs.free hop
  | store a src => exact ⟨⟨bs, hs.store hop⟩, fun _ _ _ hno => hno.elim⟩

theorem HeapOk.run (hfuel : 4096 ≤ fuel) (mem : ℕ → UInt8) {ops : List ClientOp}
    (hops : Runs.Along (ClientOp.exec fresh fuel) (fun s op => op.Proper s) (heapClientsInit mem)
      ops) :
    ∃ bs, HeapOk (Runs.run (ClientOp.exec fresh fuel) (heapClientsInit mem) ops) bs :=
  Runs.run_invariant (I := fun s => ∃ bs, HeapOk s bs)
    (fun _ _ hs hop => (hs.choose_spec.step hfuel hop).1) ⟨[], .init mem⟩ hops

/-! ### The list in memory -/

/-- Following `next` from `a` visits the headers at these addresses. -/
inductive Follows (h : FlatHeap) : ℕ → List ℕ → Prop
  | stop : Follows h 0 []
  | visit {a : ℕ} {as : List ℕ} : a ≠ 0 → Follows h (h.hdr a).next as → Follows h a (a :: as)

theorem Follows.unique {as as' : List ℕ} (h1 : Follows h a as) (h2 : Follows h a as') :
    as = as' := by
  induction h1 generalizing as' with
  | stop =>
    cases h2 with
    | stop => rfl
    | visit hne _ => exact absurd rfl hne
  | visit hne _ ih =>
    cases h2 with
    | stop => exact absurd rfl hne
    | visit _ h2 => rw [ih h2]

theorem Seg.follows (hs : Seg h p a bs 0) (ha : 0 < a) :
    Follows h (nextLink bs 0 a) (addrs 8 a bs) := by
  induction bs generalizing p a with
  | nil => exact .stop
  | cons b bs ih =>
    have hrest := ih hs.2 (by omega)
    rw [← hs.1.next] at hrest
    exact .visit ha.ne' hrest

/-- Two neighbours: the first ends where the second begins, they are linked both ways and not
both free. -/
structure Neighbours (h : FlatHeap) (x y : ℕ) : Prop where
  adjacent : x + 8 + (h.hdr x).size = y
  next : (h.hdr x).next = y
  prev : (h.hdr y).prev = x
  apart : ¬ ((h.hdr x).isFree = true ∧ (h.hdr y).isFree = true)

/-- The headers at `as` describe blocks that tile the heap. -/
structure HeapLayout (h : FlatHeap) (as : List ℕ) : Prop where
  head : as.head? = some vmSegHeapStart
  first : (h.hdr vmSegHeapStart).prev = 0
  chain : as.IsChain (Neighbours h)
  last : ∀ x ∈ as.getLast?, x + 8 + (h.hdr x).size = h.heapBreak ∧ (h.hdr x).next = 0
  sizes : ∀ x ∈ as, 0 < (h.hdr x).size ∧ 4 ∣ (h.hdr x).size

theorem Seg.neighbours (hs : Seg h p a bs 0) (hsep : Separated bs) :
    (addrs 8 a bs).IsChain (Neighbours h) := by
  induction bs generalizing p a with
  | nil => exact List.isChain_nil
  | cons b bs ih =>
    obtain ⟨hb, hrest⟩ := hs
    cases bs with
    | nil => exact List.isChain_singleton _
    | cons c bs =>
      obtain ⟨hmeet, hsep⟩ := List.isChain_cons_cons.mp hsep
      refine List.isChain_cons_cons.mpr ⟨⟨?_, hb.next, hrest.1.prev, ?_⟩, ih hrest hsep⟩
      · rw [hb.size]
      · rw [hb.free, hrest.1.free]
        exact hmeet

theorem Seg.last (hs : Seg h p a bs 0) :
    ∀ x ∈ (addrs 8 a bs).getLast?, x + 8 + (h.hdr x).size = a + extent 8 bs ∧
      (h.hdr x).next = 0 := by
  rcases List.eq_nil_or_concat bs with rfl | ⟨bs, b, rfl⟩
  · exact fun x hx => nomatch hx
  · intro x hx
    rw [List.concat_eq_append] at hs hx ⊢
    obtain ⟨-, hb, -⟩ := seg_append.mp hs
    rw [addrs_append, addrs, addrs, List.getLast?_concat, Option.mem_some_iff] at hx
    subst hx
    rw [hb.size, extent_append, extent_cons, extent_nil]
    exact ⟨by omega, hb.next⟩

theorem Seg.sizes (hs : Seg h p a bs 0) (hsized : Sized 4 bs) :
    ∀ x ∈ addrs 8 a bs, 0 < (h.hdr x).size ∧ 4 ∣ (h.hdr x).size := by
  induction bs generalizing p a with
  | nil => exact fun x hx => nomatch hx
  | cons b bs ih =>
    obtain ⟨hb, hsized⟩ := sized_cons.mp hsized
    intro x hx
    rcases List.mem_cons.mp hx with rfl | hx
    · rw [hs.1.size]
      exact hb
    · exact ih hs.2 hsized x hx

theorem Tiled.layout (ht : Tiled h bs) (hsep : Separated bs) (hne : bs ≠ []) :
    Follows h vmSegHeapStart (addrs 8 vmSegHeapStart bs) ∧
      HeapLayout h (addrs 8 vmSegHeapStart bs) := by
  have hfollows := ht.seg.follows (by decide)
  rw [nextLink, if_neg hne] at hfollows
  refine ⟨hfollows, ?_, ?_, ht.seg.neighbours hsep, ?_, ht.seg.sizes ht.sized⟩
  · obtain ⟨b, bs, rfl⟩ := List.exists_cons_of_ne_nil hne
    rfl
  · obtain ⟨b, bs, rfl⟩ := List.exists_cons_of_ne_nil hne
    exact ht.seg.1.prev
  · rw [← ht.tiles]
    exact ht.seg.last

/-- When nothing is live, all blocks are free. -/
theorem HeapOk.all_free (hs : HeapOk s bs) (hlive : s.live = []) : ∀ b ∈ bs, b.free = true := by
  intro b hb
  obtain ⟨xs, ys, rfl⟩ := List.append_of_mem hb
  by_contra hfree
  have hmem : (vmSegHeapStart + extent 8 xs + 8, b.size) ∈
      allocs 8 vmSegHeapStart (xs ++ b :: ys) := by
    rw [allocs_append]
    refine List.mem_append_right _ (mem_allocs_cons.mpr (.inl ⟨?_, rfl, rfl⟩))
    exact Bool.eq_false_iff.mpr hfree
  obtain ⟨n, hn⟩ := hs.held _ _ hmem
  rw [hlive] at hn
  cases hn

/-- **Well-formed heaps.**  After any history the heap is empty, or `next` links from its start
blocks that tile it, with `prev` links that mirror them and no two free neighbours; it has at
most 128 pages; an allocation comes to an end; and when nothing is live the heap is one free
block. -/
theorem heap_well_formed (fresh : FlatHeap → ℕ → UInt8) (fuel : ℕ) (hfuel : 4096 ≤ fuel)
    (mem : ℕ → UInt8) (ops : List ClientOp)
    (hops : Runs.Along (ClientOp.exec fresh fuel) (fun s op => op.Proper s) (heapClientsInit mem)
      ops) :
    let s := Runs.run (ClientOp.exec fresh fuel) (heapClientsInit mem) ops
    vmSegHeapStart ≤ s.heap.heapBreak ∧ s.heap.heapBreak - vmSegHeapStart ≤ 32768 ∧
      (s.heap.heapBreak = vmSegHeapStart ∧ s.live = [] ∨
        ∃ as, Follows s.heap vmSegHeapStart as ∧ HeapLayout s.heap as ∧
          (s.live = [] → as = [vmSegHeapStart] ∧ (s.heap.hdr vmSegHeapStart).isFree = true)) ∧
      ∀ size, ((vmAllocMalloc (flatHeapOps fresh) fuel size).run s.heap).1.isSome = true := by
  intro s
  obtain ⟨bs, hs⟩ : ∃ bs, HeapOk s bs := HeapOk.run hfuel mem hops
  clear_value s
  have htiles := hs.tiled.tiles
  have hbound := hs.tiled.bound
  refine ⟨by omega, by omega, ?_, ?_⟩
  · by_cases hne : bs = []
    · subst hne
      refine .inl ⟨htiles.symm, List.eq_nil_iff_forall_not_mem.mpr fun e he => ?_⟩
      obtain ⟨k, -, hk⟩ := hs.holds e.1 e.2 he
      cases hk
    · obtain ⟨hfollows, hlayout⟩ := hs.tiled.layout hs.separated hne
      refine .inr ⟨_, hfollows, hlayout, fun hlive => ?_⟩
      obtain ⟨n, rfl⟩ := eq_singleton_of_free hs.separated (hs.all_free hlive) hne
      exact ⟨rfl, hs.tiled.seg.1.free⟩
  · intro size
    obtain ⟨r, h', -, hrun, -⟩ := malloc_spec fresh hs.tiled hs.separated hfuel size
    rw [hrun]
    rfl

set_option maxRecDepth 100000 in
/-- Three allocations released out of order. -/
theorem heap_well_formed_released :
    let ops : List ClientOp := [.malloc 10, .malloc 600, .malloc 20, .store 16396 [1, 2, 3],
      .free 16904, .free 16392, .free 16412]
    let s := Runs.run (ClientOp.exec (fun _ _ => 255) 4096) (heapClientsInit fun _ => 7) ops
    s.live = [] ∧ ∃ as, Follows s.heap vmSegHeapStart as ∧ HeapLayout s.heap as ∧
      as = [vmSegHeapStart] ∧ (s.heap.hdr vmSegHeapStart).isFree = true := by
  intro ops s
  have hlive : s.live = [] := by decide +kernel
  have hbreak : s.heap.heapBreak ≠ vmSegHeapStart := by decide +kernel
  have hops : Runs.Along (ClientOp.exec (fun _ _ => 255) 4096) (fun s op => op.Proper s)
      (heapClientsInit fun _ => 7) ops := by decide +kernel
  obtain ⟨-, -, hheap, -⟩ := heap_well_formed (fun _ _ => 255) 4096 le_rfl (fun _ => 7) ops hops
  obtain ⟨as, h1, h2, h3⟩ := hheap.resolve_left fun h => hbreak h.1
  exact ⟨hlive, as, h1, h2, h3 hlive⟩

/-- **Disjoint allocations.**  After any history: what an allocation returns is aligned, lies in
the heap, apart from every live allocation and every header, and neither an allocation nor a
release changes a byte of a live allocation it is not about. -/
theorem allocations_disjoint (fresh : FlatHeap → ℕ → UInt8) (fuel : ℕ) (hfuel : 4096 ≤ fuel)
    (mem : ℕ → UInt8) (ops : List ClientOp)
    (hops : Runs.Along (ClientOp.exec fresh fuel) (fun s op => op.Proper s) (heapClientsInit mem)
      ops) :
    let s := Runs.run (ClientOp.exec fresh fuel) (heapClientsInit mem) ops
    (∀ n a h', (vmAllocMalloc (flatHeapOps fresh) fuel n).run s.heap = (some a, h') → a ≠ 0 →
      4 ∣ a ∧ vmSegHeapStart + 8 ≤ a ∧ a + n ≤ h'.heapBreak ∧
      (∀ e ∈ s.live, e.1 + e.2 ≤ a ∨ a + n ≤ e.1) ∧
      (∀ as, Follows h' vmSegHeapStart as → ∀ x ∈ as, x + 8 ≤ a ∨ a + n ≤ x)) ∧
    ∀ op : ClientOp, op.Proper s → ∀ e ∈ s.live, op.Spares e.1 →
      ∀ x, e.1 ≤ x → x < e.1 + e.2 → (op.exec fresh fuel s).heap.mem x = s.heap.mem x := by
  intro s
  obtain ⟨bs, hs⟩ : ∃ bs, HeapOk s bs := HeapOk.run hfuel mem hops
  clear_value s
  refine ⟨?_, fun op hop e he => (hs.step hfuel hop).2 e.1 e.2 he⟩
  intro n a h' hrun ha
  obtain ⟨r, h'', bs', hrun', ht, hsep, -, ho, -⟩ :=
    malloc_spec fresh hs.tiled hs.separated hfuel n
  rw [hrun'] at hrun
  obtain ⟨hr, rfl⟩ := Prod.mk.inj hrun
  obtain rfl := Option.some.inj hr
  cases ho with
  | refused => exact absurd rfl ha
  | granted _ k _ hk hmem hnew =>
    have hself := (hmem r k).mpr (.inl rfl)
    have hbounds := allocs_bounds hself
    have htiles := ht.tiles
    have hne : bs' ≠ [] := by
      rintro rfl
      cases hself
    refine ⟨?_, hbounds.1, by omega, ?_, ?_⟩
    · obtain ⟨xs, ys, rfl, rfl⟩ := exists_of_mem_allocs hself
      have hdvd : 4 ∣ extent 8 xs := dvd_extent (by decide) (sized_append.mp ht.sized).1
      have hstart : vmSegHeapStart = 16384 := rfl
      omega
    · intro e he
      obtain ⟨k', hk', hold⟩ := hs.holds e.1 e.2 he
      have hapart := allocs_apart ((hmem _ _).mpr (.inr hold)) hself (by
        intro heq
        rw [heq] at hold
        exact hnew k' hold)
      omega
    · intro as has x hx
      rw [has.unique (ht.layout hsep hne).1] at hx
      have := addrs_apart hx hself
      omega

set_option maxRecDepth 100000 in
/-- A hole between two live allocations is used again. -/
theorem allocations_disjoint_hole :
    let ops : List ClientOp := [.malloc 10, .malloc 40, .malloc 20, .free 16412]
    let s := Runs.run (ClientOp.exec (fun _ _ => 255) 4096) (heapClientsInit fun _ => 7) ops
    s.live = [(16460, 20), (16392, 10)] ∧
      ((vmAllocMalloc (flatHeapOps fun _ _ => 255) 4096 15).run s.heap).1 = some 16412 ∧
      ∀ e ∈ s.live, e.1 + e.2 ≤ 16412 ∨ 16412 + 15 ≤ e.1 := by
  intro ops s
  have hops : Runs.Along (ClientOp.exec (fun _ _ => 255) 4096) (fun s op => op.Proper s)
      (heapClientsInit fun _ => 7) ops := by decide +kernel
  have hret : ((vmAllocMalloc (flatHeapOps fun _ _ => 255) 4096 15).run s.heap).1 = some 16412 := by
    decide +kernel
  have hpair : ∀ r : Option ℕ × FlatHeap, r.1 = some 16412 → r = (some 16412, r.2) :=
    fun r hr => Prod.ext hr rfl
  have hall := (allocations_disjoint (fun _ _ => 255) 4096 le_rfl (fun _ => 7) ops hops).1
  exact ⟨by decide +kernel, hret, (hall 15 16412 _ (hpair _ hret) (by decide)).2.2.2.1⟩

end Mosrt
