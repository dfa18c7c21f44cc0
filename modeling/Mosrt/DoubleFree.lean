/-
Releasing an address twice.

`vm_alloc_free` takes an address back unless the flag in front of it says that the block is
free.  After a release the flag is set, but the bytes do not stay a header: when the blocks
around are merged and cut again, another header may come to lie 4 bytes in front of the old
one, with the low byte of its `prev` link where the flag was.

* `marked_after` — what one call leaves of the flag of a released block;
* `Releases.Ok.step` — histories of allocations and releases;
* `double_free_harmless` — a second release does nothing in all histories that keep clear of
  such headers with a `prev` link to a multiple of 256.
-/
import Mosrt.HeapInvariant

namespace Mosrt

open BlockList StateSim

variable {fresh : FlatHeap → ℕ → UInt8} {fuel : ℕ} {h h' : FlatHeap} {p : ℕ} {bs : List Block}

/-- What the clients hold, and the addresses that were released and not returned again since. -/
structure Releases where
  clients : HeapClients
  released : List ℕ

def releasesInit (mem : ℕ → UInt8) : Releases := ⟨heapClientsInit mem, []⟩

def ClientOp.execReleases (fresh : FlatHeap → ℕ → UInt8) (fuel : ℕ) (s : Releases) (op : ClientOp) :
    Releases where
  clients := op.exec fresh fuel s.clients
  released :=
    match op with
    | .malloc size =>
      let r := (vmAllocMalloc (flatHeapOps fresh) fuel size).run s.clients.heap
      s.released.filter fun p => p != r.1.getD 0
    | .free addr => if ∃ e ∈ s.clients.live, e.1 = addr then addr :: s.released else s.released
    | .store _ _ => s.released

/-- Clients release what they were given, once or more often, and do not write. -/
def ClientOp.Repeated (s : Releases) : ClientOp → Prop
  | .malloc _ => True
  | .free addr => (∃ e ∈ s.clients.live, e.1 = addr) ∨ addr ∈ s.released
  | .store _ _ => False

instance (s : Releases) : (op : ClientOp) → Decidable (op.Repeated s)
  | .malloc _ => inferInstanceAs (Decidable True)
  | .free addr =>
    inferInstanceAs (Decidable ((∃ e ∈ s.clients.live, e.1 = addr) ∨ addr ∈ s.released))
  | .store _ _ => inferInstanceAs (Decidable False)

/-- No block begins 4 bytes in front of where a released block began, behind a block whose
address is a multiple of 256. -/
def Releases.Clear (s : Releases) : Prop :=
  ∀ as, Follows s.clients.heap vmSegHeapStart as → ∀ p ∈ s.released, p - 12 ∈ as →
    ¬ 256 ∣ (s.clients.heap.hdr (p - 12)).prev

/-! ### The flag of a released block -/

/-- Where a payload lies. -/
structure InHeap (h : FlatHeap) (p : ℕ) : Prop where
  aligned : 4 ∣ p
  above : vmSegHeapStart + 8 ≤ p
  below : p < h.heapBreak

theorem Tiled.inHeap (ht : Tiled h bs) {m : ℕ} (hp : (p, m) ∈ allocs 8 vmSegHeapStart bs) :
    InHeap h p := by
  have hbounds := allocs_bounds hp
  have htiles := ht.tiles
  obtain ⟨xs, ys, rfl, rfl⟩ := exists_of_mem_allocs hp
  obtain ⟨hxs, hm⟩ := sized_append.mp ht.sized
  have hpos := (sized_cons.mp hm).1.1
  have hdvd : 4 ∣ extent 8 xs := dvd_extent (by decide) hxs
  have hstart : vmSegHeapStart = 16384 := rfl
  dsimp only at hpos
  exact ⟨by omega, hbounds.1, by omega⟩

/-- A flag that is set keeps the call from doing anything. -/
theorem vmAllocFree_marked (fresh : FlatHeap → ℕ → UInt8) (hp : InHeap h p)
    (hmark : h.mem (p - 6) ≠ 0) : (vmAllocFree (flatHeapOps fresh) p).run h = ((), h) := by
  have hguard : ¬ ((flatHeapOps fresh).hasVm h = false ∨
      p < (flatHeapOps fresh).heapStart h + vmBlockHdrSize ∨
      (flatHeapOps fresh).heapBreak h ≤ p) := by
    rintro (hvm | hlt | hle)
    · cases hvm
    · exact absurd hp.above (not_le.mpr hlt)
    · exact absurd hp.below (not_lt.mpr hle)
  have hfree : (h.hdr (p - vmBlockHdrSize)).isFree = true := by
    refine bne_iff_ne.mpr ?_
    have hflag : p - vmBlockHdrSize + 2 = p - 6 := by
      have := hp.above
      show p - 8 + 2 = p - 6
      omega
    show h.mem (p - vmBlockHdrSize + 2) ≠ 0
    rwa [hflag]
  rw [vmAllocFree, run_get_bind, if_neg hguard]
  dsimp only
  rw [run_bind, readHdr_run]
  dsimp only
  rw [if_pos hfree]
  rfl

/-- The flag of a released block after a call that left the list `bs`: it is the flag of a free
block, or the low byte of a link, or it was left alone. -/
theorem marked_after {h₀ : FlatHeap} (ht : Tiled h bs) (hk : KeepsMarks h₀ h bs)
    (hp : InHeap h₀ p) (hfree : ∀ m, (p, m) ∉ allocs 8 vmSegHeapStart bs)
    (hclear : p - 12 ∈ addrs 8 vmSegHeapStart bs → ¬ 256 ∣ (h.hdr (p - 12)).prev)
    (hmark : h₀.mem (p - 6) ≠ 0) : h.mem (p - 6) ≠ 0 := by
  obtain ⟨h4, habove, hbelow⟩ := hp
  by_cases hself : p - 8 ∈ addrs 8 vmSegHeapStart bs
  · obtain ⟨xs, b, ys, rfl, hx⟩ := exists_of_mem_addrs hself
    have hb : b.free = true := by
      by_contra hused
      refine hfree b.size ?_
      have hp8 : p = vmSegHeapStart + extent 8 xs + 8 := by omega
      rw [allocs_append, hp8]
      exact List.mem_append_right _ (mem_allocs_cons.mpr
        (.inl ⟨Bool.eq_false_iff.mpr hused, rfl, rfl⟩))
    have hhdr := ht.cut.header.free
    rw [← hx, hb] at hhdr
    have hflag : p - 8 + 2 = p - 6 := by omega
    have hne : h.mem (p - 8 + 2) ≠ 0 := bne_iff_ne.mp hhdr
    rwa [hflag] at hne
  by_cases hbefore : p - 12 ∈ addrs 8 vmSegHeapStart bs
  · intro hzero
    refine hclear hbefore ?_
    have hlow : p - 12 + 6 = p - 6 := by
      have hstart : vmSegHeapStart = 16384 := rfl
      omega
    show 256 ∣ (h.mem (p - 12 + 6)).toNat + 256 * (h.mem (p - 12 + 7)).toNat
    rw [hlow, hzero]
    exact ⟨(h.mem (p - 12 + 7)).toNat, by simp⟩
  · refine hk.kept (p - 6) (by omega) (by omega) (fun x hx => ?_) hmark
    have hx4 : 4 ∣ x := dvd_addrs (by decide) ht.sized (by decide) hx
    by_contra hcover
    have hcases : x = p - 8 ∨ x = p - 12 := by omega
    rcases hcases with rfl | rfl
    · exact hself hx
    · exact hbefore hx

/-! ### Histories -/

structure Releases.Ok (s : Releases) (bs : List Block) : Prop where
  heap : HeapOk s.clients bs
  inHeap : ∀ p ∈ s.released, InHeap s.clients.heap p
  gone : ∀ p ∈ s.released, ∀ n, (p, n) ∉ s.clients.live
  marked : ∀ p ∈ s.released, s.clients.heap.mem (p - 6) ≠ 0

variable {s : Releases}

theorem Releases.Clear.addrs (hs : s.Clear) (hok : HeapOk s.clients bs) (hp : p ∈ s.released)
    (hmem : p - 12 ∈ addrs 8 vmSegHeapStart bs) : ¬ 256 ∣ (s.clients.heap.hdr (p - 12)).prev := by
  have hne : bs ≠ [] := by
    rintro rfl
    cases hmem
  exact hs _ (hok.tiled.layout hok.separated hne).1 p hp hmem

theorem InHeap.mono (hp : InHeap h p) (hle : h.heapBreak ≤ h'.heapBreak) : InHeap h' p :=
  ⟨hp.aligned, hp.above, hp.below.trans_le hle⟩

/-- What is not live is not in use. -/
theorem HeapOk.not_used {c : HeapClients} (hc : HeapOk c bs)
    (hgone : ∀ n, (p, n) ∉ c.live) (m : ℕ) :
    (p, m) ∉ allocs 8 vmSegHeapStart bs := by
  intro hmem
  obtain ⟨n, hn⟩ := hc.held p m hmem
  exact hgone n hn

/-- The state after a call, from what the call keeps. -/
theorem Releases.Ok.of_keeps {s' : Releases} {h₀ : FlatHeap} {bs' : List Block}
    (hheap : HeapOk s'.clients bs') (hk : KeepsMarks h₀ s'.clients.heap bs')
    (hgone : ∀ p ∈ s'.released, ∀ n, (p, n) ∉ s'.clients.live)
    (hbefore : ∀ p ∈ s'.released, InHeap h₀ p ∧ h₀.mem (p - 6) ≠ 0) (hclear : s'.Clear) :
    s'.Ok bs' where
  heap := hheap
  inHeap := fun p hp => (hbefore p hp).1.mono hk.grows
  gone := hgone
  marked := fun p hp => marked_after hheap.tiled hk (hbefore p hp).1
    (hheap.not_used (hgone p hp)) (hclear.addrs hheap hp) (hbefore p hp).2

theorem Releases.Ok.malloc (hs : s.Ok bs) (hfuel : 4096 ≤ fuel) (size : ℕ)
    (hclear : (ClientOp.execReleases fresh fuel s (.malloc size)).Clear) :
    ∃ bs', (ClientOp.execReleases fresh fuel s (.malloc size)).Ok bs' := by
  obtain ⟨bs', hheap⟩ : ∃ bs', HeapOk (ClientOp.exec fresh fuel s.clients (.malloc size)) bs' :=
    (hs.heap.malloc hfuel size).1
  obtain ⟨r, h', bs'', hrun, ht', -, -, -, hmarks⟩ :=
    malloc_spec fresh hs.heap.tiled hs.heap.separated hfuel size
  have hexec : ClientOp.execReleases fresh fuel s (.malloc size) =
      ⟨⟨h', if r = 0 then s.clients.live else (r, size) :: s.clients.live⟩,
        s.released.filter fun p => p != r⟩ := by
    rw [ClientOp.execReleases, ClientOp.exec, hrun]
    rfl
  have hheap' : HeapOk (ClientOp.execReleases fresh fuel s (.malloc size)).clients bs' := hheap
  rw [hexec] at hclear hheap' ⊢
  obtain rfl := ht'.unique hheap'.tiled
  refine ⟨bs'', .of_keeps hheap' hmarks ?_ ?_ hclear⟩
  · intro p hp n hlive
    obtain ⟨hp, hne⟩ := List.mem_filter.mp hp
    dsimp only at hlive
    split_ifs at hlive
    · exact hs.gone p hp n hlive
    · rcases List.mem_cons.mp hlive with heq | hlive
      · exact bne_iff_ne.mp hne (Prod.mk.inj heq).1
      · exact hs.gone p hp n hlive
  · intro p hp
    have hp := (List.mem_filter.mp hp).1
    exact ⟨hs.inHeap p hp, hs.marked p hp⟩

theorem Releases.Ok.free (hs : s.Ok bs) (hlive : ∃ e ∈ s.clients.live, e.1 = p)
    (hclear : (ClientOp.execReleases fresh fuel s (.free p)).Clear) :
    ∃ bs', (ClientOp.execReleases fresh fuel s (.free p)).Ok bs' := by
  obtain ⟨bs', hheap⟩ : ∃ bs', HeapOk (ClientOp.exec fresh fuel s.clients (.free p)) bs' :=
    (hs.heap.free hlive).1
  obtain ⟨⟨q, n⟩, hq, rfl⟩ := hlive
  obtain ⟨m, -, hm⟩ := hs.heap.holds q n hq
  obtain ⟨h', bs'', hrun, ht', -, -, -, hmarks⟩ :=
    free_spec fresh hs.heap.tiled hs.heap.separated hm
  have hexec : ClientOp.execReleases fresh fuel s (.free q) =
      ⟨⟨h', s.clients.live.filter fun e => e.1 != q⟩, q :: s.released⟩ := by
    have hex : ∃ e ∈ s.clients.live, e.1 = q := ⟨(q, n), hq, rfl⟩
    rw [ClientOp.execReleases, ClientOp.exec, hrun]
    dsimp only
    rw [if_pos hex]
  have hheap' : HeapOk (ClientOp.execReleases fresh fuel s (.free q)).clients bs' := hheap
  rw [hexec] at hclear hheap' ⊢
  obtain rfl := ht'.unique hheap'.tiled
  have hin := hs.heap.tiled.inHeap hm
  refine ⟨bs'', .of_keeps hheap' hmarks ?_ ?_ hclear⟩
  · intro p hp k hlive
    obtain ⟨hlive, hne⟩ := List.mem_filter.mp hlive
    rcases List.mem_cons.mp hp with rfl | hp
    · exact bne_iff_ne.mp hne rfl
    · exact hs.gone p hp k hlive
  · -- the call first sets the flag
    intro p hp
    rcases List.mem_cons.mp hp with rfl | hp
    · have hflag : p - 8 + 2 = p - 6 := by
        have := hin.above
        omega
      refine ⟨hin.mono le_rfl, ?_⟩
      rw [← hflag, FlatHeap.mem_put_flag]
      show (1 : UInt8) ≠ 0
      decide
    · obtain ⟨h4, habove, hbelow⟩ := hs.inHeap p hp
      have hq4 := hin.aligned
      have hset : KeepsMarks s.clients.heap (s.clients.heap.put (q - 8)
          { s.clients.heap.hdr (q - 8) with free := 1 }) [] :=
        .rewrite (by omega) (by show (1 : UInt8) ≠ 0; decide) rfl
      have hnone : ∀ x ∈ addrs 8 vmSegHeapStart [], p - 6 < x ∨ x + 8 ≤ p - 6 :=
        fun _ hmem => absurd hmem List.not_mem_nil
      exact ⟨(hs.inHeap p hp).mono le_rfl,
        hset.kept (p - 6) (by omega) (by omega) hnone (hs.marked p hp)⟩

/-- A second release changes nothing. -/
theorem Releases.Ok.again (hs : s.Ok bs) (hp : p ∈ s.released) :
    ClientOp.execReleases fresh fuel s (.free p) = s := by
  have hrun := vmAllocFree_marked fresh (hs.inHeap p hp) (hs.marked p hp)
  have hgone : ¬ ∃ e ∈ s.clients.live, e.1 = p := by
    rintro ⟨⟨q, n⟩, hlive, rfl⟩
    exact hs.gone q hp n hlive
  have hlive : (s.clients.live.filter fun e => e.1 != p) = s.clients.live := by
    refine List.filter_eq_self.mpr fun e he => ?_
    exact bne_iff_ne.mpr fun heq => hgone ⟨e, he, heq⟩
  rw [ClientOp.execReleases, ClientOp.exec, hrun, hlive]
  dsimp only
  rw [if_neg hgone]

theorem Releases.Ok.step {op : ClientOp} (hs : s.Ok bs) (hfuel : 4096 ≤ fuel) (hop : op.Repeated s)
    (hclear : (op.execReleases fresh fuel s).Clear) :
    ∃ bs', (op.execReleases fresh fuel s).Ok bs' := by
  cases op with
  | malloc size => exact hs.malloc hfuel size hclear
  | free p =>
    rcases hop with hlive | hreleased
    · exact hs.free hlive hclear
    · rw [hs.again hreleased]
      exact ⟨bs, hs⟩
  | store addr src => exact absurd hop id

theorem Releases.Ok.init (mem : ℕ → UInt8) : (releasesInit mem).Ok [] :=
  ⟨.init mem, nofun, nofun, nofun⟩

/-- **A second release is harmless** in every history of allocations and releases, with second
releases among them, in whose states no block begins 12 bytes in front of a released address
behind a block at a multiple of 256: it leaves the whole heap, the list, the headers and all
payloads, as it was. -/
theorem double_free_harmless (fresh : FlatHeap → ℕ → UInt8) (fuel : ℕ) (hfuel : 4096 ≤ fuel)
    (mem : ℕ → UInt8) (ops : List ClientOp) (p : ℕ)
    (hops : Runs.Along (ClientOp.execReleases fresh fuel) (fun s op => op.Repeated s ∧ s.Clear)
      (releasesInit mem) (ops ++ [.free p]))
    (hp : p ∈ (Runs.run (ClientOp.execReleases fresh fuel) (releasesInit mem) ops).released) :
    let heap := (Runs.run (ClientOp.execReleases fresh fuel) (releasesInit mem) ops).clients.heap
    (vmAllocFree (flatHeapOps fresh) p).run heap = ((), heap) := by
  intro heap
  obtain ⟨hbefore, ⟨-, hclear⟩, -⟩ := Runs.along_append.mp hops
  have hrun := Runs.run_invariant (I := fun s : Releases => s.Clear → ∃ bs, s.Ok bs)
    (fun s op hs hop hclear' => (hs hop.2).choose_spec.step hfuel hop.1 hclear')
    (fun _ => ⟨[], .init mem⟩) hbefore
  obtain ⟨bs, hs⟩ := hrun hclear
  exact vmAllocFree_marked fresh (hs.inHeap p hp) (hs.marked p hp)

/-- A history keeps clear in particular when the bytes at the flags of the released blocks are
never 0. -/
theorem Releases.clear_of_bytes (h : ∀ p ∈ s.released, ¬ 256 ∣ (s.clients.heap.hdr (p - 12)).prev) :
    s.Clear :=
  fun _ _ p hp _ => h p hp

set_option maxRecDepth 100000 in
/-- A block released again after it was merged into the one in front of it. -/
theorem double_free_harmless_merged :
    let ops : List ClientOp := [.malloc 10, .malloc 600, .malloc 20, .free 16412, .free 16392]
    let s := Runs.run (ClientOp.execReleases (fun _ _ => 255) 4096) (releasesInit fun _ => 7) ops
    16412 ∈ s.released ∧ (s.clients.heap.hdr vmSegHeapStart).size = 504 ∧
      (vmAllocFree (flatHeapOps fun _ _ => 255) 16412).run s.clients.heap =
        ((), s.clients.heap) := by
  intro ops s
  have hp : 16412 ∈ s.released := by decide +kernel
  have hsize : (s.clients.heap.hdr vmSegHeapStart).size = 504 := by decide +kernel
  have hbytes : Runs.Along (ClientOp.execReleases (fun _ _ => 255) 4096)
      (fun s op => op.Repeated s ∧
        ∀ p ∈ s.released, ¬ 256 ∣ (s.clients.heap.hdr (p - 12)).prev)
      (releasesInit fun _ => 7) (ops ++ [.free 16412]) := by decide +kernel
  have hops := Runs.Along.mono hbytes
    fun s op hop => And.intro hop.1 (Releases.clear_of_bytes hop.2)
  exact ⟨hp, hsize, double_free_harmless (fun _ _ => 255) 4096 le_rfl
    (fun _ => 7) ops 16412 hops hp⟩

/-- Two blocks are released and merged, and a smaller one is cut from the result. -/
def recutRun : List ClientOp :=
  [.malloc 8, .malloc 4, .free 0x4018, .free 0x4008, .malloc 4]

set_option maxRecDepth 100000 in
/-- The header behind the smaller block lies over the old one, and the low byte of its `prev` link
is 0: the second release of `0x4018` sets it to 1. -/
theorem double_free_breaks_prev :
    let s := Runs.run (ClientOp.execReleases (fun _ _ => 255) 4096)
      (releasesInit fun _ => 0) recutRun
    let r := (vmAllocFree (flatHeapOps fun _ _ => 255) 0x4018).run s.clients.heap
    Runs.Along (ClientOp.execReleases (fun _ _ => 255) 4096) (fun s op => op.Repeated s)
      (releasesInit fun _ => 0) (recutRun ++ [.free 0x4018]) ∧
    0x4018 ∈ s.released ∧ s.clients.live = [(0x4008, 4)] ∧
    (s.clients.heap.hdr 0x4000).next = 0x400C ∧
    (s.clients.heap.hdr 0x400C).prev = 0x4000 ∧ (r.2.hdr 0x400C).prev = 0x4001 := by
  decide +kernel

end Mosrt
