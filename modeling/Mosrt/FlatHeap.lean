/-
The allocator on a reliable byte store.

`FlatHeap` is a memory in which every access succeeds and a read gives back what was
last written; what a page that the heap grows by holds at first is left open.  On it
the allocator of `vm_alloc.c` keeps a list of blocks in their headers (`Tiled`), and
its functions do to memory what `BlockList` does to that list:

* `Cut.split`, `Cut.mark`, `Cut.merge` — the ways in which headers are rewritten;
* `allocWalk_run` — the walk ends at the first block that fits, or at the last one;
* `take_spec`, `grow_spec` — taking a block, and adding one behind the last, leave the
  payloads in use untouched.
-/
import Mosrt.VmAlloc
import Mosrt.BlockList

namespace Mosrt

open BlockList StateSim

/-! ### The store -/

structure FlatHeap where
  mem : ℕ → UInt8
  heapBreak : ℕ

namespace FlatHeap

def write (h : FlatHeap) (addr : ℕ) (src : List UInt8) : FlatHeap :=
  { h with mem := fun x =>
      if addr ≤ x ∧ x < addr + src.length then src.getD (x - addr) 0 else h.mem x }

/-- The header at an address. -/
def hdr (h : FlatHeap) (addr : ℕ) : BlockHdr :=
  .decode ((List.range vmBlockHdrSize).map fun i => h.mem (addr + i))

def put (h : FlatHeap) (addr : ℕ) (hd : BlockHdr) : FlatHeap := h.write addr hd.encode

/-- Set the `prev` link of the block at `addr`, if there is one. -/
def relink (h : FlatHeap) (addr prev : ℕ) : FlatHeap :=
  if addr = 0 then h else h.put addr { h.hdr addr with prev := prev }

end FlatHeap

/-- The operations of the store; `fresh` is what pages hold when the heap grows by them. -/
def flatHeapOps (fresh : FlatHeap → ℕ → UInt8) : HeapOps FlatHeap where
  hasVm := fun _ => true
  heapStart := fun _ => vmSegHeapStart
  heapBreak := FlatHeap.heapBreak
  readMem := fun addr len h => (some ((List.range len).map fun i => h.mem (addr + i)), h)
  writeMem := fun addr src h => (true, h.write addr src)
  growPage := fun h =>
    { mem := fun x => if h.heapBreak ≤ x then fresh h x else h.mem x
      heapBreak := (h.heapBreak + vmPageSize) % 2 ^ 16 }

variable {fresh : FlatHeap → ℕ → UInt8} {h h' : FlatHeap} {hd : BlockHdr} {a x p z n : ℕ}

theorem readHdr_run : (readHdr (flatHeapOps fresh) a).run h = (some (h.hdr a), h) := rfl

theorem writeHdr_run : (writeHdr (flatHeapOps fresh) a hd).run h = (true, h.put a hd) := rfl

theorem relinkPrev_run :
    (relinkPrev (flatHeapOps fresh) a p).run h = (true, h.relink a p) := by
  rw [relinkPrev, FlatHeap.relink]
  split_ifs <;> rfl

/-! ### Headers -/

/-- The fields are 16-bit numbers. -/
structure BlockHdr.Fits (hd : BlockHdr) : Prop where
  size : hd.size < 2 ^ 16
  next : hd.next < 2 ^ 16
  prev : hd.prev < 2 ^ 16

theorem length_encode : hd.encode.length = 8 := rfl

theorem bytes16_word (hn : n < 2 ^ 16) :
    (UInt8.ofNat n).toNat + 256 * (UInt8.ofNat (n / 256)).toNat = n := by
  rw [UInt8.toNat_ofNat', UInt8.toNat_ofNat']
  omega

theorem decode_encode (hf : hd.Fits) : BlockHdr.decode hd.encode = hd := by
  obtain ⟨size, free, pad, next, prev⟩ := hd
  rw [BlockHdr.decode, BlockHdr.mk.injEq]
  exact ⟨bytes16_word hf.size, rfl, rfl, bytes16_word hf.next, bytes16_word hf.prev⟩

theorem word16_lt (bs : List UInt8) (i : ℕ) : word16 bs i < 2 ^ 16 := by
  have h1 := (bs.getD i 0).toNat_lt
  have h2 := (bs.getD (i + 1) 0).toNat_lt
  rw [word16]
  omega

namespace FlatHeap

theorem hdr_fits (h : FlatHeap) (a : ℕ) : (h.hdr a).Fits :=
  ⟨word16_lt _ _, word16_lt _ _, word16_lt _ _⟩

theorem mem_put (hx : x < a ∨ a + 8 ≤ x) : (h.put a hd).mem x = h.mem x := by
  refine if_neg ?_
  rw [length_encode]
  omega

theorem mem_put_flag : (h.put a hd).mem (a + 2) = hd.free := by
  have hin : a ≤ a + 2 ∧ a + 2 < a + hd.encode.length := by
    rw [length_encode]
    omega
  show (if a ≤ a + 2 ∧ a + 2 < a + hd.encode.length then _ else _) = _
  rw [if_pos hin, Nat.add_sub_cancel_left]
  rfl

theorem hdr_congr (hmem : ∀ i < 8, h'.mem (a + i) = h.mem (a + i)) : h'.hdr a = h.hdr a := by
  rw [hdr, hdr]
  congr 1
  exact List.map_congr_left fun i hi => hmem i (List.mem_range.mp hi)

theorem hdr_put_self (hf : hd.Fits) : (h.put a hd).hdr a = hd := by
  have hbytes : (List.range vmBlockHdrSize).map (fun i => (h.put a hd).mem (a + i)) =
      hd.encode := by
    refine List.ext_getElem rfl fun i hi _ => ?_
    have hi : i < 8 := by simpa using hi
    rw [List.getElem_map, List.getElem_range]
    have hin : a ≤ a + i ∧ a + i < a + hd.encode.length := by
      rw [length_encode]
      omega
    show (if a ≤ a + i ∧ a + i < a + hd.encode.length then _ else _) = _
    rw [if_pos hin, Nat.add_sub_cancel_left]
    exact List.getD_eq_getElem _ _ _
  rw [hdr, hbytes]
  exact decode_encode hf

theorem hdr_put_ne (hx : x + 8 ≤ a ∨ a + 8 ≤ x) : (h.put a hd).hdr x = h.hdr x :=
  hdr_congr fun i hi => mem_put (by omega)

theorem mem_relink (hx : x < a ∨ a + 8 ≤ x) : (h.relink a p).mem x = h.mem x := by
  rw [relink]
  split_ifs
  · rfl
  · exact mem_put hx

theorem hdr_relink_ne (hx : x + 8 ≤ a ∨ a + 8 ≤ x) : (h.relink a p).hdr x = h.hdr x :=
  hdr_congr fun i hi => mem_relink (by omega)

theorem hdr_put_relink {p' : ℕ} (hf : hd.Fits) (hx : p = 0 ∨ a + 8 ≤ p) :
    ((h.put a hd).relink p p').hdr a = hd := by
  rcases hx with rfl | hx
  · exact hdr_put_self hf
  · rw [hdr_relink_ne (.inl hx), hdr_put_self hf]

@[simp] theorem heapBreak_put : (h.put a hd).heapBreak = h.heapBreak := rfl

@[simp] theorem heapBreak_relink : (h.relink a p).heapBreak = h.heapBreak := by
  rw [relink]
  split_ifs <;> rfl

end FlatHeap

/-! ### Chains of headers -/

variable {b c : Block} {xs ys bs : List Block} {next : ℕ}

/-- The header at `a` describes the block `b` and has these links. -/
structure HdrIs (h : FlatHeap) (a : ℕ) (b : Block) (next prev : ℕ) : Prop where
  size : (h.hdr a).size = b.size
  free : (h.hdr a).isFree = b.free
  next : (h.hdr a).next = next
  prev : (h.hdr a).prev = prev

/-- The link to the blocks `bs` at `a`; `last` if there are none. -/
def nextLink (bs : List Block) (last a : ℕ) : ℕ := if bs = [] then last else a

/-- The blocks `bs` lie from `a` on, linked to each other; `prev` is the block before them and
`last` the link of the last one. -/
def Seg (h : FlatHeap) : ℕ → ℕ → List Block → ℕ → Prop
  | _, _, [], _ => True
  | prev, a, b :: bs, last =>
    HdrIs h a b (nextLink bs last (a + 8 + b.size)) prev ∧ Seg h a (a + 8 + b.size) bs last

/-- The block before the end of `bs`. -/
def lastAddr : ℕ → ℕ → List Block → ℕ
  | prev, _, [] => prev
  | _, a, b :: bs => lastAddr a (a + 8 + b.size) bs

theorem HdrIs.congr (hh : HdrIs h a b next p) (heq : h'.hdr a = h.hdr a) : HdrIs h' a b next p := by
  constructor
  · rw [heq, hh.size]
  · rw [heq, hh.free]
  · rw [heq, hh.next]
  · rw [heq, hh.prev]

theorem HdrIs.put (hf : hd.Fits) (hsize : hd.size = b.size) (hfree : hd.isFree = b.free) :
    HdrIs (h.put a hd) a b hd.next hd.prev := by
  constructor <;> rw [FlatHeap.hdr_put_self hf]
  · exact hsize
  · exact hfree

theorem Seg.congr (hs : Seg h p a bs z) (heq : ∀ x ∈ addrs 8 a bs, h'.hdr x = h.hdr x) :
    Seg h' p a bs z := by
  induction bs generalizing p a with
  | nil => trivial
  | cons b bs ih =>
    exact ⟨hs.1.congr (heq a List.mem_cons_self),
      ih hs.2 fun x hx => heq x (List.mem_cons_of_mem _ hx)⟩

theorem seg_append : Seg h p a (xs ++ ys) z ↔
    Seg h p a xs (nextLink ys z (a + extent 8 xs)) ∧
      Seg h (lastAddr p a xs) (a + extent 8 xs) ys z := by
  induction xs generalizing p a with
  | nil => exact ⟨fun hs => ⟨trivial, hs⟩, fun hs => hs.2⟩
  | cons b xs ih =>
    have hend : a + extent 8 (b :: xs) = a + 8 + b.size + extent 8 xs := by
      rw [extent_cons]
      omega
    have hlink : nextLink (xs ++ ys) z (a + 8 + b.size) =
        nextLink xs (nextLink ys z (a + 8 + b.size + extent 8 xs)) (a + 8 + b.size) := by
      cases xs with
      | nil => rfl
      | cons c xs => rfl
    rw [List.cons_append, Seg, Seg, ih, hend, hlink, and_assoc]
    rfl

theorem lastAddr_concat : lastAddr p a (xs ++ [b]) = a + extent 8 xs := by
  induction xs generalizing p a with
  | nil => rfl
  | cons c xs ih =>
    rw [List.cons_append, lastAddr, ih, extent_cons]
    omega

/-- The block after a list has a new predecessor. -/
theorem Seg.relink {p' : ℕ} (hs : Seg h p a bs 0) (ha : a ≠ 0) (hp : p' < 2 ^ 16) :
    Seg (h.relink (nextLink bs 0 a) p') p' a bs 0 := by
  cases bs with
  | nil => trivial
  | cons b bs =>
    obtain ⟨hh, hrest⟩ := hs
    have heq : h.relink (nextLink (b :: bs) 0 a) p' =
        h.put a { h.hdr a with prev := p' } := if_neg ha
    have hf : ({ h.hdr a with prev := p' } : BlockHdr).Fits :=
      ⟨(h.hdr_fits a).size, (h.hdr_fits a).next, hp⟩
    rw [heq]
    refine ⟨?_, hrest.congr fun x hx => FlatHeap.hdr_put_ne (.inr ?_)⟩
    · have := HdrIs.put (h := h) (a := a) (b := b) hf hh.size hh.free
      rw [← hh.next]
      exact this
    · have := (addrs_bounds hx).1
      omega

/-- A link leads to the blocks or nowhere. -/
theorem nextLink_cases (bs : List Block) (a : ℕ) : nextLink bs 0 a = 0 ∨ nextLink bs 0 a = a := by
  rw [nextLink]
  split_ifs
  · exact .inl rfl
  · exact .inr rfl

/-! ### The heap as a list of blocks -/

/-- The blocks `bs` are the heap. -/
structure Tiled (h : FlatHeap) (bs : List Block) : Prop where
  seg : Seg h 0 vmSegHeapStart bs 0
  tiles : vmSegHeapStart + extent 8 bs = h.heapBreak
  sized : Sized 4 bs
  paged : vmPageSize ∣ extent 8 bs
  bound : extent 8 bs ≤ 32768

theorem tiled_nil (mem : ℕ → UInt8) : Tiled ⟨mem, vmSegHeapStart⟩ [] :=
  ⟨trivial, rfl, nofun, by decide, by decide⟩

/-- A write that misses every header leaves the blocks as they are. -/
theorem Tiled.write {src : List UInt8} (ht : Tiled h bs)
    (hmiss : ∀ x ∈ addrs 8 vmSegHeapStart bs, a + src.length ≤ x ∨ x + 8 ≤ a) :
    Tiled (h.write a src) bs := by
  refine ⟨ht.seg.congr fun x hx => FlatHeap.hdr_congr fun i hi => if_neg ?_, ht.tiles, ht.sized,
    ht.paged, ht.bound⟩
  have := hmiss x hx
  omega

/-- The payloads of blocks in use are the same in both states. -/
def Untouched (h h' : FlatHeap) (bs : List Block) : Prop :=
  ∀ q m, (q, m) ∈ allocs 8 vmSegHeapStart bs → ∀ x, q ≤ x → x < q + m → h'.mem x = h.mem x

theorem Untouched.refl (h : FlatHeap) (bs : List Block) : Untouched h h bs :=
  fun _ _ _ _ _ _ => rfl

theorem Untouched.trans {h'' : FlatHeap} (h1 : Untouched h h' bs) (h2 : Untouched h' h'' bs) :
    Untouched h h'' bs :=
  fun q m hq x hx hx' => (h2 q m hq x hx hx').trans (h1 q m hq x hx hx')

/-- Parts of the heap: the blocks before, one block, and the blocks behind it. -/
structure Cut (h : FlatHeap) (xs : List Block) (b : Block) (ys : List Block) (a : ℕ) : Prop where
  addr : a = vmSegHeapStart + extent 8 xs
  before : Seg h 0 vmSegHeapStart xs a
  header : HdrIs h a b (nextLink ys 0 (a + 8 + b.size)) (lastAddr 0 vmSegHeapStart xs)
  behind : Seg h a (a + 8 + b.size) ys 0

theorem Tiled.cut (ht : Tiled h (xs ++ b :: ys)) :
    Cut h xs b ys (vmSegHeapStart + extent 8 xs) := by
  obtain ⟨hbefore, hheader, hbehind⟩ := seg_append.mp ht.seg
  exact ⟨rfl, hbefore, hheader, hbehind⟩

theorem Cut.seg (hc : Cut h xs b ys a) : Seg h 0 vmSegHeapStart (xs ++ b :: ys) 0 := by
  obtain rfl := hc.addr
  exact seg_append.mpr ⟨hc.before, hc.header, hc.behind⟩

/-- A heap has one list of blocks. -/
theorem Tiled.unique {bs' : List Block} (ht : Tiled h bs) (ht' : Tiled h bs') : bs = bs' := by
  have hseg : ∀ (bs bs' : List Block) (p p' a : ℕ), Seg h p a bs 0 → Seg h p' a bs' 0 →
      extent 8 bs = extent 8 bs' → bs = bs' := by
    intro bs
    induction bs with
    | nil =>
      intro bs' p p' a _ _ hext
      cases bs' with
      | nil => rfl
      | cons b bs' =>
        rw [extent_nil, extent_cons] at hext
        omega
    | cons b bs ih =>
      intro bs' p p' a hs hs' hext
      cases bs' with
      | nil =>
        rw [extent_nil, extent_cons] at hext
        omega
      | cons b' bs' =>
        have hsize : b.size = b'.size := hs.1.size.symm.trans hs'.1.size
        have hfree : b.free = b'.free := hs.1.free.symm.trans hs'.1.free
        have hrest := hs'.2
        rw [extent_cons, extent_cons] at hext
        rw [← hsize] at hrest
        obtain rfl := ih bs' a a _ hs.2 hrest (by omega)
        obtain ⟨size, free⟩ := b
        obtain rfl : size = b'.size := hsize
        obtain rfl : free = b'.free := hfree
        rfl
  have h1 := ht.tiles
  have h2 := ht'.tiles
  exact hseg bs bs' 0 0 _ ht.seg ht'.seg (by omega)

/-- Nothing of the heap lies beyond its last page. -/
theorem Tiled.range (ht : Tiled h (xs ++ b :: ys)) (ha : a = vmSegHeapStart + extent 8 xs) :
    0 < a ∧ a + 8 + b.size ≤ 49152 := by
  have hbound := ht.bound
  rw [extent_append, extent_cons] at hbound
  have hstart : vmSegHeapStart = 16384 := rfl
  omega

/-- Writing behind a list of blocks. -/
theorem Seg.put (hs : Seg h p a xs z) {a' : ℕ} (hle : a + extent 8 xs ≤ a') :
    Seg (h.put a' hd) p a xs z :=
  hs.congr fun _ hx => FlatHeap.hdr_put_ne (.inl ((addrs_bounds hx).2.trans hle))

theorem Seg.relink_behind (hs : Seg h p a xs z) {a' p' : ℕ} (hle : a + extent 8 xs ≤ a' ∨ a' = 0) :
    Seg (h.relink a' p') p a xs z := by
  rcases hle with hle | rfl
  · exact hs.congr fun x hx => FlatHeap.hdr_relink_ne (.inl ((addrs_bounds hx).2.trans hle))
  · exact hs

/-- Writing before a list of blocks. -/
theorem Seg.put_before (hs : Seg h p a xs z) {a' : ℕ} (hle : a' + 8 ≤ a) :
    Seg (h.put a' hd) p a xs z :=
  hs.congr fun _ hx => FlatHeap.hdr_put_ne (.inr (hle.trans (addrs_bounds hx).1))

/-- Marking a block free or in use. -/
theorem Cut.mark (hc : Cut h xs b ys a) (free : UInt8) :
    Cut (h.put a { h.hdr a with free := free }) xs ⟨b.size, free != 0⟩ ys a := by
  have hf : ({ h.hdr a with free := free } : BlockHdr).Fits :=
    ⟨(h.hdr_fits a).size, (h.hdr_fits a).next, (h.hdr_fits a).prev⟩
  refine ⟨hc.addr, hc.before.put hc.addr.ge, ?_, hc.behind.put_before (by omega)⟩
  have := HdrIs.put (h := h) (a := a) (b := ⟨b.size, free != 0⟩) hf hc.header.size rfl
  rw [← hc.header.next, ← hc.header.prev]
  exact this

/-- A block becomes one in use and a free one. -/
theorem Cut.split (rest : ℕ) (hc : Cut h xs b ys a) (ha : 0 < a) (hend : a + 8 + b.size ≤ 49152)
    (hb : b.size = n + 8 + rest) :
    Cut (((h.put (a + 8 + n) { size := rest, free := 1, next := (h.hdr a).next, prev := a }).put a
        { h.hdr a with size := n, free := 0, next := a + 8 + n }).relink (h.hdr a).next (a + 8 + n))
      xs ⟨n, false⟩ (⟨rest, true⟩ :: ys) a := by
  obtain ⟨h1, hh1⟩ : ∃ h1, h.put (a + 8 + n)
    { size := rest, free := 1, next := (h.hdr a).next, prev := a } = h1 := ⟨_, rfl⟩
  obtain ⟨h2, hh2⟩ : ∃ h2, h1.put a { h.hdr a with size := n, free := 0, next := a + 8 + n } = h2 :=
    ⟨_, rfl⟩
  have hnext := hc.header.next
  have hfits := h.hdr_fits a
  have hbehind : a + 8 + b.size = a + 8 + n + 8 + rest := by omega
  have hlink : (h.hdr a).next = 0 ∨ (h.hdr a).next = a + 8 + b.size := by
    rw [hnext]
    exact nextLink_cases _ _
  rw [hh1, hh2]
  refine ⟨hc.addr, ?_, ?_, ?_, ?_⟩
  · refine Seg.relink_behind ?_ ?_
    · rw [← hh2, ← hh1]
      exact (hc.before.put (by rw [← hc.addr]; omega)).put hc.addr.ge
    · rw [← hc.addr]
      omega
  · -- the block in use
    have hf : ({ h.hdr a with size := n, free := 0, next := a + 8 + n } : BlockHdr).Fits :=
      ⟨by show n < 2 ^ 16; omega, by show a + 8 + n < 2 ^ 16; omega, hfits.prev⟩
    have hh : HdrIs h2 a ⟨n, false⟩ (a + 8 + n) (h.hdr a).prev := by
      rw [← hh2]
      exact HdrIs.put hf rfl rfl
    rw [← hc.header.prev]
    refine hh.congr ?_
    rcases hlink with h0 | hlink
    · rw [h0]
      rfl
    · exact FlatHeap.hdr_relink_ne (by omega)
  · -- the remainder
    have hf : ({ size := rest, free := 1, next := (h.hdr a).next, prev := a } : BlockHdr).Fits :=
      ⟨by show rest < 2 ^ 16; omega, hfits.next, by show a < 2 ^ 16; omega⟩
    have hh : HdrIs h1 (a + 8 + n) ⟨rest, true⟩ (h.hdr a).next a := by
      rw [← hh1]
      exact HdrIs.put hf rfl rfl
    have hlast : (h.hdr a).next = nextLink ys 0 (a + 8 + n + 8 + rest) := by rw [hnext, hbehind]
    rw [← hlast]
    have hh' : HdrIs h2 (a + 8 + n) ⟨rest, true⟩ (h.hdr a).next a := by
      rw [← hh2]
      exact hh.congr (FlatHeap.hdr_put_ne (by omega))
    refine hh'.congr ?_
    rcases hlink with h0 | hlink
    · rw [h0]
      rfl
    · exact FlatHeap.hdr_relink_ne (by omega)
  · -- the blocks behind get a new predecessor
    rw [hnext, hbehind]
    refine Seg.relink (p := a) ?_ (by omega) (by omega)
    rw [← hh2, ← hh1]
    have := hc.behind
    rw [hbehind] at this
    exact (this.put_before (by omega)).put_before (by omega)

/-- Two neighbours become one free block. -/
theorem Cut.merge (hc : Cut h xs b (c :: ys) a) (ha : 0 < a)
    (hend : a + 8 + b.size + 8 + c.size ≤ 49152) (hsize : hd.size = b.size + 8 + c.size)
    (hfree : hd.isFree = true) (hnext : hd.next = (h.hdr (a + 8 + b.size)).next)
    (hprev : hd.prev = (h.hdr a).prev) :
    Cut ((h.put a hd).relink hd.next a) xs ⟨b.size + 8 + c.size, true⟩ ys a := by
  obtain ⟨hchdr, hbehind⟩ := hc.behind
  have hend' : a + 8 + (b.size + 8 + c.size) = a + 8 + b.size + 8 + c.size := by omega
  have hf : hd.Fits := by
    refine ⟨by omega, ?_, ?_⟩
    · rw [hnext]
      exact (h.hdr_fits _).next
    · rw [hprev]
      exact (h.hdr_fits _).prev
  have hlink : hd.next = nextLink ys 0 (a + 8 + b.size + 8 + c.size) := by rw [hnext, hchdr.next]
  have hcases : hd.next = 0 ∨ hd.next = a + 8 + b.size + 8 + c.size := by
    rw [hlink]
    exact nextLink_cases _ _
  refine ⟨hc.addr, ?_, ?_, ?_⟩
  · refine Seg.relink_behind (hc.before.put hc.addr.ge) ?_
    rw [← hc.addr]
    omega
  · have hh : HdrIs (h.put a hd) a ⟨b.size + 8 + c.size, true⟩ hd.next hd.prev :=
      HdrIs.put hf hsize hfree
    have hh' : HdrIs ((h.put a hd).relink hd.next a) a ⟨b.size + 8 + c.size, true⟩ hd.next
        hd.prev := by
      refine hh.congr ?_
      rw [FlatHeap.hdr_put_relink hf (by omega), FlatHeap.hdr_put_self hf]
    rw [hlink, hprev, hc.header.prev, ← hend'] at hh'
    rw [hlink, ← hend']
    exact hh'
  · rw [hlink, hend']
    exact Seg.relink (hbehind.put_before (by omega)) (by omega) (by omega)

/-! ### What is not written -/

theorem mem_addrs : vmSegHeapStart + extent 8 xs ∈ addrs 8 vmSegHeapStart (xs ++ b :: ys) := by
  rw [addrs_append]
  exact List.mem_append_right _ List.mem_cons_self

/-- Writing a header of the list. -/
theorem Untouched.put (ha : a ∈ addrs 8 vmSegHeapStart bs) : Untouched h (h.put a hd) bs := by
  intro q m hq x hx hx'
  refine FlatHeap.mem_put ?_
  have := addrs_apart ha hq
  omega

theorem Untouched.relink (ha : a = 0 ∨ a ∈ addrs 8 vmSegHeapStart bs) :
    Untouched h (h.relink a p) bs := by
  rw [FlatHeap.relink]
  split_ifs with h0
  · exact .refl h bs
  · exact .put (ha.resolve_left h0)

/-! ### Marks -/

/-- Outside the headers of `bs`, the bytes at which a header has its flag or the low byte of `prev`
do not become `0`. -/
structure KeepsMarks (h h' : FlatHeap) (bs : List Block) : Prop where
  grows : h.heapBreak ≤ h'.heapBreak
  kept : ∀ z < h.heapBreak, z % 4 = 2 →
    (∀ x ∈ addrs 8 vmSegHeapStart bs, z < x ∨ x + 8 ≤ z) → h.mem z ≠ 0 → h'.mem z ≠ 0

theorem KeepsMarks.of_eq (hbreak : h.heapBreak ≤ h'.heapBreak)
    (hmem : ∀ z < h.heapBreak, h'.mem z = h.mem z) : KeepsMarks h h' bs :=
  ⟨hbreak, fun z hz _ _ hne => by rwa [hmem z hz]⟩

theorem KeepsMarks.refl (h : FlatHeap) (bs : List Block) : KeepsMarks h h bs :=
  .of_eq le_rfl fun _ _ => rfl

theorem KeepsMarks.trans {h'' : FlatHeap} (h1 : KeepsMarks h h' bs) (h2 : KeepsMarks h' h'' bs) :
    KeepsMarks h h'' bs :=
  ⟨h1.grows.trans h2.grows, fun z hz hmod hout hne =>
    h2.kept z (hz.trans_le h1.grows) hmod hout (h1.kept z hz hmod hout hne)⟩

/-- Writing a header of the list. -/
theorem KeepsMarks.put (ha : a ∈ addrs 8 vmSegHeapStart bs) : KeepsMarks h (h.put a hd) bs :=
  ⟨le_rfl, fun z _ _ hout hne => by rwa [FlatHeap.mem_put (hout a ha)]⟩

theorem KeepsMarks.relink (ha : a = 0 ∨ a ∈ addrs 8 vmSegHeapStart bs) :
    KeepsMarks h (h.relink a p) bs := by
  rw [FlatHeap.relink]
  split_ifs with h0
  · exact .refl h bs
  · exact .put (ha.resolve_left h0)

theorem KeepsMarks.widen {bs' : List Block} (hk : KeepsMarks h h' bs)
    (hsub : ∀ x ∈ addrs 8 vmSegHeapStart bs, x ∈ addrs 8 vmSegHeapStart bs') :
    KeepsMarks h h' bs' :=
  ⟨hk.grows, fun z hz hmod hout => hk.kept z hz hmod fun x hx => hout x (hsub x hx)⟩

/-- Writing a free header over one with the same predecessor. -/
theorem KeepsMarks.rewrite (h4 : 4 ∣ a) (hfree : hd.free ≠ 0) (hprev : hd.prev = (h.hdr a).prev) :
    KeepsMarks h (h.put a hd) bs := by
  refine ⟨le_rfl, fun z _ hmod _ hne => ?_⟩
  by_cases hz : z < a ∨ a + 8 ≤ z
  · rwa [FlatHeap.mem_put hz]
  · -- the flag, and the low byte of the link
    have hcases : z = a + 2 ∨ z = a + 6 := by omega
    rcases hcases with rfl | rfl
    · rwa [FlatHeap.mem_put_flag]
    · have hin : a ≤ a + 6 ∧ a + 6 < a + hd.encode.length := by
        rw [length_encode]
        omega
      have hbyte : (h.put a hd).mem (a + 6) = hd.encode.getD (a + 6 - a) 0 := if_pos hin
      rw [hbyte, Nat.add_sub_cancel_left]
      show UInt8.ofNat hd.prev ≠ 0
      rw [hprev]
      have hlow : UInt8.ofNat (h.hdr a).prev = h.mem (a + 6) := by
        refine UInt8.toNat_inj.mp ?_
        rw [UInt8.toNat_ofNat']
        show ((h.mem (a + 6)).toNat + 256 * (h.mem (a + 7)).toNat) % 2 ^ 8 = _
        have := (h.mem (a + 6)).toNat_lt
        omega
      rwa [hlow]

/-- The link behind a block leads to a header, or nowhere. -/
theorem nextLink_mem (b : Block) (ys : List Block) (ha : a = vmSegHeapStart + extent 8 xs) :
    nextLink ys 0 (a + 8 + b.size) = 0 ∨
      nextLink ys 0 (a + 8 + b.size) ∈ addrs 8 vmSegHeapStart (xs ++ b :: ys) := by
  cases ys with
  | nil => exact .inl rfl
  | cons c ys =>
    have heq : nextLink (c :: ys) 0 (a + 8 + b.size) =
        vmSegHeapStart + extent 8 (xs ++ [b]) := by
      rw [extent_append, extent_cons, extent_nil]
      show a + 8 + b.size = _
      omega
    have hlist : xs ++ b :: c :: ys = (xs ++ [b]) ++ c :: ys := by
      rw [List.append_assoc]
      rfl
    rw [heq, hlist]
    exact .inr mem_addrs

/-! ### The walk -/

/-- A block that an allocation of `n` bytes takes. -/
def Suits (n : ℕ) (b : Block) : Prop := b.free = true ∧ n ≤ b.size

theorem allocWalk_step (size fuel : ℕ) :
    (allocWalk (flatHeapOps fresh) size (fuel + 1) a hd).run h =
      if a < h.heapBreak then
        if (h.hdr a).isFree ∧ size ≤ (h.hdr a).size then (some (.found a (h.hdr a)), h)
        else if (h.hdr a).next = 0 then (some (.exhausted a (h.hdr a)), h)
        else (allocWalk (flatHeapOps fresh) size fuel (h.hdr a).next (h.hdr a)).run h
      else (some (.exhausted a hd), h) := by
  have hread : a < h.heapBreak → (allocWalk (flatHeapOps fresh) size (fuel + 1) a hd).run h =
      (if (h.hdr a).isFree ∧ size ≤ (h.hdr a).size then pure (some (.found a (h.hdr a)))
        else if (h.hdr a).next = 0 then pure (some (.exhausted a (h.hdr a)))
        else allocWalk (flatHeapOps fresh) size fuel (h.hdr a).next (h.hdr a) :
        StateM FlatHeap (Option WalkEnd)).run h := by
    intro hlt
    rw [allocWalk]
    show (if a < h.heapBreak then _ else _ : StateM FlatHeap _).run h = _
    rw [if_pos hlt]
    rfl
  by_cases hlt : a < h.heapBreak
  · rw [if_pos hlt, hread hlt]
    split_ifs <;> rfl
  · rw [if_neg hlt, allocWalk]
    show (if a < h.heapBreak then _ else _ : StateM FlatHeap _).run h = _
    rw [if_neg hlt]
    rfl

/-- The walk finds the first block that suits, or ends at the last block. -/
theorem allocWalk_run (fresh : FlatHeap → ℕ → UInt8) (n : ℕ) (hd : BlockHdr) {fuel : ℕ}
    (hs : Seg h p a bs 0) (hend : a + extent 8 bs = h.heapBreak) (hne : bs ≠ [])
    (hfuel : bs.length ≤ fuel) :
    (∃ xs b ys, bs = xs ++ b :: ys ∧ (∀ c ∈ xs, ¬ Suits n c) ∧ Suits n b ∧
      (allocWalk (flatHeapOps fresh) n fuel a hd).run h =
        (some (.found (a + extent 8 xs) (h.hdr (a + extent 8 xs))), h)) ∨
    ∃ xs b, bs = xs ++ [b] ∧ (∀ c ∈ bs, ¬ Suits n c) ∧
      (allocWalk (flatHeapOps fresh) n fuel a hd).run h =
        (some (.exhausted (a + extent 8 xs) (h.hdr (a + extent 8 xs))), h) := by
  induction bs generalizing p a fuel hd with
  | nil => exact absurd rfl hne
  | cons b bs ih =>
    obtain ⟨hh, hrest⟩ := hs
    obtain ⟨fuel, rfl⟩ : ∃ k, fuel = k + 1 := ⟨fuel - 1, by rw [List.length_cons] at hfuel; omega⟩
    rw [extent_cons] at hend
    have hlt : a < h.heapBreak := by omega
    have hsuits : (h.hdr a).isFree = true ∧ n ≤ (h.hdr a).size ↔ Suits n b := by
      rw [hh.free, hh.size, Suits]
    rw [allocWalk_step, if_pos hlt]
    by_cases hb : Suits n b
    · rw [if_pos (hsuits.mpr hb)]
      exact .inl ⟨[], b, bs, rfl, nofun, hb, rfl⟩
    rw [if_neg (mt hsuits.mp hb), hh.next]
    cases hbs : bs with
    | nil =>
      have hlink : nextLink [] 0 (a + 8 + b.size) = 0 := rfl
      rw [hlink, if_pos rfl]
      refine .inr ⟨[], b, rfl, fun c hc => ?_, rfl⟩
      rw [List.mem_singleton.mp hc]
      exact hb
    | cons c cs =>
      have hlink : nextLink (c :: cs) 0 (a + 8 + b.size) = a + 8 + b.size := rfl
      rw [hlink, if_neg (by omega), ← hbs]
      have hskip : ∀ xs, a + extent 8 (b :: xs) = a + 8 + b.size + extent 8 xs := by
        intro xs
        rw [extent_cons]
        omega
      have hlen : bs.length ≤ fuel := by
        rw [List.length_cons] at hfuel
        omega
      have hne : bs ≠ [] := by
        rw [hbs]
        exact List.cons_ne_nil _ _
      rcases ih (h.hdr a) hrest (by omega) hne hlen with
        ⟨xs, d, ys, hsplit, hxs, hd, hrun⟩ | ⟨xs, d, hsplit, hall, hrun⟩
      · refine .inl ⟨b :: xs, d, ys, by rw [hsplit]; rfl, ?_, hd, ?_⟩
        · exact fun e he => (List.mem_cons.mp he).elim (fun heq => heq ▸ hb) (hxs e)
        · rw [hskip]
          exact hrun
      · refine .inr ⟨b :: xs, d, by rw [hsplit]; rfl, ?_, ?_⟩
        · exact fun e he => (List.mem_cons.mp he).elim (fun heq => heq ▸ hb) (hall e)
        · rw [hskip]
          exact hrun

/-! ### Taking a block -/

theorem allocTake_split (hs : n + vmBlockHdrSize + 4 ≤ hd.size) (ha : a + 8 + hd.size < 2 ^ 16) :
    (allocTake (flatHeapOps fresh) n a hd).run h = (a + 8,
      ((h.put (a + 8 + n)
          { size := hd.size - n - 8, free := 1, next := hd.next, prev := a }).put a
        { hd with size := n, free := 0, next := a + 8 + n }).relink hd.next (a + 8 + n)) := by
  have hn : n + 8 + 4 ≤ hd.size := hs
  have hpay : (a + vmBlockHdrSize) % 2 ^ 16 = a + 8 := Nat.mod_eq_of_lt (by show a + 8 < _; omega)
  have haddr : (a + vmBlockHdrSize + n) % 2 ^ 16 = a + 8 + n :=
    Nat.mod_eq_of_lt (by show a + 8 + n < _; omega)
  rw [allocTake]
  dsimp only
  rw [if_pos hs, hpay, haddr]
  show ((relinkPrev (flatHeapOps fresh) hd.next (a + 8 + n)) >>= fun ok =>
    if ok = true then pure (a + 8) else pure 0 : StateM FlatHeap ℕ).run _ = _
  rw [run_bind, relinkPrev_run]
  rfl

theorem allocTake_whole (hs : ¬ n + vmBlockHdrSize + 4 ≤ hd.size) (ha : a + 8 < 2 ^ 16) :
    (allocTake (flatHeapOps fresh) n a hd).run h = (a + 8, h.put a { hd with free := 0 }) := by
  have hpay : (a + vmBlockHdrSize) % 2 ^ 16 = a + 8 := Nat.mod_eq_of_lt ha
  rw [allocTake]
  dsimp only
  rw [if_neg hs, hpay]
  rfl

/-- The blocks in use after a free block was taken. -/
theorem mem_allocs_cut (xs ys : List Block) (hfree : b.free = true) (hle : n ≤ b.size) :
    ∃ k, n ≤ k ∧ ∀ q m,
      ((q, m) ∈ allocs 8 vmSegHeapStart (xs ++ (cut 8 4 n b ++ ys)) ↔
        (q, m) = (vmSegHeapStart + extent 8 xs + 8, k) ∨
          (q, m) ∈ allocs 8 vmSegHeapStart (xs ++ b :: ys)) := by
  obtain ⟨k, hk, hcut⟩ := allocs_cut (H := 8) (a := vmSegHeapStart + extent 8 xs) (g := 4) hle
  refine ⟨k, hk, fun q m => ?_⟩
  rw [allocs_append, allocs_append, allocs_append, hcut, extent_cut, allocs, hfree, if_pos rfl,
    List.nil_append, Nat.add_assoc (vmSegHeapStart + extent 8 xs)]
  simp only [List.mem_append, List.mem_singleton]
  tauto

theorem take_spec (fresh : FlatHeap → ℕ → UInt8) (ht : Tiled h (xs ++ b :: ys))
    (hfree : b.free = true) (hn : 0 < n ∧ 4 ∣ n) (hle : n ≤ b.size)
    (ha : a = vmSegHeapStart + extent 8 xs) :
    ∃ h', (allocTake (flatHeapOps fresh) n a (h.hdr a)).run h = (a + 8, h') ∧
      Tiled h' (xs ++ (cut 8 4 n b ++ ys)) ∧ Untouched h h' (xs ++ b :: ys) ∧
      KeepsMarks h h' (xs ++ (cut 8 4 n b ++ ys)) := by
  have hrange := ht.range ha
  have hcut := ht.cut
  rw [← ha] at hcut
  have hsize := hcut.header.size
  obtain ⟨hsxs, hsb⟩ := sized_append.mp ht.sized
  obtain ⟨hsb, hsys⟩ := sized_cons.mp hsb
  -- the list covers what it covered
  have hextent : extent 8 (xs ++ (cut 8 4 n b ++ ys)) = extent 8 (xs ++ b :: ys) := by
    rw [extent_append, extent_append, extent_append, extent_cut, extent_cons]
  have hsized : Sized 4 (xs ++ (cut 8 4 n b ++ ys)) :=
    sized_append.mpr ⟨hsxs, sized_append.mpr ⟨sized_cut (by decide) (by decide) hn hsb, hsys⟩⟩
  have htiled : ∀ h' : FlatHeap, h'.heapBreak = h.heapBreak →
      Seg h' 0 vmSegHeapStart (xs ++ (cut 8 4 n b ++ ys)) 0 →
      Tiled h' (xs ++ (cut 8 4 n b ++ ys)) := by
    intro h' hbreak hseg
    refine ⟨hseg, ?_, hsized, ?_, ?_⟩
    · rw [hextent, hbreak]
      exact ht.tiles
    · rw [hextent]
      exact ht.paged
    · rw [hextent]
      exact ht.bound
  -- whatever was in use still is
  have hkeep : ∀ h', Untouched h h' (xs ++ (cut 8 4 n b ++ ys)) →
      Untouched h h' (xs ++ b :: ys) := by
    intro h' hu q m hq
    obtain ⟨k, -, hmem⟩ := mem_allocs_cut xs ys hfree hle
    exact hu q m ((hmem q m).mpr (.inr hq))
  by_cases hs : n + 8 + 4 ≤ b.size
  · have hlist : cut 8 4 n b ++ ys = ⟨n, false⟩ :: ⟨b.size - n - 8, true⟩ :: ys := by
      rw [cut, if_pos hs]
      rfl
    have hlist' : xs ++ ⟨n, false⟩ :: ⟨b.size - n - 8, true⟩ :: ys =
        (xs ++ [⟨n, false⟩]) ++ ⟨b.size - n - 8, true⟩ :: ys := by
      rw [List.append_assoc]
      rfl
    have hmid : a + 8 + n = vmSegHeapStart + extent 8 (xs ++ [⟨n, false⟩]) := by
      rw [extent_append, extent_cons, extent_nil]
      show _ = vmSegHeapStart + (extent 8 xs + (8 + n + 0))
      omega
    -- the three headers that are written belong to the new list
    have hmem₁ : a + 8 + n ∈ addrs 8 vmSegHeapStart (xs ++ (cut 8 4 n b ++ ys)) := by
      rw [hlist, hlist', hmid]
      exact mem_addrs
    have hmem₂ : a ∈ addrs 8 vmSegHeapStart (xs ++ (cut 8 4 n b ++ ys)) := by
      rw [hlist, ha]
      exact mem_addrs
    have hmem₃ : (h.hdr a).next = 0 ∨
        (h.hdr a).next ∈ addrs 8 vmSegHeapStart (xs ++ (cut 8 4 n b ++ ys)) := by
      have hend : a + 8 + n + 8 + (b.size - n - 8) = a + 8 + b.size := by omega
      rw [hlist, hcut.header.next, hlist', ← hend]
      exact nextLink_mem ⟨b.size - n - 8, true⟩ ys hmid
    refine ⟨_, allocTake_split (by rw [hsize]; exact hs) (by rw [hsize]; omega), ?_,
      hkeep _ (((Untouched.put hmem₁).trans (.put hmem₂)).trans (.relink hmem₃)),
      ((KeepsMarks.put hmem₁).trans (.put hmem₂)).trans (.relink hmem₃)⟩
    refine htiled _ (by simp) ?_
    rw [hlist, hsize]
    exact (hcut.split (b.size - n - 8) hrange.1 hrange.2 (by omega)).seg
  · have hlist : cut 8 4 n b ++ ys = ⟨b.size, false⟩ :: ys := by
      rw [cut, if_neg hs]
      rfl
    have hmem : a ∈ addrs 8 vmSegHeapStart (xs ++ (cut 8 4 n b ++ ys)) := by
      rw [hlist, ha]
      exact mem_addrs
    refine ⟨_, allocTake_whole (by rw [hsize]; exact hs) (by omega), ?_, hkeep _ (.put hmem),
      .put hmem⟩
    refine htiled _ rfl ?_
    rw [hlist]
    exact (hcut.mark 0).seg

/-! ### Growing -/

/-- Rounding up to a power of two. -/
theorem alignUp_two_pow {size k : ℕ} (hk : k ≤ 64) (hsize : size + 2 ^ k ≤ 2 ^ 64) :
    alignUp size (2 ^ k) = (size + 2 ^ k - 1) / 2 ^ k * 2 ^ k := by
  have hpos : 0 < 2 ^ k := Nat.two_pow_pos k
  have hmask : 2 ^ 64 - 2 ^ k = (2 ^ (64 - k) - 1) * 2 ^ k := by
    rw [Nat.sub_mul, ← Nat.pow_add, Nat.sub_add_cancel hk, Nat.one_mul]
  rw [alignUp, if_neg (by omega), hmask]
  refine Nat.eq_of_testBit_eq fun i => ?_
  rw [Nat.testBit_and, Nat.testBit_mul_two_pow, Nat.testBit_mul_two_pow,
    Nat.testBit_two_pow_sub_one, Nat.testBit_div_two_pow]
  by_cases hi : k ≤ i
  · have hback : i - k + k = i := by omega
    rw [hback]
    by_cases h64 : i < 64
    · have hlt : i - k < 64 - k := by omega
      simp [hi, hlt]
    · -- there are no bits beyond the mask
      have hbig : size + 2 ^ k - 1 < 2 ^ i :=
        lt_of_lt_of_le (by omega) (Nat.pow_le_pow_right (by decide) (not_lt.mp h64))
      rw [Nat.testBit_lt_two_pow hbig]
      simp
  · simp [hi]

theorem alignUp_four {size : ℕ} (hsize : size < 2 ^ 16) :
    alignUp size 4 = (size + 3) / 4 * 4 :=
  alignUp_two_pow (k := 2) (by decide) (by omega)

/-- The pages for a block of `n` bytes. -/
theorem pagesNeeded_eq (hn : n < 2 ^ 16) :
    alignUp (vmBlockHdrSize + n) vmPageSize / vmPageSize = (n + 263) / 256 := by
  have hsum : vmBlockHdrSize + n = n + 8 := Nat.add_comm 8 n
  have halign : alignUp (n + 8) 256 = (n + 8 + 255) / 256 * 256 :=
    alignUp_two_pow (k := 8) (by decide) (by omega)
  rw [hsum]
  show alignUp (n + 8) 256 / 256 = _
  rw [halign, Nat.mul_div_cancel _ (by decide)]

/-- Growing by some pages changes nothing below the break. -/
theorem growPages (fresh : FlatHeap → ℕ → UInt8) (k : ℕ) (hk : h.heapBreak + k * 256 < 2 ^ 16) :
    ((flatHeapOps fresh).growPage^[k] h).heapBreak = h.heapBreak + k * 256 ∧
      ∀ x < h.heapBreak, ((flatHeapOps fresh).growPage^[k] h).mem x = h.mem x := by
  induction k generalizing h with
  | zero => exact ⟨rfl, fun _ _ => rfl⟩
  | succ k ih =>
    have hbreak : ((flatHeapOps fresh).growPage h).heapBreak = h.heapBreak + 256 :=
      Nat.mod_eq_of_lt (by show h.heapBreak + 256 < _; omega)
    have hlow : ∀ x < h.heapBreak, ((flatHeapOps fresh).growPage h).mem x = h.mem x :=
      fun x hx => if_neg (by omega)
    obtain ⟨h1, h2⟩ := ih (h := (flatHeapOps fresh).growPage h) (by omega)
    rw [Function.iterate_succ_apply]
    refine ⟨by omega, fun x hx => ?_⟩
    rw [h2 x (by omega), hlow x hx]

theorem heapGrow_run (fresh : FlatHeap → ℕ → UInt8) (ht : Tiled h bs) {k : ℕ} (hk : 0 < k) :
    (heapGrow (flatHeapOps fresh) k).run h =
      if 128 < extent 8 bs / 256 + k then (false, h)
      else (true, (flatHeapOps fresh).growPage^[k] h) := by
  have hmax : vmSegHeapMaxPages = 128 := rfl
  have hpage : vmPageSize = 256 := rfl
  have hlen : h.heapBreak - vmSegHeapStart = extent 8 bs := by
    rw [← ht.tiles, Nat.add_sub_cancel_left]
  have hvm : (flatHeapOps fresh).hasVm h = true := rfl
  have hbreak : (flatHeapOps fresh).heapBreak h = h.heapBreak := rfl
  have hstart : (flatHeapOps fresh).heapStart h = vmSegHeapStart := rfl
  have hvalid : ¬ (true = false ∨ k = 0) := by
    rintro (hf | h0)
    · cases hf
    · omega
  rw [heapGrow, run_get_bind, hvm, hbreak, hstart, if_neg hvalid, hlen, hmax, hpage]
  split_ifs <;> rfl

/-- Growing by `k` pages leaves room for them, and what was there. -/
theorem grown (fresh : FlatHeap → ℕ → UInt8) (ht : Tiled h bs) {k : ℕ}
    (hk : ¬ 128 < extent 8 bs / 256 + k) :
    extent 8 bs + k * 256 ≤ 32768 ∧
      ((flatHeapOps fresh).growPage^[k] h).heapBreak = vmSegHeapStart + (extent 8 bs + k * 256) ∧
      Seg ((flatHeapOps fresh).growPage^[k] h) 0 vmSegHeapStart bs 0 ∧
      Untouched h ((flatHeapOps fresh).growPage^[k] h) bs ∧
      (∀ x ∈ addrs 8 vmSegHeapStart bs, ((flatHeapOps fresh).growPage^[k] h).hdr x = h.hdr x) ∧
      ∀ x < h.heapBreak, ((flatHeapOps fresh).growPage^[k] h).mem x = h.mem x := by
  have hstart : vmSegHeapStart = 16384 := rfl
  have hpaged : 256 ∣ extent 8 bs := ht.paged
  have htiles := ht.tiles
  have hbound : extent 8 bs + k * 256 ≤ 32768 := by omega
  obtain ⟨hbreak, hlow⟩ := growPages fresh k (h := h) (by omega)
  have hhdr : ∀ x ∈ addrs 8 vmSegHeapStart bs,
      ((flatHeapOps fresh).growPage^[k] h).hdr x = h.hdr x := by
    intro x hx
    have := (addrs_bounds hx).2
    exact FlatHeap.hdr_congr fun i hi => hlow _ (by omega)
  refine ⟨hbound, by omega, ht.seg.congr hhdr, fun q m hq x _ hx => ?_, hhdr, hlow⟩
  have := (allocs_bounds hq).2
  exact hlow x (by omega)

theorem allocs_concat_free : allocs 8 a (bs ++ [⟨n, true⟩]) = allocs 8 a bs := by
  rw [allocs_append]
  exact List.append_nil _

/-- With no room for the pages of a block of `n` bytes, growing changes nothing. -/
theorem grow_full (fresh : FlatHeap → ℕ → UInt8) (ht : Tiled h (xs ++ [b])) (hn : n < 2 ^ 16)
    (hfull : 128 < extent 8 (xs ++ [b]) / 256 + (n + 263) / 256) :
    (allocGrow (flatHeapOps fresh) n a hd).run h = (false, h) := by
  rw [allocGrow, run_get_bind]
  dsimp only
  rw [pagesNeeded_eq hn, run_bind, heapGrow_run fresh ht (by omega), if_pos hfull]
  rfl

/-- Otherwise the pages become one free block, linked behind the last one. -/
theorem grow_spec (fresh : FlatHeap → ℕ → UInt8) (ht : Tiled h (xs ++ [b]))
    (ha : a = vmSegHeapStart + extent 8 xs) (hn : n < 2 ^ 16)
    (hroom : ¬ 128 < extent 8 (xs ++ [b]) / 256 + (n + 263) / 256) :
    ∃ h', (allocGrow (flatHeapOps fresh) n a (h.hdr a)).run h = (true, h') ∧
      Tiled h' (xs ++ [b] ++ [⟨(n + 263) / 256 * 256 - 8, true⟩]) ∧
      Untouched h h' (xs ++ [b]) ∧
      KeepsMarks h h' (xs ++ [b] ++ [⟨(n + 263) / 256 * 256 - 8, true⟩]) := by
  obtain ⟨k, hk⟩ : ∃ k, (n + 263) / 256 = k := ⟨_, rfl⟩
  have hrun : (allocGrow (flatHeapOps fresh) n a (h.hdr a)).run h =
      (heapGrow (flatHeapOps fresh) k >>= fun ok => if ok = true then
        (writeHdr (flatHeapOps fresh) h.heapBreak
          { size := (k * vmPageSize - vmBlockHdrSize) % 2 ^ 16, free := 1, prev := a } >>= fun ok =>
          if ok = true then writeHdr (flatHeapOps fresh) a { h.hdr a with next := h.heapBreak }
          else pure false) else pure false : StateM FlatHeap Bool).run h := by
    rw [← hk, ← pagesNeeded_eq hn]
    rfl
  rw [hk] at hroom ⊢
  rw [hrun, run_bind, heapGrow_run fresh ht (by omega)]
  rw [if_neg hroom]
  obtain ⟨hbound, hbreak, hseg, hu, hhdr, hlow⟩ := grown fresh ht hroom
  have hcut := ht.cut
  rw [← ha] at hcut
  have hstart : vmSegHeapStart = 16384 := rfl
  have htiles := ht.tiles
  have hsplit : extent 8 (xs ++ [b]) = extent 8 xs + (8 + b.size) := by
    rw [extent_append, extent_cons, extent_nil, Nat.add_zero]
  have hend : h.heapBreak = a + 8 + b.size := by omega
  have hsize : (k * vmPageSize - vmBlockHdrSize) % 2 ^ 16 = k * 256 - 8 :=
    Nat.mod_eq_of_lt (by show k * 256 - 8 < _; omega)
  have hmem : a ∈ addrs 8 vmSegHeapStart (xs ++ [b]) := by
    rw [ha]
    exact mem_addrs
  have hsame := hhdr a hmem
  generalize (flatHeapOps fresh).growPage^[k] h = g at hbreak hseg hu hhdr hsame hlow ⊢
  obtain ⟨hbefore, hheader, -⟩ := seg_append.mp hseg
  refine ⟨(g.put h.heapBreak { size := k * 256 - 8, free := 1, prev := a }).put a
    { h.hdr a with next := h.heapBreak }, ?_, ?_, ?_, ?_⟩
  · rw [hsize]
    rfl
  · have hlist : xs ++ [b] ++ [⟨k * 256 - 8, true⟩] = xs ++ b :: [⟨k * 256 - 8, true⟩] := by
      rw [List.append_assoc]
      rfl
    have hextent : extent 8 (xs ++ [b] ++ [⟨k * 256 - 8, true⟩]) =
        extent 8 (xs ++ [b]) + k * 256 := by
      rw [extent_append, extent_cons, extent_nil]
      show _ + (8 + (k * 256 - 8) + 0) = _
      omega
    have hpaged : 256 ∣ extent 8 (xs ++ [b]) := ht.paged
    refine ⟨?_, ?_, ?_, ?_, ?_⟩
    · rw [hlist]
      refine Cut.seg (a := a) ⟨ha, ?_, ?_, ?_⟩
      · rw [← ha] at hbefore
        exact (hbefore.put (by omega)).put ha.ge
      · have hf : ({ h.hdr a with next := h.heapBreak } : BlockHdr).Fits :=
          ⟨(h.hdr_fits a).size, by show h.heapBreak < 2 ^ 16; omega, (h.hdr_fits a).prev⟩
        have hput := HdrIs.put (h := g.put h.heapBreak
          { size := k * 256 - 8, free := 1, prev := a }) (a := a) (b := b) hf
          hcut.header.size hcut.header.free
        rw [← hcut.header.prev]
        rw [hend] at hput ⊢
        exact hput
      · have hf : ({ size := k * 256 - 8, free := 1, prev := a } : BlockHdr).Fits :=
          ⟨by show k * 256 - 8 < 2 ^ 16; omega, by show 0 < 2 ^ 16; omega,
            by show a < 2 ^ 16; omega⟩
        have hput : HdrIs (g.put h.heapBreak { size := k * 256 - 8, free := 1, prev := a })
            h.heapBreak ⟨k * 256 - 8, true⟩ 0 a := HdrIs.put hf rfl rfl
        rw [hend] at hput ⊢
        exact ⟨hput.congr (FlatHeap.hdr_put_ne (by omega)), trivial⟩
    · rw [hextent]
      exact hbreak.symm
    · refine sized_append.mpr ⟨ht.sized, sized_cons.mpr ⟨⟨?_, ?_⟩, nofun⟩⟩
      · show 0 < k * 256 - 8
        omega
      · show 4 ∣ k * 256 - 8
        omega
    · rw [hextent]
      show 256 ∣ _
      omega
    · rw [hextent]
      exact hbound
  · refine (hu.trans ?_).trans (.put hmem)
    intro q m hq x _ hx
    have := (allocs_bounds hq).2
    exact FlatHeap.mem_put (.inl (by omega))
  · have hgrown : KeepsMarks h g (xs ++ [b] ++ [⟨k * 256 - 8, true⟩]) := .of_eq (by omega) hlow
    refine (hgrown.trans (.put ?_)).trans (.put ?_)
    · rw [← htiles]
      exact mem_addrs
    · rw [addrs_append]
      exact List.mem_append_left _ hmem

end Mosrt
