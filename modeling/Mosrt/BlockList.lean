/-
Memory cut into blocks.

A stretch of memory is a list of blocks, each a header of `H` bytes and a payload,
laid end to end from some address.  This file knows lists only: where the blocks and
their payloads lie, and what a first-fit allocator with splitting and coalescing does
to the list.

* `addrs_apart`, `allocs_apart` — headers and payloads do not overlap;
* `Separated` — no two free blocks are neighbours; `separated_cut`, `separated_grow`
  and `separated_release` say that taking a block, growing and giving a block back
  keep this;
* `eq_singleton_of_free` — when everything is free there is one block.
-/
import Mathlib

namespace BlockList

structure Block where
  /-- Bytes of payload. -/
  size : ℕ
  free : Bool
deriving DecidableEq, Repr

variable (H : ℕ)

/-! ### Where things lie -/

/-- The bytes that the blocks take. -/
def extent : List Block → ℕ
  | [] => 0
  | b :: bs => H + b.size + extent bs

/-- The addresses of the blocks, the first being at `a`. -/
def addrs : ℕ → List Block → List ℕ
  | _, [] => []
  | a, b :: bs => a :: addrs (a + H + b.size) bs

/-- Payload address and size of the blocks in use. -/
def allocs : ℕ → List Block → List (ℕ × ℕ)
  | _, [] => []
  | a, b :: bs =>
    (if b.free then [] else [(a + H, b.size)]) ++ allocs (a + H + b.size) bs

/-- Everybody's payload is non-empty and a multiple of `g`. -/
def Sized (g : ℕ) (bs : List Block) : Prop := ∀ b ∈ bs, 0 < b.size ∧ g ∣ b.size

variable {H} {a g n p m q k x : ℕ} {b : Block} {xs ys bs : List Block}

@[simp] theorem extent_nil : extent H [] = 0 := rfl

@[simp] theorem extent_cons : extent H (b :: bs) = H + b.size + extent H bs := rfl

@[simp] theorem extent_append : extent H (xs ++ ys) = extent H xs + extent H ys := by
  induction xs with
  | nil => rw [List.nil_append, extent_nil, Nat.zero_add]
  | cons b xs ih =>
    rw [List.cons_append, extent_cons, extent_cons, ih]
    omega

theorem addrs_append : addrs H a (xs ++ ys) = addrs H a xs ++ addrs H (a + extent H xs) ys := by
  induction xs generalizing a with
  | nil => rfl
  | cons b xs ih =>
    have hend : a + extent H (b :: xs) = a + H + b.size + extent H xs := by
      rw [extent_cons]
      omega
    rw [List.cons_append, addrs, addrs, ih, hend, List.cons_append]

theorem allocs_append :
    allocs H a (xs ++ ys) = allocs H a xs ++ allocs H (a + extent H xs) ys := by
  induction xs generalizing a with
  | nil => rfl
  | cons b xs ih =>
    have hend : a + extent H (b :: xs) = a + H + b.size + extent H xs := by
      rw [extent_cons]
      omega
    rw [List.cons_append, allocs, allocs, ih, hend, List.append_assoc]

theorem addrs_bounds (h : x ∈ addrs H a bs) : a ≤ x ∧ x + H ≤ a + extent H bs := by
  induction bs generalizing a with
  | nil => cases h
  | cons b bs ih =>
    rw [extent_cons]
    rcases List.mem_cons.mp h with rfl | h
    · omega
    · have := ih h
      omega

theorem mem_allocs_cons : (p, m) ∈ allocs H a (b :: bs) ↔
    b.free = false ∧ p = a + H ∧ m = b.size ∨ (p, m) ∈ allocs H (a + H + b.size) bs := by
  rw [allocs, List.mem_append]
  cases b.free <;> simp

theorem allocs_bounds (h : (p, m) ∈ allocs H a bs) : a + H ≤ p ∧ p + m ≤ a + extent H bs := by
  induction bs generalizing a with
  | nil => cases h
  | cons b bs ih =>
    rw [extent_cons]
    rcases mem_allocs_cons.mp h with ⟨-, rfl, rfl⟩ | h
    · omega
    · have := ih h
      omega

/-- A header lies before or behind every payload. -/
theorem addrs_apart (hx : x ∈ addrs H a bs) (hp : (p, m) ∈ allocs H a bs) :
    x + H ≤ p ∨ p + m ≤ x := by
  induction bs generalizing a with
  | nil => cases hx
  | cons b bs ih =>
    rcases mem_allocs_cons.mp hp with ⟨-, rfl, rfl⟩ | hp
    · rcases List.mem_cons.mp hx with rfl | hx
      · exact .inl le_rfl
      · exact .inr (addrs_bounds hx).1
    · rcases List.mem_cons.mp hx with rfl | hx
      · have := (allocs_bounds hp).1
        omega
      · exact ih hx hp

/-- Different payloads do not overlap. -/
theorem allocs_apart (hp : (p, m) ∈ allocs H a bs) (hq : (q, k) ∈ allocs H a bs) (hne : p ≠ q) :
    p + m ≤ q ∨ q + k ≤ p := by
  induction bs generalizing a with
  | nil => cases hp
  | cons b bs ih =>
    rcases mem_allocs_cons.mp hp with ⟨-, rfl, rfl⟩ | hp
    · rcases mem_allocs_cons.mp hq with ⟨-, rfl, rfl⟩ | hq
      · exact absurd rfl hne
      · have := (allocs_bounds hq).1
        omega
    · rcases mem_allocs_cons.mp hq with ⟨-, rfl, rfl⟩ | hq
      · have := (allocs_bounds hp).1
        omega
      · exact ih hp hq

/-- The block of a payload. -/
theorem exists_of_mem_allocs (h : (p, m) ∈ allocs H a bs) :
    ∃ xs ys, bs = xs ++ ⟨m, false⟩ :: ys ∧ p = a + extent H xs + H := by
  induction bs generalizing a with
  | nil => cases h
  | cons b bs ih =>
    rcases mem_allocs_cons.mp h with ⟨hfree, rfl, rfl⟩ | h
    · refine ⟨[], bs, ?_, rfl⟩
      rw [List.nil_append, ← hfree]
    · obtain ⟨xs, ys, rfl, hp⟩ := ih h
      refine ⟨b :: xs, ys, rfl, ?_⟩
      rw [extent_cons]
      omega

/-- The block at an address. -/
theorem exists_of_mem_addrs (h : x ∈ addrs H a bs) :
    ∃ xs b ys, bs = xs ++ b :: ys ∧ x = a + extent H xs := by
  induction bs generalizing a with
  | nil => cases h
  | cons b bs ih =>
    rcases List.mem_cons.mp h with rfl | h
    · exact ⟨[], b, bs, rfl, rfl⟩
    · obtain ⟨xs, c, ys, rfl, hx⟩ := ih h
      refine ⟨b :: xs, c, ys, rfl, ?_⟩
      rw [extent_cons]
      omega

/-- Blocks of aligned sizes have aligned addresses. -/
theorem dvd_extent (hH : g ∣ H) (h : Sized g bs) : g ∣ extent H bs := by
  induction bs with
  | nil => exact Nat.dvd_zero g
  | cons b bs ih =>
    have hb := (h b List.mem_cons_self).2
    exact ((hH.add hb).add (ih fun c hc => h c (List.mem_cons_of_mem _ hc)))

theorem dvd_addrs (hH : g ∣ H) (h : Sized g bs) (ha : g ∣ a) (hx : x ∈ addrs H a bs) : g ∣ x := by
  induction bs generalizing a with
  | nil => cases hx
  | cons b bs ih =>
    rcases List.mem_cons.mp hx with rfl | hx
    · exact ha
    · have hb := (h b List.mem_cons_self).2
      exact ih (fun c hc => h c (List.mem_cons_of_mem _ hc)) ((ha.add hH).add hb) hx

/-! ### Taking, growing, giving back -/

/-- No two free blocks are neighbours. -/
def Separated (bs : List Block) : Prop :=
  bs.IsChain fun b c => ¬ (b.free = true ∧ c.free = true)

variable (H) in
/-- The blocks that a free block becomes when `n` bytes of it are taken; a remainder too small
for a payload of `g` bytes goes with them. -/
def cut (g n : ℕ) (b : Block) : List Block :=
  if n + H + g ≤ b.size then [⟨n, false⟩, ⟨b.size - n - H, true⟩] else [⟨b.size, false⟩]

variable (H) in
/-- A freed block of `n` bytes and what follows it, after coalescing with a free successor. -/
def mergeNext (n : ℕ) : List Block → Block × List Block
  | [] => (⟨n, true⟩, [])
  | b :: bs => if b.free then (⟨n + H + b.size, true⟩, bs) else (⟨n, true⟩, b :: bs)

variable (H) in
/-- The list after a freed block `c` was coalesced with a free predecessor. -/
def mergePrev (xs : List Block) (c : Block) (ys : List Block) : List Block :=
  match xs.getLast? with
  | none => c :: ys
  | some b =>
    if b.free then xs.dropLast ++ ⟨b.size + H + c.size, true⟩ :: ys else xs ++ c :: ys

variable {c : Block}

theorem mergePrev_nil : mergePrev H [] c ys = c :: ys := rfl

theorem mergePrev_concat : mergePrev H (xs ++ [b]) c ys =
    if b.free then xs ++ ⟨b.size + H + c.size, true⟩ :: ys else xs ++ b :: c :: ys := by
  rw [mergePrev, List.getLast?_concat, List.dropLast_concat]
  dsimp only
  rw [List.append_assoc]
  rfl

theorem extent_cut : extent H (cut H g n b) = H + b.size := by
  rw [cut]
  split_ifs with h
  · rw [extent_cons, extent_cons, extent_nil]
    dsimp only
    omega
  · rw [extent_cons, extent_nil]
    rfl

/-- What a block becomes begins where the block does. -/
theorem addrs_cut : a ∈ addrs H a (cut H g n b) := by
  rw [cut]
  split_ifs <;> exact List.mem_cons_self

theorem allocs_cut (hle : n ≤ b.size) :
    ∃ k, n ≤ k ∧ allocs H a (cut H g n b) = [(a + H, k)] := by
  rw [cut]
  split_ifs with h
  · exact ⟨n, le_rfl, rfl⟩
  · exact ⟨b.size, hle, rfl⟩

theorem sized_append : Sized g (xs ++ ys) ↔ Sized g xs ∧ Sized g ys := List.forall_mem_append

theorem sized_cons : Sized g (b :: bs) ↔ (0 < b.size ∧ g ∣ b.size) ∧ Sized g bs :=
  List.forall_mem_cons

theorem sized_cut (hH : g ∣ H) (hg : 0 < g) (hn : 0 < n ∧ g ∣ n) (hb : 0 < b.size ∧ g ∣ b.size) :
    Sized g (cut H g n b) := by
  rw [cut]
  split_ifs with h
  · rw [sized_cons, sized_cons]
    refine ⟨hn, ⟨?_, ?_⟩, nofun⟩
    · dsimp only
      omega
    · exact Nat.dvd_sub (Nat.dvd_sub hb.2 hn.2) hH
  · rw [sized_cons]
    exact ⟨hb, nofun⟩

/-- Where two lists meet. -/
theorem separated_append : Separated (xs ++ ys) ↔ Separated xs ∧ Separated ys ∧
    ∀ b ∈ xs.getLast?, ∀ c ∈ ys.head?, ¬ (b.free = true ∧ c.free = true) := List.isChain_append

/-- A block in use can stand anywhere. -/
theorem separated_append_used (hxs : Separated xs) (hys : Separated (⟨n, false⟩ :: ys)) :
    Separated (xs ++ ⟨n, false⟩ :: ys) := by
  refine separated_append.mpr ⟨hxs, hys, fun b _ c hc => ?_⟩
  rw [List.head?_cons, Option.mem_some_iff] at hc
  rw [← hc]
  exact fun h => nomatch h.2

theorem separated_used_cons : Separated (⟨n, false⟩ :: ys) ↔ Separated ys := by
  constructor
  · exact List.IsChain.tail
  · intro h
    show Separated ([⟨n, false⟩] ++ ys)
    refine separated_append.mpr ⟨List.isChain_singleton _, h, fun b hb c _ hbc => ?_⟩
    rw [List.getLast?_singleton, Option.mem_some_iff] at hb
    rw [← hb] at hbc
    exact nomatch hbc.1

theorem separated_free_cons : Separated (⟨n, true⟩ :: ys) ↔
    Separated ys ∧ ∀ c ∈ ys.head?, c.free = false := by
  constructor
  · intro h
    change Separated ([⟨n, true⟩] ++ ys) at h
    obtain ⟨-, hys, hmeet⟩ := separated_append.mp h
    refine ⟨hys, fun c hc => ?_⟩
    have := hmeet ⟨n, true⟩ rfl c hc
    cases hfree : c.free with
    | false => rfl
    | true => exact absurd ⟨rfl, hfree⟩ this
  · rintro ⟨hys, hhead⟩
    show Separated ([⟨n, true⟩] ++ ys)
    refine separated_append.mpr ⟨List.isChain_singleton _, hys, fun b _ c hc hbc => ?_⟩
    rw [hhead c hc] at hbc
    exact nomatch hbc.2

/-- Taking a free block: its neighbours are in use. -/
theorem separated_cut (h : Separated (xs ++ b :: ys)) (hb : b.free = true) :
    Separated (xs ++ (cut H g n b ++ ys)) := by
  obtain ⟨hxs, hrest, -⟩ := separated_append.mp h
  obtain ⟨size, free⟩ := b
  obtain rfl : free = true := hb
  obtain ⟨hys, hhead⟩ := separated_free_cons.mp hrest
  rw [cut]
  split_ifs
  · exact separated_append_used hxs
      (separated_used_cons.mpr (separated_free_cons.mpr ⟨hys, hhead⟩))
  · exact separated_append_used hxs (separated_used_cons.mpr hys)

/-- Growing by a block and taking from it. -/
theorem separated_grow (h : Separated bs) : Separated (bs ++ cut H g n b) := by
  rw [cut]
  split_ifs
  · exact separated_append_used h (separated_used_cons.mpr (List.isChain_singleton _))
  · exact separated_append_used h (List.isChain_singleton _)

theorem separated_mergeNext (h : Separated ys) :
    (mergeNext H n ys).1.free = true ∧
      Separated ((mergeNext H n ys).1 :: (mergeNext H n ys).2) := by
  cases ys with
  | nil => exact ⟨rfl, List.isChain_singleton _⟩
  | cons b ys =>
    obtain ⟨size, free⟩ := b
    cases free with
    | true =>
      obtain ⟨hys, hhead⟩ := separated_free_cons.mp h
      exact ⟨rfl, separated_free_cons.mpr ⟨hys, hhead⟩⟩
    | false =>
      have hmerge : mergeNext H n (⟨size, false⟩ :: ys) = (⟨n, true⟩, ⟨size, false⟩ :: ys) := rfl
      rw [hmerge]
      refine ⟨rfl, separated_free_cons.mpr ⟨h, fun c hc => ?_⟩⟩
      rw [List.head?_cons, Option.mem_some_iff] at hc
      rw [← hc]

theorem extent_mergeNext : extent H ((mergeNext H n ys).1 :: (mergeNext H n ys).2) =
    H + n + extent H ys := by
  cases ys with
  | nil => rfl
  | cons b ys =>
    rw [mergeNext]
    split_ifs
    · rw [extent_cons, extent_cons]
      dsimp only
      omega
    · rfl

theorem extent_mergePrev : extent H (mergePrev H xs c ys) = extent H xs + extent H (c :: ys) := by
  rcases List.eq_nil_or_concat xs with rfl | ⟨xs', b, rfl⟩
  · rw [mergePrev_nil, extent_nil, Nat.zero_add]
  · rw [List.concat_eq_append, mergePrev_concat]
    split_ifs
    · simp only [extent_append, extent_cons, extent_nil]
      omega
    · simp only [extent_append, extent_cons, extent_nil]
      omega

/-- What stands behind a coalesced block is left as it was. -/
theorem mergePrev_behind (xs : List Block) (c : Block) (ys : List Block) :
    ∃ ws, mergePrev H xs c ys = ws ++ ys ∧ extent H ws = extent H xs + H + c.size := by
  rcases List.eq_nil_or_concat xs with rfl | ⟨xs', b, rfl⟩
  · refine ⟨[c], rfl, ?_⟩
    simp
  · rw [List.concat_eq_append, mergePrev_concat]
    split_ifs
    · refine ⟨xs' ++ [⟨b.size + H + c.size, true⟩], by simp, ?_⟩
      simp only [extent_append, extent_cons, extent_nil]
      omega
    · refine ⟨xs' ++ [b, c], by simp, ?_⟩
      simp only [extent_append, extent_cons, extent_nil]
      omega

theorem allocs_mergeNext (hmerge : mergeNext H n ys = (c, bs)) :
    allocs H a (c :: bs) = allocs H (a + H + n) ys := by
  cases ys with
  | nil =>
    cases hmerge
    rfl
  | cons b ys =>
    rw [mergeNext] at hmerge
    split_ifs at hmerge with hfree
    · cases hmerge
      have hend : a + H + (n + H + b.size) = a + H + n + H + b.size := by omega
      rw [allocs, allocs, hfree, if_pos rfl, if_pos rfl, hend]
    · cases hmerge
      rw [allocs, if_pos rfl]
      rfl

theorem allocs_mergePrev (hc : c.free = true) :
    allocs H a (mergePrev H xs c ys) = allocs H a (xs ++ c :: ys) := by
  rcases List.eq_nil_or_concat xs with rfl | ⟨xs', b, rfl⟩
  · rfl
  · rw [List.concat_eq_append, mergePrev_concat]
    split_ifs with hb
    · rw [List.append_assoc, allocs_append, allocs_append]
      congr 1
      have hend : a + extent H xs' + H + (b.size + H + c.size) =
        a + extent H xs' + H + b.size + H + c.size := by omega
      rw [List.singleton_append, allocs, allocs, allocs, hb, hc, if_pos rfl, if_pos rfl, if_pos rfl,
        hend]
      rfl
    · rw [List.append_assoc]
      rfl

theorem sized_mergeNext (hH : g ∣ H) (hn : 0 < n ∧ g ∣ n) (hys : Sized g ys) :
    Sized g ((mergeNext H n ys).1 :: (mergeNext H n ys).2) := by
  cases ys with
  | nil =>
    rw [mergeNext, sized_cons]
    exact ⟨hn, nofun⟩
  | cons b ys =>
    obtain ⟨hb, hys'⟩ := sized_cons.mp hys
    rw [mergeNext]
    split_ifs
    · refine sized_cons.mpr ⟨⟨?_, (hn.2.add hH).add hb.2⟩, hys'⟩
      dsimp only
      omega
    · exact sized_cons.mpr ⟨hn, hys⟩

theorem sized_mergePrev (hH : g ∣ H) (hxs : Sized g xs) (hc : Sized g (c :: ys)) :
    Sized g (mergePrev H xs c ys) := by
  rcases List.eq_nil_or_concat xs with rfl | ⟨xs', b, rfl⟩
  · exact hc
  · rw [List.concat_eq_append] at hxs ⊢
    obtain ⟨hxs', hb⟩ := sized_append.mp hxs
    obtain ⟨hcs, hys⟩ := sized_cons.mp hc
    obtain ⟨hb, -⟩ := sized_cons.mp hb
    rw [mergePrev_concat]
    split_ifs
    · refine sized_append.mpr ⟨hxs', sized_cons.mpr ⟨⟨?_, (hb.2.add hH).add hcs.2⟩, hys⟩⟩
      dsimp only
      omega
    · exact sized_append.mpr ⟨hxs', sized_cons.mpr ⟨hb, hc⟩⟩

variable (H) in
/-- The list after the block of `n` bytes between `xs` and `ys` was given back. -/
def release (xs : List Block) (n : ℕ) (ys : List Block) : List Block :=
  mergePrev H xs (mergeNext H n ys).1 (mergeNext H n ys).2

theorem separated_release (h : Separated (xs ++ ⟨n, false⟩ :: ys)) :
    Separated (release H xs n ys) := by
  obtain ⟨hxs, hrest, -⟩ := separated_append.mp h
  obtain ⟨hfree, hmerged⟩ := separated_mergeNext (H := H) (n := n) (separated_used_cons.mp hrest)
  obtain ⟨⟨size, free⟩, zs, hz⟩ : ∃ c zs, mergeNext H n ys = (c, zs) := ⟨_, _, rfl⟩
  rw [release, hz]
  rw [hz] at hfree hmerged
  obtain rfl : free = true := hfree
  obtain ⟨hzs, hhead⟩ := separated_free_cons.mp hmerged
  rcases List.eq_nil_or_concat xs with rfl | ⟨xs', b, rfl⟩
  · exact hmerged
  · rw [List.concat_eq_append] at hxs ⊢
    obtain ⟨hxs', -, hmeet⟩ := separated_append.mp hxs
    obtain ⟨sb, fb⟩ := b
    rw [mergePrev_concat]
    cases fb with
    | true =>
      rw [if_pos rfl]
      refine separated_append.mpr ⟨hxs', separated_free_cons.mpr ⟨hzs, hhead⟩, fun c hc d hd => ?_⟩
      rw [List.head?_cons, Option.mem_some_iff] at hd
      rw [← hd]
      exact hmeet c hc ⟨sb, true⟩ rfl
    | false =>
      rw [if_neg Bool.false_ne_true]
      exact separated_append_used hxs' (separated_used_cons.mpr hmerged)

theorem extent_release :
    extent H (release H xs n ys) = extent H (xs ++ ⟨n, false⟩ :: ys) := by
  rw [release, extent_mergePrev, extent_mergeNext, extent_append, extent_cons]

theorem sized_release (hH : g ∣ H) (h : Sized g (xs ++ ⟨n, false⟩ :: ys)) :
    Sized g (release H xs n ys) := by
  obtain ⟨hxs, h⟩ := sized_append.mp h
  obtain ⟨hn, hys⟩ := sized_cons.mp h
  exact sized_mergePrev hH hxs (sized_mergeNext hH hn hys)

theorem allocs_append_mergeNext :
    allocs H a (xs ++ (mergeNext H n ys).1 :: (mergeNext H n ys).2) =
      allocs H a (xs ++ ⟨n, true⟩ :: ys) := by
  rw [allocs_append, allocs_append, allocs_mergeNext (Prod.mk.eta).symm]
  rfl

theorem allocs_release (h : Separated ys) :
    allocs H a (release H xs n ys) = allocs H a (xs ++ ⟨n, true⟩ :: ys) := by
  rw [release, allocs_mergePrev (separated_mergeNext h).1]
  exact allocs_append_mergeNext

/-- When all blocks are free there is at most one. -/
theorem eq_singleton_of_free (h : Separated bs) (hfree : ∀ b ∈ bs, b.free = true)
    (hne : bs ≠ []) : ∃ n, bs = [⟨n, true⟩] := by
  match bs, h, hfree, hne with
  | [b], _, hfree, _ =>
    obtain ⟨size, free⟩ := b
    obtain rfl : free = true := hfree _ List.mem_cons_self
    exact ⟨size, rfl⟩
  | b :: c :: rest, h, hfree, _ =>
    have hmeet := (List.isChain_cons_cons.mp h).1
    exact absurd ⟨hfree b List.mem_cons_self,
      hfree c (List.mem_cons_of_mem _ List.mem_cons_self)⟩ hmeet

end BlockList
