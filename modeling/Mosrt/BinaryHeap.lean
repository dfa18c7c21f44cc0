/-
Binary heaps in an array.

The children of position `i` are `2 * i + 1` and `2 * i + 2`.  The order is given
to the operations, not to the structure: it may have changed since the last call,
and what is said here about the contents holds whether or not the array is in
heap order.

* `toList_push` — `push` adds the element, whatever the order;
* `toList_pop` — `pop` removes the element at the root and no other;
* `push_ordered`, `pop_ordered` — both keep the heap order;
* `Ordered.root_le` — in heap order the root is least.
-/
import Mathlib

/-- The first `len` positions of an array of `cap` elements. -/
structure BinaryHeap (α : Type*) (cap : ℕ) where
  items : ℕ → α
  len : ℕ
  len_le : len ≤ cap

open scoped List

namespace BinaryHeap

variable {α : Type*} {cap : ℕ}

/-- The empty heap over an array filled with `x`. -/
def empty (x : α) : BinaryHeap α cap where
  items := fun _ => x
  len := 0
  len_le := Nat.zero_le cap

def toList (h : BinaryHeap α cap) : List α := (List.range h.len).map h.items

def swap (items : ℕ → α) (i j : ℕ) : ℕ → α :=
  Function.update (Function.update items i (items j)) j (items i)

/-- Move the element at `i` up while it is less than its parent.  The index at least
halves, so `i` is enough fuel. -/
def siftUp (less : α → α → Bool) : ℕ → ℕ → (ℕ → α) → ℕ → α
  | 0, _, items => items
  | fuel + 1, i, items =>
    if 0 < i then
      let parent := (i - 1) / 2
      if less (items i) (items parent) then siftUp less fuel parent (swap items i parent)
      else items
    else items

/-- The least of the element at `i` and its children, among the first `len`. -/
def best (less : α → α → Bool) (items : ℕ → α) (len i : ℕ) : ℕ :=
  let l := i * 2 + 1
  let r := l + 1
  let b := if l < len ∧ less (items l) (items i) then l else i
  if r < len ∧ less (items r) (items b) then r else b

/-- Move the element at `i` down while a child is less.  The index at least doubles, so
`len` is enough fuel. -/
def siftDown (less : α → α → Bool) (len : ℕ) : ℕ → ℕ → (ℕ → α) → ℕ → α
  | 0, _, items => items
  | fuel + 1, i, items =>
    let b := best less items len i
    if b = i then items else siftDown less len fuel b (swap items i b)

/-- Add `x`; a full heap stays as it is. -/
def push (less : α → α → Bool) (h : BinaryHeap α cap) (x : α) : BinaryHeap α cap :=
  if hlen : h.len < cap then
    { items := siftUp less h.len h.len (Function.update h.items h.len x)
      len := h.len + 1
      len_le := hlen }
  else h

/-- The root and the heap without it: the last element takes its place and sinks. -/
def pop (less : α → α → Bool) (h : BinaryHeap α cap) : Option (α × BinaryHeap α cap) :=
  if 0 < h.len then
    let len := h.len - 1
    some (h.items 0,
      { items := siftDown less len len 0 (Function.update h.items 0 (h.items len))
        len := len
        len_le := (Nat.sub_le _ _).trans h.len_le })
  else none

variable {less : α → α → Bool} {h h' : BinaryHeap α cap} {x : α} {items : ℕ → α} {i j n : ℕ}

@[simp] theorem toList_empty : (empty x : BinaryHeap α cap).toList = [] := rfl

@[simp] theorem length_toList : h.toList.length = h.len := by simp [toList]

/-! ### Sifting permutes -/

theorem swap_eq (items : ℕ → α) (i j : ℕ) : swap items i j = items ∘ Equiv.swap i j := by
  funext k
  simp only [swap, Function.update_apply, Function.comp, Equiv.swap_apply_def]
  split_ifs <;> simp_all

theorem swap_perm (hi : i < n) (hj : j < n) :
    (List.range n).map (swap items i j) ~ (List.range n).map items := by
  rw [swap_eq, ← List.map_map]
  refine List.Perm.map items ?_
  refine (List.perm_ext_iff_of_nodup ?_ List.nodup_range).mpr fun k => ?_
  · exact List.nodup_range.map (Equiv.swap i j).injective
  · -- the swap is its own inverse on the positions below `n`
    simp only [List.mem_map, List.mem_range]
    refine ⟨?_, fun hk => ⟨Equiv.swap i j k, ?_, Equiv.swap_apply_self i j k⟩⟩
    · rintro ⟨m, hm, rfl⟩
      rw [Equiv.swap_apply_def]
      split_ifs <;> assumption
    · rw [Equiv.swap_apply_def]
      split_ifs <;> assumption

theorem siftUp_perm (fuel : ℕ) (hi : i < n) :
    (List.range n).map (siftUp less fuel i items) ~ (List.range n).map items := by
  induction fuel generalizing i items with
  | zero => exact .refl _
  | succ fuel ih =>
    rw [siftUp]
    split_ifs with hpos
    · have hparent : (i - 1) / 2 < n := by omega
      dsimp only
      split_ifs
      · exact (ih hparent).trans (swap_perm hi hparent)
      · exact .refl _
    · exact .refl _

theorem best_lt (hi : i < n) : best less items n i < n := by
  simp only [best]
  split_ifs <;> omega

theorem siftDown_perm (fuel : ℕ) (hi : i < n) :
    (List.range n).map (siftDown less n fuel i items) ~ (List.range n).map items := by
  induction fuel generalizing i items with
  | zero => exact .refl _
  | succ fuel ih =>
    rw [siftDown]
    split_ifs
    · exact .refl _
    · exact (ih (best_lt hi)).trans (swap_perm hi (best_lt hi))

/-! ### Contents -/

theorem toList_push (hlen : h.len < cap) : (h.push less x).toList ~ x :: h.toList := by
  rw [push, dif_pos hlen]
  refine (siftUp_perm _ (Nat.lt_succ_self _)).trans ?_
  rw [List.range_succ, List.map_append, List.map_singleton, Function.update_self]
  have hkeep : (List.range h.len).map (Function.update h.items h.len x) = h.toList :=
    List.map_congr_left fun k hk =>
      Function.update_of_ne (Nat.ne_of_lt (List.mem_range.mp hk)) _ _
  rw [hkeep]
  exact List.perm_append_singleton x h.toList

theorem pop_eq_none : h.pop less = none ↔ h.len = 0 := by
  rw [pop]
  split_ifs with hlen
  · simp only [false_iff]
    omega
  · simp only [true_iff]
    omega

theorem len_pop (hpop : h.pop less = some (x, h')) : h.len = h'.len + 1 := by
  rw [pop] at hpop
  split_ifs at hpop with hlen
  obtain ⟨-, rfl⟩ := Prod.mk.inj (Option.some.inj hpop)
  exact (Nat.succ_pred_eq_of_pos hlen).symm

theorem toList_pop (hpop : h.pop less = some (x, h')) : h.toList ~ x :: h'.toList := by
  have hlen := len_pop hpop
  obtain ⟨hx, hitems⟩ : x = h.items 0 ∧ h'.items =
      siftDown less h'.len h'.len 0 (Function.update h.items 0 (h.items h'.len)) := by
    rw [pop] at hpop
    split_ifs at hpop
    obtain ⟨rfl, rfl⟩ := Prod.mk.inj (Option.some.inj hpop)
    exact ⟨rfl, rfl⟩
  -- exchange root and last element, then drop the last position
  have hswap : (List.range (h'.len + 1)).map (swap h.items 0 h'.len) =
      (List.range h'.len).map (Function.update h.items 0 (h.items h'.len)) ++ [x] := by
    rw [List.range_succ, List.map_append, List.map_singleton, hx]
    congr 1
    · refine List.map_congr_left fun k hk => ?_
      exact Function.update_of_ne (Nat.ne_of_lt (List.mem_range.mp hk)) _ _
    · exact congrArg (fun y => [y]) (Function.update_self _ _ _)
  have hsift : h'.toList ~
      (List.range h'.len).map (Function.update h.items 0 (h.items h'.len)) := by
    rw [toList, hitems]
    by_cases h0 : h'.len = 0
    · rw [h0]
      exact .refl _
    · exact siftDown_perm _ (Nat.pos_of_ne_zero h0)
  calc h.toList
      = (List.range (h'.len + 1)).map h.items := by rw [toList, hlen]
    _ ~ (List.range (h'.len + 1)).map (swap h.items 0 h'.len) :=
        (swap_perm (Nat.succ_pos _) (Nat.lt_succ_self _)).symm
    _ = (List.range h'.len).map (Function.update h.items 0 (h.items h'.len)) ++ [x] := hswap
    _ ~ x :: (List.range h'.len).map (Function.update h.items 0 (h.items h'.len)) :=
        List.perm_append_singleton x _
    _ ~ x :: h'.toList := hsift.symm.cons x

/-! ### Heap order -/

section Order

variable {β : Type*} [LinearOrder β] {key : α → β}

/-- No element among the first `n` has a smaller key than its parent. -/
def OrderedBelow (key : α → β) (n : ℕ) (items : ℕ → α) : Prop :=
  ∀ i < n, 0 < i → key (items ((i - 1) / 2)) ≤ key (items i)

def Ordered (key : α → β) (h : BinaryHeap α cap) : Prop := OrderedBelow key h.len h.items

theorem OrderedBelow.root_le (h : OrderedBelow key n items) (hi : i < n) :
    key (items 0) ≤ key (items i) := by
  induction i using Nat.strong_induction_on with
  | _ i ih =>
    by_cases h0 : i = 0
    · rw [h0]
    · have hparent := ih ((i - 1) / 2) (by omega) (by omega)
      exact hparent.trans (h i hi (by omega))

theorem Ordered.root_le (h' : h.Ordered key) (hx : x ∈ h.toList) : key (h.items 0) ≤ key x := by
  obtain ⟨i, hi, rfl⟩ := List.mem_map.mp hx
  exact OrderedBelow.root_le h' (List.mem_range.mp hi)

/-- The element at `i` may have a smaller key than its parent, but nothing below it does. -/
structure OrderedUp (key : α → β) (n i : ℕ) (items : ℕ → α) : Prop where
  others : ∀ j < n, 0 < j → j ≠ i → key (items ((j - 1) / 2)) ≤ key (items j)
  below : ∀ j < n, 0 < j → (j - 1) / 2 = i → 0 < i → key (items ((i - 1) / 2)) ≤ key (items j)

theorem OrderedUp.done (h : OrderedUp key n i items)
    (hi : 0 < i → key (items ((i - 1) / 2)) ≤ key (items i)) : OrderedBelow key n items := by
  intro j hj hpos
  by_cases hji : j = i
  · subst hji
    exact hi hpos
  · exact h.others j hj hpos hji

/-- One exchange with the parent. -/
theorem OrderedUp.swap (h : OrderedUp key n i items) (hi : 0 < i) (hin : i < n)
    (hlt : key (items i) < key (items ((i - 1) / 2))) :
    OrderedUp key n ((i - 1) / 2) (swap items i ((i - 1) / 2)) := by
  obtain ⟨p, hp⟩ : ∃ p, p = (i - 1) / 2 := ⟨_, rfl⟩
  rw [← hp] at hlt ⊢
  have hpi : p < i := by omega
  have hat : BinaryHeap.swap items i p i = items p := by
    rw [BinaryHeap.swap, Function.update_of_ne (by omega), Function.update_self]
  have hatp : BinaryHeap.swap items i p p = items i := Function.update_self _ _ _
  have hother : ∀ k, k ≠ i → k ≠ p → BinaryHeap.swap items i p k = items k := by
    intro k hki hkp
    rw [BinaryHeap.swap, Function.update_of_ne hkp, Function.update_of_ne hki]
  -- what hung below the parent is not before it
  have hsibling : ∀ j < n, 0 < j → j ≠ i → (j - 1) / 2 = p → key (items p) ≤ key (items j) := by
    intro j hj hpos hji hjp
    rw [← hjp]
    exact h.others j hj hpos hji
  constructor
  · intro j hj hpos hjp
    by_cases hji : j = i
    · rw [hji, ← hp, hatp, hat]
      exact hlt.le
    rw [hother j hji hjp]
    by_cases hpar : (j - 1) / 2 = i
    · rw [hpar, hat, hp]
      exact h.below j hj hpos hpar hi
    by_cases hparp : (j - 1) / 2 = p
    · rw [hparp, hatp]
      exact hlt.le.trans (hsibling j hj hpos hji hparp)
    · rw [hother _ hpar hparp]
      exact h.others j hj hpos hji
  · intro j hj hpos hjp hp0
    have hgrand : key (items ((p - 1) / 2)) ≤ key (items p) :=
      h.others p (by omega) hp0 (by omega)
    rw [hother ((p - 1) / 2) (by omega) (by omega)]
    by_cases hji : j = i
    · rw [hji, hat]
      exact hgrand
    · rw [hother j hji (by omega)]
      exact hgrand.trans (hsibling j hj hpos hji hjp)

theorem siftUp_ordered (hless : ∀ x y, less x y = true ↔ key x < key y) (fuel : ℕ)
    (hfuel : i ≤ fuel)
    (hi : i < n) (h : OrderedUp key n i items) :
    OrderedBelow key n (siftUp less fuel i items) := by
  induction fuel generalizing i items with
  | zero => exact h.done fun hpos => absurd hpos (by omega)
  | succ fuel ih =>
    rw [siftUp]
    by_cases hpos : 0 < i
    · rw [if_pos hpos]
      dsimp only
      by_cases hlt : less (items i) (items ((i - 1) / 2)) = true
      · rw [if_pos hlt]
        exact ih (by omega) (by omega) (h.swap hpos hi ((hless _ _).mp hlt))
      · rw [if_neg hlt]
        exact h.done fun _ => not_lt.mp fun hc => hlt ((hless _ _).mpr hc)
    · rw [if_neg hpos]
      exact h.done fun hc => absurd hc hpos

theorem push_ordered (hless : ∀ x y, less x y = true ↔ key x < key y) (h' : h.Ordered key) :
    (h.push less x).Ordered key := by
  rw [push]
  split_ifs with hlen
  · refine siftUp_ordered hless _ le_rfl (Nat.lt_succ_self _) ⟨?_, ?_⟩
    · intro j hj hpos hne
      dsimp only at hj
      rw [Function.update_of_ne (by omega), Function.update_of_ne (by omega)]
      exact h' j (by omega) hpos
    · -- nothing hangs below the last position
      intro j hj hpos hpar
      dsimp only at hj
      omega
  · exact h'

/-- The element at `i` may have a greater key than its children, but nothing above it does. -/
structure OrderedDown (key : α → β) (n i : ℕ) (items : ℕ → α) : Prop where
  others : ∀ j < n, 0 < j → (j - 1) / 2 ≠ i → key (items ((j - 1) / 2)) ≤ key (items j)
  above : ∀ j < n, 0 < j → (j - 1) / 2 = i → 0 < i → key (items ((i - 1) / 2)) ≤ key (items j)

theorem OrderedDown.done (h : OrderedDown key n i items)
    (hi : ∀ j < n, 0 < j → (j - 1) / 2 = i → key (items i) ≤ key (items j)) :
    OrderedBelow key n items := by
  intro j hj hpos
  by_cases hji : (j - 1) / 2 = i
  · rw [hji]
    exact hi j hj hpos hji
  · exact h.others j hj hpos hji

/-- The least of an element and its children is the element itself, or the lesser child. -/
theorem best_spec (hless : ∀ x y, less x y = true ↔ key x < key y) (items : ℕ → α) (n i : ℕ) :
    (best less items n i = i ∨ best less items n i < n ∧ 0 < best less items n i ∧
        (best less items n i - 1) / 2 = i ∧ key (items (best less items n i)) < key (items i)) ∧
      ∀ j < n, 0 < j → (j - 1) / 2 = i → key (items (best less items n i)) ≤ key (items j) := by
  have hchild : ∀ j, 0 < j → (j - 1) / 2 = i → j = i * 2 + 1 ∨ j = i * 2 + 1 + 1 := by
    intro j hpos hji
    omega
  simp only [best, hless]
  obtain ⟨b, hb⟩ : ∃ b, (if i * 2 + 1 < n ∧ key (items (i * 2 + 1)) < key (items i) then i * 2 + 1
    else i) = b := ⟨_, rfl⟩
  have hleft : (b = i ∨ b < n ∧ b = i * 2 + 1 ∧ key (items b) < key (items i)) ∧
      (i * 2 + 1 < n → key (items b) ≤ key (items (i * 2 + 1))) := by
    rw [← hb]
    split_ifs with hl
    · exact ⟨.inr ⟨hl.1, rfl, hl.2⟩, fun _ => le_rfl⟩
    · exact ⟨.inl rfl, fun hn => not_lt.mp fun hc => hl ⟨hn, hc⟩⟩
  rw [hb]
  obtain ⟨hself, hle⟩ := hleft
  split_ifs with hr
  · have hlt : key (items (i * 2 + 1 + 1)) < key (items i) := by
      rcases hself with rfl | ⟨-, -, hbi⟩
      · exact hr.2
      · exact hr.2.trans hbi
    refine ⟨.inr ⟨hr.1, by omega, by omega, hlt⟩, fun j hj hpos hji => ?_⟩
    rcases hchild j hpos hji with rfl | rfl
    · exact hr.2.le.trans (hle hj)
    · exact le_rfl
  · refine ⟨hself.imp_right fun ⟨hbn, hbl, hbi⟩ => ⟨hbn, by omega, by omega, hbi⟩,
      fun j hj hpos hji => ?_⟩
    rcases hchild j hpos hji with rfl | rfl
    · exact hle hj
    · exact not_lt.mp fun hc => hr ⟨hj, hc⟩

/-- One exchange with the lesser child. -/
theorem OrderedDown.swap {b : ℕ} (h : OrderedDown key n i items) (hb : b < n) (hpos : 0 < b)
    (hpar : (b - 1) / 2 = i) (hlt : key (items b) < key (items i))
    (hleast : ∀ j < n, 0 < j → (j - 1) / 2 = i → key (items b) ≤ key (items j)) :
    OrderedDown key n b (swap items i b) := by
  have hib : i < b := by omega
  have hati : BinaryHeap.swap items i b i = items b := by
    rw [BinaryHeap.swap, Function.update_of_ne (by omega), Function.update_self]
  have hatb : BinaryHeap.swap items i b b = items i := Function.update_self _ _ _
  have hother : ∀ k, k ≠ i → k ≠ b → BinaryHeap.swap items i b k = items k := by
    intro k hki hkb
    rw [BinaryHeap.swap, Function.update_of_ne hkb, Function.update_of_ne hki]
  constructor
  · intro j hj hj0 hjb
    by_cases hji : j = i
    · -- the parent of `i` is not after what came up
      rw [hji, hati, hother _ (by omega) (by omega)]
      exact h.above b hb hpos hpar (by omega)
    by_cases hpi : (j - 1) / 2 = i
    · rw [hpi, hati]
      by_cases heq : j = b
      · rw [heq, hatb]
        exact hlt.le
      · rw [hother j hji heq]
        exact hleast j hj hj0 hpi
    · rw [hother _ hpi hjb, hother j hji (by omega)]
      exact h.others j hj hj0 hpi
  · intro j hj hj0 hjb _
    rw [hpar, hati, hother j (by omega) (by omega), ← hjb]
    exact h.others j hj hj0 (by omega)

theorem siftDown_ordered (hless : ∀ x y, less x y = true ↔ key x < key y) (fuel : ℕ)
    (hfuel : n ≤ i + fuel) (h : OrderedDown key n i items) :
    OrderedBelow key n (siftDown less n fuel i items) := by
  induction fuel generalizing i items with
  | zero => exact h.done fun j hj hpos hji => by omega
  | succ fuel ih =>
    rw [siftDown]
    obtain ⟨hbest, hleast⟩ := best_spec hless items n i
    generalize best less items n i = b at hbest hleast ⊢
    by_cases hbi : b = i
    · rw [if_pos hbi]
      rw [hbi] at hleast
      exact h.done hleast
    · rw [if_neg hbi]
      obtain ⟨hb, hpos, hpar, hlt⟩ := hbest.resolve_left hbi
      exact ih (by omega) (h.swap hb hpos hpar hlt hleast)

/-- Taking the root keeps the order, and the root was least. -/
theorem pop_ordered (hless : ∀ x y, less x y = true ↔ key x < key y) (hord : h.Ordered key)
    (hpop : h.pop less = some (x, h')) : h'.Ordered key ∧ ∀ y ∈ h.toList, key x ≤ key y := by
  rw [pop] at hpop
  split_ifs at hpop with hlen
  obtain ⟨rfl, rfl⟩ := Prod.mk.inj (Option.some.inj hpop)
  refine ⟨siftDown_ordered hless _ (Nat.le_add_left _ _) ⟨?_, ?_⟩, fun y hy => hord.root_le hy⟩
  · intro j hj hpos hpar
    have hj : j < h.len - 1 := hj
    rw [Function.update_of_ne hpar, Function.update_of_ne (by omega)]
    exact hord j (by omega) hpos
  · intro j _ _ _ h0
    exact absurd h0 (lt_irrefl 0)

/-- The order depends on the keys of the elements only. -/
theorem Ordered.congr {key' : α → β} (hord : h.Ordered key)
    (hkey : ∀ y ∈ h.toList, key' y = key y) : h.Ordered key' := by
  have hitem : ∀ i < h.len, key' (h.items i) = key (h.items i) :=
    fun i hi => hkey _ (List.mem_map_of_mem (List.mem_range.mpr hi))
  intro i hi hpos
  rw [hitem i hi, hitem _ (by omega)]
  exact hord i hi hpos

theorem empty_ordered : (empty x : BinaryHeap α cap).Ordered key :=
  fun _ hi => absurd hi (Nat.not_lt_zero _)

end Order

end BinaryHeap
