/-
The clock policy as a ring of pages read from the hand.

`ClockState.ring` is the order in which the pages are looked at.  A sweep passes the
referenced pages at its front, clears their bits, and takes the page behind them; after a
whole round that is the page under the hand (`clockEvict_eq`).

* `clockScan_pass` — the sweep passes any number of referenced pages;
* `ClockOp.run_ok` — the hand points into the array in every state the operations reach;
* `clock_victim` — which page an eviction takes, and what it changes;
* `clock_hand_order` — where the hand rests after an eviction or a removal.
-/
import Mathlib.Data.List.Rotate
import Mosrt.Replacement
import Mosrt.Runs

namespace Mosrt

variable {c : ClockState} {pt : PageTable} {ps rest : List ℕ} {v vpn i : ℕ} {ref : ℕ → Bool}

/-! ### The ring -/

/-- The pages in the order in which a sweep looks at them. -/
def ClockState.ring (c : ClockState) : List ℕ := c.pages.rotate c.hand

/-- The pages a sweep passes: the referenced ones before the first that is not. -/
def ClockState.passed (c : ClockState) (ref : ℕ → Bool) : List ℕ := c.ring.takeWhile ref

/-- The page a sweep takes: the first that is not referenced, or, if there is none, the one
it started from. -/
def ClockState.target (c : ClockState) (ref : ℕ → Bool) : Option ℕ :=
  (c.ring.find? fun v => !ref v).or c.ring.head?

/-- The page under the hand. -/
def ClockState.atHand (c : ClockState) : Option ℕ := c.pages[c.hand]?

/-- The page that follows `v` in circular order. -/
def ClockState.after (c : ClockState) (v : ℕ) : Option ℕ :=
  c.pages[(c.pages.idxOf v + 1) % c.pages.length]?

/-- No page is tracked twice, and the hand is at one of the pages if there are any. -/
structure ClockOk (c : ClockState) : Prop where
  nodup : c.pages.Nodup
  hand : c.pages = [] ∧ c.hand = 0 ∨ c.hand < c.pages.length

theorem ClockOk.hand_lt (h : ClockOk c) (hne : c.pages ≠ []) : c.hand < c.pages.length :=
  h.hand.resolve_left fun hnil => hne hnil.1

theorem ClockOk.nodup_ring (h : ClockOk c) : c.ring.Nodup := List.nodup_rotate.mpr h.nodup

theorem length_ring : c.ring.length = c.pages.length := List.length_rotate ..

theorem mem_ring : v ∈ c.ring ↔ v ∈ c.pages := List.mem_rotate

theorem ring_ne_nil (hne : c.pages ≠ []) : c.ring ≠ [] := by
  intro hnil
  have hlen := length_ring (c := c)
  rw [hnil] at hlen
  exact hne (List.length_eq_zero_iff.mp hlen.symm)

theorem ring_advance (k : ℕ) :
    ({ c with hand := (c.hand + k) % c.pages.length } : ClockState).ring = c.ring.rotate k := by
  rw [ClockState.ring, ClockState.ring, List.rotate_rotate]
  exact List.rotate_mod c.pages (c.hand + k)

/-! ### A sweep -/

/-- The loop of `clock_evict` ends by taking a page, and not in its fallback branch. -/
def clockScanTakes : ℕ → ClockState → PageTable → Bool
  | 0, _, _ => false
  | attempts + 1, c, pt =>
    let vpn := c.pages.getD c.hand 0
    if (pt vpn).referenced then
      clockScanTakes attempts { c with hand := (c.hand + 1) % c.pages.length }
        (Function.update pt vpn { pt vpn with referenced := false })
    else true

/-- The table with the referenced bits of `ps` cleared. -/
def clearReferenced (pt : PageTable) (ps : List ℕ) : PageTable := fun v =>
  if v ∈ ps then { pt v with referenced := false } else pt v

theorem clearReferenced_cons :
    clearReferenced (Function.update pt v { pt v with referenced := false }) ps =
      clearReferenced pt (v :: ps) := by
  funext w
  rw [clearReferenced, clearReferenced]
  by_cases hw : w = v
  · subst hw
    rw [Function.update_self, if_pos List.mem_cons_self]
    split_ifs <;> rfl
  · rw [Function.update_of_ne hw]
    simp [hw]

theorem getD_hand (hhand : c.hand < c.pages.length) (hring : c.ring = v :: rest) :
    c.pages.getD c.hand 0 = v := by
  have hhead : c.ring.head? = c.pages[c.hand]? := List.head?_rotate hhand
  rw [hring, List.head?_cons] at hhead
  rw [List.getD, ← hhead]
  rfl

/-- Referenced pages are passed: the hand moves on and their bits are cleared. -/
theorem clockScan_pass (hhand : c.hand < c.pages.length) (hring : c.ring = ps ++ rest)
    (hnodup : ps.Nodup) (href : ∀ p ∈ ps, (pt p).referenced = true) (k : ℕ) :
    clockScan (ps.length + k) c pt =
        clockScan k { c with hand := (c.hand + ps.length) % c.pages.length }
          (clearReferenced pt ps) ∧
      clockScanTakes (ps.length + k) c pt =
        clockScanTakes k { c with hand := (c.hand + ps.length) % c.pages.length }
          (clearReferenced pt ps) := by
  induction ps generalizing c pt rest with
  | nil =>
    have hmod : (c.hand + 0) % c.pages.length = c.hand := Nat.mod_eq_of_lt hhand
    have hclear : clearReferenced pt [] = pt := funext fun v => if_neg List.not_mem_nil
    rw [List.length_nil, Nat.zero_add, hmod, hclear]
    exact ⟨rfl, rfl⟩
  | cons p ps ih =>
    have hp : c.pages.getD c.hand 0 = p := getD_hand hhand hring
    have hlen : (p :: ps).length + k = ps.length + k + 1 := by
      rw [List.length_cons]
      omega
    obtain ⟨hpps, hps⟩ := List.nodup_cons.mp hnodup
    -- one step, and the ring is turned by one page
    have hstep : ({ c with hand := (c.hand + 1) % c.pages.length } : ClockState).ring =
        ps ++ (rest ++ [p]) := by
      rw [ring_advance, hring, List.cons_append, List.rotate_cons_succ, List.rotate_zero,
        List.append_assoc]
    have hlt : (c.hand + 1) % c.pages.length < c.pages.length := Nat.mod_lt _ (by omega)
    have hrest : ∀ q ∈ ps, (Function.update pt p { pt p with referenced := false } q).referenced =
        true := by
      intro q hq
      have hqp : q ≠ p := by
        rintro rfl
        exact hpps hq
      rw [Function.update_of_ne hqp]
      exact href q (List.mem_cons_of_mem _ hq)
    obtain ⟨hscan, htakes⟩ := ih hlt hstep hps hrest
    rw [hlen, clockScan, clockScanTakes, hp, if_pos (href p List.mem_cons_self),
      if_pos (href p List.mem_cons_self), hscan, htakes, clearReferenced_cons]
    dsimp only
    rw [Nat.mod_add_mod, List.length_cons, Nat.add_assoc, Nat.add_comm 1]
    exact ⟨rfl, rfl⟩

/-- The array and the hand after the page at index `i` was taken. -/
def ClockState.dropAt (c : ClockState) (i : ℕ) : ClockState where
  pages := c.pages.eraseIdx i
  hand := (i + 1) % c.pages.length % (c.pages.length - 1)

/-- A page that is not referenced is taken. -/
theorem clockScan_take (hhand : c.hand < c.pages.length) (hring : c.ring = v :: rest)
    (href : (pt v).referenced = false) (k : ℕ) :
    clockScan (k + 1) c pt = (some v, c.dropAt c.hand, pt) ∧
      clockScanTakes (k + 1) c pt = true := by
  have hlen : (c.pages.eraseIdx c.hand).length = c.pages.length - 1 :=
    List.length_eraseIdx_of_lt hhand
  rw [clockScan, clockScanTakes, getD_hand hhand hring, href, if_neg Bool.false_ne_true,
    if_neg Bool.false_ne_true, ClockState.dropAt]
  refine ⟨?_, rfl⟩
  dsimp only
  rw [hlen]
  split_ifs with hpos
  · rfl
  · -- it was the only page
    have hone : c.pages.length = 1 := by omega
    rw [hone, Nat.mod_one]

/-- A sweep that passes `ps` takes the page now under the hand. -/
theorem clockScan_target (h : ClockOk c) (hhand : c.hand < c.pages.length)
    (hring : c.ring = ps ++ rest) (href : ∀ p ∈ ps, (pt p).referenced = true) (tail : List ℕ)
    (hnext : c.ring.rotate ps.length = v :: tail)
    (hv : (clearReferenced pt ps v).referenced = false) {attempts : ℕ}
    (hatt : ps.length < attempts) :
    clockScan attempts c pt = (some v, c.dropAt (c.pages.idxOf v), clearReferenced pt ps) ∧
      clockScanTakes attempts c pt = true := by
  obtain ⟨k, rfl⟩ : ∃ k, attempts = ps.length + (k + 1) := ⟨attempts - ps.length - 1, by omega⟩
  have hnodup : ps.Nodup := by
    have := h.nodup_ring
    rw [hring] at this
    exact this.of_append_left
  have hlt : (c.hand + ps.length) % c.pages.length < c.pages.length := Nat.mod_lt _ (by omega)
  have hring' := ring_advance (c := c) ps.length
  rw [hnext] at hring'
  obtain ⟨hscan, htakes⟩ := clockScan_pass hhand hring hnodup href (k + 1)
  obtain ⟨hscan', htakes'⟩ := clockScan_take hlt hring' hv k
  rw [hscan, htakes, hscan', htakes']
  refine ⟨?_, rfl⟩
  have hget := getD_hand hlt hring'
  dsimp only at hget
  rw [List.getD_eq_getElem _ _ hlt] at hget
  have hidx := h.nodup.idxOf_getElem _ hlt
  rw [hget] at hidx
  rw [hidx]
  rfl

/-- What `clock_evict` does to a state with pages in it. -/
theorem clockEvict_eq (h : ClockOk c) (hne : c.pages ≠ []) (pt : PageTable) :
    ∃ v ∈ c.pages, c.target (fun p => (pt p).referenced) = some v ∧
      clockEvict c pt = (some v, c.dropAt (c.pages.idxOf v),
        clearReferenced pt (c.passed fun p => (pt p).referenced)) ∧
      clockScanTakes (2 * c.pages.length) c pt = true := by
  have hhand := h.hand_lt hne
  have hlen := length_ring (c := c)
  rw [clockEvict, if_neg (by omega), ClockState.target, ClockState.passed]
  cases hfind : c.ring.find? fun v => !(pt v).referenced with
  | some v =>
    obtain ⟨hv, ps, rest, hring, hps⟩ := List.find?_eq_some_iff_append.mp hfind
    have hps' : ∀ p ∈ ps, (pt p).referenced = true := fun p hp => by simpa using hps p hp
    have hv' : (pt v).referenced = false := by simpa using hv
    have hpassed : c.ring.takeWhile (fun p => (pt p).referenced) = ps := by
      rw [hring, List.takeWhile_append_of_pos hps', List.takeWhile_cons_of_neg (by simp [hv']),
        List.append_nil]
    rw [hpassed]
    have hmem : v ∈ c.pages := by
      rw [← mem_ring, hring]
      exact List.mem_append_right _ List.mem_cons_self
    refine ⟨v, hmem, rfl, ?_⟩
    refine clockScan_target h hhand hring hps' (rest ++ ps) ?_ ?_ ?_
    · rw [hring, List.rotate_append_length_eq]
      rfl
    · rw [clearReferenced]
      split_ifs
      · rfl
      · exact hv'
    · rw [hring, List.length_append, List.length_cons] at hlen
      omega
  | none =>
    -- a whole round: every bit is cleared, and the hand is back where it was
    have hall : ∀ p ∈ c.ring, (pt p).referenced = true := by
      intro p hp
      have := List.find?_eq_none.mp hfind p hp
      simpa using this
    have hpassed : c.ring.takeWhile (fun p => (pt p).referenced) = c.ring :=
      List.takeWhile_eq_self_iff.mpr hall
    obtain ⟨v, tail, hring⟩ := List.exists_cons_of_ne_nil (ring_ne_nil hne)
    have hmem : v ∈ c.ring := by
      rw [hring]
      exact List.mem_cons_self
    rw [hpassed]
    refine ⟨v, mem_ring.mp hmem, by rw [hring]; rfl, ?_⟩
    refine clockScan_target h hhand (List.append_nil _).symm hall tail ?_ ?_ ?_
    · rw [List.rotate_length, hring]
    · rw [clearReferenced, if_pos hmem]
    · rw [hlen]
      omega

/-! ### Reachable states -/

/-- The operations of the policy that change its state. -/
inductive ClockOp where
  | insert (vpn : ℕ)
  | remove (vpn : ℕ)
  | evict (pt : PageTable)

def ClockOp.exec (c : ClockState) : ClockOp → ClockState
  | .insert vpn => clockInsert c vpn
  | .remove vpn => clockRemove c vpn
  | .evict pt => (clockEvict c pt).2.1

theorem ClockOk.insert (h : ClockOk c) (vpn : ℕ) : ClockOk (clockInsert c vpn) := by
  rw [clockInsert]
  split_ifs with hmem hroom
  · exact h
  · have hnodup : (c.pages ++ [vpn]).Nodup := by
      refine List.Nodup.append h.nodup (List.nodup_singleton vpn) ?_
      exact List.disjoint_singleton.mpr hmem
    refine ⟨hnodup, .inr ?_⟩
    show c.hand < (c.pages ++ [vpn]).length
    rw [List.length_append, List.length_singleton]
    rcases h.hand with ⟨-, hhand⟩ | hhand
    all_goals omega
  · exact h

theorem ClockOk.remove (h : ClockOk c) (vpn : ℕ) : ClockOk (clockRemove c vpn) := by
  rw [clockRemove]
  split_ifs with hmem
  · refine ⟨h.nodup.erase vpn, ?_⟩
    dsimp only
    by_cases hnil : c.pages.erase vpn = []
    · refine .inl ⟨hnil, ?_⟩
      rw [hnil]
      rfl
    · have hpos := List.length_pos_iff.mpr hnil
      refine .inr ?_
      split_ifs <;> omega
  · exact h

theorem ClockOk.dropAt (h : ClockOk c) (hi : i < c.pages.length) : ClockOk (c.dropAt i) := by
  have hlen : (c.pages.eraseIdx i).length = c.pages.length - 1 := List.length_eraseIdx_of_lt hi
  refine ⟨h.nodup.eraseIdx i, ?_⟩
  by_cases hone : c.pages.length = 1
  · refine .inl ⟨List.length_eq_zero_iff.mp (by show (c.pages.eraseIdx i).length = 0; omega), ?_⟩
    show (i + 1) % c.pages.length % (c.pages.length - 1) = 0
    rw [hone, Nat.mod_one]
  · refine .inr ?_
    show (i + 1) % c.pages.length % (c.pages.length - 1) < (c.pages.eraseIdx i).length
    rw [hlen]
    exact Nat.mod_lt _ (by omega)

theorem ClockOk.evict (h : ClockOk c) (pt : PageTable) : ClockOk (clockEvict c pt).2.1 := by
  by_cases hnil : c.pages = []
  · rw [clockEvict, if_pos (List.length_eq_zero_iff.mpr hnil)]
    exact h
  · obtain ⟨v, hv, -, heq, -⟩ := clockEvict_eq h hnil pt
    rw [heq]
    exact h.dropAt (List.idxOf_lt_length_iff.mpr hv)

theorem ClockOk.exec (h : ClockOk c) (op : ClockOp) : ClockOk (op.exec c) := by
  cases op with
  | insert vpn => exact h.insert vpn
  | remove vpn => exact h.remove vpn
  | evict pt => exact h.evict pt

theorem ClockOp.run_ok (ops : List ClockOp) : ClockOk (Runs.run ClockOp.exec {} ops) :=
  Runs.run_invariant (I := ClockOk) (fun _ op h _ => h.exec op) ⟨List.nodup_nil, .inl ⟨rfl, rfl⟩⟩
    (Runs.along_true _ _)

/-! ### The victim -/

/-- **The victim of the clock**, in every state with pages that insertions, removals and
evictions reach, and for every page table: the first page from the hand on that is not
referenced, or the page under the hand.  The bits of the pages before it are cleared, the other
pages stay in order, and the loop does not run out of attempts. -/
theorem clock_victim (ops : List ClockOp) (c : ClockState) (hc : c = Runs.run ClockOp.exec {} ops)
    (hne : c.pages ≠ []) (pt : PageTable) :
    c.hand < c.pages.length ∧ c.pages.Nodup ∧
      ∃ v ∈ c.pages, c.target (fun p => (pt p).referenced) = some v ∧
        (clockEvict c pt).1 = some v ∧ (clockEvict c pt).2.1.pages = c.pages.erase v ∧
        (clockEvict c pt).2.2 = clearReferenced pt (c.passed fun p => (pt p).referenced) ∧
        clockScanTakes (2 * c.pages.length) c pt = true := by
  have h : ClockOk c := hc ▸ ClockOp.run_ok ops
  obtain ⟨v, hv, htarget, heq, htakes⟩ := clockEvict_eq h hne pt
  refine ⟨h.hand_lt hne, h.nodup, v, hv, htarget, ?_⟩
  rw [heq]
  refine ⟨rfl, ?_, rfl, htakes⟩
  rw [List.erase_eq_eraseIdx_of_idxOf rfl]
  rfl

/-- Pages 1, 2, 3 with the bits of 1 and 2 set: 3 is taken, and the two bits are cleared. -/
theorem clock_victim_third :
    (clockEvict (Runs.run ClockOp.exec {} [.insert 1, .insert 2, .insert 3])
      fun v => { referenced := decide (v < 3) }).1 = some 3 := by
  obtain ⟨-, -, v, -, htarget, hev, -⟩ := clock_victim [.insert 1, .insert 2, .insert 3] _ rfl
    (by decide) fun v => { referenced := decide (v < 3) }
  rw [hev, ← htarget]
  decide

/-! ### Where the hand rests -/

/-- The index the hand gets is one too many once the array is shifted. -/
theorem atHand_dropAt (h : ClockOk c) (hi : i < c.pages.length) (htwo : 2 ≤ c.pages.length) :
    (c.dropAt i).atHand = c.pages[(i + 1) % c.pages.length]? ↔
      i + 1 = c.pages.length ∨ c.pages.length = 2 := by
  have hlen : (c.pages.eraseIdx i).length = c.pages.length - 1 := List.length_eraseIdx_of_lt hi
  obtain ⟨n, hn⟩ : ∃ n, c.pages.length = n := ⟨_, rfl⟩
  have hsucc : (i + 1) % n < c.pages.length := by
    rw [hn]
    exact Nat.mod_lt _ (by omega)
  rw [ClockState.atHand, ClockState.dropAt]
  dsimp only
  rw [hn] at hi htwo ⊢
  rw [List.getElem?_eraseIdx]
  by_cases hlast : i + 1 = n
  · -- the last page: the hand goes back to the first
    rw [hlast, Nat.mod_self, Nat.zero_mod, if_pos (by omega)]
    simp
  · have hmod : (i + 1) % n = i + 1 := Nat.mod_eq_of_lt (by omega)
    rw [hmod] at hsucc ⊢
    by_cases hwrap : i + 1 = n - 1
    · rw [← hwrap, Nat.mod_self]
      by_cases hfirst : 0 < i
      · rw [if_pos hfirst, eq_comm, List.getElem?_inj hsucc h.nodup]
        omega
      · have hzero : i = 0 := by omega
        subst hzero
        rw [if_neg hfirst]
        simp only [true_iff]
        omega
    · rw [Nat.mod_eq_of_lt (by omega : i + 1 < n - 1), if_neg (by omega), eq_comm,
        List.getElem?_inj hsucc h.nodup]
      omega

/-- A removal shifts the pages behind the removed one, and the hand with them only by
accident. -/
theorem atHand_clockRemove (h : ClockOk c) (hmem : vpn ∈ c.pages) (hne : c.atHand ≠ some vpn) :
    (clockRemove c vpn).atHand = c.atHand ↔
      c.hand < c.pages.idxOf vpn ∨ c.pages.length = 2 := by
  obtain ⟨i, hi⟩ : ∃ i, c.pages.idxOf vpn = i := ⟨_, rfl⟩
  have hlt : i < c.pages.length := hi ▸ List.idxOf_lt_length_iff.mpr hmem
  have hlen : (c.pages.eraseIdx i).length = c.pages.length - 1 := List.length_eraseIdx_of_lt hlt
  have hhand := h.hand_lt (List.ne_nil_of_mem hmem)
  have hother : c.hand ≠ i := by
    rintro rfl
    refine hne ?_
    rw [ClockState.atHand, ← hi, List.getElem?_idxOf hmem]
  rw [clockRemove, if_pos hmem, ClockState.atHand, ClockState.atHand, hi,
    List.erase_eq_eraseIdx_of_idxOf hi]
  dsimp only
  rw [hlen, List.getElem?_eraseIdx]
  by_cases hend : c.hand ≥ c.pages.length - 1
  · -- the hand was on the last page, and goes back to the first
    rw [if_pos hend]
    by_cases hfirst : 0 < i
    · rw [if_pos hfirst, eq_comm, List.getElem?_inj hhand h.nodup]
      omega
    · rw [if_neg hfirst, eq_comm, List.getElem?_inj hhand h.nodup]
      omega
  · rw [if_neg hend]
    by_cases hbehind : c.hand < i
    · rw [if_pos hbehind]
      simp [hbehind]
    · rw [if_neg hbehind, eq_comm, List.getElem?_inj hhand h.nodup]
      omega

/-- **Where the hand rests**, in every state that insertions, removals and evictions reach.
After an eviction it is at the successor of the page taken exactly if that page was the last
of the array or one of two; after the removal of a page elsewhere it is where it was exactly
if the page stood behind the hand or was one of two. -/
theorem clock_hand_order (ops : List ClockOp) (c : ClockState)
    (hc : c = Runs.run ClockOp.exec {} ops) :
    (∀ pt v, (clockEvict c pt).1 = some v → 2 ≤ c.pages.length →
      ((clockEvict c pt).2.1.atHand = c.after v ↔
        c.target (fun p => (pt p).referenced) = c.pages.getLast? ∨ c.pages.length = 2)) ∧
    ∀ vpn ∈ c.pages, c.atHand ≠ some vpn →
      ((clockRemove c vpn).atHand = c.atHand ↔
        c.hand < c.pages.idxOf vpn ∨ c.pages.length = 2) := by
  have h : ClockOk c := hc ▸ ClockOp.run_ok ops
  refine ⟨?_, fun vpn hmem hne => atHand_clockRemove h hmem hne⟩
  intro pt v hev htwo
  obtain ⟨w, hw, htarget, heq, -⟩ := clockEvict_eq h (List.ne_nil_of_length_pos (by omega)) pt
  rw [heq] at hev ⊢
  obtain rfl : w = v := Option.some.inj hev
  have hlt := List.idxOf_lt_length_iff.mpr hw
  rw [ClockState.after, atHand_dropAt h hlt htwo, htarget, List.getLast?_eq_getElem?,
    ← List.getElem?_idxOf hw, List.getElem?_inj hlt h.nodup]
  omega

/-- Pages 1, 2, 3 and no referenced bit: 1 is evicted, and the hand goes to 3. -/
theorem clock_hand_skips :
    ∃ ops, ∃ pt v, (clockEvict (Runs.run ClockOp.exec {} ops) pt).1 = some v ∧
      2 ≤ (Runs.run ClockOp.exec {} ops).pages.length ∧
      (clockEvict (Runs.run ClockOp.exec {} ops) pt).2.1.atHand ≠
        (Runs.run ClockOp.exec {} ops).after v :=
  ⟨[.insert 1, .insert 2, .insert 3], fun _ => {}, 1, by decide, by decide, by decide⟩

/-- With page 1 gone, 3 is taken from the end of the array and the hand goes to 2. -/
theorem clock_hand_order_last :
    (clockEvict (Runs.run ClockOp.exec {} [.insert 1, .insert 2, .insert 3, .evict fun _ => {}])
      fun _ => {}).2.1.atHand = some 2 := by
  have h := (clock_hand_order [.insert 1, .insert 2, .insert 3, .evict fun _ => {}] _ rfl).1
    (fun _ => {}) 3 (by decide) (by decide)
  exact (h.mpr (by decide)).trans (by decide)

end Mosrt
