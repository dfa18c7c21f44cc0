/-
The order of the least-recently-used tracker (`replacement_lru.c`).

A page is tracked from an insertion or update on, until it is removed or evicted.  Two
numbers of the history rank it: the tick of its last insertion or update, and how long it
has been tracked.  The tracker compares the low 32 bits of the ticks only.

* `LruHistory` — what the entries say about the history, in every state reached;
* `lruEvict_least` — an eviction takes the page of least stored rank;
* `lru_order` — it is the page of least rank exactly if the cut ticks put none before it.
-/
import Mosrt.Tracker

namespace Mosrt

/-! ### Histories -/

/-- The operations of the policy, with the types of their arguments. -/
inductive LruOp where
  | insert (vpn : UInt8) (tick : UInt64)
  | update (vpn : UInt8) (tick : UInt64)
  | remove (vpn : UInt8)
  | evict

def LruOp.exec (pages : List LruEntry) : LruOp → List LruEntry
  | .insert vpn tick => lruInsert pages vpn.toNat tick.toNat
  | .update vpn tick => lruUpdate pages vpn.toNat tick.toNat
  | .remove vpn => lruRemove pages vpn.toNat
  | .evict => (lruEvict pages).2

/-- The page that an operation uses, and when. -/
def LruOp.use : LruOp → Option (ℕ × ℕ)
  | .insert vpn tick | .update vpn tick => some (vpn.toNat, tick.toNat)
  | .remove _ | .evict => none

def lruPages (ops : List LruOp) : List LruEntry := Runs.run LruOp.exec [] ops

def lruTracked (ops : List LruOp) : List ℕ := (lruPages ops).map (·.vpn)

/-- The tick of the most recent insertion or update of a page. -/
def lruTick (ops : List LruOp) (v : ℕ) : ℕ :=
  ops.foldl (fun t op => op.use.elim t fun u => if u.1 = v then u.2 else t) 0

/-- The number of operations after which a page was last not tracked. -/
def lruSince (ops : List LruOp) (v : ℕ) : ℕ :=
  Nat.findGreatest (fun n => v ∉ lruTracked (ops.take n)) ops.length

/-- Pages used earlier come first, and of pages used at one tick those tracked longer. -/
def lruRank (ops : List LruOp) (v : ℕ) : ℕ ×ₗ ℕ := toLex (lruTick ops v, lruSince ops v)

/-- The rank with the tick that an entry has room for. -/
def lruStoredRank (ops : List LruOp) (v : ℕ) : ℕ ×ₗ ℕ :=
  toLex (lruTick ops v % 2 ^ 32, lruSince ops v)

variable {ops : List LruOp} {op : LruOp} {pages : List LruEntry} {v tick : ℕ}

theorem lruPages_concat (ops : List LruOp) (op : LruOp) :
    lruPages (ops ++ [op]) = op.exec (lruPages ops) := by
  rw [lruPages, Runs.run_append, Runs.run_cons, Runs.run_nil, lruPages]

theorem lruTick_concat (ops : List LruOp) (op : LruOp) (v : ℕ) :
    lruTick (ops ++ [op]) v =
      op.use.elim (lruTick ops v) fun u => if u.1 = v then u.2 else lruTick ops v := by
  simp [lruTick]

/-- At the start nothing is tracked, so there is always such a time. -/
theorem not_tracked_since (ops : List LruOp) (v : ℕ) :
    v ∉ lruTracked (ops.take (lruSince ops v)) := by
  have hstart : v ∉ lruTracked (ops.take 0) := List.not_mem_nil
  exact Nat.findGreatest_spec (P := fun n => v ∉ lruTracked (ops.take n)) (Nat.zero_le _) hstart

theorem lruSince_le (ops : List LruOp) (v : ℕ) : lruSince ops v ≤ ops.length :=
  Nat.findGreatest_le _

theorem lruSince_lt (hv : v ∈ lruTracked ops) : lruSince ops v < ops.length := by
  have hnot := not_tracked_since ops v
  refine lt_of_le_of_ne (lruSince_le ops v) fun heq => ?_
  rw [heq, List.take_length] at hnot
  exact hnot hv

theorem lruSince_new (hv : v ∉ lruTracked ops) : lruSince ops v = ops.length := by
  refine le_antisymm (lruSince_le ops v) (Nat.le_findGreatest le_rfl ?_)
  rw [List.take_length]
  exact hv

/-- A later operation does not change since when a page is tracked that still is. -/
theorem lruSince_concat (hv : v ∈ lruTracked (ops ++ [op])) :
    lruSince (ops ++ [op]) v = lruSince ops v := by
  have hlen : (ops ++ [op]).length = ops.length + 1 := List.length_append
  have hlt := lruSince_lt hv
  have hle := lruSince_le ops v
  have hnew := not_tracked_since (ops ++ [op]) v
  have hold := not_tracked_since ops v
  rw [hlen] at hlt
  rw [List.take_append_of_le_length (by omega)] at hnew
  refine le_antisymm (Nat.le_findGreatest (by omega) hnew) (Nat.le_findGreatest (by omega) ?_)
  rw [List.take_append_of_le_length hle]
  exact hold

theorem pairwise_since_concat
    (h : (lruTracked (ops ++ [op])).Pairwise fun v w => lruSince ops v < lruSince ops w) :
    (lruTracked (ops ++ [op])).Pairwise fun v w =>
      lruSince (ops ++ [op]) v < lruSince (ops ++ [op]) w := by
  refine h.imp_of_mem fun hv hw hlt => ?_
  rwa [lruSince_concat hv, lruSince_concat hw]

/-! ### What the entries say -/

structure LruHistory (ops : List LruOp) (pages : List LruEntry) : Prop where
  nodup : (pages.map (·.vpn)).Nodup
  small : ∀ e ∈ pages, e.vpn < maxLruPages
  tick : ∀ e ∈ pages, e.lastTick = lruTick ops e.vpn % 2 ^ 32
  since : (pages.map (·.vpn)).Pairwise fun v w => lruSince ops v < lruSince ops w

/-- There are no more pages than entries. -/
theorem length_lt_of_small (hnodup : (pages.map (·.vpn)).Nodup)
    (hsmall : ∀ e ∈ pages, e.vpn < maxLruPages) (hv : v < maxLruPages)
    (hnot : v ∉ pages.map (·.vpn)) : pages.length < maxLruPages := by
  have hsub : v :: pages.map (·.vpn) ⊆ List.range maxLruPages := by
    intro w hw
    rw [List.mem_range]
    rcases List.mem_cons.mp hw with rfl | hw
    · exact hv
    · obtain ⟨e, he, rfl⟩ := List.mem_map.mp hw
      exact hsmall e he
  have hlen := (List.subperm_of_subset (List.nodup_cons.mpr ⟨hnot, hnodup⟩) hsub).length_le
  rw [List.length_cons, List.length_map, List.length_range] at hlen
  exact hlen

/-- An operation that uses no page takes entries out, or none. -/
theorem LruOp.exec_sublist (hop : op.use = none) (pages : List LruEntry) :
    (op.exec pages).Sublist pages := by
  cases op with
  | insert | update => cases hop
  | remove vpn => exact List.eraseP_sublist
  | evict =>
    cases pages with
    | nil => exact .refl _
    | cons e rest => exact List.erase_sublist

theorem LruOp.exec_use (hop : op.use = some (v, tick)) (pages : List LruEntry) :
    op.exec pages = lruUpdate pages v tick ∧ v < maxLruPages := by
  cases op with
  | insert vpn tick' | update vpn tick' =>
    cases hop
    exact ⟨rfl, vpn.toNat_lt⟩
  | remove | evict => cases hop

/-- The step without a use. -/
theorem LruHistory.drop (h : LruHistory ops (lruPages ops)) (hop : op.use = none) :
    LruHistory (ops ++ [op]) (lruPages (ops ++ [op])) := by
  have hsub := LruOp.exec_sublist hop (lruPages ops)
  rw [← lruPages_concat] at hsub
  have hmap := hsub.map (·.vpn)
  refine ⟨h.nodup.sublist hmap, fun e he => h.small e (hsub.subset he), fun e he => ?_, ?_⟩
  · rw [lruTick_concat, hop]
    exact h.tick e (hsub.subset he)
  · exact pairwise_since_concat (h.since.sublist hmap)

/-- The step with a use. -/
theorem LruHistory.use (h : LruHistory ops (lruPages ops)) (hop : op.use = some (v, tick)) :
    LruHistory (ops ++ [op]) (lruPages (ops ++ [op])) ∧ v ∈ lruTracked (ops ++ [op]) := by
  obtain ⟨hexec, hv⟩ := LruOp.exec_use hop (lruPages ops)
  have hpages := (lruPages_concat ops op).trans hexec
  have hentry : ∀ e ∈ lruPages (ops ++ [op]),
      (e.vpn = v ∧ e.lastTick = tick % 2 ^ 32) ∨ e.vpn ≠ v ∧ e ∈ lruPages ops := by
    intro e he
    rw [hpages] at he
    exact mem_lruUpdate h.nodup he
  have hsmall : ∀ e ∈ lruPages (ops ++ [op]), e.vpn < maxLruPages := by
    intro e he
    rcases hentry e he with ⟨heq, -⟩ | ⟨-, hmem⟩
    · rw [heq]
      exact hv
    · exact h.small e hmem
  have htick : ∀ e ∈ lruPages (ops ++ [op]), e.lastTick = lruTick (ops ++ [op]) e.vpn % 2 ^ 32 := by
    intro e he
    rw [lruTick_concat, hop, Option.elim_some]
    rcases hentry e he with ⟨heq, hlast⟩ | ⟨hne, hmem⟩
    · rw [if_pos heq.symm]
      exact hlast
    · rw [if_neg fun heq => hne heq.symm]
      exact h.tick e hmem
  by_cases hmem : v ∈ lruTracked ops
  · -- the entry stays where it is
    have hmap : lruTracked (ops ++ [op]) = lruTracked ops := by
      rw [lruTracked, hpages]
      exact lruUpdate_known hmem
    refine ⟨⟨?_, hsmall, htick, ?_⟩, hmap ▸ hmem⟩
    · show (lruTracked (ops ++ [op])).Nodup
      rw [hmap]
      exact h.nodup
    · refine pairwise_since_concat ?_
      rw [hmap]
      exact h.since
  · -- a new entry behind the others
    have hroom := length_lt_of_small h.nodup h.small hv hmem
    have hmap : lruTracked (ops ++ [op]) = lruTracked ops ++ [v] := by
      rw [lruTracked, hpages, lruUpdate_new hmem hroom, List.map_append]
      rfl
    have hin : v ∈ lruTracked (ops ++ [op]) := by
      rw [hmap]
      exact List.mem_append_right _ List.mem_cons_self
    refine ⟨⟨?_, hsmall, htick, ?_⟩, hin⟩
    · show (lruTracked (ops ++ [op])).Nodup
      rw [hmap]
      exact h.nodup.append (List.nodup_singleton v) (List.disjoint_singleton.mpr hmem)
    · refine pairwise_since_concat ?_
      rw [hmap, List.pairwise_append]
      refine ⟨h.since, List.pairwise_singleton _ _, fun w hw x hx => ?_⟩
      rw [List.mem_singleton.mp hx, lruSince_new hmem]
      exact lruSince_lt hw

theorem lruHistory (ops : List LruOp) : LruHistory ops (lruPages ops) := by
  induction ops using List.reverseRecOn with
  | nil => exact ⟨List.nodup_nil, nofun, nofun, List.Pairwise.nil⟩
  | append_singleton ops op ih =>
    cases hop : op.use with
    | none => exact ih.drop hop
    | some u => exact (ih.use hop).1

/-! ### Evictions -/

/-- The scan prefers earlier entries: with a number that grows along the list, the entry
chosen is least for tick and number. -/
theorem lruOldest_least {f : LruEntry → ℕ} {best : LruEntry} {rest : List LruEntry}
    (hf : (best :: rest).Pairwise fun e d => f e < f d) :
    ∀ d ∈ best :: rest, toLex ((lruOldest best rest).lastTick, f (lruOldest best rest)) ≤
      toLex (d.lastTick, f d) := by
  induction rest generalizing best with
  | nil =>
    intro d hd
    rw [List.mem_singleton.mp hd]
    exact le_rfl
  | cons c rest ih =>
    intro d hd
    obtain ⟨hbest, hrest⟩ := List.pairwise_cons.mp hf
    rw [lruOldest]
    by_cases hlt : c.lastTick < best.lastTick
    · rw [if_pos hlt]
      rcases List.mem_cons.mp hd with rfl | hd
      · have hc := ih hrest c List.mem_cons_self
        rw [Prod.Lex.toLex_le_toLex] at hc ⊢
        omega
      · exact ih hrest d hd
    · rw [if_neg hlt]
      have hkeep : (best :: rest).Pairwise fun e d => f e < f d :=
        List.pairwise_cons.mpr ⟨fun e he => hbest e (List.mem_cons_of_mem _ he), hrest.of_cons⟩
      rcases List.mem_cons.mp hd with rfl | hd
      · exact ih hkeep d List.mem_cons_self
      · rcases List.mem_cons.mp hd with rfl | hd
        · have hb := ih hkeep best List.mem_cons_self
          have hnum := hbest d List.mem_cons_self
          rw [Prod.Lex.toLex_le_toLex] at hb ⊢
          omega
        · exact ih hkeep d (List.mem_cons_of_mem _ hd)

/-- An eviction takes out the page of least stored rank. -/
theorem lruEvict_least (h : LruHistory ops pages) (hne : pages ≠ []) :
    ∃ v ∈ pages.map (·.vpn), (∀ w ∈ pages.map (·.vpn), lruStoredRank ops v ≤ lruStoredRank ops w) ∧
      lruEvict pages = (some v, pages.filter fun e => e.vpn != v) := by
  obtain ⟨best, rest, rfl⟩ := List.exists_cons_of_ne_nil hne
  have hmem := (lruOldest_spec best rest).1
  have hsince := h.since
  rw [List.pairwise_map] at hsince
  have hleast := lruOldest_least (f := fun e => lruSince ops e.vpn) hsince
  refine ⟨_, List.mem_map_of_mem hmem, ?_, ?_⟩
  · intro w hw
    obtain ⟨d, hd, rfl⟩ := List.mem_map.mp hw
    rw [lruStoredRank, lruStoredRank, ← h.tick _ hmem, ← h.tick d hd]
    exact hleast d hd
  · rw [lruEvict, h.nodup.of_map.erase_eq_filter]
    refine congrArg (Prod.mk _) (List.filter_congr fun d hd => ?_)
    have hinj : d = lruOldest best rest ↔ d.vpn = (lruOldest best rest).vpn :=
      ⟨congrArg LruEntry.vpn, fun heq => List.inj_on_of_nodup_map h.nodup hd hmem heq⟩
    rw [bne, bne, beq_eq_decide, beq_eq_decide]
    simp only [hinj]

/-- An eviction after `ops` takes the page whose most recent insertion or update is oldest,
the one tracked longest on ties, and no other; it fails only if nothing is tracked. -/
structure EvictsLeast (ops : List LruOp) : Prop where
  none : (lruEvict (lruPages ops)).1 = none → lruTracked ops = []
  some : ∀ v, (lruEvict (lruPages ops)).1 = some v → v ∈ lruTracked ops ∧
    (lruEvict (lruPages ops)).2 = (lruPages ops).filter (fun e => e.vpn != v) ∧
    ∀ w ∈ lruTracked ops, lruRank ops v ≤ lruRank ops w

/-- Two pages were not first tracked by the same operation. -/
theorem LruHistory.since_inj (h : LruHistory ops pages) {w : ℕ} (hv : v ∈ pages.map (·.vpn))
    (hw : w ∈ pages.map (·.vpn)) (heq : lruSince ops v = lruSince ops w) : v = w := by
  have hnodup : ((pages.map (·.vpn)).map (lruSince ops)).Nodup :=
    (List.pairwise_map.mpr h.since).imp ne_of_lt
  exact List.inj_on_of_nodup_map hnodup hv hw heq

/-- **The order of evictions**, after every sequence of operations.  There is room for every page
that is used.  The page evicted is the one used least recently exactly if no page gets before
that one when the ticks are cut to 32 bits. -/
theorem lru_order (ops : List LruOp) :
    (∀ op v tick, LruOp.use op = some (v, tick) → v ∈ lruTracked (ops ++ [op])) ∧
    (EvictsLeast ops ↔
      ∀ v ∈ lruTracked ops, (∀ w ∈ lruTracked ops, lruRank ops v ≤ lruRank ops w) →
        ∀ w ∈ lruTracked ops, lruStoredRank ops v ≤ lruStoredRank ops w) := by
  have h := lruHistory ops
  refine ⟨fun op v tick hop => (h.use hop).2, ?_⟩
  constructor
  · intro hleast v hv hmin w hw
    have hne : lruPages ops ≠ [] := fun hnil => by
      rw [lruTracked, hnil] at hv
      exact List.not_mem_nil hv
    obtain ⟨u, hu, hstored, hev⟩ := lruEvict_least h hne
    obtain ⟨-, -, hrank⟩ := hleast.some u (by rw [hev])
    -- both `u` and `v` are least
    have heq := le_antisymm (hmin u hu) (hrank v hv)
    rw [h.since_inj hv hu (congrArg (fun r => (ofLex r).2) heq)]
    exact hstored w hw
  · intro hcond
    by_cases hne : lruPages ops = []
    · refine ⟨fun _ => by rw [lruTracked, hne]; rfl, fun v hev => ?_⟩
      rw [hne] at hev
      cases hev
    obtain ⟨u, hu, hstored, hev⟩ := lruEvict_least h hne
    refine ⟨fun hnone => ?_, fun v hsome => ?_⟩
    · rw [hev] at hnone
      cases hnone
    · rw [hev] at hsome
      obtain rfl := Option.some.inj hsome
      refine ⟨hu, by rw [hev], ?_⟩
      obtain ⟨m, hm, hmin⟩ := Finset.exists_min_image (lruTracked ops).toFinset (lruRank ops)
        ⟨u, List.mem_toFinset.mpr hu⟩
      have hm := List.mem_toFinset.mp hm
      have hmin : ∀ w ∈ lruTracked ops, lruRank ops m ≤ lruRank ops w :=
        fun w hw => hmin w (List.mem_toFinset.mpr hw)
      have heq := le_antisymm (hcond m hm hmin u hu) (hstored m hm)
      rw [← h.since_inj hm hu (congrArg (fun r => (ofLex r).2) heq)]
      exact hmin

/-- Page 1 is used at the last tick of 32 bits and page 2 one tick later, which is stored as
`0`: page 2 is evicted. -/
theorem lru_order_wraps :
    (lruEvict (lruPages [.insert 1 (2 ^ 32 - 1), .insert 2 (2 ^ 32)])).1 = some 2 ∧
      1 ∈ lruTracked [.insert 1 (2 ^ 32 - 1), .insert 2 (2 ^ 32)] ∧
      lruRank [.insert 1 (2 ^ 32 - 1), .insert 2 (2 ^ 32)] 1 <
        lruRank [.insert 1 (2 ^ 32 - 1), .insert 2 (2 ^ 32)] 2 := by
  decide +kernel

end Mosrt
