/-
The TLB as a cache that replaces the least recently used page.

What a run of calls should leave in the cache is read off the calls: what was installed for
a page and not flushed since (`tlbInstalled`), and in which order pages were used
(`tlbUses`).  The entries know the order by their ticks, and slots of flushed entries are
filled before any page is replaced.

* `TlbHistory` — what the entries say about the calls;
* `TlbHistory.touch` — a page is used;
* `evicted_used` — when a page is replaced, sixteen others have been used since it was;
* `tlb_lru` — what lookups return after any run of calls.
-/
import Mosrt.Tlb
import Mosrt.Runs

namespace Mosrt

/-! ### Calls -/

inductive TlbOp where
  | insert (vpn pfn : ℕ) (dirty : Bool) (permissions : ℕ)
  | lookup (vpn : ℕ)
  | flushEntry (vpn : ℕ)
  | flush

/-- A call at a tick. -/
def TlbOp.exec (t : TlbState) (call : ℕ × TlbOp) : TlbState :=
  match call.2 with
  | .insert vpn pfn dirty permissions => tlbInsert t vpn pfn dirty permissions call.1
  | .lookup vpn => (tlbLookup t vpn call.1).2
  | .flushEntry vpn => tlbFlushEntry t vpn
  | .flush => tlbFlush t

/-- The page that a call inserts or finds. -/
def TlbOp.uses (t : TlbState) (call : ℕ × TlbOp) : List ℕ :=
  match call.2 with
  | .insert vpn _ _ _ => [vpn]
  | .lookup vpn => if (tlbLookup t vpn call.1).1.isSome then [vpn] else []
  | .flushEntry _ | .flush => []

/-- What a call does to the translation installed for a page. -/
def TlbOp.installs (call : ℕ × TlbOp) (inst : ℕ → Option TlbHit) : ℕ → Option TlbHit :=
  match call.2 with
  | .insert vpn pfn dirty permissions => Function.update inst vpn (some ⟨pfn, dirty, permissions⟩)
  | .lookup _ => inst
  | .flushEntry vpn => Function.update inst vpn none
  | .flush => fun _ => none

def tlbAfter (calls : List (ℕ × TlbOp)) : TlbState := Runs.run TlbOp.exec tlbInit calls

/-- What was inserted last for each page, unless it was flushed since. -/
def tlbInstalled (calls : List (ℕ × TlbOp)) : ℕ → Option TlbHit :=
  calls.foldl (fun inst call => TlbOp.installs call inst) fun _ => none

/-- The pages inserted or found, the last one first. -/
def tlbUses (calls : List (ℕ × TlbOp)) : List ℕ :=
  (Runs.history TlbOp.exec TlbOp.uses tlbInit calls).reverse

/-- The pages inserted or found since `vpn` was. -/
def usedSince (uses : List ℕ) (vpn : ℕ) : Finset ℕ := (uses.takeWhile fun v => v != vpn).toFinset

variable {calls : List (ℕ × TlbOp)} {call : ℕ × TlbOp} {t : TlbState} {uses : List ℕ}
  {vpn v w k tick : ℕ}

theorem tlbAfter_concat (calls : List (ℕ × TlbOp)) (call : ℕ × TlbOp) :
    tlbAfter (calls ++ [call]) = TlbOp.exec (tlbAfter calls) call := by
  rw [tlbAfter, Runs.run_append, Runs.run_cons, Runs.run_nil, tlbAfter]

theorem tlbInstalled_concat (calls : List (ℕ × TlbOp)) (call : ℕ × TlbOp) :
    tlbInstalled (calls ++ [call]) = TlbOp.installs call (tlbInstalled calls) := by
  simp [tlbInstalled]

theorem tlbUses_concat (calls : List (ℕ × TlbOp)) (call : ℕ × TlbOp) :
    tlbUses (calls ++ [call]) = (TlbOp.uses (tlbAfter calls) call).reverse ++ tlbUses calls := by
  simp [tlbUses, Runs.history_append, Runs.history, tlbAfter]

theorem usedSince_cons_ne (hne : w ≠ v) :
    usedSince (w :: uses) v = insert w (usedSince uses v) := by
  simp [usedSince, hne]

theorem not_mem_usedSince (uses : List ℕ) (v : ℕ) : v ∉ usedSince uses v := by
  intro hmem
  have hne := List.mem_takeWhile_imp (List.mem_toFinset.mp hmem)
  simp at hne

/-! ### What the entries say -/

/-- Page `v` is in the cache. -/
def TlbState.Holds (t : TlbState) (v : ℕ) : Prop :=
  ∃ i < vmTlbSize, (t.entries i).valid = true ∧ (t.entries i).vpn = v

structure TlbHistory (calls : List (ℕ × TlbOp)) (uses : List ℕ) (inst : ℕ → Option TlbHit)
    (t : TlbState) : Prop where
  unique : t.Unique
  agrees : t.Agrees fun v f p d => inst v = some ⟨f, d, p⟩
  ticks : ∀ i < vmTlbSize, (t.entries i).valid = true →
    ∃ call ∈ calls, call.1 = (t.entries i).lastUsedTick
  order : ∀ i < vmTlbSize, ∀ j < vmTlbSize,
    (t.entries i).valid = true → (t.entries j).valid = true →
    (t.entries i).lastUsedTick ≤ (t.entries j).lastUsedTick → i ≠ j →
    (t.entries j).vpn ∈ usedSince uses (t.entries i).vpn
  missing : ∀ v, inst v ≠ none → t.Holds v ∨ vmTlbSize ≤ (usedSince uses v).card

variable {inst inst' : ℕ → Option TlbHit} {t' : TlbState} {e : TlbEntry}

/-- Page `v` is used: slot `k` gets the tick of the call, and may have held another page. -/
theorem TlbHistory.touch (h : TlbHistory calls uses inst t)
    (hlast : ∀ c ∈ calls, c.1 < call.1) (hk : k < vmTlbSize)
    (hother : ∀ i < vmTlbSize, i ≠ k → (t.entries i).valid = true → (t.entries i).vpn ≠ v)
    (hentries : t'.entries = Function.update t.entries k e)
    (he : e.valid = true ∧ e.vpn = v ∧ e.lastUsedTick = call.1)
    (hinst : inst' v = some ⟨e.pfn, e.dirty, e.permissions⟩) (hsame : ∀ w ≠ v, inst' w = inst w)
    (hlost : (t.entries k).valid = true → (t.entries k).vpn ≠ v →
      vmTlbSize ≤ (usedSince (v :: uses) (t.entries k).vpn).card) :
    TlbHistory (calls ++ [call]) (v :: uses) inst' t' := by
  obtain ⟨hvalid, hvpn, htick⟩ := he
  have hat : t'.entries k = e := by rw [hentries, Function.update_self]
  have hoff : ∀ i, i ≠ k → t'.entries i = t.entries i := by
    intro i hi
    rw [hentries, Function.update_of_ne hi]
  refine ⟨?_, ?_, ?_, ?_, ?_⟩
  · intro i hi j hj hiv hjv heq
    by_cases hik : i = k
    · by_cases hjk : j = k
      · rw [hik, hjk]
      · rw [hoff j hjk] at hjv heq
        rw [hik, hat, hvpn] at heq
        exact absurd heq.symm (hother j hj hjk hjv)
    · rw [hoff i hik] at hiv heq
      by_cases hjk : j = k
      · rw [hjk, hat, hvpn] at heq
        exact absurd heq (hother i hi hik hiv)
      · rw [hoff j hjk] at hjv heq
        exact h.unique i hi j hj hiv hjv heq
  · intro i hi hiv
    by_cases hik : i = k
    · rw [hik, hat, hvpn]
      exact hinst
    · rw [hoff i hik] at hiv ⊢
      rw [hsame _ (hother i hi hik hiv)]
      exact h.agrees i hi hiv
  · intro i hi hiv
    by_cases hik : i = k
    · exact ⟨call, List.mem_append_right _ List.mem_cons_self, by rw [hik, hat, htick]⟩
    · rw [hoff i hik] at hiv ⊢
      obtain ⟨c, hc, hct⟩ := h.ticks i hi hiv
      exact ⟨c, List.mem_append_left _ hc, hct⟩
  · intro i hi j hj hiv hjv hle hij
    by_cases hik : i = k
    · -- nothing was used later
      have hjk : j ≠ k := fun hjk => hij (hik.trans hjk.symm)
      rw [hik, hat, htick, hoff j hjk] at hle
      rw [hoff j hjk] at hjv
      obtain ⟨c, hc, hct⟩ := h.ticks j hj hjv
      have hlt := hlast c hc
      omega
    · rw [hoff i hik] at hiv hle ⊢
      rw [usedSince_cons_ne (hother i hi hik hiv).symm, Finset.mem_insert]
      by_cases hjk : j = k
      · exact .inl (by rw [hjk, hat, hvpn])
      · rw [hoff j hjk] at hjv hle ⊢
        exact .inr (h.order i hi j hj hiv hjv hle hij)
  · intro w hw
    by_cases hwv : w = v
    · exact .inl ⟨k, hk, by rw [hat]; exact hvalid, by rw [hat, hvpn, hwv]⟩
    · rw [hsame w hwv] at hw
      rcases h.missing w hw with ⟨i, hi, hiv, hiw⟩ | hcard
      · by_cases hik : i = k
        · -- this is the page that is replaced
          rw [hik] at hiv hiw
          rw [← hiw] at hwv ⊢
          exact .inr (hlost hiv hwv)
        · exact .inl ⟨i, hi, by rw [hoff i hik]; exact ⟨hiv, hiw⟩⟩
      · refine .inr (hcard.trans ?_)
        rw [usedSince_cons_ne (Ne.symm hwv)]
        exact Finset.card_le_card (Finset.subset_insert _ _)

/-- Calls that use no page, and leave of the cache what is still installed. -/
theorem TlbHistory.drop (h : TlbHistory calls uses inst t)
    (hkeep : ∀ i < vmTlbSize, (t'.entries i).valid = true → t'.entries i = t.entries i)
    (hinst : ∀ i < vmTlbSize, (t'.entries i).valid = true →
      inst' (t.entries i).vpn = inst (t.entries i).vpn)
    (hheld : ∀ v, inst' v ≠ none → inst v ≠ none ∧ (t.Holds v → t'.Holds v)) :
    TlbHistory (calls ++ [call]) uses inst' t' := by
  have hvalid : ∀ i < vmTlbSize, (t'.entries i).valid = true → (t.entries i).valid = true := by
    intro i hi hiv
    rw [← hkeep i hi hiv]
    exact hiv
  refine ⟨?_, ?_, ?_, ?_, ?_⟩
  · intro i hi j hj hiv hjv heq
    rw [hkeep i hi hiv, hkeep j hj hjv] at heq
    exact h.unique i hi j hj (hvalid i hi hiv) (hvalid j hj hjv) heq
  · intro i hi hiv
    rw [hkeep i hi hiv, hinst i hi hiv]
    exact h.agrees i hi (hvalid i hi hiv)
  · intro i hi hiv
    obtain ⟨c, hc, hct⟩ := h.ticks i hi (hvalid i hi hiv)
    rw [hkeep i hi hiv]
    exact ⟨c, List.mem_append_left _ hc, hct⟩
  · intro i hi j hj hiv hjv hle hij
    rw [hkeep i hi hiv, hkeep j hj hjv] at hle ⊢
    exact h.order i hi j hj (hvalid i hi hiv) (hvalid j hj hjv) hle hij
  · intro v hv
    obtain ⟨hold, hstay⟩ := hheld v hv
    exact (h.missing v hold).imp_left hstay

/-! ### Replacement -/

/-- The minimum loop finds the oldest entry. -/
theorem tlbLruIdx_le (t : TlbState) {i : ℕ} (hi : i < vmTlbSize) :
    (t.entries (tlbLruIdx t)).lastUsedTick ≤ (t.entries i).lastUsedTick := by
  have key : ∀ (l : List ℕ) (acc : ℕ × ℕ), acc.2 = (t.entries acc.1).lastUsedTick →
      (t.entries (l.foldl (fun (acc : ℕ × ℕ) i =>
        if (t.entries i).lastUsedTick < acc.2 then (i, (t.entries i).lastUsedTick) else acc)
        acc).1).lastUsedTick ≤ acc.2 ∧
      ∀ i ∈ l, (t.entries (l.foldl (fun (acc : ℕ × ℕ) i =>
        if (t.entries i).lastUsedTick < acc.2 then (i, (t.entries i).lastUsedTick) else acc)
        acc).1).lastUsedTick ≤ (t.entries i).lastUsedTick := by
    intro l
    induction l with
    | nil => exact fun acc hacc => ⟨hacc.ge, nofun⟩
    | cons j l ih =>
      intro acc hacc
      rw [List.foldl_cons]
      by_cases hlt : (t.entries j).lastUsedTick < acc.2
      · rw [if_pos hlt]
        obtain ⟨hle, hall⟩ := ih (j, (t.entries j).lastUsedTick) rfl
        exact ⟨hle.trans hlt.le, List.forall_mem_cons.mpr ⟨hle, hall⟩⟩
      · rw [if_neg hlt]
        obtain ⟨hle, hall⟩ := ih acc hacc
        exact ⟨hle, List.forall_mem_cons.mpr ⟨hle.trans (not_lt.mp hlt), hall⟩⟩
  obtain ⟨hle, hall⟩ := key (List.range' 1 (vmTlbSize - 1)) (0, (t.entries 0).lastUsedTick) rfl
  by_cases h0 : i = 0
  · rw [h0]
    exact hle
  · refine hall i (List.mem_range'_1.mpr ⟨?_, ?_⟩) <;> omega

/-- When the cache is full of other pages, all of them and the new page have been used since
the oldest was. -/
theorem evicted_used (h : TlbHistory calls uses inst t) (hnone : tlbIndex t v = none)
    (hfull : ∀ i < vmTlbSize, (t.entries i).valid = true) :
    vmTlbSize ≤ (usedSince (v :: uses) (t.entries (tlbLruIdx t)).vpn).card := by
  have hk := tlbLruIdx_lt t
  have hne : ∀ i < vmTlbSize, (t.entries i).vpn ≠ v :=
    fun i hi => tlbIndex_eq_none hnone hi (hfull i hi)
  -- the pages of the other slots
  obtain ⟨others, hothers⟩ : ∃ others : Finset ℕ, others =
      ((Finset.range vmTlbSize).erase (tlbLruIdx t)).image fun i => (t.entries i).vpn := ⟨_, rfl⟩
  have hcard : others.card = vmTlbSize - 1 := by
    rw [hothers, Finset.card_image_of_injOn, Finset.card_erase_of_mem (Finset.mem_range.mpr hk),
      Finset.card_range]
    intro i hi j hj heq
    have hi := Finset.mem_range.mp (Finset.mem_of_mem_erase hi)
    have hj := Finset.mem_range.mp (Finset.mem_of_mem_erase hj)
    exact h.unique i hi j hj (hfull i hi) (hfull j hj) heq
  have hnew : v ∉ others := by
    rw [hothers]
    intro hmem
    obtain ⟨i, hi, heq⟩ := Finset.mem_image.mp hmem
    exact hne i (Finset.mem_range.mp (Finset.mem_of_mem_erase hi)) heq
  have hsub : insert v others ⊆ usedSince (v :: uses) (t.entries (tlbLruIdx t)).vpn := by
    rw [usedSince_cons_ne (hne _ hk).symm, hothers]
    refine Finset.insert_subset_insert v fun w hw => ?_
    obtain ⟨i, hi, rfl⟩ := Finset.mem_image.mp hw
    obtain ⟨hik, hi⟩ := Finset.mem_erase.mp hi
    have hi := Finset.mem_range.mp hi
    exact h.order _ hk i hi (hfull _ hk) (hfull i hi) (tlbLruIdx_le t hi) (Ne.symm hik)
  have hle := Finset.card_le_card hsub
  rw [Finset.card_insert_of_notMem hnew, hcard] at hle
  exact hle

/-- A slot that held another page is that of the oldest entry of a full cache. -/
theorem tlbVictim_full (hvalid : (t.entries (tlbVictim t v)).valid = true)
    (hne : (t.entries (tlbVictim t v)).vpn ≠ v) :
    tlbVictim t v = tlbLruIdx t ∧ tlbIndex t v = none ∧
      ∀ i < vmTlbSize, (t.entries i).valid = true := by
  rw [tlbVictim] at hvalid hne ⊢
  cases hidx : tlbIndex t v with
  | some i =>
    rw [hidx] at hne
    exact absurd (tlbIndex_eq_some hidx).2.2 hne
  | none =>
    rw [hidx] at hvalid
    cases hfree : (List.range vmTlbSize).find? fun i => !(t.entries i).valid with
    | some i =>
      rw [hfree] at hvalid
      have hinvalid := List.find?_some hfree
      dsimp only at hvalid
      rw [hvalid] at hinvalid
      cases hinvalid
    | none =>
      refine ⟨rfl, rfl, fun i hi => ?_⟩
      have := List.find?_eq_none.mp hfree i (List.mem_range.mpr hi)
      simpa using this

/-! ### Runs -/

/-- The ticks of the calls grow, and fit the field of an entry. -/
def TicksGrow (calls : List (ℕ × TlbOp)) : Prop :=
  calls.Pairwise (fun a b => a.1 < b.1) ∧ ∀ call ∈ calls, call.1 < 2 ^ 32

theorem TlbHistory.insert (h : TlbHistory calls uses inst t) (hlast : ∀ c ∈ calls, c.1 < tick)
    (htick : tick < 2 ^ 32) (vpn pfn : ℕ) (dirty : Bool) (permissions : ℕ) :
    TlbHistory (calls ++ [(tick, .insert vpn pfn dirty permissions)]) (vpn :: uses)
      (Function.update inst vpn (some ⟨pfn, dirty, permissions⟩))
      (tlbInsert t vpn pfn dirty permissions tick) := by
  refine h.touch hlast (tlbVictim_lt t vpn)
    (fun i hi hik hiv => vpn_ne_of_ne_tlbVictim h.unique hi hik hiv) rfl
    ⟨rfl, rfl, Nat.mod_eq_of_lt htick⟩ (Function.update_self ..)
    (fun w hw => Function.update_of_ne hw ..) fun hvalid hne => ?_
  obtain ⟨hlru, hnone, hfull⟩ := tlbVictim_full hvalid hne
  rw [hlru]
  exact evicted_used h hnone hfull

theorem TlbHistory.lookup (h : TlbHistory calls uses inst t) (hlast : ∀ c ∈ calls, c.1 < tick)
    (htick : tick < 2 ^ 32) (vpn : ℕ) :
    TlbHistory (calls ++ [(tick, .lookup vpn)])
      ((TlbOp.uses t (tick, .lookup vpn)).reverse ++ uses) inst (tlbLookup t vpn tick).2 := by
  cases hidx : tlbIndex t vpn with
  | none =>
    have hmiss : tlbLookup t vpn tick = (none, { t with misses := incr32 t.misses }) := by
      rw [tlbLookup, hidx]
    have huses : TlbOp.uses t (tick, .lookup vpn) = [] := by simp [TlbOp.uses, hmiss]
    rw [huses, hmiss]
    exact h.drop (fun _ _ _ => rfl) (fun _ _ _ => rfl) fun _ hv => ⟨hv, id⟩
  | some k =>
    obtain ⟨hk, hkv, hkvpn⟩ := tlbIndex_eq_some hidx
    have huses : TlbOp.uses t (tick, .lookup vpn) = [vpn] := by
      simp [TlbOp.uses, tlbLookup, hidx]
    have hentries : (tlbLookup t vpn tick).2.entries = Function.update t.entries k
        { t.entries k with lastUsedTick := tick % 2 ^ 32 } := by
      rw [tlbLookup, hidx]
    rw [huses]
    refine h.touch hlast hk (fun i hi hik hiv heq => hik ?_) hentries
      ⟨hkv, hkvpn, Nat.mod_eq_of_lt htick⟩ ?_ (fun _ _ => rfl) fun _ hne => absurd hkvpn hne
    · exact h.unique i hi k hk hiv hkv (heq.trans hkvpn.symm)
    · rw [← hkvpn]
      exact h.agrees k hk hkv

theorem TlbHistory.flushEntry (h : TlbHistory calls uses inst t) (vpn : ℕ) :
    TlbHistory (calls ++ [(tick, .flushEntry vpn)]) uses (Function.update inst vpn none)
      (tlbFlushEntry t vpn) := by
  refine h.drop (fun i hi hiv => (tlbFlushEntry_valid hi hiv).1) (fun i hi hiv => ?_) fun v hv => ?_
  · exact Function.update_of_ne (tlbFlushEntry_valid hi hiv).2.2 _ _
  · have hne : v ≠ vpn := by
      rintro rfl
      exact hv (Function.update_self ..)
    rw [Function.update_of_ne hne] at hv
    refine ⟨hv, ?_⟩
    rintro ⟨i, hi, hiv, hiw⟩
    have hstay : (tlbFlushEntry t vpn).entries i = t.entries i :=
      if_neg fun hc => hne (hiw.symm.trans hc.2.2)
    exact ⟨i, hi, by rw [hstay]; exact ⟨hiv, hiw⟩⟩

theorem TlbHistory.flush (h : TlbHistory calls uses inst t) :
    TlbHistory (calls ++ [(tick, .flush)]) uses (fun _ => none) (tlbFlush t) := by
  have hnone : ∀ i < vmTlbSize, ¬ ((tlbFlush t).entries i).valid = true := by
    intro i hi
    rw [tlbFlush_not_valid hi]
    exact nofun
  exact h.drop (fun i hi hiv => absurd hiv (hnone i hi)) (fun i hi hiv => absurd hiv (hnone i hi))
    fun _ hv => absurd rfl hv

theorem tlbHistory (hticks : TicksGrow calls) :
    TlbHistory calls (tlbUses calls) (tlbInstalled calls) (tlbAfter calls) := by
  induction calls using List.reverseRecOn with
  | nil =>
    refine ⟨?_, ?_, ?_, ?_, fun v hv => absurd rfl hv⟩
    all_goals exact fun i _ => nofun
  | append_singleton calls call ih =>
    obtain ⟨hgrow, hsmall⟩ := hticks
    obtain ⟨hbefore, -, hlast⟩ := List.pairwise_append.mp hgrow
    have hlast : ∀ c ∈ calls, c.1 < call.1 := fun c hc => hlast c hc call List.mem_cons_self
    have htick := hsmall call (List.mem_append_right _ List.mem_cons_self)
    have h := ih ⟨hbefore, fun c hc => hsmall c (List.mem_append_left _ hc)⟩
    rw [tlbAfter_concat, tlbInstalled_concat, tlbUses_concat]
    obtain ⟨tick, op⟩ := call
    cases op with
    | insert vpn pfn dirty permissions => exact h.insert hlast htick vpn pfn dirty permissions
    | lookup vpn => exact h.lookup hlast htick vpn
    | flushEntry vpn => exact h.flushEntry vpn
    | flush => exact h.flush

/-- **The TLB is an LRU cache.**  After every run of calls at growing ticks no page is held
twice; a lookup that hits returns what was inserted last for the page, and does not hit if that
was flushed; and a lookup of a page that is installed misses only if sixteen other pages were
inserted or found since the page was. -/
theorem tlb_lru (calls : List (ℕ × TlbOp)) (hticks : TicksGrow calls) :
    (tlbAfter calls).Unique ∧
      (∀ vpn tick r, (tlbLookup (tlbAfter calls) vpn tick).1 = some r →
        tlbInstalled calls vpn = some r) ∧
      ∀ vpn tick, tlbInstalled calls vpn ≠ none →
        (tlbLookup (tlbAfter calls) vpn tick).1 = none →
          vpn ∉ usedSince (tlbUses calls) vpn ∧
            16 ≤ (usedSince (tlbUses calls) vpn).card := by
  have h := tlbHistory hticks
  refine ⟨h.unique, fun vpn tick r hr => h.agrees.hit hr, fun vpn tick hinst hmiss => ?_⟩
  refine ⟨not_mem_usedSince _ _, (h.missing vpn hinst).resolve_left ?_⟩
  rintro ⟨i, hi, hiv, hiw⟩
  rw [tlbLookup] at hmiss
  cases hidx : tlbIndex (tlbAfter calls) vpn with
  | none => exact tlbIndex_eq_none hidx hi hiv hiw
  | some k =>
    rw [hidx] at hmiss
    cases hmiss

/-- Seventeen pages, one after the other. -/
def seventeenInserts : List (ℕ × TlbOp) :=
  (List.range 17).map fun n => (n, .insert n n false 0)

/-- The first of them is gone, and the sixteen others are why. -/
theorem tlb_lru_seventeen : 16 ≤ (usedSince (tlbUses seventeenInserts) 0).card :=
  ((tlb_lru seventeenInserts ⟨by decide, by decide⟩).2.2 0 17 (by decide +kernel)
    (by decide +kernel)).2

end Mosrt
