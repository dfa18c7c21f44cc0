/-
Second chances under the clock policy.

The policy tracks frames, and the sweep of `clock_evict` reads and clears the referenced
bits of the *faulting* process's pages whose numbers are these frame numbers.  What the
policy is for is said of the owners: `ownersPassed` are the frames a sweep over the
owners' bits passes, with their owners, and `ownersVictim` is the frame it takes.

* `ownerSweep_take`, `ownerSweep_nodup` — a sweep passes frames from the hand on, and
  clears each owner's bit once;
* `pagerEvict_referenced` — the bits after an eviction;
* `clock_second_chance` — the evictions that do what the sweep over the owners does.
-/
import Mosrt.Eviction

namespace Mosrt

variable {s s' : VmSys} {pid : ℤ} {f : ℕ} {k : PageKey} {c : ClockState}

/-- The referenced bit of a page. -/
def VmSys.referenced (s : VmSys) (k : PageKey) : Bool :=
  ((s.pte k.1 k.2).map (·.referenced)).getD false

/-! ### The sweep over the owners -/

section Sweep

variable {owner : ℕ → Option PageKey} {bits : PageKey → Bool} {ring : List ℕ}

/-- The frames that are passed, with their owners: those before the first whose owner's bit is
not set, each bit being cleared as its frame is passed. -/
def ownerSweep (owner : ℕ → Option PageKey) (bits : PageKey → Bool) : List ℕ → List (ℕ × PageKey)
  | [] => []
  | f :: ring =>
    match owner f with
    | none => []
    | some k =>
      if bits k then (f, k) :: ownerSweep owner (Function.update bits k false) ring else []

/-- The frames passed are the first of the ring. -/
theorem ownerSweep_take :
    (ownerSweep owner bits ring).map Prod.fst = ring.take (ownerSweep owner bits ring).length := by
  induction ring generalizing bits with
  | nil => rfl
  | cons f ring ih =>
    rw [ownerSweep]
    split
    · rfl
    · split_ifs
      · rw [List.map_cons, List.length_cons, List.take_succ_cons, ih]
      · rfl

theorem ownerSweep_referenced {x : ℕ × PageKey} (hx : x ∈ ownerSweep owner bits ring) :
    owner x.1 = some x.2 ∧ bits x.2 = true := by
  induction ring generalizing bits with
  | nil => cases hx
  | cons f ring ih =>
    rw [ownerSweep] at hx
    split at hx
    · cases hx
    · next k hk =>
      split_ifs at hx with hbit
      · rcases List.mem_cons.mp hx with rfl | hx
        · exact ⟨hk, hbit⟩
        · obtain ⟨hown, hbits⟩ := ih hx
          refine ⟨hown, ?_⟩
          rw [Function.update_apply] at hbits
          split_ifs at hbits
          exact hbits
      · cases hx

/-- No owner is passed twice: its bit is cleared the first time. -/
theorem ownerSweep_nodup : ((ownerSweep owner bits ring).map Prod.snd).Nodup := by
  induction ring generalizing bits with
  | nil => exact List.nodup_nil
  | cons f ring ih =>
    rw [ownerSweep]
    split
    · exact List.nodup_nil
    · next k hk =>
      split_ifs
      · refine List.nodup_cons.mpr ⟨?_, ih⟩
        intro hmem
        obtain ⟨x, hx, rfl⟩ := List.mem_map.mp hmem
        have hbits := (ownerSweep_referenced hx).2
        rw [Function.update_self] at hbits
        cases hbits
      · exact List.nodup_nil

end Sweep

/-- The frames that a sweep from the hand passes, with their owners. -/
def ownersPassed (s : VmSys) (c : ClockState) : List (ℕ × PageKey) :=
  ownerSweep (frameGetOwner s.frame) s.referenced c.ring

/-- The frame it takes: the one behind those it passes, or, after a whole round, the first. -/
def ownersVictim (s : VmSys) (c : ClockState) : Option ℕ :=
  (c.ring.drop (ownersPassed s c).length).head?.or c.ring.head?

/-! ### The eviction -/

theorem referenced_modifyPte {v : ℕ} {g : Pte → Pte} {p : ℤ}
    (hg : ∀ e, (g e).referenced = e.referenced) :
    (s.modifyPte p v g).referenced = s.referenced := by
  funext k
  rw [VmSys.referenced, VmSys.referenced, modifyPte_pte]
  split_ifs with hk
  · rw [hk.1, hk.2]
    cases s.pte p v with
    | none => rfl
    | some e => simp [hg]
  · rfl

/-- Once the victim is picked, no referenced bit changes. -/
theorem pagerEvict_picked (s : VmSys) (pid : ℤ) :
    (pagerEvict s pid).2.referenced = (pagerPickVictim s pid).2.referenced := by
  have hunmap : ∀ (s : VmSys) f p v, (pagerUnmap s f p v).referenced = s.referenced := by
    intro s f p v
    exact referenced_modifyPte (s := s) (g := fun e => { e with present := false, dirty := false })
      fun _ => rfl
  rw [pagerEvict]
  obtain ⟨victim, s₁, hpick⟩ : ∃ victim s₁, pagerPickVictim s pid = (victim, s₁) := ⟨_, _, rfl⟩
  rw [hpick]
  dsimp only
  split
  · rfl
  · split
    · rfl
    · split
      · rfl
      · split_ifs
        · split
          · rfl
          · next hwb =>
            rw [hunmap]
            rw [pagerWriteBack] at hwb
            split at hwb
            · cases hwb
            · rw [← Option.some.inj hwb]
              exact referenced_modifyPte fun _ => rfl
        · exact hunmap _ _ _ _

/-- The victim and the bits after it was picked. -/
theorem pagerPickVictim_clock (hok : ClockOk c) (hc : s.pager.policy = .clock c)
    (hne : c.pages ≠ []) (hvm : (s.vms pid).isSome = true) :
    (pagerPickVictim s pid).1 = c.target (fun f => s.referenced (pid, f)) ∧
      ∀ k, (pagerPickVictim s pid).2.referenced k =
        if k ∈ (c.passed fun f => s.referenced (pid, f)).map (Prod.mk pid) then false
        else s.referenced k := by
  obtain ⟨vm, hvm⟩ := Option.isSome_iff_exists.mp hvm
  have hbits : (fun f => s.referenced (pid, f)) = fun f => (vm.pt f).referenced := by
    funext f
    simp [VmSys.referenced, VmSys.pte, hvm]
  obtain ⟨v, -, htarget, heq, -⟩ := clockEvict_eq hok hne vm.pt
  rw [hbits, pagerPickVictim, hvm, hc]
  dsimp only [Policy.evict]
  rw [heq]
  refine ⟨htarget.symm, ?_⟩
  rintro ⟨p, w⟩
  rw [VmSys.referenced, modifyVm_pte]
  dsimp only
  by_cases hp : p = pid
  · subst hp
    rw [if_pos rfl, hvm, Option.map_some, Option.map_some, Option.getD_some, clearReferenced]
    have hmem : (p, w) ∈ (c.passed fun f => (vm.pt f).referenced).map (Prod.mk p) ↔
        w ∈ c.passed fun f => (vm.pt f).referenced := by
      simp
    simp only [hmem]
    split_ifs
    · rfl
    · simp [VmSys.referenced, VmSys.pte, hvm]
  · rw [if_neg hp, if_neg]
    · rfl
    · intro hmem
      obtain ⟨_, -, heq⟩ := List.mem_map.mp hmem
      exact hp (Prod.mk.inj heq).1.symm

/-! ### Both sweeps -/

/-- The page taken by a sweep, by what it passes. -/
theorem target_eq (c : ClockState) (ref : ℕ → Bool) :
    c.target ref = (c.ring.drop (c.passed ref).length).head?.or c.ring.head? := by
  have hdrop : c.ring.drop (c.passed ref).length = c.ring.dropWhile ref := by
    have hsplit : c.passed ref ++ c.ring.dropWhile ref = c.ring := List.takeWhile_append_dropWhile
    conv_lhs => rw [← hsplit]
    exact List.drop_left
  rw [ClockState.target, hdrop, ← List.find?_not_eq_head?_dropWhile]

section Agree

variable {ring : List ℕ} {bits : PageKey → Bool} {passed : List (ℕ × PageKey)}

/-- If the pages of `pid` with the numbers of the frames passed are their owners, and the page
with the number of the next frame is not referenced, both sweeps pass the same frames. -/
theorem sweep_alike (htake : passed.map Prod.fst = ring.take passed.length)
    (href : ∀ x ∈ passed, bits x.2 = true)
    (hsame : ∀ k, k ∈ passed.map Prod.snd ↔ k ∈ (passed.map Prod.fst).map (Prod.mk pid))
    (hnext : ∀ v, (ring.drop passed.length).head? = some v → bits (pid, v) = false) :
    (ring.takeWhile fun f => bits (pid, f)) = passed.map Prod.fst := by
  have hall : ∀ f ∈ ring.take passed.length, bits (pid, f) = true := by
    intro f hf
    rw [← htake] at hf
    have hmem := (hsame (pid, f)).mpr (List.mem_map_of_mem hf)
    obtain ⟨x, hx, heq⟩ := List.mem_map.mp hmem
    rw [← heq]
    exact href x hx
  have hstop : (ring.drop passed.length).takeWhile (fun f => bits (pid, f)) = [] := by
    cases hrest : ring.drop passed.length with
    | nil => rfl
    | cons v rest =>
      have hv : bits (pid, v) = false := hnext v (by rw [hrest]; rfl)
      rw [List.takeWhile_cons_of_neg (by simp [hv])]
  conv_lhs => rw [← List.take_append_drop passed.length ring]
  rw [List.takeWhile_append_of_pos hall, hstop, List.append_nil, htake]

/-- Both sweeps clear the same bits exactly in this case. -/
theorem sweeps_agree (pid : ℤ) (hn : ring.Nodup)
    (htake : passed.map Prod.fst = ring.take passed.length)
    (hkeys : (passed.map Prod.snd).Nodup) (href : ∀ x ∈ passed, bits x.2 = true) :
    (∀ k, (if k ∈ passed.map Prod.snd then false else bits k) =
      if k ∈ (ring.takeWhile fun f => bits (pid, f)).map (Prod.mk pid) then false else bits k) ↔
    (∀ k, k ∈ passed.map Prod.snd ↔ k ∈ (passed.map Prod.fst).map (Prod.mk pid)) ∧
      ∀ v, (ring.drop passed.length).head? = some v → bits (pid, v) = false := by
  obtain ⟨own, hown⟩ : ∃ own, (ring.takeWhile fun f => bits (pid, f)) = own := ⟨_, rfl⟩
  rw [hown]
  have hownRef : ∀ f ∈ own, bits (pid, f) = true := by
    intro f hf
    rw [← hown] at hf
    exact List.mem_takeWhile_imp (p := fun f => bits (pid, f)) hf
  have hownTake : own = ring.take own.length := by
    have hpre : own <+: ring := by
      rw [← hown]
      exact List.takeWhile_prefix _
    exact (List.prefix_iff_eq_take.mp hpre)
  have hdrop : ring.drop own.length = ring.dropWhile fun f => bits (pid, f) := by
    have hsplit : own ++ (ring.dropWhile fun f => bits (pid, f)) = ring := by
      rw [← hown]
      exact List.takeWhile_append_dropWhile
    conv_lhs => rw [← hsplit]
    exact List.drop_left
  constructor
  · intro hbits
    -- every bit that one sweep clears was set, so the other clears it too
    have hsame : ∀ k, k ∈ passed.map Prod.snd ↔ k ∈ own.map (Prod.mk pid) := by
      intro k
      have hk := hbits k
      constructor
      · intro hmem
        obtain ⟨x, hx, rfl⟩ := List.mem_map.mp hmem
        by_contra hnot
        rw [if_pos hmem, if_neg hnot, href x hx] at hk
        cases hk
      · intro hmem
        obtain ⟨f, hf, rfl⟩ := List.mem_map.mp hmem
        by_contra hnot
        rw [if_neg hnot, if_pos hmem, hownRef f hf] at hk
        cases hk
    have hownNodup : (own.map (Prod.mk pid)).Nodup := by
      refine List.Nodup.map (fun a b hab => (Prod.mk.inj hab).2) ?_
      rw [hownTake]
      exact hn.sublist (List.take_sublist _ _)
    have hlen : passed.length = own.length := by
      have hperm := (List.perm_ext_iff_of_nodup hkeys hownNodup).mpr hsame
      have := hperm.length_eq
      rwa [List.length_map, List.length_map] at this
    have heq : passed.map Prod.fst = own := by
      rw [htake, hlen]
      exact hownTake.symm
    refine ⟨by rw [heq]; exact hsame, ?_⟩
    intro v hv
    rw [hlen, hdrop] at hv
    have := List.head?_dropWhile_not (fun f => bits (pid, f)) ring
    rw [hv] at this
    exact this
  · rintro ⟨hsame, hnext⟩
    have heq : own = passed.map Prod.fst := hown.symm.trans (sweep_alike htake href hsame hnext)
    intro k
    rw [heq]
    simp only [hsame k]

end Agree

/-- **Second chances.**  In every state that is reached under the clock policy, an eviction for
`pid` takes the first frame from the hand whose owner's page is not referenced, and clears the
bits of the owners passed over and no others, exactly if the pages of `pid` that have the
numbers of the frames passed over are their owners, and the page of `pid` that has the number
of the frame behind them is not referenced. -/
theorem clock_second_chance (hs : MemSteps vmInit s) (hc : s.pager.policy = .clock c) (pid : ℤ)
    (hev : (pagerEvict s pid).1 = true) :
    ((pagerPickVictim s pid).1 = ownersVictim s c ∧
      ∀ k, (pagerEvict s pid).2.referenced k =
        if k ∈ (ownersPassed s c).map Prod.snd then false else s.referenced k) ↔
    (∀ k, k ∈ (ownersPassed s c).map Prod.snd ↔
        k ∈ ((ownersPassed s c).map Prod.fst).map (Prod.mk pid)) ∧
      ∀ v, (c.ring.drop (ownersPassed s c).length).head? = some v →
        s.referenced (pid, v) = false := by
  have hok : ClockOk c := by
    have := hs.tracked.tracking.ok
    rw [hc] at this
    exact this
  have hne : c.pages ≠ [] := by
    intro hnil
    have htracked : s.pager.policy.tracked = [] := by
      rw [hc]
      exact hnil
    rw [pagerEvict, pagerPickVictim_nil htracked] at hev
    cases hev
  have hvm : (s.vms pid).isSome = true := by
    cases hvm : s.vms pid with
    | none =>
      rw [pagerEvict, pagerPickVictim, hvm] at hev
      cases hev
    | some vm => rfl
  obtain ⟨hvictim, hbits⟩ := pagerPickVictim_clock hok hc hne hvm
  have htake : (ownersPassed s c).map Prod.fst = c.ring.take (ownersPassed s c).length :=
    ownerSweep_take
  have href : ∀ x ∈ ownersPassed s c, s.referenced x.2 = true :=
    fun x hx => (ownerSweep_referenced hx).2
  have hagree := sweeps_agree pid hok.nodup_ring htake ownerSweep_nodup href
  rw [pagerEvict_picked]
  constructor
  · rintro ⟨-, hafter⟩
    refine hagree.mp fun k => ?_
    rw [← hafter k, hbits k]
    rfl
  · intro hcond
    refine ⟨?_, fun k => ?_⟩
    · have hlen : (c.passed fun f => s.referenced (pid, f)).length = (ownersPassed s c).length := by
        have halike := sweep_alike htake href hcond.1 hcond.2
        rw [ClockState.passed, halike, List.length_map]
      rw [hvictim, target_eq, hlen, ownersVictim]
    · rw [hbits k, hagree.mpr hcond k]
      rfl

/-- Process 1 reads 64 pages, from page `first` on, under the clock policy. -/
def fillClock (first : ℕ) : List PagerOp :=
  [.create 1, .create 2, .setPolicy "clock"] ++
    (List.range 64).map fun i => .access 1 (first + i) false i

set_option maxRecDepth 100000 in
/-- Pages 32 to 95 of process 1 are in frames 0 to 63, and all are referenced.  An eviction
for process 2, which has not used any page, clears no bit: page 32, whose frame the sweep over
the owners passes, is still referenced. -/
theorem clock_reads_other_table :
    ∃ s c, MemSteps vmInit s ∧ s.pager.policy = .clock c ∧ (pagerEvict s 2).1 = true ∧
      (1, 32) ∈ (ownersPassed s c).map Prod.snd ∧
      (pagerEvict s 2).2.referenced (1, 32) = true := by
  refine ⟨Runs.run PagerOp.exec vmInit (fillClock 32), ⟨List.range 64, 0⟩,
    PagerOp.run_steps _, ?_⟩
  decide +kernel

set_option maxRecDepth 100000 in
/-- Pages 0 to 63 of process 1 are in the frames of the same numbers. -/
theorem clock_second_chance_identity :
    (pagerPickVictim (Runs.run PagerOp.exec vmInit (fillClock 0)) 1).1 =
      ownersVictim (Runs.run PagerOp.exec vmInit (fillClock 0)) ⟨List.range 64, 0⟩ := by
  have hrun :
      let s := Runs.run PagerOp.exec vmInit (fillClock 0)
      s.pager.policy = .clock ⟨List.range 64, 0⟩ ∧ (pagerEvict s 1).1 = true ∧
        ownersPassed s ⟨List.range 64, 0⟩ = (List.range 64).map fun f => (f, 1, f) := by
    decide +kernel
  obtain ⟨hpol, hev, hpassed⟩ := hrun
  refine ((clock_second_chance (PagerOp.run_steps _) hpol 1 hev).mpr ⟨?_, ?_⟩).1
  · intro k
    rw [hpassed, List.map_map, List.map_map, List.map_map]
    rfl
  · intro v hv
    rw [hpassed] at hv
    cases hv

end Mosrt
