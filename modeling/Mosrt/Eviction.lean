/-
Evictions and the accesses that fail for want of memory.

The policy is asked for a victim before it is known whether the victim can be written
back.  If it cannot, the access fails and the victim is tracked no more.

* `MemStep.tracking` — in every state that is reached the policy tracks frames in use,
  each once;
* `failed_access_unchanged` — which failed accesses leave the state as it was;
* `full_memory_loses_victim` — RAM and swap can be filled until a victim is lost.
-/
import Mosrt.TrackerRuns
import Mosrt.MemSteps

namespace Mosrt

variable {s s' : VmSys} {pid : ℤ} {vpn tick f : ℕ} {write : Bool} {k : PageKey}

/-! ### Tracking in every state -/

/-- What is needed of a state to speak of its policy. -/
structure Tracked (s : VmSys) : Prop where
  sound : s.paged.Sound
  tracking : Tracking s

theorem tracking_setPolicy (h : Tracking s) (name : String) :
    Tracking (pagerSetPolicy s name).2 := by
  rw [pagerSetPolicy]
  cases hname : Policy.ofName name with
  | none => exact h
  | some pol =>
    obtain ⟨hnil, hok⟩ := Policy.ofName_fresh hname
    obtain ⟨htracked, hok'⟩ := policyReinsert_spec s.frame hnil hok
    refine ⟨hok', ?_⟩
    intro g hg
    -- every frame taken up again is in use
    have hg' : g ∈ allocatedBelow s.frame vmNumFrames := by
      rw [← htracked]
      exact hg
    exact (List.mem_filter.mp hg').2

theorem MemStep.tracking (h : MemStep s s') (ht : Tracked s) : Tracked s' := by
  refine ⟨h.sound ht.sound, ?_⟩
  cases h with
  | spawn pid =>
    have hpager : (vmSpawn s pid).pager = s.pager := by
      rw [vmSpawn]
      split_ifs <;> rfl
    refine ⟨?_, ?_⟩
    · rw [hpager]
      exact ht.tracking.ok
    · rw [hpager, vmSpawn_paged]
      exact ht.tracking.owned
  | access pid vpn write tick =>
    exact (pagerAccessPage_policy ht.sound pid vpn write tick).tracking ht.tracking
  | setPolicy name => exact tracking_setPolicy ht.tracking name
  | grow pid vm _ _ => exact ⟨ht.tracking.ok, ht.tracking.owned⟩
  | soft hsoft =>
    have howner : s'.paged.owner = s.paged.owner := hsoft.owner
    refine ⟨?_, ?_⟩
    · rw [hsoft.pager]
      exact ht.tracking.ok
    · rw [hsoft.pager, howner]
      exact ht.tracking.owned

theorem vmInit_tracked : Tracked vmInit :=
  ⟨vmInit_exact.toSound, ⟨vmInit_inStep.tracks.ok, nofun⟩⟩

theorem MemSteps.tracked (h : MemSteps vmInit s) : Tracked s :=
  MemSteps.invariant (fun _ _ hstep => hstep.tracking) h vmInit_tracked

/-! ### Failed accesses -/

/-- An access that fails for want of memory loses a frame if there was one to lose. -/
theorem lost_of_oom (ht : Tracked s) (hoom : (pagerAccessPage s pid vpn write tick).1 = .errorOom)
    (hne : s.pager.policy.tracked ≠ []) :
    ∃ f ∈ s.pager.policy.tracked,
      f ∉ (pagerAccessPage s pid vpn write tick).2.2.pager.policy.tracked := by
  have hvm := (permitted_of_oom hoom).isSome
  have hres := pagerAccessPage_result ht.sound pid vpn write tick
  obtain ⟨res, out, s', hacc⟩ : ∃ res out s',
    pagerAccessPage s pid vpn write tick = (res, out, s') := ⟨_, _, _, rfl⟩
  rw [hacc] at hres hoom ⊢
  obtain rfl : res = .errorOom := hoom
  obtain ⟨-, rfl⟩ : freeFrame s.frame = none ∧ s' = (pagerPickVictim s pid).2 := hres
  obtain ⟨f, hf, -, htracked, -⟩ := pagerPickVictim_cons ht.tracking.ok hne pid hvm
  refine ⟨f, hf, ?_⟩
  show f ∉ (s.asked pid).tracked
  rw [htracked]
  exact ht.tracking.ok.nodup.not_mem_erase

theorem PagerOp.exec_steps (s : VmSys) (op : PagerOp) : MemSteps s (op.exec s) := by
  cases op with
  | create pid => exact MemStep.steps (.spawn pid)
  | access pid vpn write tick => exact MemStep.steps (.access pid vpn write tick)
  | setPolicy name => exact MemStep.steps (.setPolicy name)

theorem PagerOp.run_steps (ops : List PagerOp) :
    MemSteps vmInit (Runs.run PagerOp.exec vmInit ops) :=
  Runs.run_invariant (I := MemSteps vmInit) (fun s op hs _ => hs.trans (PagerOp.exec_steps s op))
    Relation.ReflTransGen.refl (Runs.along_true _ _)

/-- **Failed accesses.**  In every state that is reached, an access that fails leaves the
whole state as it was exactly if it was not permitted or the policy had no frame to give
up; otherwise some frame that could be evicted before the call cannot be evicted after it. -/
theorem failed_access_unchanged (hs : MemSteps vmInit s) (pid : ℤ) (vpn : ℕ) (write : Bool)
    (tick : ℕ) (hfail : (pagerAccessPage s pid vpn write tick).1.isError = true) :
    ((pagerAccessPage s pid vpn write tick).2.2 = s ↔
      ¬ (Permitted s pid vpn write ∧ s.pager.policy.tracked ≠ [])) ∧
    (Permitted s pid vpn write ∧ s.pager.policy.tracked ≠ [] →
      ∃ f ∈ s.pager.policy.tracked,
        f ∉ (pagerAccessPage s pid vpn write tick).2.2.pager.policy.tracked) := by
  have ht := hs.tracked
  have hspec := pagerAccessPage_policy ht.sound pid vpn write tick
  have hperm : (pagerAccessPage s pid vpn write tick).1 = .errorOom → Permitted s pid vpn write :=
    permitted_of_oom
  obtain ⟨res, out, s', hacc⟩ : ∃ res out s',
    pagerAccessPage s pid vpn write tick = (res, out, s') := ⟨_, _, _, rfl⟩
  rw [hacc] at hspec hfail hperm ⊢
  dsimp only at hspec hfail hperm ⊢
  cases hspec with
  | refused he hne =>
    have hnot := he.not_permitted hne
    exact ⟨⟨fun _ hand => hnot hand.1, fun _ => rfl⟩, fun hand => absurd hand.1 hnot⟩
  | stuck _ _ =>
    have hok := hperm rfl
    -- the state is the one in which the policy was asked
    have hlost : Permitted s pid vpn write ∧ s.pager.policy.tracked ≠ [] →
        ∃ f ∈ s.pager.policy.tracked, f ∉ (pagerPickVictim s pid).2.pager.policy.tracked := by
      intro hand
      have hlost := lost_of_oom ht (by rw [hacc]) hand.2
      rw [hacc] at hlost
      exact hlost
    refine ⟨⟨?_, ?_⟩, hlost⟩
    · intro heq hand
      obtain ⟨f, hf, hnot⟩ := hlost hand
      rw [heq] at hnot
      exact hnot hf
    · intro hnot
      have hnil : s.pager.policy.tracked = [] := by
        by_contra hne
        exact hnot ⟨hok, hne⟩
      rw [pagerPickVictim_nil hnil]
  | hit _ _ _ => cases hfail
  | filled herr _ _ _ _ _ =>
    rw [herr] at hfail
    cases hfail
  | replaced herr _ _ _ _ _ =>
    rw [herr] at hfail
    cases hfail

set_option maxRecDepth 100000 in
/-- A write to a read-only page is refused; every frame stays tracked. -/
theorem failed_access_unchanged_text :
    let s := Runs.run PagerOp.exec vmInit fillRun
    s.pager.policy.tracked.length = vmNumFrames ∧ (pagerAccessPage s 1 0 true 64).2.2 = s := by
  refine ⟨by decide +kernel, ?_⟩
  have hperm : (Runs.run PagerOp.exec vmInit fillRun).perms 1 0 = some 5 := by decide +kernel
  refine (failed_access_unchanged (PagerOp.run_steps fillRun) 1 0 true 64
    (by decide +kernel)).1.mpr fun hand => ?_
  obtain ⟨perm, hperm', hok⟩ := hand.1
  rw [hperm] at hperm'
  cases hperm'
  exact absurd hok (by decide)

/-! ### Filling memory -/

/-- What was written stays in RAM or in swap while pages are only written. -/
theorem AccessSpec.saved {res : PagerResult} {out : Option ℕ}
    (h : AccessSpec s pid vpn true tick res out s') :
    (s.paged.Saved k → s'.paged.Saved k) ∧ (res.isError = false → s'.paged.Saved (pid, vpn)) := by
  cases h with
  | error he hsame =>
    rw [hsame.paged, he.isError]
    exact ⟨id, nofun⟩
  | hit hf _ _ hp =>
    rw [hp, if_pos rfl]
    refine ⟨fun hk => hk.markDirty, fun _ => .inl ⟨?_, PagedStore.markDirty_dirty_self⟩⟩
    rw [PagedStore.markDirty_frame, hf]
    rfl
  | fault _ _ _ hroom _ _ _ _ hp =>
    rw [hp]
    refine ⟨fun hk => ?_, fun _ => PagedStore.saved_load _ _⟩
    cases hroom with
    | free => exact hk.load _ _
    | evicted _ _ _ hev => exact (hk.evicted hev).load _ _

/-- Write to each of the pages. -/
def writeOps (ks : List PageKey) : List PagerOp := ks.map fun k => .access k.1 k.2 true 0

/-- As long as memory lasts, all that was written is somewhere. -/
theorem writeOps_saved (ks : List PageKey) (he : s.paged.Exact)
    (hperm : ∀ k ∈ ks, Permitted s k.1 k.2 true)
    (hno : Runs.Along PagerOp.exec (fun s op => op.NoOom s) s (writeOps ks)) :
    (Runs.run PagerOp.exec s (writeOps ks)).paged.Exact ∧
      ∀ k, k ∈ ks ∨ s.paged.Saved k → (Runs.run PagerOp.exec s (writeOps ks)).paged.Saved k := by
  induction ks generalizing s with
  | nil => exact ⟨he, fun k hk => hk.resolve_left List.not_mem_nil⟩
  | cons j ks ih =>
    have hspec := pagerAccessPage_spec he.toSound j.1 j.2 true 0
    have hok := ((pagerAccessPage_policy he.toSound j.1 j.2 true 0).gets_frame
      (hperm j List.mem_cons_self) hno.1).1
    have hperms := hspec.perms
    obtain ⟨hexact, hrest⟩ := ih (s := (pagerAccessPage s j.1 j.2 true 0).2.2) (hspec.exact he)
      (fun k hk => by
        rw [Permitted, hperms]
        exact hperm k (List.mem_cons_of_mem _ hk))
      hno.2
    refine ⟨hexact, fun k hk => hrest k ?_⟩
    rcases hk with hk | hk
    · rcases List.mem_cons.mp hk with rfl | hk
      · exact .inr (hspec.saved (k := k).2 hok)
      · exact .inl hk
    · exact .inr (hspec.saved.1 hk)

/-- RAM and swap hold 320 pages. -/
theorem writeOps_length_le (ks : List PageKey) (hn : ks.Nodup) (he : s.paged.Exact)
    (hperm : ∀ k ∈ ks, Permitted s k.1 k.2 true)
    (hno : Runs.Along PagerOp.exec (fun s op => op.NoOom s) s (writeOps ks)) :
    ks.length ≤ 320 := by
  obtain ⟨hexact, hsaved⟩ := writeOps_saved ks he hperm hno
  have hcard := hexact.toSound.card_saved_le (Finset.range vmNumFrames)
    (Finset.range vmNumSwapSlots)
    (fun f k hown => Finset.mem_range.mpr (frameGetOwner_lt hown))
    (fun sl k hown => Finset.mem_range.mpr (swapGetOwner_lt hown)) ks.toFinset
    (fun k hk => hsaved k (.inl (List.mem_toFinset.mp hk)))
  rw [List.toFinset_card_of_nodup hn, Finset.card_range, Finset.card_range] at hcard
  exact hcard

/-- 322 writable pages of two processes. -/
def manyPages : List PageKey := (List.range 322).map fun i => (1 + (i / 161 : ℕ), 32 + i % 161)

theorem manyPages_nodup : manyPages.Nodup := by
  refine List.Nodup.map_on ?_ List.nodup_range
  intro i hi j hj heq
  obtain ⟨h1, h2⟩ := Prod.mk.inj heq
  omega

theorem manyPages_permitted (hk : k ∈ manyPages) :
    Permitted (vmSpawn (vmSpawn vmInit 1) 2) k.1 k.2 true := by
  obtain ⟨i, hi, rfl⟩ := List.mem_map.mp hk
  have hi : i < 322 := List.mem_range.mp hi
  -- a new address space has the default permissions
  have hperms : ∀ p : ℤ, p = 1 ∨ p = 2 → ∀ v, (vmSpawn (vmSpawn vmInit 1) 2).perms p v =
      some (pageTableGetSegmentDefaultPermissions v) := by
    rintro p (rfl | rfl) v <;> simp [vmSpawn, vmInit, VmSys.perms, VmSys.pte, vmProcInit,
      pageTableInit]
  refine ⟨_, hperms _ ?_ _, (writable_iff _).mpr ?_⟩
  · show (1 : ℤ) + (i / 161 : ℕ) = 1 ∨ (1 : ℤ) + (i / 161 : ℕ) = 2
    omega
  · exact Nat.le_add_right 32 _

/-- Two processes write to 322 different pages.  The first access that finds RAM and swap full
fails, and the frame that the policy picked for it is tracked no more. -/
theorem full_memory_loses_victim :
    ∃ (ops : List PagerOp) (pid : ℤ) (vpn : ℕ) (write : Bool) (tick : ℕ), ∃ s s' : VmSys,
      s = Runs.run PagerOp.exec vmInit ops ∧
      s' = (pagerAccessPage s pid vpn write tick).2.2 ∧
      (pagerAccessPage s pid vpn write tick).1 = .errorOom ∧
      ∃ f ∈ s.pager.policy.tracked, f ∉ s'.pager.policy.tracked := by
  have hfails : ¬ Runs.Along PagerOp.exec (fun s op => op.NoOom s) vmInit
      ([.create 1, .create 2] ++ writeOps manyPages) := by
    intro hno
    have hexact := (PagerOp.run_invariant [.create 1, .create 2]).1
    have hlen := writeOps_length_le manyPages manyPages_nodup hexact
      (fun k hk => manyPages_permitted hk) (Runs.along_append.mp hno).2
    simp [manyPages] at hlen
  obtain ⟨ops, op, -, -, hbefore, hfirst⟩ := (Runs.along_or_first vmInit _).resolve_left hfails
  have hstep : InStep (Runs.run PagerOp.exec vmInit ops) _ :=
    Runs.run_history (I := InStep) (fun _ _ op h hop => h.exec op hop) vmInit_inStep hbefore
  cases op with
  | create pid => exact absurd trivial hfirst
  | setPolicy name => exact absurd trivial hfirst
  | access pid vpn write tick =>
    have hoom : (pagerAccessPage (Runs.run PagerOp.exec vmInit ops) pid vpn write tick).1 =
        .errorOom := not_not.mp hfirst
    refine ⟨ops, pid, vpn, write, tick, _, _, rfl, rfl, hoom, ?_⟩
    have hspec := pagerAccessPage_policy hstep.paged.toSound pid vpn write tick
    rw [hoom] at hspec
    obtain ⟨hfull, -⟩ := hspec.of_oom
    -- until now every frame is tracked
    have hzero := (hstep.tracks.exact 0).mpr (owner_of_full hfull (by decide))
    exact lost_of_oom (PagerOp.run_steps ops).tracked hoom (List.ne_nil_of_mem hzero)

end Mosrt
