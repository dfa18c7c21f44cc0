/-
The pager and its replacement policy.

`PolicySpec` lists what a page access does to the policy and to the frame table:
nothing, a refresh, a frame added, or a victim's frame handed on.  A failed access for
want of memory leaves the state in which the policy was asked for a victim.

* `pagerAccessPage_policy` — every access is one of these;
* `Tracking` — the policy tracks frames in use, each once, in every state the pager
  reaches.
-/
import Mosrt.PagerOwnership
import Mosrt.Tracker

namespace Mosrt

variable {s s' : VmSys} {pid : ℤ} {vpn tick f : ℕ} {write : Bool} {res : PagerResult}
  {out : Option ℕ} {k : PageKey}

/-- The policy after it was asked for a victim. -/
def VmSys.asked (s : VmSys) (pid : ℤ) : Policy := (pagerPickVictim s pid).2.pager.policy

/-- What a page access does to the policy and to the owners of frames. -/
inductive PolicySpec (s : VmSys) (pid : ℤ) (vpn : ℕ) (write : Bool) (tick : ℕ) :
    PagerResult → Option ℕ → VmSys → Prop
  | refused {res : PagerResult} : AccessError s pid vpn write res → res ≠ .errorOom →
      PolicySpec s pid vpn write tick res none s
  | stuck : AccessError s pid vpn write .errorOom → freeFrame s.frame = none →
      PolicySpec s pid vpn write tick .errorOom none (pagerPickVictim s pid).2
  | hit {f : ℕ} {s' : VmSys} : s.paged.owner f = some (pid, vpn) →
      s'.pager.policy = s.pager.policy.update f tick → s'.paged.owner = s.paged.owner →
      PolicySpec s pid vpn write tick .hit (some f) s'
  | filled {f : ℕ} {res : PagerResult} {s' : VmSys} : res.isError = false → res ≠ .hit →
      f < vmNumFrames → s.paged.owner f = none →
      s'.pager.policy = s.pager.policy.insert f tick →
      s'.paged.owner = Function.update s.paged.owner f (some (pid, vpn)) →
      PolicySpec s pid vpn write tick res (some f) s'
  | replaced {f : ℕ} {k : PageKey} {res : PagerResult} {s' : VmSys} :
      res.isError = false → res ≠ .hit →
      freeFrame s.frame = none → s.victim pid = some (f, k) →
      s'.pager.policy = (s.asked pid).insert f tick →
      s'.paged.owner = Function.update s.paged.owner f (some (pid, vpn)) →
      PolicySpec s pid vpn write tick res (some f) s'

/-! ### The parts of an access -/

theorem pagerWriteBack_policy {e : Pte} {p : ℤ} {v : ℕ} (h : pagerWriteBack s f p v e = some s') :
    s'.pager = s.pager := by
  rw [pagerWriteBack] at h
  split at h
  · cases h
  · rw [← Option.some.inj h]
    rfl

/-- An eviction changes the policy by asking it for a victim, and nothing else of it. -/
theorem pagerEvict_policy (s : VmSys) (pid : ℤ) :
    (pagerEvict s pid).2.pager.policy = s.asked pid ∧
      ((pagerEvict s pid).1 = false → (pagerEvict s pid).2 = (pagerPickVictim s pid).2) := by
  rw [pagerEvict, VmSys.asked]
  obtain ⟨victim, s₁, hpick⟩ : ∃ victim s₁, pagerPickVictim s pid = (victim, s₁) := ⟨_, _, rfl⟩
  rw [hpick]
  dsimp only
  split
  · exact ⟨rfl, fun _ => rfl⟩
  · split
    · exact ⟨rfl, fun _ => rfl⟩
    · split
      · exact ⟨rfl, fun _ => rfl⟩
      · split_ifs
        · split
          · exact ⟨rfl, fun _ => rfl⟩
          · next hwb =>
            have hpager := pagerWriteBack_policy hwb
            exact ⟨congrArg PagerState.policy hpager, fun hfail => by cases hfail⟩
        · exact ⟨rfl, fun hfail => by cases hfail⟩

/-- The policy when the frame for a faulting page is there. -/
def VmSys.roomPolicy (s : VmSys) (pid : ℤ) : Policy :=
  if freeFrame s.frame = none then s.asked pid else s.pager.policy

theorem pagerObtainFrame_policy (hsound : s.paged.Sound) (pid : ℤ) (vpn : ℕ) :
    (pagerObtainFrame s pid vpn).2.pager.policy = s.roomPolicy pid ∧
      ((pagerObtainFrame s pid vpn).1 = none → freeFrame s.frame = none ∧
        (pagerObtainFrame s pid vpn).2 = (pagerPickVictim s pid).2) := by
  obtain ⟨hpol, hfailed⟩ := pagerEvict_policy s pid
  have hfrees := pagerEvict_frees hsound pid
  rw [pagerObtainFrame, VmSys.roomPolicy]
  obtain ⟨r, fr, halloc⟩ : ∃ r fr, frameAlloc s.frame pid vpn = (r, fr) := ⟨_, _, rfl⟩
  rw [halloc]
  cases r with
  | some f =>
    have hfree : freeFrame s.frame ≠ none := by
      intro hnone
      rw [frameAlloc, hnone] at halloc
      cases halloc
    rw [if_neg hfree]
    exact ⟨rfl, fun hfail => by cases hfail⟩
  | none =>
    obtain ⟨-, hfull⟩ := frameAlloc_none halloc
    rw [if_pos hfull]
    obtain ⟨ok, s₁, hev⟩ : ∃ ok s₁, pagerEvict s pid = (ok, s₁) := ⟨_, _, rfl⟩
    rw [hev] at hpol hfailed hfrees ⊢
    cases ok with
    | false => exact ⟨hpol, fun _ => ⟨hfull, hfailed rfl⟩⟩
    | true =>
      dsimp only at hpol hfrees ⊢
      obtain ⟨r', fr', halloc'⟩ : ∃ r' fr', frameAlloc s₁.frame pid vpn = (r', fr') := ⟨_, _, rfl⟩
      rw [halloc']
      cases r' with
      | none => exact absurd (frameAlloc_none halloc').2 (hfrees rfl)
      | some g => exact ⟨hpol, fun hfail => by cases hfail⟩

theorem pagerPageIn_policy (f : ℕ) (isMajor : Bool) :
    (pagerPageIn s pid vpn f isMajor write tick).pager.policy = s.pager.policy.insert f tick := by
  cases isMajor <;> rfl

/-- The policy after a page access, by its result. -/
theorem pagerAccessPage_result (hsound : s.paged.Sound) (pid : ℤ) (vpn : ℕ) (write : Bool)
    (tick : ℕ) :
    match pagerAccessPage s pid vpn write tick with
    | (.hit, out, s') => s'.pager.policy = s.pager.policy.update (out.getD 0) tick
    | (.faultMinor, out, s') | (.faultMajor, out, s') =>
      s'.pager.policy = (s.roomPolicy pid).insert (out.getD 0) tick
    | (.errorOom, _, s') => freeFrame s.frame = none ∧ s' = (pagerPickVictim s pid).2
    | (_, _, s') => s' = s := by
  obtain ⟨hpol, hfailed⟩ := pagerObtainFrame_policy hsound pid vpn
  rw [pagerAccessPage]
  cases s.vms pid with
  | none => rfl
  | some vm =>
    dsimp only
    generalize (if write = true then vmProtWrite else vmProtRead) = req
    by_cases hval : (!pageTableValidatePermissions vm.pt vpn req) = true
    · rw [if_pos hval]
    · rw [if_neg hval]
      by_cases hpres : (vm.pt vpn).present = true
      · rw [if_pos hpres]
        rfl
      · rw [if_neg hpres]
        obtain ⟨r, s₁, hr⟩ : ∃ r s₁, pagerObtainFrame s pid vpn = (r, s₁) := ⟨_, _, rfl⟩
        rw [hr] at hpol hfailed ⊢
        cases r with
        | none => exact hfailed rfl
        | some g =>
          dsimp only at hpol ⊢
          rw [← hpol]
          cases (vm.pt vpn).inSwap with
          | true => exact pagerPageIn_policy g true
          | false => exact pagerPageIn_policy g false

/-- When RAM is full every frame has an owner. -/
theorem owner_of_full (hfull : freeFrame s.frame = none) (hf : f < vmNumFrames) :
    (s.paged.owner f).isSome = true := by
  have hall := freeFrame_eq_none.mp hfull f hf
  simp [VmSys.paged, frameGetOwner, hf, hall]

/-- Every page access does one of these. -/
theorem pagerAccessPage_policy (hsound : s.paged.Sound) (pid : ℤ) (vpn : ℕ) (write : Bool)
    (tick : ℕ) :
    PolicySpec s pid vpn write tick (pagerAccessPage s pid vpn write tick).1
      (pagerAccessPage s pid vpn write tick).2.1 (pagerAccessPage s pid vpn write tick).2.2 := by
  have hspec := pagerAccessPage_spec hsound pid vpn write tick
  have hres := pagerAccessPage_result hsound pid vpn write tick
  obtain ⟨res, out, s', hacc⟩ : ∃ res out s',
    pagerAccessPage s pid vpn write tick = (res, out, s') := ⟨_, _, _, rfl⟩
  rw [hacc] at hspec hres ⊢
  dsimp only at hspec ⊢
  cases hspec with
  | error he _ =>
    cases he with
    | addr hvm =>
      obtain rfl : s' = s := hres
      exact .refused (.addr hvm) nofun
    | perm hp hbad =>
      obtain rfl : s' = s := hres
      exact .refused (.perm hp hbad) nofun
    | oom habs hex =>
      obtain ⟨hfull, rfl⟩ : freeFrame s.frame = none ∧ s' = _ := hres
      exact .stuck (.oom habs hex) hfull
  | hit hf _ _ hp =>
    refine .hit (hsound.frame_owned hf) hres ?_
    rw [hp]
    split_ifs <;> rfl
  | @fault f _ st _ _ _ isMajor _ _ _ _ hroom hlt hfree _ _ hp =>
    have hpol : s'.pager.policy = (s.roomPolicy pid).insert f tick := by
      cases isMajor <;> exact hres
    have hnohit : (if isMajor = true then PagerResult.faultMajor else .faultMinor).isError = false ∧
        (if isMajor = true then PagerResult.faultMajor else .faultMinor) ≠ .hit := by
      cases isMajor <;> exact ⟨rfl, nofun⟩
    rw [VmSys.roomPolicy] at hpol
    cases hroom with
    | free =>
      have hnot : freeFrame s.frame ≠ none := by
        intro hfull
        have := owner_of_full hfull hlt
        rw [hfree] at this
        cases this
      rw [if_neg hnot] at hpol
      refine .filled hnohit.1 hnohit.2 hlt hfree hpol ?_
      rw [hp]
      rfl
    | @evicted g k _ hfull hvic _ hev =>
      rw [if_pos hfull] at hpol
      -- every other frame is still in use
      have hown := hev.owner
      obtain rfl : f = g := by
        by_contra hne
        have := owner_of_full hfull hlt
        rw [hown, Function.update_of_ne hne] at hfree
        rw [hfree] at this
        cases this
      refine .replaced hnohit.1 hnohit.2 hfull hvic hpol ?_
      rw [hp]
      show Function.update st.owner f _ = _
      rw [hown, Function.update_idem]

/-! ### What is tracked -/

/-- The policy tracks frames in use, each once. -/
structure Tracking (s : VmSys) : Prop where
  ok : PolicyOk s.pager.policy
  owned : ∀ f ∈ s.pager.policy.tracked, (s.paged.owner f).isSome = true

/-- A policy with nothing to give up is left alone. -/
theorem pagerPickVictim_nil (hnil : s.pager.policy.tracked = []) (pid : ℤ) :
    pagerPickVictim s pid = (none, s) := by
  rw [pagerPickVictim]
  cases hvm : s.vms pid with
  | none => rfl
  | some vm =>
    dsimp only
    rw [Policy.evict_nil hnil vm.pt]
    refine congrArg (Prod.mk none) ?_
    have hsame : (s.vms pid).map (fun vm' : VmState => { vm' with pt := vm.pt }) = s.vms pid := by
      rw [hvm]
      rfl
    rw [VmSys.modifyVm]
    dsimp only
    rw [hsame, Function.update_eq_self]

/-- Otherwise one tracked frame is given up, and the others stay in their order. -/
theorem pagerPickVictim_cons (hok : PolicyOk s.pager.policy) (hne : s.pager.policy.tracked ≠ [])
    (pid : ℤ) (hvm : (s.vms pid).isSome) :
    ∃ f ∈ s.pager.policy.tracked, (pagerPickVictim s pid).1 = some f ∧
      (s.asked pid).tracked = s.pager.policy.tracked.erase f ∧ PolicyOk (s.asked pid) := by
  obtain ⟨vm, hvm⟩ := Option.isSome_iff_exists.mp hvm
  obtain ⟨f, hf, hpick, htracked, hok'⟩ := Policy.evict_cons hok hne vm.pt
  rw [VmSys.asked, pagerPickVictim, hvm]
  exact ⟨f, hf, hpick, htracked, hok'⟩

theorem asked_spec (hok : PolicyOk s.pager.policy) :
    PolicyOk (s.asked pid) ∧ ∀ f ∈ (s.asked pid).tracked, f ∈ s.pager.policy.tracked := by
  by_cases hnil : s.pager.policy.tracked = []
  · rw [VmSys.asked, pagerPickVictim_nil hnil]
    exact ⟨hok, fun _ hf => hf⟩
  · cases hvm : s.vms pid with
    | none =>
      rw [VmSys.asked, pagerPickVictim, hvm]
      exact ⟨hok, fun _ hf => hf⟩
    | some vm =>
      obtain ⟨g, -, -, htracked, hok'⟩ := pagerPickVictim_cons hok hnil pid (by rw [hvm]; rfl)
      refine ⟨hok', fun f hf => ?_⟩
      rw [htracked] at hf
      exact List.mem_of_mem_erase hf

theorem PolicySpec.tracking (h : PolicySpec s pid vpn write tick res out s') (ht : Tracking s) :
    Tracking s' := by
  cases h with
  | refused _ _ => exact ht
  | stuck _ _ =>
    obtain ⟨hok, hsub⟩ := asked_spec ht.ok
    refine ⟨hok, fun f hf => ?_⟩
    rw [(pagerPickVictim_spec s pid).1]
    exact ht.owned f (hsub f hf)
  | hit hown hpol howner =>
    refine ⟨by rw [hpol]; exact ht.ok.update, fun g hg => ?_⟩
    rw [hpol] at hg
    rw [howner]
    rcases mem_tracked_update hg with hg | rfl
    · exact ht.owned g hg
    · rw [hown]
      rfl
  | filled _ _ _ hfree hpol howner =>
    refine ⟨by rw [hpol]; exact ht.ok.insert, fun g hg => ?_⟩
    rw [hpol] at hg
    rw [howner, Function.update_apply]
    split_ifs with hgf
    · rfl
    · exact ht.owned g ((mem_tracked_insert hg).resolve_right hgf)
  | replaced _ _ _ _ hpol howner =>
    obtain ⟨hok, hsub⟩ := asked_spec ht.ok
    refine ⟨by rw [hpol]; exact hok.insert, fun g hg => ?_⟩
    rw [hpol] at hg
    rw [howner, Function.update_apply]
    split_ifs with hgf
    · rfl
    · exact ht.owned g (hsub g ((mem_tracked_insert hg).resolve_right hgf))

end Mosrt
