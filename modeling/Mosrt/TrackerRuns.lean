/-
The tracker matches RAM as long as memory does not run out.

Under `TracksAll` the policy tracks the frames in use and no others, each once.  A page
access that does not fail for want of memory keeps it, and moves the frame it maps to the
end of what is tracked (`PolicySpec.tracked`).  `LoadEvent` records which frames were
mapped since the policy was selected, and `loadTime` orders the frames by it.

* `TracksAll.access`, `TracksAll.setPolicy` — one step;
* `tracker_matches_ram` — every run without a failure for want of memory: what is tracked,
  that a permitted access gets a frame before swap is full, and that fifo gives up the frame
  whose page was mapped first.
-/
import Mosrt.PagerPolicy

namespace Mosrt

variable {s s' : VmSys} {pid : ℤ} {vpn tick f : ℕ} {write : Bool} {res : PagerResult}
  {out : Option ℕ} {k : PageKey}

/-- The policy tracks exactly the frames in use, each once. -/
structure TracksAll (s : VmSys) : Prop where
  ok : PolicyOk s.pager.policy
  exact : ∀ f, f ∈ s.pager.policy.tracked ↔ (s.paged.owner f).isSome = true

theorem owner_lt (h : (s.paged.owner f).isSome = true) : f < vmNumFrames := by
  obtain ⟨k, hk⟩ := Option.isSome_iff_exists.mp h
  exact frameGetOwner_lt hk

theorem TracksAll.not_mem (h : TracksAll s) (hf : s.paged.owner f = none) :
    f ∉ s.pager.policy.tracked := by
  intro hmem
  have := (h.exact f).mp hmem
  rw [hf] at this
  cases this

/-- Distinct frames without `f` are fewer than there are. -/
theorem length_lt_of_not_mem {l : List ℕ} (hn : l.Nodup) (hlt : ∀ g ∈ l, g < vmNumFrames)
    (hf : f < vmNumFrames) (hnot : f ∉ l) : l.length < vmNumFrames := by
  have hsub : (f :: l).toFinset ⊆ Finset.range vmNumFrames := by
    intro g hg
    rw [List.mem_toFinset, List.mem_cons] at hg
    rcases hg with rfl | hg
    · exact Finset.mem_range.mpr hf
    · exact Finset.mem_range.mpr (hlt g hg)
  have hcard := Finset.card_le_card hsub
  rw [List.toFinset_card_of_nodup (List.nodup_cons.mpr ⟨hnot, hn⟩), Finset.card_range,
    List.length_cons] at hcard
  omega

theorem TracksAll.victim (h : TracksAll s) (hvm : (s.vms pid).isSome)
    (hfull : freeFrame s.frame = none) :
    ∃ f k, s.victim pid = some (f, k) ∧ s.paged.owner f = some k ∧ f ∈ s.pager.policy.tracked ∧
      (s.asked pid).tracked = s.pager.policy.tracked.erase f ∧ PolicyOk (s.asked pid) := by
  have hne : s.pager.policy.tracked ≠ [] := by
    have hzero : (0 : ℕ) < vmNumFrames := by decide
    exact List.ne_nil_of_mem ((h.exact 0).mpr (owner_of_full hfull hzero))
  obtain ⟨f, hf, hpick, htracked, hok⟩ := pagerPickVictim_cons h.ok hne pid hvm
  obtain ⟨k, hk⟩ := Option.isSome_iff_exists.mp ((h.exact f).mp hf)
  refine ⟨f, k, ?_, hk, hf, htracked, hok⟩
  have hk' : frameGetOwner s.frame f = some k := hk
  rw [VmSys.victim, hpick, Option.bind_some, hk']
  rfl

/-- The frames tracked after an access: a frame just mapped is the last. -/
theorem PolicySpec.tracked (h : PolicySpec s pid vpn write tick res out s') (ht : TracksAll s)
    (hvm : (s.vms pid).isSome) (hres : res ≠ .errorOom) :
    PolicyOk s'.pager.policy ∧
      ((s'.paged.owner = s.paged.owner ∧ s'.pager.policy.tracked = s.pager.policy.tracked ∧
          (res.isError = true ∨ res = .hit)) ∨
        ∃ f, out = some f ∧ (res.isError = false ∧ res ≠ .hit) ∧ f < vmNumFrames ∧
          s'.paged.owner = Function.update s.paged.owner f (some (pid, vpn)) ∧
          s'.pager.policy.tracked = s.pager.policy.tracked.erase f ++ [f]) := by
  cases h with
  | refused he _ => exact ⟨ht.ok, .inl ⟨rfl, rfl, .inl he.isError⟩⟩
  | stuck _ _ => exact absurd rfl hres
  | hit hown hpol howner =>
    have hmem : _ ∈ s.pager.policy.tracked := (ht.exact _).mpr (by rw [hown]; rfl)
    rw [hpol, tracked_update hmem]
    exact ⟨ht.ok.update, .inl ⟨howner, rfl, .inr rfl⟩⟩
  | @filled f _ _ herr hhit hlt hfree hpol howner =>
    have hnot := ht.not_mem hfree
    have hlen := length_lt_of_not_mem ht.ok.nodup
      (fun g hg => owner_lt ((ht.exact g).mp hg)) hlt hnot
    have herase : s.pager.policy.tracked.erase f = s.pager.policy.tracked :=
      List.erase_of_not_mem hnot
    rw [hpol, tracked_insert hnot hlen]
    exact ⟨ht.ok.insert, .inr ⟨f, rfl, ⟨herr, hhit⟩, hlt, howner, by rw [herase]⟩⟩
  | @replaced f k _ _ herr hhit hfull hvic hpol howner =>
    obtain ⟨g, k', hvic', hown, hmem, htracked, hok⟩ := ht.victim hvm hfull
    obtain ⟨rfl, rfl⟩ : g = f ∧ k' = k := Prod.mk.inj (Option.some.inj (hvic'.symm.trans hvic))
    have hlt := owner_lt ((ht.exact g).mp hmem)
    have hnot : g ∉ (s.asked pid).tracked := by
      rw [htracked]
      exact ht.ok.nodup.not_mem_erase
    have hlen : (s.asked pid).tracked.length < vmNumFrames := by
      refine length_lt_of_not_mem hok.nodup (fun j hj => ?_) hlt hnot
      rw [htracked] at hj
      exact owner_lt ((ht.exact j).mp (List.mem_of_mem_erase hj))
    rw [hpol, tracked_insert hnot hlen, htracked]
    exact ⟨hok.insert, .inr ⟨g, rfl, ⟨herr, hhit⟩, hlt, howner, rfl⟩⟩

theorem TracksAll.access (ht : TracksAll s) (h : PolicySpec s pid vpn write tick res out s')
    (hvm : (s.vms pid).isSome) (hres : res ≠ .errorOom) : TracksAll s' := by
  obtain ⟨hok, ⟨howner, htracked, -⟩ | ⟨f, -, -, -, howner, htracked⟩⟩ := h.tracked ht hvm hres
  · exact ⟨hok, fun g => by rw [howner, htracked]; exact ht.exact g⟩
  · refine ⟨hok, fun g => ?_⟩
    rw [howner, htracked, Function.update_apply, List.mem_append, List.mem_singleton,
      ht.ok.nodup.mem_erase_iff]
    by_cases hg : g = f
    · simp [hg]
    · simp [hg, ht.exact g]

theorem tracksAll_setPolicy (ht : TracksAll s) (name : String) :
    TracksAll (pagerSetPolicy s name).2 := by
  rw [pagerSetPolicy]
  cases hname : Policy.ofName name with
  | none => exact ht
  | some pol =>
    obtain ⟨hnil, hok⟩ := Policy.ofName_fresh hname
    obtain ⟨htracked, hok'⟩ := policyReinsert_spec s.frame hnil hok
    refine ⟨hok', fun f => ?_⟩
    show f ∈ (policyReinsert s.frame pol).tracked ↔ _
    rw [htracked, allocatedBelow, List.mem_filter, List.mem_range]
    exact ⟨fun h => h.2, fun h => ⟨owner_lt h, h⟩⟩

/-! ### Load times -/

/-- What happens to the contents of frames: the policy is selected, a page is mapped. -/
inductive LoadEvent where
  | selected
  | mapped (f : ℕ)

/-- When the page in each frame was mapped, and the time of the next mapping. -/
structure LoadTimes where
  time : ℕ → ℕ
  next : ℕ

/-- A selection forgets the times: what is in RAM then counts as mapped in the order of the
frame numbers. -/
def LoadTimes.step (l : LoadTimes) : LoadEvent → LoadTimes
  | .selected => { time := id, next := vmNumFrames }
  | .mapped f => { time := Function.update l.time f l.next, next := l.next + 1 }

def loadTimes (log : List LoadEvent) : LoadTimes :=
  log.foldl LoadTimes.step { time := id, next := vmNumFrames }

/-- When the current page of a frame was mapped, by the events so far. -/
def loadTime (log : List LoadEvent) (f : ℕ) : ℕ := (loadTimes log).time f

/-- The events of an operation. -/
def PagerOp.loads (s : VmSys) : PagerOp → List LoadEvent
  | .create _ => []
  | .access pid vpn write tick =>
    match pagerAccessPage s pid vpn write tick with
    | (.faultMinor, some f, _) | (.faultMajor, some f, _) => [.mapped f]
    | _ => []
  | .setPolicy name => if (Policy.ofName name).isSome then [.selected] else []

/-- What is tracked was mapped before now, under fifo in the order of the queue. -/
structure InLoadOrder (l : LoadTimes) (pol : Policy) : Prop where
  before : ∀ f ∈ pol.tracked, l.time f < l.next
  ordered : pol.isFifo = true → pol.tracked.Pairwise fun f g => l.time f < l.time g

variable {l : LoadTimes} {pol pol' : Policy}

theorem InLoadOrder.mapped (h : InLoadOrder l pol) (hn : pol.tracked.Nodup)
    (htracked : pol'.tracked = pol.tracked.erase f ++ [f]) (hkind : pol'.isFifo = pol.isFifo) :
    InLoadOrder (l.step (.mapped f)) pol' where
  before := by
    intro g hg
    show Function.update l.time f l.next g < l.next + 1
    rw [Function.update_apply]
    rw [htracked, List.mem_append, List.mem_singleton] at hg
    split_ifs with hgf
    · omega
    · exact Nat.lt_succ_of_lt (h.before g (List.mem_of_mem_erase (hg.resolve_right hgf)))
  ordered := by
    intro hfifo
    -- the frames before keep their times, and the new one is later than all of them
    have hsame : ∀ g ∈ pol.tracked.erase f, (l.step (.mapped f)).time g = l.time g := by
      intro g hg
      have hgf : g ≠ f := by
        rintro rfl
        exact hn.not_mem_erase hg
      exact Function.update_of_ne hgf _ _
    rw [htracked, List.pairwise_append]
    refine ⟨?_, List.pairwise_singleton _ _, ?_⟩
    · refine List.Pairwise.imp_of_mem ?_ ((h.ordered (hkind ▸ hfifo)).sublist List.erase_sublist)
      intro a b ha hb hab
      rw [hsame a ha, hsame b hb]
      exact hab
    · intro a ha b hb
      obtain rfl := List.mem_singleton.mp hb
      rw [hsame a ha]
      show l.time a < Function.update l.time b l.next b
      rw [Function.update_self]
      exact h.before a (List.mem_of_mem_erase ha)

theorem InLoadOrder.selected (l : LoadTimes) {fr : FrameState}
    (htracked : pol.tracked = allocatedBelow fr vmNumFrames) :
    InLoadOrder (l.step .selected) pol where
  before := by
    intro f hf
    rw [htracked, allocatedBelow, List.mem_filter, List.mem_range] at hf
    exact hf.1
  ordered := by
    intro _
    rw [htracked]
    exact List.pairwise_lt_range.sublist List.filter_sublist

theorem InLoadOrder.same (h : InLoadOrder l pol) (htracked : pol'.tracked = pol.tracked)
    (hkind : pol'.isFifo = pol.isFifo) : InLoadOrder l pol' where
  before := by
    rw [htracked]
    exact h.before
  ordered := by
    rw [htracked, hkind]
    exact h.ordered

theorem PolicySpec.isFifo (h : PolicySpec s pid vpn write tick res out s') :
    s'.pager.policy.isFifo = s.pager.policy.isFifo := by
  have hasked : (s.asked pid).isFifo = s.pager.policy.isFifo := by
    rw [VmSys.asked, pagerPickVictim]
    cases s.vms pid with
    | none => rfl
    | some vm => exact isFifo_evict
  cases h with
  | refused _ _ => rfl
  | stuck _ _ => exact hasked
  | hit _ hpol _ => rw [hpol, isFifo_update]
  | filled _ _ _ _ hpol _ => rw [hpol, isFifo_insert]
  | replaced _ _ _ _ hpol _ => rw [hpol, isFifo_insert, hasked]

/-! ### Runs -/

/-- The operation is not a page access that fails for want of memory. -/
def PagerOp.NoOom (s : VmSys) : PagerOp → Prop
  | .access pid vpn write tick => (pagerAccessPage s pid vpn write tick).1 ≠ .errorOom
  | _ => True

instance (s : VmSys) (op : PagerOp) : Decidable (op.NoOom s) := by
  cases op <;> unfold PagerOp.NoOom <;> infer_instance

theorem loadTimes_append (log : List LoadEvent) (ev : LoadEvent) :
    loadTimes (log ++ [ev]) = (loadTimes log).step ev := by
  rw [loadTimes, List.foldl_append]
  rfl

/-- The invariant of a run, with the events so far. -/
structure InStep (s : VmSys) (log : List LoadEvent) : Prop where
  paged : s.paged.Exact
  tracks : TracksAll s
  order : InLoadOrder (loadTimes log) s.pager.policy

theorem InStep.access {log : List LoadEvent} (h : InStep s log)
    (hno : (pagerAccessPage s pid vpn write tick).1 ≠ .errorOom) :
    InStep (pagerAccessPage s pid vpn write tick).2.2
      (log ++ PagerOp.loads s (.access pid vpn write tick)) := by
  have hspec := pagerAccessPage_policy h.paged.toSound pid vpn write tick
  have hexact := (pagerAccessPage_spec h.paged.toSound pid vpn write tick).exact h.paged
  cases hvm : s.vms pid with
  | none =>
    have hacc : pagerAccessPage s pid vpn write tick = (.errorAddr, none, s) := by
      rw [pagerAccessPage, hvm]
    rw [PagerOp.loads, hacc, List.append_nil]
    exact h
  | some vm =>
    have hsome : (s.vms pid).isSome := by
      rw [hvm]
      rfl
    have htracks := h.tracks.access hspec hsome hno
    have hkind := hspec.isFifo
    obtain ⟨-, htracked⟩ := hspec.tracked h.tracks hsome hno
    rw [PagerOp.loads]
    obtain ⟨res, out, s', hacc⟩ : ∃ res out s',
      pagerAccessPage s pid vpn write tick = (res, out, s') := ⟨_, _, _, rfl⟩
    rw [hacc] at htracked hexact htracks hkind ⊢
    dsimp only at htracked hexact htracks hkind ⊢
    rcases htracked with ⟨-, hsame, hres⟩ | ⟨f, rfl, ⟨herr, hhit⟩, -, -, hmapped⟩
    · have hquiet : ∀ log' : List LoadEvent, log' = [] → InStep s' (log ++ log') := by
        rintro _ rfl
        rw [List.append_nil]
        exact ⟨hexact, htracks, h.order.same hsame hkind⟩
      refine hquiet _ ?_
      cases res with
      | faultMinor => simp [PagerResult.isError] at hres
      | faultMajor => simp [PagerResult.isError] at hres
      | _ => rfl
    · have hload : InStep s' (log ++ [.mapped f]) := by
        refine ⟨hexact, htracks, ?_⟩
        rw [loadTimes_append]
        exact h.order.mapped h.tracks.ok.nodup hmapped hkind
      cases res with
      | faultMinor => exact hload
      | faultMajor => exact hload
      | hit => exact absurd rfl hhit
      | _ => cases herr

theorem InStep.exec {log : List LoadEvent} (h : InStep s log) (op : PagerOp) (hop : op.NoOom s) :
    InStep (op.exec s) (log ++ op.loads s) := by
  cases op with
  | create pid =>
    have hpaged := vmSpawn_paged s pid
    have hpager : (vmSpawn s pid).pager = s.pager := by
      rw [vmSpawn]
      split_ifs <;> rfl
    rw [PagerOp.loads, List.append_nil]
    refine ⟨?_, ⟨?_, ?_⟩, ?_⟩
    · rw [PagerOp.exec, hpaged]
      exact h.paged
    · rw [PagerOp.exec, hpager]
      exact h.tracks.ok
    · rw [PagerOp.exec, hpager, hpaged]
      exact h.tracks.exact
    · rw [PagerOp.exec, hpager]
      exact h.order
  | access pid vpn write tick => exact h.access hop
  | setPolicy name =>
    have htracks := tracksAll_setPolicy h.tracks name
    have hpaged := pagerSetPolicy_paged s name
    refine ⟨by rw [PagerOp.exec, hpaged]; exact h.paged, htracks, ?_⟩
    rw [PagerOp.exec, PagerOp.loads, pagerSetPolicy]
    cases hname : Policy.ofName name with
    | none =>
      rw [Option.isSome_none, if_neg Bool.false_ne_true, List.append_nil]
      exact h.order
    | some pol =>
      obtain ⟨hnil, hok⟩ := Policy.ofName_fresh hname
      rw [Option.isSome_some, if_pos rfl, loadTimes_append]
      exact .selected _ (policyReinsert_spec s.frame hnil hok).1

theorem vmInit_inStep : InStep vmInit [] := by
  refine ⟨vmInit_exact, ⟨List.nodup_nil, fun f => ?_⟩, ⟨nofun, fun _ => .nil⟩⟩
  simp [vmInit, Policy.tracked, VmSys.paged, frameInit, frameGetOwner]

/-- An access fails for want of memory only when swap is full. -/
theorem TracksAll.swap_full (ht : TracksAll s) (he : s.paged.Exact) (hvm : (s.vms pid).isSome)
    (hex : s.exhausted pid = true) : freeSlot s.swap = none := by
  rw [VmSys.exhausted, Bool.and_eq_true, Option.isNone_iff_eq_none] at hex
  obtain ⟨f, k, hvic, hown, -⟩ := ht.victim hvm hex.1
  obtain ⟨e, hpte, -⟩ := entry_frame_iff.mp (he.owner_claims hown)
  have hlast := hex.2
  rw [hvic] at hlast
  dsimp only at hlast
  rw [hpte] at hlast
  simp only [Bool.and_eq_true, Option.isNone_iff_eq_none] at hlast
  exact hlast.2

theorem PolicySpec.of_oom (h : PolicySpec s pid vpn write tick .errorOom out s') :
    freeFrame s.frame = none ∧ s.exhausted pid = true ∧
      (s.paged.entry (pid, vpn)).frame = none := by
  cases h with
  | refused _ hne => exact absurd rfl hne
  | stuck he hfull =>
    cases he with
    | oom habs hex => exact ⟨hfull, hex, habs⟩
  | filled herr _ _ _ _ _ => cases herr
  | replaced herr _ _ _ _ _ => cases herr

/-- The page exists and its permissions allow the access. -/
def Permitted (s : VmSys) (pid : ℤ) (vpn : ℕ) (write : Bool) : Prop :=
  ∃ perm, s.perms pid vpn = some perm ∧ perm &&& reqPerm write = reqPerm write

theorem Permitted.isSome (h : Permitted s pid vpn write) : (s.vms pid).isSome = true := by
  obtain ⟨perm, hperm, -⟩ := h
  cases hvm : s.vms pid with
  | none => simp [VmSys.perms, VmSys.pte, hvm] at hperm
  | some vm => simp

/-- Memory can only run out for an access that is permitted. -/
theorem permitted_of_oom (h : (pagerAccessPage s pid vpn write tick).1 = .errorOom) :
    Permitted s pid vpn write := by
  rw [pagerAccessPage] at h
  cases hvm : s.vms pid with
  | none => simp [hvm] at h
  | some vm =>
    simp only [hvm] at h
    by_cases hval : pageTableValidatePermissions vm.pt vpn (reqPerm write) = true
    · refine ⟨(vm.pt vpn).permissions, by simp [VmSys.perms, VmSys.pte, hvm], ?_⟩
      simpa [pageTableValidatePermissions] using hval
    · rw [reqPerm] at hval
      simp [hval] at h

theorem AccessError.not_permitted {res : PagerResult} (h : AccessError s pid vpn write res)
    (hres : res ≠ .errorOom) : ¬ Permitted s pid vpn write := by
  rintro ⟨perm, hperm, hok⟩
  cases h with
  | addr hvm => simp [VmSys.perms, VmSys.pte, hvm] at hperm
  | perm hperm' hbad =>
    rw [hperm', Option.some_inj] at hperm
    rw [hperm] at hbad
    exact hbad hok
  | oom _ _ => exact hres rfl

/-- A permitted access that does not fail for want of memory gets a frame. -/
theorem PolicySpec.gets_frame (h : PolicySpec s pid vpn write tick res out s')
    (hperm : Permitted s pid vpn write) (hno : res ≠ .errorOom) :
    res.isError = false ∧ ∃ f, out = some f ∧ s'.paged.owner f = some (pid, vpn) := by
  cases h with
  | refused he _ => exact absurd hperm (he.not_permitted hno)
  | stuck => exact absurd rfl hno
  | hit hown _ howner => exact ⟨rfl, _, rfl, by rw [howner, hown]⟩
  | filled herr _ _ _ _ howner => exact ⟨herr, _, rfl, by rw [howner, Function.update_self]⟩
  | replaced herr _ _ _ _ howner => exact ⟨herr, _, rfl, by rw [howner, Function.update_self]⟩

/-- Under fifo the first of the queue is given up. -/
theorem first_of_fifo {pt : PageTable} {time : ℕ → ℕ} {v g : ℕ} (hfifo : pol.isFifo = true)
    (hordered : pol.tracked.Pairwise fun f g => time f < time g)
    (hev : (pol.evict pt).1 = some v) (hg : g ∈ pol.tracked) (hne : g ≠ v) : time v < time g := by
  cases pol with
  | lru pages => cases hfifo
  | clock c => cases hfifo
  | fifo queue =>
    cases queue with
    | nil => cases hev
    | cons u rest =>
      obtain rfl : u = v := Option.some.inj hev
      exact (List.pairwise_cons.mp hordered).1 g ((List.mem_cons.mp hg).resolve_left hne)

/-- **The tracker matches RAM** in every run of the pager in which no access fails for want
of memory: the policy tracks the frames in use and no others, each once; when RAM is full it
gives up a frame in use; memory runs out only when RAM and swap are full, and until then every
permitted access gets a frame, which its page then owns; and fifo gives up the frame whose page
was mapped first since the policy was selected. -/
theorem tracker_matches_ram (ops : List PagerOp)
    (hno : Runs.Along PagerOp.exec (fun s op => op.NoOom s) vmInit ops) :
    let s := Runs.run PagerOp.exec vmInit ops
    let log := Runs.history PagerOp.exec (fun s op => op.loads s) vmInit ops
    (s.pager.policy.tracked.Nodup ∧
      ∀ f, f ∈ s.pager.policy.tracked ↔ (frameGetOwner s.frame f).isSome = true) ∧
    (freeFrame s.frame = none → ∀ pt, ∃ f, (s.pager.policy.evict pt).1 = some f ∧
      (frameGetOwner s.frame f).isSome = true) ∧
    (∀ pid vpn write tick, (pagerAccessPage s pid vpn write tick).1 = .errorOom →
      freeFrame s.frame = none ∧ freeSlot s.swap = none) ∧
    (∀ pid vpn write tick, Permitted s pid vpn write →
      freeFrame s.frame ≠ none ∨ freeSlot s.swap ≠ none →
      let r := pagerAccessPage s pid vpn write tick
      r.1.isError = false ∧ ∃ f, r.2.1 = some f ∧
        frameGetOwner r.2.2.frame f = some (pid, vpn)) ∧
    (s.pager.policy.isFifo = true → ∀ pt v, (s.pager.policy.evict pt).1 = some v →
      ∀ g, (frameGetOwner s.frame g).isSome = true → g ≠ v → loadTime log v < loadTime log g) := by
  intro s log
  have h : InStep s log := Runs.run_history (I := InStep) (fun _ _ op h hop => h.exec op hop)
    vmInit_inStep hno
  have hexact : ∀ f, f ∈ s.pager.policy.tracked ↔ (frameGetOwner s.frame f).isSome = true :=
    h.tracks.exact
  have hoom : ∀ pid vpn write tick, (pagerAccessPage s pid vpn write tick).1 = .errorOom →
      freeFrame s.frame = none ∧ freeSlot s.swap = none := by
    intro pid vpn write tick hoom
    have hspec := pagerAccessPage_policy h.paged.toSound pid vpn write tick
    rw [hoom] at hspec
    obtain ⟨hfull, hex, -⟩ := hspec.of_oom
    exact ⟨hfull, h.tracks.swap_full h.paged (permitted_of_oom hoom).isSome hex⟩
  refine ⟨⟨h.tracks.ok.nodup, hexact⟩, ?_, hoom, ?_, ?_⟩
  · intro hfull pt
    have hzero : 0 ∈ s.pager.policy.tracked :=
      (h.tracks.exact 0).mpr (owner_of_full hfull (by decide))
    obtain ⟨f, hf, hev, -⟩ := Policy.evict_cons h.tracks.ok (List.ne_nil_of_mem hzero) pt
    exact ⟨f, hev, (hexact f).mp hf⟩
  · intro pid vpn write tick hperm hroom
    refine (pagerAccessPage_policy h.paged.toSound pid vpn write tick).gets_frame hperm
      fun hres => ?_
    obtain ⟨hframe, hslot⟩ := hoom pid vpn write tick hres
    exact hroom.elim (· hframe) (· hslot)
  · intro hfifo pt v hev g hg hgv
    have hg := (hexact g).mpr hg
    have hordered := h.order.ordered hfifo
    exact first_of_fifo hfifo hordered hev hg hgv

/-- One process writes to as many pages as there are frames. -/
def fillRun : List PagerOp :=
  .create 1 :: (List.range vmNumFrames).map fun n => .access 1 (64 + n) true n

set_option maxRecDepth 100000 in
/-- RAM is full then, and the next access still gets a frame; fifo would give up frame `0`, whose
page was mapped before that of frame `63`. -/
theorem tracker_matches_ram_full :
    let s := Runs.run PagerOp.exec vmInit fillRun
    let log := Runs.history PagerOp.exec (fun s op => op.loads s) vmInit fillRun
    freeFrame s.frame = none ∧
      (∃ f, (pagerAccessPage s 1 128 true 64).2.1 = some f ∧
        frameGetOwner (pagerAccessPage s 1 128 true 64).2.2.frame f = some (1, 128)) ∧
      loadTime log 0 < loadTime log 63 := by
  obtain ⟨-, -, -, haccess, hfifo⟩ := tracker_matches_ram fillRun (by decide +kernel)
  refine ⟨by decide +kernel, ?_, ?_⟩
  · exact (haccess 1 128 true 64 ⟨3, by decide +kernel, by decide⟩ (.inr (by decide +kernel))).2
  · exact hfifo (by decide +kernel) (fun _ => {}) 0 (by decide +kernel) 63 (by decide +kernel)
      (by decide)

end Mosrt
