/-
The least recently used page.

A log of the bytes read and written (`Use`) says when each page was used last (`lastUse`),
by whichever way the address was translated, and which pages lost their frames.  The policy
sees less of it: a translation that the TLB serves does not reach the tracker.

* `Recency` — the ticks in the tracker are those of the last uses;
* `recordsUse` — the translations that keep it so;
* `lru_evicts_oldest` — runs of such translations evict the page whose last use is oldest.
-/
import Mosrt.Eviction

namespace Mosrt

variable {s s' : VmSys} {pid : ℤ} {vpn tick f : ℕ} {write served : Bool} {k : PageKey}
  {pages : List LruEntry}

/-! ### The log of uses -/

/-- A byte that is read or written, or could not be. -/
structure Use where
  page : PageKey
  tick : ℕ
  served : Bool
  /-- The pages that lost their frames to it, each with the other pages in RAM. -/
  evicted : List (PageKey × List PageKey)

/-- The tick at which a page was used last. -/
def lastUse (log : List Use) (k : PageKey) : Option ℕ :=
  log.foldl (fun t u => if u.served = true ∧ u.page = k then some u.tick else t) none

/-- No page in RAM was used less recently than one that is evicted. -/
def EvictsOldest (log : List Use) : Prop :=
  ∀ before u after, log = before ++ u :: after → ∀ lost ∈ u.evicted, ∀ k ∈ lost.2,
    ∃ t t', lastUse before lost.1 = some t ∧ lastUse before k = some t' ∧ t ≤ t'

/-- The pages in RAM outside frame `f`. -/
def otherResidents (s : VmSys) (f : ℕ) : List PageKey :=
  (List.range vmNumFrames).filterMap fun g => if g = f then none else frameGetOwner s.frame g

/-- The pages that have a frame in `s` and not in `s'`, with the others. -/
def lostPages (s s' : VmSys) : List (PageKey × List PageKey) :=
  (List.range vmNumFrames).filterMap fun f => (frameGetOwner s.frame f).bind fun k =>
    if frameGetOwner s'.frame f = some k then none else some (k, otherResidents s f)

def useOf (s s' : VmSys) (k : PageKey) (tick : ℕ) (served : Bool) : Use :=
  ⟨k, tick, served, lostPages s s'⟩

/-- The uses of `vmReadLoop`. -/
def readUses (pid : ℤ) (virtAddr tick : ℕ) : ℕ → ℕ → VmSys → List Use
  | 0, _, _ => []
  | n + 1, i, s =>
    match vmReadByte s pid (currAddr virtAddr i) tick with
    | (none, s') => [useOf s s' (pid, vpnOf (currAddr virtAddr i)) tick false]
    | (some _, s') =>
      useOf s s' (pid, vpnOf (currAddr virtAddr i)) tick true ::
        readUses pid virtAddr tick n (i + 1) s'

/-- The uses of `vmWriteLoop`. -/
def writeUses (pid : ℤ) (virtAddr tick : ℕ) : List UInt8 → ℕ → VmSys → List Use
  | [], _, _ => []
  | b :: bs, i, s =>
    match vmWriteByte s pid (currAddr virtAddr i) b tick with
    | (false, s') => [useOf s s' (pid, vpnOf (currAddr virtAddr i)) tick false]
    | (true, s') =>
      useOf s s' (pid, vpnOf (currAddr virtAddr i)) tick true ::
        writeUses pid virtAddr tick bs (i + 1) s'

/-- The uses of an operation. -/
def MemOp.uses (m : MemSys) : MemOp → List Use
  | .read virtAddr len tick =>
    if (m.sys.vms m.acting).isNone ∨ virtAddr + len > vmVirtAddrSpaceSize then []
    else readUses m.acting virtAddr tick len 0 m.sys
  | .write virtAddr src tick =>
    if (m.sys.vms m.acting).isNone ∨ virtAddr + src.length > vmVirtAddrSpaceSize then []
    else writeUses m.acting virtAddr tick src 0 m.sys
  | .create _ | .dispatch _ | .setPolicy _ => []

theorem lastUse_concat (log : List Use) (u : Use) (k : PageKey) :
    lastUse (log ++ [u]) k =
      if u.served = true ∧ u.page = k then some u.tick else lastUse log k := by
  simp [lastUse]

theorem EvictsOldest.concat {log : List Use} {u : Use} (h : EvictsOldest log)
    (hu : ∀ lost ∈ u.evicted, ∀ k ∈ lost.2,
      ∃ t t', lastUse log lost.1 = some t ∧ lastUse log k = some t' ∧ t ≤ t') :
    EvictsOldest (log ++ [u]) := by
  intro before d after heq
  rcases Runs.concat_eq_append_cons heq with ⟨rfl, rfl⟩ | ⟨rest, hrest⟩
  · exact hu
  · exact h before d rest hrest

theorem mem_lostPages {lost : PageKey × List PageKey} (h : lost ∈ lostPages s s') :
    ∃ f, s.paged.owner f = some lost.1 ∧ s'.paged.owner f ≠ some lost.1 ∧
      ∀ k ∈ lost.2, ∃ g ≠ f, s.paged.owner g = some k := by
  obtain ⟨f, -, hf⟩ := List.mem_filterMap.mp h
  obtain ⟨k, hk, hlost⟩ := Option.bind_eq_some_iff.mp hf
  split_ifs at hlost with hkept
  obtain rfl := Option.some.inj hlost
  refine ⟨f, hk, hkept, fun j hj => ?_⟩
  obtain ⟨g, -, hg⟩ := List.mem_filterMap.mp hj
  split_ifs at hg with hgf
  exact ⟨g, hgf, hg⟩

/-! ### What a translation does to the policy -/

/-- A translation is served, or refused, by the TLB, and the policy does not see it, or it is
handed to the pager. -/
inductive Touched (s : VmSys) (pid : ℤ) (vpn : ℕ) (write : Bool) (tick : ℕ) : Bool → VmSys → Prop
  | byTlb {hit : TlbHit} {served : Bool} {s' : VmSys} : (tlbLookup s.tlb vpn tick).1 = some hit →
      (served = true → hit.permissions &&& reqPerm write ≠ 0) →
      s'.pager = s.pager → s'.paged.owner = s.paged.owner → Touched s pid vpn write tick served s'
  | byPager {res : PagerResult} {out : Option ℕ} {served : Bool} {s₁ s' : VmSys} :
      (tlbLookup s.tlb vpn tick).1 = none →
      PolicySpec (s.lookedUp vpn tick) pid vpn write tick res out s₁ → (served = !res.isError) →
      s'.pager = s₁.pager → s'.paged.owner = s₁.paged.owner → Touched s pid vpn write tick served s'

theorem vmMiss_touched (hs : s.paged.Sound) (hmiss : (tlbLookup s.tlb vpn tick).1 = none) :
    Touched s pid vpn write tick (vmMiss (s.lookedUp vpn tick) pid vpn write tick).1.isSome
      (vmMiss (s.lookedUp vpn tick) pid vpn write tick).2 := by
  have hspec := pagerAccessPage_policy (s := s.lookedUp vpn tick) hs pid vpn write tick
  rw [vmMiss]
  obtain ⟨res, out, s₁, hacc⟩ : ∃ res out s₁,
    pagerAccessPage (s.lookedUp vpn tick) pid vpn write tick = (res, out, s₁) := ⟨_, _, _, rfl⟩
  rw [hacc] at hspec ⊢
  dsimp only at hspec ⊢
  cases herr : res.isError with
  | true =>
    exact .byPager hmiss hspec (by rw [herr]; rfl) rfl rfl
  | false =>
    rw [if_neg Bool.false_ne_true]
    split
    · exact .byPager hmiss hspec (by rw [herr]; rfl) rfl rfl
    · exact .byPager hmiss hspec (by rw [herr]; rfl) rfl rfl

theorem vmTranslateRead_touched (hs : s.paged.Sound) (pid : ℤ) (vpn tick : ℕ) :
    Touched s pid vpn false tick (vmTranslateRead s pid vpn tick).1.isSome
      (vmTranslateRead s pid vpn tick).2 := by
  rw [vmTranslateRead]
  cases hr : (tlbLookup s.tlb vpn tick).1 with
  | none => exact vmMiss_touched hs hr
  | some hit =>
    dsimp only
    split_ifs with hp
    · exact .byTlb hr (fun hserved => by cases hserved) rfl rfl
    · exact .byTlb hr (fun _ => hp) rfl rfl

theorem vmTranslateWrite_touched (hs : s.paged.Sound) (pid : ℤ) (vpn tick : ℕ) :
    Touched s pid vpn true tick (vmTranslateWrite s pid vpn tick).1.isSome
      (vmTranslateWrite s pid vpn tick).2 := by
  rw [vmTranslateWrite]
  cases hr : (tlbLookup s.tlb vpn tick).1 with
  | none => exact vmMiss_touched hs hr
  | some hit =>
    dsimp only
    split_ifs with hp hd
    · exact .byTlb hr (fun hserved => by cases hserved) rfl rfl
    · exact .byTlb hr (fun _ => hp) rfl rfl
    · exact .byTlb hr (fun _ => hp) rfl rfl

theorem vmReadByte_touched (hs : s.paged.Sound) (pid : ℤ) (addr tick : ℕ) :
    Touched s pid (vpnOf addr) false tick (vmReadByte s pid addr tick).1.isSome
      (vmReadByte s pid addr tick).2 := by
  have h := vmTranslateRead_touched hs pid (vpnOf addr) tick
  rw [vmReadByte]
  obtain ⟨r, s', hr⟩ : ∃ r s', vmTranslateRead s pid (vpnOf addr) tick = (r, s') := ⟨_, _, rfl⟩
  rw [hr] at h ⊢
  cases r <;> exact h

theorem Touched.setFrame {fr : FrameState} (h : Touched s pid vpn write tick served s')
    (hfr : frameGetOwner fr = frameGetOwner s'.frame) :
    Touched s pid vpn write tick served { s' with frame := fr } := by
  cases h with
  | byTlb hr hserved hpager howner => exact .byTlb hr hserved hpager (hfr.trans howner)
  | byPager hr hspec hserved hpager howner =>
    exact .byPager hr hspec hserved hpager (hfr.trans howner)

theorem vmWriteByte_touched (hs : s.paged.Sound) (pid : ℤ) (addr : ℕ) (b : UInt8) (tick : ℕ) :
    Touched s pid (vpnOf addr) true tick (vmWriteByte s pid addr b tick).1
      (vmWriteByte s pid addr b tick).2 := by
  have h := vmTranslateWrite_touched hs pid (vpnOf addr) tick
  rw [vmWriteByte]
  obtain ⟨r, s', hr⟩ : ∃ r s', vmTranslateWrite s pid (vpnOf addr) tick = (r, s') := ⟨_, _, rfl⟩
  rw [hr] at h ⊢
  cases r with
  | none => exact h
  | some f => exact h.setFrame (frameGetOwner_frameWriteByte _ _)

/-! ### The tracker and the last uses -/

/-- The tracker has every frame in use, with the tick of the last use of the page in it. -/
structure Recency (s : VmSys) (log : List Use) : Prop where
  tracks : TracksAll s
  last : ∃ pages, s.pager.policy = .lru pages ∧
    ∀ e ∈ pages, ∀ k, s.paged.owner e.vpn = some k → lastUse log k = some e.lastTick
  oldest : EvictsOldest log

variable {log : List Use}

/-- What does not touch policy and frames. -/
theorem Recency.same (h : Recency s log) (hpager : s'.pager = s.pager)
    (howner : s'.paged.owner = s.paged.owner) : Recency s' log := by
  refine ⟨⟨?_, ?_⟩, ?_, h.oldest⟩
  · rw [hpager]
    exact h.tracks.ok
  · rw [hpager, howner]
    exact h.tracks.exact
  · rw [hpager, howner]
    exact h.last

theorem lostPages_nil (howner : ∀ f k, s.paged.owner f = some k → s'.paged.owner f = some k) :
    lostPages s s' = [] := by
  refine List.eq_nil_iff_forall_not_mem.mpr fun lost hlost => ?_
  obtain ⟨f, hf, hf', -⟩ := mem_lostPages hlost
  exact hf' (howner f lost.1 hf)

/-- No two frames have one page. -/
def OnePage (s : VmSys) : Prop :=
  ∀ {f g : ℕ} {k : PageKey}, s.paged.owner f = some k → s.paged.owner g = some k → g = f

theorem VmSys.Ok.onePage (hs : s.Ok pid) : OnePage s := fun hf hg =>
  Option.some.inj ((hs.exact.owner_claims hg).symm.trans (hs.exact.owner_claims hf))

/-- A byte that is not served, and moves nothing. -/
theorem Recency.idle (h : Recency s log) (hpager : s'.pager = s.pager)
    (howner : s'.paged.owner = s.paged.owner) :
    Recency s' (log ++ [useOf s s' k tick false]) := by
  obtain ⟨pages, hpol, hlast⟩ := h.last
  have hlost : lostPages s s' = [] := lostPages_nil fun f k hf => by rw [howner, hf]
  have hsame : ∀ j, lastUse (log ++ [useOf s s' k tick false]) j = lastUse log j := by
    intro j
    rw [lastUse_concat]
    exact if_neg fun hand => Bool.false_ne_true hand.1
  obtain ⟨htracks, -, -⟩ := h.same hpager howner
  refine ⟨htracks, ⟨pages, by rw [hpager, hpol], fun e he j hj => ?_⟩, h.oldest.concat ?_⟩
  · rw [hsame]
    exact hlast e he j (howner ▸ hj)
  · show ∀ lost ∈ lostPages s s', _
    rw [hlost]
    exact nofun

/-- A byte of page `k` in frame `f`, with the tracker's tick for it. -/
theorem Recency.use (h : Recency s log) (hs' : OnePage s') (htracks : TracksAll s')
    (hf : s'.paged.owner f = some k)
    (hothers : ∀ g ≠ f, s'.paged.owner g = s.paged.owner g)
    (hpages : ∃ before after, s.pager.policy = .lru before ∧ s'.pager.policy = .lru after ∧
      ∀ e ∈ after, (e.vpn = f ∧ e.lastTick = tick) ∨ e.vpn ≠ f ∧ e ∈ before)
    (hlost : ∀ lost ∈ lostPages s s', ∀ j ∈ lost.2,
      ∃ t t', lastUse log lost.1 = some t ∧ lastUse log j = some t' ∧ t ≤ t') :
    Recency s' (log ++ [useOf s s' k tick true]) := by
  obtain ⟨pages, hpol, hlast⟩ := h.last
  obtain ⟨before, after, hbefore, hafter, hentries⟩ := hpages
  obtain rfl : pages = before := Policy.lru.inj (hpol.symm.trans hbefore)
  refine ⟨htracks, ⟨after, hafter, fun e he j hj => ?_⟩, h.oldest.concat hlost⟩
  rw [lastUse_concat]
  rcases hentries e he with ⟨hef, htick⟩ | ⟨hef, he⟩
  · rw [hef, hf] at hj
    rw [if_pos ⟨rfl, Option.some.inj hj⟩, htick]
    rfl
  · have hjk : k ≠ j := by
      rintro rfl
      exact hef (hs' hf hj)
    rw [if_neg fun hand => hjk hand.2]
    exact hlast e he j (hothers e.vpn hef ▸ hj)

/-! ### Bytes -/

/-- The tick that the tracker has for a frame. -/
def Policy.recordedTick : Policy → ℕ → Option ℕ
  | .lru pages, f => (pages.find? fun e => e.vpn = f).map (·.lastTick)
  | _, _ => none

/-- If the TLB serves the translation, the tracker has this tick for the frame already, and if
it does not, there is a frame for the page. -/
def recordsUse (s : VmSys) (pid : ℤ) (write : Bool) (tick vpn : ℕ) : Bool :=
  match (tlbLookup s.tlb vpn tick).1 with
  | some hit => hit.permissions &&& reqPerm write = 0 ∨
      s.pager.policy.recordedTick hit.pfn = some tick
  | none => (s.paged.entry (pid, vpn)).frame ≠ none ∨ s.exhausted pid = false

/-- The frame that the policy gives up has the oldest tick. -/
theorem lru_picked (hpol : s.pager.policy = .lru pages) (hn : (pages.map (·.vpn)).Nodup)
    (hvic : s.victim pid = some (f, k)) :
    ∃ e ∈ pages, e.vpn = f ∧ (∀ d ∈ pages, e.lastTick ≤ d.lastTick) ∧
      s.asked pid = .lru (pages.erase e) := by
  obtain ⟨g, hpick, hg⟩ := Option.bind_eq_some_iff.mp hvic
  obtain ⟨_, -, heq⟩ := Option.map_eq_some_iff.mp hg
  obtain rfl : g = f := (Prod.mk.inj heq).1
  rw [VmSys.asked]
  rw [pagerPickVictim] at hpick ⊢
  cases hvm : s.vms pid with
  | none =>
    rw [hvm] at hpick
    cases hpick
  | some vm =>
    rw [hvm, hpol] at hpick
    rw [hpol]
    have hpick : (lruEvict pages).1 = some g := hpick
    have hne : pages ≠ [] := by
      rintro rfl
      cases hpick
    obtain ⟨e, he, hmin, hev, -⟩ := lruEvict_spec hn hne
    rw [hev] at hpick
    refine ⟨e, he, Option.some.inj hpick, hmin, ?_⟩
    show Policy.lru (lruEvict pages).2 = _
    rw [hev]

theorem recordedTick_eq {e : LruEntry} (hn : (pages.map (·.vpn)).Nodup) (he : e ∈ pages) :
    (Policy.lru pages).recordedTick e.vpn = some e.lastTick := by
  have hfind : pages.find? (fun d => d.vpn = e.vpn) = some e := by
    induction pages with
    | nil => cases he
    | cons d rest ih =>
      obtain ⟨hd, hn⟩ := List.nodup_cons.mp hn
      rcases List.mem_cons.mp he with rfl | he
      · exact List.find?_cons_of_pos (by simp)
      · have hne : d.vpn ≠ e.vpn := by
          intro heq
          refine hd ?_
          show d.vpn ∈ rest.map _
          rw [heq]
          exact List.mem_map_of_mem he
        rw [List.find?_cons_of_neg (by simpa using hne)]
        exact ih hn he
  rw [Policy.recordedTick, hfind]
  rfl

theorem TracksAll.transfer {s₁ : VmSys} (h : TracksAll s₁) (hpager : s'.pager = s₁.pager)
    (howner : s'.paged.owner = s₁.paged.owner) : TracksAll s' :=
  ⟨by rw [hpager]; exact h.ok, by rw [hpager, howner]; exact h.exact⟩

theorem Recency.nodup (h : Recency s log) (hpol : s.pager.policy = .lru pages) :
    (pages.map (·.vpn)).Nodup := by
  have hok := h.tracks.ok
  rw [hpol] at hok
  exact hok

/-- A byte that the TLB serves or refuses. -/
theorem Recency.byTlb {hit : TlbHit} (h : Recency s log) (hs : s.Ok pid) (hs' : OnePage s')
    (hr : (tlbLookup s.tlb vpn tick).1 = some hit)
    (hrecorded : served = true → s.pager.policy.recordedTick hit.pfn = some tick)
    (hpager : s'.pager = s.pager) (howner : s'.paged.owner = s.paged.owner) :
    Recency s' (log ++ [useOf s s' (pid, vpn) tick served]) := by
  cases served with
  | false => exact h.idle hpager howner
  | true =>
    obtain ⟨pages, hpol, -⟩ := h.last
    have hrecorded := hrecorded rfl
    rw [hpol] at hrecorded
    have hf : s.paged.owner hit.pfn = some (pid, vpn) :=
      hs.exact.frame_owned (hs.coherent.agrees.hit hr).1
    refine h.use hs' (h.tracks.transfer hpager howner) (howner ▸ hf)
      (fun g _ => by rw [howner]) ⟨pages, pages, hpol, by rw [hpager, hpol], fun e he => ?_⟩ ?_
    · by_cases hef : e.vpn = hit.pfn
      · rw [← hef, recordedTick_eq (h.nodup hpol) he] at hrecorded
        exact .inl ⟨hef, Option.some.inj hrecorded⟩
      · exact .inr ⟨hef, he⟩
    · rw [lostPages_nil fun f k hf => by rw [howner, hf]]
      exact nofun

/-- The page that is evicted has the oldest tick. -/
theorem Recency.lost (h : Recency s log) (hpol : s.pager.policy = .lru pages) {e : LruEntry}
    (he : e ∈ pages) (hmin : ∀ d ∈ pages, e.lastTick ≤ d.lastTick)
    (hothers : ∀ g ≠ e.vpn, s'.paged.owner g = s.paged.owner g) :
    ∀ lost ∈ lostPages s s', ∀ j ∈ lost.2,
      ∃ t t', lastUse log lost.1 = some t ∧ lastUse log j = some t' ∧ t ≤ t' := by
  obtain ⟨_, hpol', hlast⟩ := h.last
  obtain rfl := Policy.lru.inj (hpol.symm.trans hpol')
  intro lost hlost j hj
  obtain ⟨g, hg, hg', hresident⟩ := mem_lostPages hlost
  -- no other frame changes its page
  obtain rfl : g = e.vpn := by
    by_contra hne
    rw [hothers g hne] at hg'
    exact hg' hg
  obtain ⟨g', -, hj⟩ := hresident j hj
  have htracked : g' ∈ s.pager.policy.tracked := (h.tracks.exact g').mpr (by rw [hj]; rfl)
  rw [hpol] at htracked
  obtain ⟨d, hd, rfl⟩ := List.mem_map.mp htracked
  exact ⟨e.lastTick, d.lastTick, hlast e he _ hg, hlast d hd j hj, hmin d hd⟩

/-- A byte for which the pager is asked. -/
theorem Recency.byPager {res : PagerResult} {out : Option ℕ} (h : Recency s log) (hs' : OnePage s')
    (hvm : (s.vms pid).isSome = true) (htick : tick < 2 ^ 32)
    (hspec : PolicySpec s pid vpn write tick res out s') (hno : res ≠ .errorOom) :
    Recency s' (log ++ [useOf s s' (pid, vpn) tick !res.isError]) := by
  obtain ⟨pages, hpol, -⟩ := h.last
  have hn := h.nodup hpol
  have hentries : ∀ {base : List LruEntry} {f : ℕ} {e : LruEntry}, (base.map (·.vpn)).Nodup →
      e ∈ lruUpdate base f tick → (e.vpn = f ∧ e.lastTick = tick) ∨ e.vpn ≠ f ∧ e ∈ base := by
    intro base f e hn he
    have hcases := mem_lruUpdate hn he
    rwa [Nat.mod_eq_of_lt htick] at hcases
  have htracks := h.tracks.access hspec hvm hno
  cases hspec with
  | refused he _ =>
    rw [he.isError]
    exact h.idle rfl rfl
  | stuck _ _ => exact absurd rfl hno
  | @hit f _ hown hpol' hsame =>
    refine h.use hs' htracks (hsame ▸ hown) (fun g _ => by rw [hsame])
      ⟨pages, lruUpdate pages f tick, hpol, by rw [hpol', hpol]; rfl, fun e => hentries hn⟩ ?_
    rw [lostPages_nil fun f k hf => by rw [hsame, hf]]
    exact nofun
  | @filled f _ _ herr _ _ hfree hpol' hnew =>
    rw [herr]
    refine h.use hs' htracks (by rw [hnew, Function.update_self])
      (fun g hg => by rw [hnew, Function.update_of_ne hg])
      ⟨pages, lruUpdate pages f tick, hpol, by rw [hpol', hpol]; rfl, fun e => hentries hn⟩ ?_
    rw [lostPages_nil]
    · exact nofun
    · intro g k hg
      have hgf : g ≠ f := by
        rintro rfl
        rw [hfree] at hg
        cases hg
      rw [hnew, Function.update_of_ne hgf, hg]
  | @replaced f _ _ _ herr _ _ hvic hpol' hnew =>
    obtain ⟨e, he, rfl, hmin, hasked⟩ := lru_picked hpol hn hvic
    have hn' : ((pages.erase e).map (·.vpn)).Nodup := by
      rw [map_erase_of_nodup hn he]
      exact hn.erase _
    have hothers : ∀ g ≠ e.vpn, s'.paged.owner g = s.paged.owner g :=
      fun g hg => by rw [hnew, Function.update_of_ne hg]
    rw [herr]
    refine h.use hs' htracks (by rw [hnew, Function.update_self]) hothers
      ⟨pages, lruUpdate (pages.erase e) e.vpn tick, hpol, by rw [hpol', hasked]; rfl, ?_⟩
      (h.lost hpol he hmin hothers)
    intro d hd
    exact (hentries hn' hd).imp_right fun hd => ⟨hd.1, List.mem_of_mem_erase hd.2⟩

/-- One byte. -/
theorem Recency.touched (h : Recency s log) (hs : s.Ok pid) (hs' : OnePage s')
    (hvm : (s.vms pid).isSome = true) (htick : tick < 2 ^ 32)
    (ht : Touched s pid vpn write tick served s')
    (hrec : recordsUse s pid write tick vpn = true) :
    Recency s' (log ++ [useOf s s' (pid, vpn) tick served]) := by
  cases ht with
  | byTlb hr hserved hpager howner =>
    rw [recordsUse, hr, decide_eq_true_iff] at hrec
    exact h.byTlb hs hs' hr (fun hsv => hrec.resolve_left (hserved hsv)) hpager howner
  | @byPager res out _ s₁ _ hmiss hspec hserved hpager howner =>
    rw [recordsUse, hmiss, decide_eq_true_iff] at hrec
    have hno : res ≠ .errorOom := by
      rintro rfl
      obtain ⟨-, hex, habs⟩ := hspec.of_oom
      rw [exhausted_lookedUp] at hex
      rcases hrec with hframe | hex'
      · exact hframe habs
      · rw [hex] at hex'
        cases hex'
    -- the lookup before and the counters after do not show in the frames
    have hlost : lostPages s s' = lostPages (s.lookedUp vpn tick) s₁ := by
      have howner' : frameGetOwner s'.frame = frameGetOwner s₁.frame := howner
      rw [lostPages, howner']
      rfl
    have hlooked : Recency (s.lookedUp vpn tick) log := h.same rfl rfl
    have hone : OnePage s₁ := by
      rw [OnePage, ← howner]
      exact hs'
    rw [useOf, hlost, hserved]
    exact (hlooked.byPager hone hvm htick hspec hno).same hpager howner

/-! ### Calls -/

theorem vmReadLoop_recency {virtAddr : ℕ} (htick : tick < 2 ^ 32) (n i : ℕ)
    (hok : readAlong pid virtAddr tick
      (fun i s => recordsUse s pid false tick (vpnOf (currAddr virtAddr i))) n i s = true)
    (hs : s.Ok pid) (hvm : (s.vms pid).isSome = true) (h : Recency s log) :
    Recency (vmReadLoop pid virtAddr tick n i s).2 (log ++ readUses pid virtAddr tick n i s) := by
  induction n generalizing i s log with
  | zero =>
    rw [readUses, List.append_nil]
    exact h
  | succ n ih =>
    rw [readAlong, Bool.and_eq_true] at hok
    obtain ⟨hrec, hrest⟩ := hok
    have hbyte := vmReadByte_touched hs.exact.toSound pid (currAddr virtAddr i) tick
    have hs₁ := vmReadByte_ok hs (currAddr virtAddr i) tick
    have hvm₁ : ((vmReadByte s pid (currAddr virtAddr i) tick).2.vms pid).isSome = true := by
      obtain ⟨r, s', htr, heq⟩ := vmReadByte_spec hs.exact.toSound pid (currAddr virtAddr i) tick
      rw [heq]
      exact (htr.isSome pid).trans hvm
    have hnext := h.touched hs hs₁.onePage hvm htick hbyte hrec
    rw [vmReadLoop, readUses]
    obtain ⟨r, s₁, hr⟩ : ∃ r s₁, vmReadByte s pid (currAddr virtAddr i) tick = (r, s₁) :=
      ⟨_, _, rfl⟩
    rw [hr] at hrest hs₁ hvm₁ hnext ⊢
    cases r with
    | none => exact hnext
    | some b =>
      have hloop := ih (i + 1) hrest hs₁ hvm₁ hnext
      rw [List.append_assoc] at hloop
      dsimp only
      split
      · next heq =>
        rw [heq] at hloop
        exact hloop
      · next heq =>
        rw [heq] at hloop
        exact hloop

theorem vmWriteLoop_recency {virtAddr : ℕ} (htick : tick < 2 ^ 32) (bs : List UInt8) (i : ℕ)
    (hok : writeAlong pid virtAddr tick
      (fun i s => recordsUse s pid true tick (vpnOf (currAddr virtAddr i))) bs i s = true)
    (hs : s.Ok pid) (hvm : (s.vms pid).isSome = true) (h : Recency s log) :
    Recency (vmWriteLoop pid virtAddr tick bs i s).2
      (log ++ writeUses pid virtAddr tick bs i s) := by
  induction bs generalizing i s log with
  | nil =>
    rw [writeUses, List.append_nil]
    exact h
  | cons b bs ih =>
    rw [writeAlong, Bool.and_eq_true] at hok
    obtain ⟨hrec, hrest⟩ := hok
    have hbyte := vmWriteByte_touched hs.exact.toSound pid (currAddr virtAddr i) b tick
    have hs₁ := vmWriteByte_ok hs hvm (currAddr virtAddr i) b tick
    have hvm₁ : ((vmWriteByte s pid (currAddr virtAddr i) b tick).2.vms pid).isSome = true := by
      obtain ⟨r, s', htr, heq⟩ := vmWriteByte_spec hs.exact.toSound hvm (currAddr virtAddr i) b tick
      rw [heq]
      cases r <;> exact (htr.isSome pid).trans hvm
    have hnext := h.touched hs hs₁.onePage hvm htick hbyte hrec
    rw [vmWriteLoop, writeUses]
    obtain ⟨stored, s₁, hr⟩ : ∃ stored s₁,
      vmWriteByte s pid (currAddr virtAddr i) b tick = (stored, s₁) := ⟨_, _, rfl⟩
    rw [hr] at hrest hs₁ hvm₁ hnext ⊢
    cases stored with
    | false => exact hnext
    | true =>
      have hloop := ih (i + 1) hrest hs₁ hvm₁ hnext
      rw [List.append_assoc] at hloop
      exact hloop

/-! ### Runs -/

/-- The tracker gets to know every use of the operation. -/
def MemOp.recorded (m : MemSys) : MemOp → Bool
  | .read virtAddr len tick => decide (tick < 2 ^ 32) &&
      readAlong m.acting virtAddr tick
        (fun i s => recordsUse s m.acting false tick (vpnOf (currAddr virtAddr i))) len 0 m.sys
  | .write virtAddr src tick => decide (tick < 2 ^ 32) &&
      writeAlong m.acting virtAddr tick
        (fun i s => recordsUse s m.acting true tick (vpnOf (currAddr virtAddr i))) src 0 m.sys
  | _ => true

theorem MemOp.recency (op : MemOp) (hop : ∀ name, op ≠ .setPolicy name) {m : MemSys}
    (hm : m.sys.Ok m.acting) (h : Recency m.sys log) (hrec : op.recorded m = true) :
    Recency (op.exec m).sys (log ++ op.uses m) := by
  cases op with
  | create pid =>
    rw [MemOp.uses, List.append_nil]
    refine h.same ?_ ?_
    · show (vmSpawn m.sys pid).pager = m.sys.pager
      rw [vmSpawn]
      split_ifs <;> rfl
    · show (vmSpawn m.sys pid).paged.owner = m.sys.paged.owner
      rw [vmSpawn_paged]
  | dispatch pid =>
    rw [MemOp.uses, List.append_nil]
    exact h.same rfl rfl
  | read virtAddr len tick =>
    rw [MemOp.recorded, Bool.and_eq_true, decide_eq_true_iff] at hrec
    rw [MemOp.exec, MemOp.uses, vmReadMem]
    by_cases hvm : (m.sys.vms m.acting).isNone = true
    · rw [if_pos hvm, if_pos (.inl hvm), List.append_nil]
      exact h
    · have hsome : (m.sys.vms m.acting).isSome = true := by
        simpa [Option.isSome_iff_ne_none] using hvm
      have hloop := vmReadLoop_recency hrec.1 len 0 hrec.2 hm hsome h
      rw [if_neg hvm]
      split_ifs with hbig hany hany
      · rw [List.append_nil]
        exact h
      · exact absurd (.inr hbig) hany
      · exact absurd hany (not_or.mpr ⟨hvm, hbig⟩)
      · dsimp only
        split
        · next heq =>
          rw [heq] at hloop
          exact hloop
        · next heq =>
          rw [heq] at hloop
          exact hloop.same rfl rfl
  | write virtAddr src tick =>
    rw [MemOp.recorded, Bool.and_eq_true, decide_eq_true_iff] at hrec
    rw [MemOp.exec, MemOp.uses, vmWriteMem]
    by_cases hvm : (m.sys.vms m.acting).isNone = true
    · rw [if_pos hvm, if_pos (.inl hvm), List.append_nil]
      exact h
    · have hsome : (m.sys.vms m.acting).isSome = true := by
        simpa [Option.isSome_iff_ne_none] using hvm
      have hloop := vmWriteLoop_recency hrec.1 src 0 hrec.2 hm hsome h
      rw [if_neg hvm]
      split_ifs with hbig hany hany
      · rw [List.append_nil]
        exact h
      · exact absurd (.inr hbig) hany
      · exact absurd hany (not_or.mpr ⟨hvm, hbig⟩)
      · obtain ⟨stored, s₁, hr⟩ : ∃ stored s₁,
          vmWriteLoop m.acting virtAddr tick src 0 m.sys = (stored, s₁) := ⟨_, _, rfl⟩
        rw [hr] at hloop ⊢
        dsimp only
        split_ifs
        · exact hloop.same rfl rfl
        · exact hloop
  | setPolicy name => exact absurd rfl (hop name)

/-- `vm_init`, with lru selected. -/
def lruInit : MemSys := MemOp.exec memInit (.setPolicy "lru")

theorem lruInit_recency : Recency lruInit.sys [] := by
  refine ⟨tracksAll_setPolicy vmInit_inStep.tracks "lru", ⟨[], rfl, nofun⟩, ?_⟩
  intro before u after heq
  exact absurd heq (by simp)

/-- **The least recently used page is evicted** in every run of accesses under lru whose uses the
tracker gets to know: an access that the TLB serves finds that the tracker has its tick for the
frame already, no access fails for want of memory, and ticks fit into 32 bits.  Then no page
in RAM was last used before the page that is evicted. -/
theorem lru_evicts_oldest (ops : List MemOp) (hops : ∀ name, MemOp.setPolicy name ∉ ops)
    (hrec : Runs.Along MemOp.exec (fun m op => op.recorded m = true) lruInit ops) :
    EvictsOldest (Runs.history MemOp.exec (fun m op => op.uses m) lruInit ops) := by
  have hkind : Runs.Along MemOp.exec (fun _ op => ∀ name, op ≠ .setPolicy name) lruInit ops :=
    Runs.along_of_forall (P := fun op => ∀ name, op ≠ MemOp.setPolicy name)
      (fun op hop name heq => hops name (heq ▸ hop)) _
  have hinit : lruInit.sys.Ok lruInit.acting ∧ Recency lruInit.sys [] :=
    ⟨MemOp.exec_ok (.setPolicy "lru") memInit_ok, lruInit_recency⟩
  have hrun : (Runs.run MemOp.exec lruInit ops).sys.Ok (Runs.run MemOp.exec lruInit ops).acting ∧
      Recency (Runs.run MemOp.exec lruInit ops).sys
        ([] ++ Runs.history MemOp.exec (fun m op => op.uses m) lruInit ops) :=
    Runs.run_history (I := fun (m : MemSys) log => m.sys.Ok m.acting ∧ Recency m.sys log)
      (fun m log op hm hop => ⟨MemOp.exec_ok op hm.1, op.recency hop.2 hm.1 hm.2 hop.1⟩) hinit
      (hrec.and hkind)
  exact hrun.2.oldest

def MemOp.time : MemOp → Option ℕ
  | .read _ _ tick | .write _ _ tick => some tick
  | .create _ | .dispatch _ | .setPolicy _ => none

set_option maxRecDepth 100000 in
/-- A process reads two bytes of a page and then one byte of each of 64 others. -/
theorem lru_evicts_oldest_scan :
    EvictsOldest (Runs.history MemOp.exec (fun m op => op.uses m) lruInit
      ([.create 1, .dispatch 1, .read (32 * vmPageSize) 2 0] ++
        (List.range 64).map fun i => .read ((33 + i) * vmPageSize) 1 (i + 1))) := by
  refine lru_evicts_oldest _ ?_ (by decide +kernel)
  intro name hmem
  simp at hmem

/-- A process reads a byte of each of 65 pages, and after every eighth page page 32 again. -/
def rereadRun : List MemOp :=
  [.create 1, .dispatch 1] ++ (List.range 65).flatMap fun i =>
    .read ((32 + i) * vmPageSize) 1 (2 * i) ::
      if i % 8 = 7 then [.read (32 * vmPageSize) 1 (2 * i + 1)] else []

set_option maxRecDepth 100000 in
/-- The reads of page 32 after the first are served by the TLB.  It is the page used last when the
64 frames are full, and it is the one that is evicted. -/
theorem lru_evicts_page_used_last :
    (∀ name, MemOp.setPolicy name ∉ rereadRun) ∧
      (rereadRun.filterMap MemOp.time).Pairwise (· < ·) ∧
      ¬ EvictsOldest (Runs.history MemOp.exec (fun m op => op.uses m) lruInit rereadRun) := by
  refine ⟨?_, by decide +kernel, ?_⟩
  · intro name hmem
    simp [rereadRun] at hmem
  · obtain ⟨log, hlog⟩ : ∃ log, log =
      Runs.history MemOp.exec (fun m op => op.uses m) lruInit rereadRun := ⟨_, rfl⟩
    have hlast : (log.drop 72).map (·.evicted) =
          [[((1, 32), (List.range 63).map fun i => (1, 33 + i))]] ∧
        lastUse (log.take 72) (1, 32) = some 127 ∧ lastUse (log.take 72) (1, 33) = some 2 := by
      rw [hlog]
      decide +kernel
    rw [← hlog]
    intro h
    obtain ⟨hdrop, hpage, hother⟩ := hlast
    obtain ⟨u, rest, hu, hevicted, -⟩ := List.map_eq_cons_iff.mp hdrop
    have hsplit : log = log.take 72 ++ u :: rest := by
      rw [← hu, List.take_append_drop]
    obtain ⟨t, t', ht, ht', hle⟩ := h _ u rest hsplit ((1, 32), _)
      (by rw [hevicted]; exact List.mem_singleton_self _) (1, 33) (by decide)
    rw [hpage] at ht
    rw [hother] at ht'
    cases ht
    cases ht'
    exact absurd hle (by decide)

end Mosrt
