/-
Heap growth against demand paging.

`heap_grow` clears `present` and `in_swap` of the page above the break by hand, without giving
back its frame or slot and without a word to the TLB.  Heap pages can be accessed before the
break reaches them, so such a page may be anywhere.

* `growPage_ok_iff` — adding a page keeps ownership exact and the TLB coherent if and only if
  that page is neither resident nor swapped out;
* `growth_consistent` — an allocation stays consistent after every page it adds, and is
  consistent at its end, if and only if each page it adds is such a page.
-/
import Mosrt.Isolation

namespace Mosrt

open StateSim

variable {s : VmSys} {pid : ℤ} {tick : ℕ}

/-- The page at the break of `pid` is neither resident nor swapped out. -/
def VmSys.breakUntouched (s : VmSys) (pid : ℤ) : Bool :=
  match s.vms pid with
  | none => true
  | some vm => !(vm.pt (vpnOf vm.heapBreak)).present && !(vm.pt (vpnOf vm.heapBreak)).inSwap

/-! ### One page -/

theorem breakUntouched_iff {vm : VmState} (hvm : s.vms pid = some vm) :
    s.breakUntouched pid = true ↔
      (s.paged.entry (pid, vpnOf vm.heapBreak)).frame = none ∧
        (s.paged.entry (pid, vpnOf vm.heapBreak)).slot = none := by
  have hpte : s.pte pid (vpnOf vm.heapBreak) = some (vm.pt (vpnOf vm.heapBreak)) := by
    rw [VmSys.pte, hvm, Option.map_some]
  rw [VmSys.breakUntouched, hvm, paged_entry hpte, entryOf]
  simp only [Bool.and_eq_true, Bool.not_eq_true', ite_eq_right_iff, reduceCtorEq, imp_false,
    Bool.not_eq_true]

/-- The permissions of other pages stay. -/
theorem growPage_perms {vm : VmState} (hvm : s.vms pid = some vm) {v : ℕ}
    (hv : v ≠ vpnOf vm.heapBreak) : (growPage s pid).perms pid v = s.perms pid v := by
  rw [VmSys.perms, VmSys.perms, growPage, modifyVm_pte, if_pos rfl, VmSys.pte, hvm, Option.map_some,
    Option.map_some]
  dsimp only
  rw [Function.update_of_ne hv]
  rfl

theorem growPage_ok_iff (hs : s.Ok pid) :
    (growPage s pid).Ok pid ↔ s.breakUntouched pid = true := by
  cases hvm : s.vms pid with
  | none =>
    have huntouched : s.breakUntouched pid = true := by rw [VmSys.breakUntouched, hvm]
    rw [growPage_none hvm]
    exact ⟨fun _ => huntouched, fun _ => hs⟩
  | some vm =>
    rw [breakUntouched_iff hvm]
    obtain ⟨k, hk⟩ : ∃ k, (pid, vpnOf vm.heapBreak) = k := ⟨_, rfl⟩
    have hpaged := growPage_paged hvm
    rw [hk] at hpaged ⊢
    have hentry : (s.paged.forget k).entry k =
        { s.paged.entry k with frame := none, slot := none } :=
      Function.update_self _ _ _
    constructor
    · -- whoever owns a frame or a slot still owns it, but its page no longer says so
      intro hs'
      have hexact := hs'.exact
      rw [hpaged] at hexact
      constructor
      · by_contra hframe
        obtain ⟨f, hf⟩ := Option.ne_none_iff_exists'.mp hframe
        have hclaim := hexact.owner_claims (hs.exact.frame_owned hf)
        rw [hentry] at hclaim
        cases hclaim
      · by_contra hslot
        obtain ⟨sl, hsl⟩ := Option.ne_none_iff_exists'.mp hslot
        have hclaim := hexact.slotOwner_claims (hs.exact.slot_owned hsl)
        rw [hentry] at hclaim
        cases hclaim
    · rintro ⟨hframe, hslot⟩
      rw [PagedStore.forget_of_absent hframe hslot] at hpaged
      refine ⟨?_, hs.coherent.unique, ?_⟩
      · rw [hpaged]
        exact hs.exact
      · rw [hpaged]
        refine hs.coherent.agrees.mono ?_
        rintro v f perm d ⟨hf, hp, hd⟩
        refine ⟨hf, ?_, hd⟩
        -- the TLB holds resident pages only, so it does not hold this one
        rw [growPage_perms hvm, hp]
        rintro rfl
        rw [hk, hframe] at hf
        cases hf

/-! ### Whole calls -/

/-- What the allocator asks of memory. -/
inductive HeapCall where
  | read (addr len : ℕ)
  | write (addr : ℕ) (src : List UInt8)
  | grow
deriving DecidableEq

/-- A memory that also keeps what it was asked for, and in which state. -/
def recordCalls {σ : Type} (o : HeapOps σ) : HeapOps (σ × List (σ × HeapCall)) where
  hasVm := fun s => o.hasVm s.1
  heapStart := fun s => o.heapStart s.1
  heapBreak := fun s => o.heapBreak s.1
  readMem := fun addr len s =>
    let r := (o.readMem addr len).run s.1
    (r.1, r.2, s.2 ++ [(s.1, .read addr len)])
  writeMem := fun addr src s =>
    let r := (o.writeMem addr src).run s.1
    (r.1, r.2, s.2 ++ [(s.1, .write addr src)])
  growPage := fun s => (o.growPage s.1, s.2 ++ [(s.1, .grow)])

/-- The record does not influence the allocator. -/
theorem recordCalls_sim {σ : Type} (o : HeapOps σ) :
    HeapSim (recordCalls o) o fun s t => s.1 = t where
  hasVm := fun s t h => by rw [← h]; rfl
  heapStart := fun s t h => by rw [← h]; rfl
  heapBreak := fun s t h => by rw [← h]; rfl
  readMem := fun addr len s t h => by rw [← h]; exact ⟨rfl, rfl⟩
  writeMem := fun addr src s t h => by rw [← h]; exact ⟨rfl, rfl⟩
  growPage := fun s t h => by rw [← h]; rfl

/-- Calls with the states before them. -/
abbrev CallRecord := List (VmSys × HeapCall)

/-- The accesses of an allocation. -/
def mallocCalls (pid : ℤ) (tick fuel size : ℕ) (s : VmSys) : CallRecord :=
  ((vmAllocMalloc (recordCalls (vmHeapOps pid tick)) fuel size).run (s, [])).2.2

/-- The states in which a page was added. -/
def CallRecord.growth (r : CallRecord) : List VmSys := (r.filter (·.2 = .grow)).map Prod.fst

theorem growth_concat (r : CallRecord) (s : VmSys) (c : HeapCall) :
    CallRecord.growth (r ++ [(s, c)]) = r.growth ++ if c = .grow then [s] else [] := by
  rw [CallRecord.growth, List.filter_append, List.map_append, CallRecord.growth]
  split_ifs with hc <;> simp [hc]

/-- The states in which `vm_alloc_malloc` adds a page to the heap. -/
def growthStates (pid : ℤ) (tick fuel size : ℕ) (s : VmSys) : List VmSys :=
  (mallocCalls pid tick fuel size s).growth

/-- Consistency, as long as pages were added that nobody touched. -/
def GrewOk (pid : ℤ) (s : VmSys) (r : CallRecord) : Prop :=
  (∀ g ∈ r.growth, g.breakUntouched pid = true) →
    s.Ok pid ∧ ∀ g ∈ r.growth, g.Ok pid ∧ (growPage g pid).Ok pid

theorem GrewOk.access {r : CallRecord} {s' : VmSys} {c : HeapCall} (h : GrewOk pid s r)
    (hc : c ≠ .grow) (hs' : s.Ok pid → s'.Ok pid) : GrewOk pid s' (r ++ [(s, c)]) := by
  rw [GrewOk, growth_concat, if_neg hc, List.append_nil]
  exact fun hall => (h hall).imp_left hs'

theorem recordCalls_ok (pid : ℤ) (tick : ℕ) :
    HeapSim (recordCalls (vmHeapOps pid tick)) (recordCalls (vmHeapOps pid tick))
      fun s t => s = t ∧ GrewOk pid s.1 s.2 where
  hasVm := fun s t h => by rw [h.1]
  heapStart := fun s t h => by rw [h.1]
  heapBreak := fun s t h => by rw [h.1]
  readMem := by
    rintro addr len s _ ⟨rfl, hs⟩
    exact ⟨rfl, rfl, hs.access (by simp) fun h => vmReadMem_ok h addr len tick⟩
  writeMem := by
    rintro addr src s _ ⟨rfl, hs⟩
    exact ⟨rfl, rfl, hs.access (by simp) fun h => vmWriteMem_ok h addr src tick⟩
  growPage := by
    rintro s _ ⟨rfl, hs⟩
    refine ⟨rfl, ?_⟩
    show GrewOk pid (growPage s.1 pid) (s.2 ++ [(s.1, .grow)])
    rw [GrewOk, growth_concat, if_pos rfl]
    intro hall
    obtain ⟨hold, hlast⟩ := List.forall_mem_append.mp hall
    obtain ⟨hok, hstates⟩ := hs hold
    have hgrown := (growPage_ok_iff hok).mpr (hlast s.1 List.mem_cons_self)
    refine ⟨hgrown, List.forall_mem_append.mpr ⟨hstates, ?_⟩⟩
    intro g hg
    rw [List.mem_singleton.mp hg]
    exact ⟨hok, hgrown⟩

/-- **Growth.**  From any consistent state, for any process and size: the allocation is
consistent whenever it adds a page, after it did, and at its end, if and only if no page it adds
is resident or swapped out when it is added. -/
theorem growth_consistent (s : VmSys) (pid : ℤ) (hs : s.Ok pid) (tick fuel size : ℕ) :
    (((vmAllocMalloc (vmHeapOps pid tick) fuel size).run s).2.Ok pid ∧
      ∀ g ∈ growthStates pid tick fuel size s, g.Ok pid ∧ (growPage g pid).Ok pid) ↔
    ∀ g ∈ growthStates pid tick fuel size s, g.breakUntouched pid = true := by
  constructor
  · rintro ⟨-, hall⟩ g hg
    exact (growPage_ok_iff (hall g hg).1).mp (hall g hg).2
  · intro hall
    have hsim := (recordCalls_sim (vmHeapOps pid tick)).calls.malloc fuel size (s, []) s rfl
    have hinv := ((recordCalls_ok pid tick).calls.malloc fuel size).invariant (s := (s, []))
      (fun _ => ⟨hs, fun _ hg => nomatch hg⟩) hall
    rw [← hsim.2]
    exact hinv

theorem VmSys.Ok.resident {p : ℤ} {v f : ℕ} (hs : s.Ok pid)
    (hown : frameGetOwner s.frame f = some (p, v)) : (s.pte p v).map (·.present) = some true := by
  obtain ⟨e, he, hpresent, -⟩ := entry_frame_iff.mp (hs.exact.owner_claims hown)
  rw [he, Option.map_some, hpresent]

/-- A process that runs and has touched nothing. -/
def freshProcess : VmSys := (Runs.run MemOp.exec memInit [.create 1, .dispatch 1]).sys

theorem freshProcess_ok : freshProcess.Ok 1 := MemOp.run_ok [.create 1, .dispatch 1]

set_option maxRecDepth 100000 in
/-- Its first allocation adds two pages. -/
theorem growth_consistent_first :
    (growthStates 1 0 8 16 freshProcess).length = 2 ∧
      ((vmAllocMalloc (vmHeapOps 1 0) 8 16).run freshProcess).2.Ok 1 := by
  refine ⟨by decide +kernel, ?_⟩
  exact ((growth_consistent freshProcess 1 freshProcess_ok 0 8 16).mpr (by decide +kernel)).1

/-- The same process after it wrote a byte at the start of the heap. -/
def touchedProcess : VmSys :=
  (Runs.run MemOp.exec memInit [.create 1, .dispatch 1, .write 16384 [7] 0]).sys

set_option maxRecDepth 100000 in
/-- Its first allocation loses the frame of that page: the frame is still owned by a page that
says it has none, and the TLB still leads to it. -/
theorem growth_orphans_frame :
    touchedProcess.Ok 1 ∧
      ¬ ((vmAllocMalloc (vmHeapOps 1 1) 8 16).run touchedProcess).2.Ok 1 := by
  refine ⟨MemOp.run_ok _, fun hok => ?_⟩
  have howner : frameGetOwner ((vmAllocMalloc (vmHeapOps 1 1) 8 16).run touchedProcess).2.frame 0 =
      some (1, 64) := by decide +kernel
  have habsent : (((vmAllocMalloc (vmHeapOps 1 1) 8 16).run touchedProcess).2.pte 1 64).map
      (·.present) = some false := by decide +kernel
  rw [hok.resident howner] at habsent
  cases habsent

end Mosrt
