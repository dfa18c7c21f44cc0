/-
Process memory isolation.

The log records every byte that a `vm_write_mem` stored, with its process and
address: the writes of the process itself and the headers its allocator wrote.
Every byte a process reads is `0` or in the log under its own name and that
address (`reads_isolated`).

`heap_grow` makes pages forget where they are without freeing anything and
without telling the TLB, so exact ownership and coherence are lost.  What is
left, and enough, is `VmSys.Isolated`: claims are sound, TLB entries lead to
frames owned by the acting process's page, and frames and slots hold only bytes
that their owner wrote.
-/
import Mosrt.TlbCoherence
import Mosrt.VmAlloc

namespace Mosrt

variable {s s' : VmSys} {pid : ℤ} {vpn tick : ℕ} {write : Bool} {r : Option ℕ}
  {res : PagerResult} {out : Option ℕ} {st : PagedStore PageKey ℕ ℕ PageContents} {t : TlbState}

/-- Bytes stored so far: process, address, byte. -/
abbrev StoreLog := List (ℤ × ℕ × UInt8)

/-- Every byte of the page is `0` or was stored by its process at its address. -/
def FromLog (log : StoreLog) (k : PageKey) (c : PageContents) : Prop :=
  ∀ off : Fin vmPageSize, c off = 0 ∨ (k.1, k.2 * vmPageSize + off, c off) ∈ log

/-- The frame of a TLB entry belongs to the page of `pid` it is for. -/
def OwnedBy (st : PagedStore PageKey ℕ ℕ PageContents) (pid : ℤ) : TlbCond :=
  fun v f _ _ => st.owner f = some (pid, v)

structure VmSys.Isolated (s : VmSys) (pid : ℤ) (log : StoreLog) : Prop where
  sound : s.paged.Sound
  unique : s.tlb.Unique
  owned : s.tlb.Agrees (OwnedBy s.paged pid)
  within : s.paged.Within (FromLog log)

variable {log : StoreLog}

theorem SameMemory.isolated (h : SameMemory s s') (hs : s.Isolated pid log) :
    s'.Isolated pid log where
  sound := by rw [h.paged]; exact hs.sound
  unique := by rw [h.tlb]; exact hs.unique
  owned := by rw [h.tlb, h.paged]; exact hs.owned
  within := by rw [h.paged]; exact hs.within

theorem VmSys.Isolated.mono {log' : StoreLog} (hs : s.Isolated pid log) (hlog : log ⊆ log') :
    s.Isolated pid log' :=
  ⟨hs.sound, hs.unique, hs.owned,
    hs.within.mono fun _ _ hc off => (hc off).imp id fun hmem => hlog hmem⟩

theorem VmSys.Isolated.lookedUp (hs : s.Isolated pid log) (v n : ℕ) :
    (s.lookedUp v n).Isolated pid log :=
  ⟨hs.sound, hs.unique.lookup, hs.owned.lookup, hs.within⟩

/-! ### Page access -/

/-- Making room keeps isolation: entries for the evicted frame were for the evicted page,
and that page number is flushed. -/
theorem Room.isolated (h : Room s pid st t) (hs : s.Isolated pid log) :
    st.Sound ∧ t.Unique ∧ t.Agrees (OwnedBy st pid) ∧ st.Within (FromLog log) := by
  cases h with
  | free => exact ⟨hs.sound, hs.unique, hs.owned, hs.within⟩
  | @evicted f k _ _ _ hown hev =>
    refine ⟨hs.sound.evicted hown hev, hs.unique.flushEntry, hs.owned.flushEntry ?_,
      hs.within.evicted hown hev⟩
    intro v f' _ _ hv hf'
    have hne : f' ≠ f := by
      rintro rfl
      rw [OwnedBy, hown, Option.some_inj] at hf'
      exact hv (by rw [hf'])
    rw [OwnedBy, hev.owner, Function.update_of_ne hne]
    exact hf'

/-- A page is filled with zeros or with what its own slot holds. -/
theorem Filled.fromLog {k : PageKey} {isMajor : Bool} {c : PageContents} {freed : Option ℕ}
    (h : Filled st k isMajor c freed) (hsound : st.Sound) (hwithin : st.Within (FromLog log)) :
    FromLog log k c ∧ ∀ sl, freed = some sl → st.slotOwner sl = some k := by
  cases h with
  | @major slot hslot _ =>
    have hown := hsound.slot_owned hslot
    refine ⟨hwithin.disk_within hown, ?_⟩
    intro sl hsl
    rw [← Option.some_inj.mp hsl]
    exact hown
  | minor => exact ⟨fun _ => Or.inl rfl, fun _ hsl => by cases hsl⟩

theorem AccessSpec.isolated (h : AccessSpec s pid vpn write tick res out s')
    (hs : s.Isolated pid log) : s'.Isolated pid log := by
  cases h with
  | error _ hsame => exact hsame.isolated hs
  | hit hf _ _ hp ht =>
    have hown := hs.sound.frame_owned hf
    have howned : s'.tlb.Agrees (OwnedBy s.paged pid) := by
      rw [ht]
      exact hs.owned.insert hs.unique (fun _ _ _ _ _ h => h) hown
    have hunique : s'.tlb.Unique := by
      rw [ht]
      exact hs.unique.insert
    cases write with
    | true =>
      rw [if_pos rfl] at hp
      exact ⟨by rw [hp]; exact hs.sound.markDirty, hunique, by rw [hp]; exact howned,
        by rw [hp]; exact hs.within.setEntry _⟩
    | false =>
      rw [if_neg Bool.false_ne_true] at hp
      exact ⟨by rw [hp]; exact hs.sound, hunique, by rw [hp]; exact howned,
        by rw [hp]; exact hs.within⟩
  | @fault f _ st _ _ _ _ _ _ _ _ hroom _ hfree _ hfill hp ht =>
    obtain ⟨hsound, hunique, howned, hwithin⟩ := hroom.isolated hs
    obtain ⟨hc, hfreed⟩ := hfill.fromLog hsound hwithin
    refine ⟨?_, ?_, ?_, ?_⟩
    · rw [hp]
      exact hsound.load hfree _ _ hfreed
    · rw [ht]
      exact hunique.flushEntry.insert
    · rw [ht, hp]
      refine (howned.flushEntry fun _ _ _ _ _ h => h).insert hunique.flushEntry ?_ ?_
      · intro v f' _ _ _ hf'
        have hne : f' ≠ f := by
          rintro rfl
          rw [OwnedBy, hfree] at hf'
          cases hf'
        simpa [OwnedBy, PagedStore.load, hne] using hf'
      · simp [OwnedBy, PagedStore.load]
    · rw [hp]
      exact hwithin.load hc _ _

/-! ### Translation -/

theorem Translated.isolated (h : Translated s pid vpn write tick r s')
    (hs : s.Isolated pid log) : s'.Isolated pid log := by
  cases h with
  | tlbRefused _ _ => exact hs.lookedUp vpn tick
  | @tlbServed hit _ hr _ hp ht =>
    have hs₁ := hs.lookedUp vpn tick
    have hown : OwnedBy s.paged pid vpn hit.pfn hit.permissions hit.dirty := hs.owned.hit hr
    have htlb : s'.tlb.Unique ∧ s'.tlb.Agrees (OwnedBy s.paged pid) := by
      rcases ht with ⟨ht, -⟩ | ⟨ht, -⟩
      · rw [ht]
        exact ⟨hs₁.unique, hs₁.owned⟩
      · rw [ht]
        exact ⟨hs₁.unique.insert, hs₁.owned.insert hs₁.unique (fun _ _ _ _ _ h => h) hown⟩
    cases write with
    | true =>
      rw [if_pos rfl] at hp
      exact ⟨by rw [hp]; exact hs.sound.markDirty, htlb.1, by rw [hp]; exact htlb.2,
        by rw [hp]; exact hs.within.setEntry _⟩
    | false =>
      rw [if_neg Bool.false_ne_true] at hp
      exact ⟨by rw [hp]; exact hs.sound, htlb.1, by rw [hp]; exact htlb.2,
        by rw [hp]; exact hs.within⟩
  | failed _ _ hsame => exact hsame.isolated (hs.lookedUp vpn tick)
  | walked _ hacc _ hp ht =>
    have hs₁ := hacc.isolated (hs.lookedUp vpn tick)
    refine ⟨?_, ?_, ?_, ?_⟩
    · rw [hp]
      exact hs₁.sound
    · rw [ht]
      exact hs₁.unique.insert
    · rw [ht, hp]
      exact hs₁.owned.insert hs₁.unique (fun _ _ _ _ _ h => h) (hs₁.sound.frame_owned hacc.frame)
    · rw [hp]
      exact hs₁.within

/-- The frame a translation gives belongs to the page translated. -/
theorem Translated.owner {f : ℕ} (h : Translated s pid vpn write tick (some f) s')
    (hs : s.Isolated pid log) : s'.paged.owner f = some (pid, vpn) := by
  cases h with
  | tlbServed hr _ hp =>
    have hown : s.paged.owner _ = some (pid, vpn) := hs.owned.hit hr
    rw [hp]
    split_ifs <;> exact hown
  | walked _ hacc _ hp =>
    rw [hp]
    exact (hacc.isolated (hs.lookedUp vpn tick)).sound.frame_owned hacc.frame

/-! ### Bytes -/

theorem vmReadByte_isolated (hs : s.Isolated pid log) (addr tick : ℕ) :
    (vmReadByte s pid addr tick).2.Isolated pid log ∧
      ∀ b, (vmReadByte s pid addr tick).1 = some b → b = 0 ∨ (pid, addr, b) ∈ log := by
  obtain ⟨r, s₁, htr, heq⟩ := vmReadByte_spec hs.sound pid addr tick
  have hs₁ := htr.isolated hs
  rw [heq]
  refine ⟨hs₁, ?_⟩
  intro b hb
  cases r with
  | none => cases hb
  | some f =>
    have hown := htr.owner hs
    rw [Option.map_some, Option.some_inj] at hb
    have hbyte : b = s₁.paged.ram f (pageOffset addr) :=
      hb.symm.trans (frameReadByte_eq (frameGetOwner_lt hown) (pageOffset addr))
    have hfrom := hs₁.within.ram_within hown (pageOffset addr)
    rw [addr_eq, ← hbyte] at hfrom
    exact hfrom

theorem vmWriteByte_isolated (hs : s.Isolated pid log) (hvm : (s.vms pid).isSome) (addr : ℕ)
    (b : UInt8) (tick : ℕ) :
    if (vmWriteByte s pid addr b tick).1 then
      (vmWriteByte s pid addr b tick).2.Isolated pid (log ++ [(pid, addr, b)])
    else (vmWriteByte s pid addr b tick).2.Isolated pid log := by
  obtain ⟨r, s₁, htr, heq⟩ := vmWriteByte_spec hs.sound hvm addr b tick
  have hs₁ := htr.isolated hs
  rw [heq]
  cases r with
  | none => exact hs₁
  | some f =>
    have hown := htr.owner hs
    have hpaged : (s₁.setByte f (offsetOf addr) b).paged = _ :=
      paged_setByte (frameGetOwner_lt hown)
    have hs₂ : s₁.Isolated pid (log ++ [(pid, addr, b)]) := hs₁.mono (List.subset_append_left _ _)
    show (s₁.setByte f (offsetOf addr) b).Isolated pid _
    refine ⟨?_, hs₁.unique, ?_, ?_⟩
    · rw [hpaged]
      exact hs₁.sound.store _
    · rw [hpaged]
      exact hs₁.owned
    · rw [hpaged]
      refine hs₂.within.store hown ?_
      intro off
      rw [Function.update_apply]
      split_ifs with hoff
      · refine Or.inr ?_
        rw [hoff, addr_eq]
        exact List.mem_append_right _ (List.mem_singleton.mpr rfl)
      · exact hs₂.within.ram_within hown off

/-! ### Calls -/

/-- The log entries of the first `n` bytes of a write. -/
def storedBytes (pid : ℤ) (virtAddr : ℕ) (src : List UInt8) (n : ℕ) : StoreLog :=
  (List.range n).map fun i => (pid, virtAddr + i, src.getD i 0)

theorem storedBytes_succ {virtAddr i : ℕ} {src : List UInt8} {b : UInt8} (hb : src[i]? = some b) :
    storedBytes pid virtAddr src (i + 1) =
      storedBytes pid virtAddr src i ++ [(pid, virtAddr + i, b)] := by
  rw [storedBytes, List.range_succ, List.map_append, List.map_singleton, List.getD, hb]
  rfl

theorem vmReadMem_isolated (hs : s.Isolated pid log) (virtAddr len tick : ℕ) :
    (vmReadMem s pid virtAddr len tick).2.Isolated pid log ∧
      ∀ bs, (vmReadMem s pid virtAddr len tick).1 = some bs →
        bs.length = len ∧ ∀ j b, bs[j]? = some b → b = 0 ∨ (pid, virtAddr + j, b) ∈ log :=
  vmReadMem_induct (Q := fun a b => b = 0 ∨ (pid, a, b) ∈ log) (fun _ _ h hs => h.isolated hs)
    (fun _ _ _ hs => vmReadByte_isolated hs _ _) (fun _ => readAlong_true _ _ _ _) hs

/-- A write adds the bytes it stored to the log, whether it succeeds or not. -/
theorem vmWriteMem_isolated (hs : s.Isolated pid log) (virtAddr : ℕ) (src : List UInt8)
    (tick : ℕ) :
    (vmWriteMem s pid virtAddr src tick).2.2.Isolated pid
      (log ++ storedBytes pid virtAddr src (vmWriteMem s pid virtAddr src tick).2.1) := by
  have hzero : storedBytes pid virtAddr src 0 = [] := rfl
  refine vmWriteMem_induct (I := fun i s => s.Isolated pid (log ++ storedBytes pid virtAddr src i))
    (E := fun i s => s.Isolated pid (log ++ storedBytes pid virtAddr src i))
    (fun _ _ _ h hs => h.isolated hs) (fun _ _ hs => hs.sound) ?_ (fun _ hs => hs)
    (fun _ => writeAlong_true _ _ _ _) ?_ ?_
  · intro i b s hb _ hvm _ hs
    have hbyte := vmWriteByte_isolated hs hvm (virtAddr + i) b tick
    rw [List.append_assoc, ← storedBytes_succ hb] at hbyte
    exact hbyte
  · rw [hzero, List.append_nil]
    exact hs
  · rw [hzero, List.append_nil]
    exact hs

/-! ### The allocator -/

/-- Growing by a page makes that page forget its frame and slot. -/
theorem growPage_paged {vm : VmState} {q : ℤ} (hvm : s.vms q = some vm) :
    (growPage s q).paged = s.paged.forget (q, vpnOf vm.heapBreak) := by
  refine PagedStore.ext ?_ rfl rfl rfl rfl
  funext ⟨p, v⟩
  simp only [VmSys.paged, growPage, modifyVm_pte, hvm, Option.map_some, PagedStore.forget,
    PagedStore.setEntry, Function.update_apply, Prod.mk.injEq]
  by_cases hp : p = q
  · subst hp
    by_cases hv : v = vpnOf vm.heapBreak
    · simp [hv, VmSys.pte, hvm, entryOf]
    · simp [hv, VmSys.pte, hvm]
  · simp [hp]

theorem growPage_none {q : ℤ} (hvm : s.vms q = none) : growPage s q = s := by
  rw [growPage, VmSys.modifyVm, hvm, Option.map_none, ← hvm, Function.update_eq_self]

theorem growPage_isolated (hs : s.Isolated pid log) (q : ℤ) : (growPage s q).Isolated pid log := by
  cases hvm : s.vms q with
  | none =>
    rw [growPage_none hvm]
    exact hs
  | some vm =>
    refine ⟨?_, hs.unique, ?_, ?_⟩
    · rw [growPage_paged hvm]
      exact hs.sound.forget
    · rw [growPage_paged hvm]
      exact hs.owned
    · rw [growPage_paged hvm]
      exact hs.within.setEntry _

/-- The paged heap with a log of the bytes it stores. -/
def loggedHeapOps (pid : ℤ) (tick : ℕ) : HeapOps (VmSys × StoreLog) where
  hasVm := fun s => (vmHeapOps pid tick).hasVm s.1
  heapStart := fun s => (vmHeapOps pid tick).heapStart s.1
  heapBreak := fun s => (vmHeapOps pid tick).heapBreak s.1
  readMem := fun addr len s =>
    let r := vmReadMem s.1 pid addr len tick
    (r.1, r.2, s.2)
  writeMem := fun addr src s =>
    let r := vmWriteMem s.1 pid addr src tick
    (r.1, r.2.2, s.2 ++ storedBytes pid addr src r.2.1)
  growPage := fun s => (growPage s.1 pid, s.2)

/-- The log does not influence the allocator. -/
theorem loggedHeapOps_sim (pid : ℤ) (tick : ℕ) :
    HeapSim (loggedHeapOps pid tick) (vmHeapOps pid tick) fun s t => s.1 = t where
  hasVm := fun s t h => by rw [← h]; rfl
  heapStart := fun s t h => by rw [← h]; rfl
  heapBreak := fun s t h => by rw [← h]; rfl
  readMem := fun addr len s t h => by rw [← h]; exact ⟨rfl, rfl⟩
  writeMem := fun addr src s t h => by rw [← h]; exact ⟨rfl, rfl⟩
  growPage := fun s t h => by rw [← h]; rfl

/-- The allocator keeps isolation, over the log before it and what it logs itself. -/
theorem loggedHeapOps_isolated (pid : ℤ) (tick : ℕ) (log : StoreLog) :
    HeapSim (loggedHeapOps pid tick) (loggedHeapOps pid tick)
      fun s t => s = t ∧ s.1.Isolated pid (log ++ s.2) where
  hasVm := fun s t h => by rw [h.1]
  heapStart := fun s t h => by rw [h.1]
  heapBreak := fun s t h => by rw [h.1]
  readMem := by
    rintro addr len s _ ⟨rfl, hs⟩
    exact ⟨rfl, rfl, (vmReadMem_isolated hs addr len tick).1⟩
  writeMem := by
    rintro addr src s _ ⟨rfl, hs⟩
    refine ⟨rfl, rfl, ?_⟩
    have := vmWriteMem_isolated hs addr src tick
    rw [List.append_assoc] at this
    exact this
  growPage := by
    rintro s _ ⟨rfl, hs⟩
    exact ⟨rfl, growPage_isolated hs pid⟩

/-! ### Runs -/

/-- Memory operations and allocator calls of the acting process. -/
inductive HeapOp where
  | mem (op : MemOp)
  | malloc (size tick fuel : ℕ)
  | free (addr tick : ℕ)

/-- A `malloc` that is still running when its fuel is spent leaves the state it has reached. -/
def HeapOp.exec (m : MemSys) : HeapOp → MemSys
  | .mem op => op.exec m
  | .malloc size tick fuel =>
    { m with sys := ((vmAllocMalloc (vmHeapOps m.acting tick) fuel size).run m.sys).2 }
  | .free addr tick =>
    { m with sys := ((vmAllocFree (vmHeapOps m.acting tick) addr).run m.sys).2 }

/-- The bytes an operation stores. -/
def HeapOp.stored (m : MemSys) : HeapOp → StoreLog
  | .mem (.write virtAddr src tick) =>
    storedBytes m.acting virtAddr src (vmWriteMem m.sys m.acting virtAddr src tick).2.1
  | .mem _ => []
  | .malloc size tick fuel =>
    ((vmAllocMalloc (loggedHeapOps m.acting tick) fuel size).run (m.sys, [])).2.2
  | .free addr tick => ((vmAllocFree (loggedHeapOps m.acting tick) addr).run (m.sys, [])).2.2

theorem vmSpawn_isolated (hs : s.Isolated pid log) (q : ℤ) : (vmSpawn s q).Isolated pid log where
  sound := by rw [vmSpawn_paged]; exact hs.sound
  unique := by rw [vmSpawn_tlb]; exact hs.unique
  owned := by rw [vmSpawn_tlb, vmSpawn_paged]; exact hs.owned
  within := by rw [vmSpawn_paged]; exact hs.within

theorem HeapOp.exec_isolated (op : HeapOp) {m : MemSys} (hm : m.sys.Isolated m.acting log) :
    (op.exec m).sys.Isolated (op.exec m).acting (log ++ op.stored m) := by
  -- a logged run from the empty log ends in the state of the plain run
  have hstart : m.sys.Isolated m.acting (log ++ []) := by
    rw [List.append_nil]
    exact hm
  cases op with
  | mem op =>
    cases op with
    | create q => exact vmSpawn_isolated hstart q
    | dispatch q => exact ⟨hstart.sound, tlbFlush_unique, tlbFlush_agrees, hstart.within⟩
    | read virtAddr len tick => exact (vmReadMem_isolated hstart virtAddr len tick).1
    | write virtAddr src tick => exact vmWriteMem_isolated hm virtAddr src tick
    | setPolicy name => exact (pagerSetPolicy_sameMemory m.sys name).isolated hstart
  | malloc size tick fuel =>
    have hsim := (loggedHeapOps_sim m.acting tick).calls.malloc fuel size (m.sys, []) m.sys rfl
    have hiso := ((loggedHeapOps_isolated m.acting tick log).calls.malloc fuel size).invariant
      (s := (m.sys, [])) hstart
    rw [hsim.2] at hiso
    exact hiso
  | free addr tick =>
    have hsim := (loggedHeapOps_sim m.acting tick).calls.free addr (m.sys, []) m.sys rfl
    have hiso := ((loggedHeapOps_isolated m.acting tick log).calls.free addr).invariant
      (s := (m.sys, [])) hstart
    rw [hsim.2] at hiso
    exact hiso

theorem memInit_isolated : memInit.sys.Isolated memInit.acting [] where
  sound := vmInit_exact.toSound
  unique := memInit_ok.coherent.unique
  owned := by
    intro i _ hv
    cases hv
  within := by
    constructor
    · intro f k hown
      simp [memInit, VmSys.paged, vmInit, frameInit, frameGetOwner] at hown
    · intro sl k hown
      simp [memInit, VmSys.paged, vmInit, swapInit, swapGetOwner] at hown

theorem HeapOp.run_isolated (ops : List HeapOp) :
    (Runs.run HeapOp.exec memInit ops).sys.Isolated (Runs.run HeapOp.exec memInit ops).acting
      (Runs.history HeapOp.exec (fun m op => op.stored m) memInit ops) :=
  Runs.run_history (I := fun (m : MemSys) log => m.sys.Isolated m.acting log)
    (fun _ _ op hm _ => HeapOp.exec_isolated op hm) memInit_isolated (Runs.along_true _ _)

/-- **Isolation**: after any operations, every byte that a successful read delivers is `0` or
a byte that the reading process itself stored at that address. -/
theorem reads_isolated (ops : List HeapOp) (virtAddr len tick : ℕ) (bs : List UInt8)
    (hread : (vmReadMem (Runs.run HeapOp.exec memInit ops).sys
      (Runs.run HeapOp.exec memInit ops).acting virtAddr len tick).1 = some bs)
    (i : ℕ) (b : UInt8) (hb : bs[i]? = some b) :
    b = 0 ∨ ((Runs.run HeapOp.exec memInit ops).acting, virtAddr + i, b) ∈
      Runs.history HeapOp.exec (fun m op => op.stored m) memInit ops := by
  obtain ⟨-, hbytes⟩ := vmReadMem_isolated (HeapOp.run_isolated ops) virtAddr len tick
  exact (hbytes bs hread).2 i b hb

/-- A process allocates four bytes and reads back the size in the header. -/
theorem reads_isolated_header :
    (4 : UInt8) = 0 ∨ ((1 : ℤ), 0x4000 + 0, (4 : UInt8)) ∈
      Runs.history HeapOp.exec (fun m op => op.stored m) memInit
        [.mem (.create 1), .mem (.dispatch 1), .malloc 4 0 2] :=
  reads_isolated [.mem (.create 1), .mem (.dispatch 1), .malloc 4 0 2] 0x4000 1 0 [4]
    (by decide +kernel) 0 4 rfl

end Mosrt
