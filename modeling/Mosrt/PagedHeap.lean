/-
The heap of a process in paged memory.

`VmSys.heaps` is what the address spaces hold, byte by byte, wherever a page happens to be.
The allocator works on it as on a flat heap as long as its accesses do no harm: no page
access discards data, and the heap grows over pages that nobody touched.  What an access
needs is said of the state before it (`HeapCall.spares`, `HeapCall.served`).

* `vmReadMem_heaps`, `vmWriteMem_heaps`, `growPage_heaps` — one access;
* `recordCalls_upto` — paged memory against a flat heap, up to the first harmful access;
* `malloc_paged` — an allocation visits no header twice, comes to an end, and leaves a
  well-formed heap if it succeeds; `free_paged` — so does a release that is not refused an
  access.
-/
import Mosrt.FlatMemory
import Mosrt.HeapGrowth
import Mosrt.HeapWalk
import Mosrt.Protection

namespace Mosrt

open BlockList StateSim

variable {s s' : VmSys} {pid : ℤ} {tick fuel size addr : ℕ} {src : List UInt8} {h : FlatHeap}
  {mem : ℤ → ℕ → UInt8} {bs : List Block}

/-! ### What address spaces hold -/

/-- The bytes of a process, in frames, in swap, or `0`. -/
def VmSys.bytes (s : VmSys) (p : ℤ) (a : ℕ) : UInt8 :=
  s.paged.value (fun _ => 0) (p, vpnOf a) (pageOffset a)

/-- Each address space as a flat heap. -/
def VmSys.heaps (s : VmSys) (p : ℤ) : Option FlatHeap :=
  (s.vms p).map fun vm => ⟨s.bytes p, vm.heapBreak⟩

/-- Ownership is exact, the TLB agrees with the page table of `pid`, and permissions and heaps
are where they belong. -/
structure VmSys.Reliable (s : VmSys) (pid : ℤ) : Prop where
  ok : s.Ok pid
  guarded : Guarded s

theorem VmSys.Reliable.shows (hs : s.Reliable pid) : s.Shows pid s.bytes where
  ok := hs.ok
  perms := hs.guarded.perms
  value := by
    intro p v off
    obtain ⟨hv, hoff⟩ := (addr_eq_iff (v * vmPageSize + off) v off).mp rfl
    rw [VmSys.bytes, ← hv, ← hoff]

theorem VmSys.Shows.bytes (hs : s.Shows pid mem) : s.bytes = mem := by
  funext p a
  rw [VmSys.bytes, hs.value, addr_eq]

theorem heaps_eq_some {p : ℤ} :
    s.heaps p = some h ↔ ∃ vm, s.vms p = some vm ∧ s.bytes p = h.mem ∧
      vm.heapBreak = h.heapBreak := by
  rw [VmSys.heaps, Option.map_eq_some_iff]
  constructor
  · rintro ⟨vm, hvm, rfl⟩
    exact ⟨vm, hvm, rfl, rfl⟩
  · rintro ⟨vm, hvm, hmem, hbreak⟩
    exact ⟨vm, hvm, by rw [hmem, hbreak]⟩

/-- Where heaps stay where they are, only bytes can change. -/
theorem SameExtents.heaps (hext : SameExtents s s') (p : ℤ) :
    s'.heaps p = (s.heaps p).map fun h => { h with mem := s'.bytes p } := by
  have hp := hext p
  rw [VmSys.heaps, VmSys.heaps]
  cases hvm : s.vms p with
  | none =>
    rw [hvm, Option.map_none, Option.map_eq_none_iff] at hp
    rw [hp]
    rfl
  | some vm =>
    rw [hvm, Option.map_some, Option.map_eq_some_iff] at hp
    obtain ⟨vm', hvm', hsame⟩ := hp
    have hbreak : vm'.heapBreak = vm.heapBreak := congrArg Prod.snd hsame
    rw [hvm', Option.map_some, Option.map_some, hbreak]
    rfl

theorem SameExtents.heaps_same (hext : SameExtents s s') (hbytes : s'.bytes = s.bytes) :
    s'.heaps = s.heaps := by
  funext p
  rw [hext.heaps, hbytes]
  cases hvm : s.heaps p with
  | none => rfl
  | some h' =>
    obtain ⟨vm, -, hmem, -⟩ := heaps_eq_some.mp hvm
    rw [Option.map_some, hmem]

/-- The address space of `pid` alone has changed. -/
theorem SameExtents.heaps_update (hext : SameExtents s s') (hh : s.heaps pid = some h)
    {f : ℕ → UInt8} (hbytes : s'.bytes = Function.update s.bytes pid f) :
    s'.heaps = Function.update s.heaps pid (some { h with mem := f }) := by
  funext p
  rw [hext.heaps, hbytes, Function.update_apply, Function.update_apply]
  split_ifs with hp
  · rw [hp, hh, Option.map_some]
  · cases hvm : s.heaps p with
    | none => rfl
    | some h' =>
      obtain ⟨vm, -, hmem, -⟩ := heaps_eq_some.mp hvm
      rw [Option.map_some, hmem]

/-! ### One access -/

/-- The call discards no data, and grows the heap over no page that was touched. -/
def HeapCall.spares (pid : ℤ) (tick : ℕ) (s : VmSys) : HeapCall → Bool
  | .read addr len =>
    decide (vmVirtAddrSpaceSize < addr + len) ||
      readAlong pid addr tick (readKeeps pid addr) len 0 s
  | .write addr src =>
    decide (vmVirtAddrSpaceSize < addr + src.length) ||
      writeAlong pid addr tick (writeSpares pid addr) src 0 s
  | .grow => s.breakUntouched pid

/-- The call is not refused. -/
def HeapCall.served (pid : ℤ) (tick : ℕ) (s : VmSys) : HeapCall → Bool
  | .read addr len => (vmReadMem s pid addr len tick).1.isSome
  | .write addr src => (vmWriteMem s pid addr src tick).1
  | .grow => true

/-- A read changes no heap, and delivers what the heap of its process holds. -/
theorem vmReadMem_heaps {len : ℕ} (hs : s.Reliable pid)
    (hcall : (HeapCall.read addr len).spares pid tick s = true) :
    (vmReadMem s pid addr len tick).2.Reliable pid ∧
      (vmReadMem s pid addr len tick).2.heaps = s.heaps ∧
      ∀ bs, (vmReadMem s pid addr len tick).1 = some bs →
        bs = (List.range len).map fun i => s.bytes pid (addr + i) := by
  have hsteps := vmReadMem_steps s pid addr len tick
  have hok : addr + len ≤ vmVirtAddrSpaceSize →
      readAlong pid addr tick (readKeeps pid addr) len 0 s = true := by
    intro hrange
    simpa [HeapCall.spares, Nat.not_lt.mpr hrange] using hcall
  obtain ⟨hshows, hbytes⟩ := vmReadMem_shows hs.shows hok
  refine ⟨⟨hshows.ok, hsteps.memSteps.guarded hs.guarded⟩, hsteps.extents.heaps_same hshows.bytes,
    fun bs hread => ?_⟩
  obtain ⟨hlen, hget⟩ := hbytes bs hread
  exact eq_map_range hlen hget

theorem flatWrite_eq_update (hmem : mem pid = h.mem) (addr : ℕ) (src : List UInt8) :
    flatWrite mem ⟨pid, addr, src⟩ = Function.update mem pid (h.write addr src).mem := by
  funext p a
  rw [flatWrite, Function.update_apply]
  by_cases hp : p = pid
  · rw [if_pos hp, hp, hmem, FlatHeap.write]
    simp only [true_and]
  · rw [if_neg hp, if_neg fun hin => hp hin.1]

/-- A write changes the heap of its process by the bytes it stored. -/
theorem vmWriteMem_heaps (hs : s.Reliable pid) (hh : s.heaps pid = some h)
    (hcall : (HeapCall.write addr src).spares pid tick s = true) :
    (vmWriteMem s pid addr src tick).2.2.Reliable pid ∧
      (vmWriteMem s pid addr src tick).2.2.heaps = Function.update s.heaps pid
        (some (h.write addr (src.take (vmWriteMem s pid addr src tick).2.1))) := by
  have hsteps := vmWriteMem_steps s pid addr src tick
  have hok : addr + src.length ≤ vmVirtAddrSpaceSize →
      writeAlong pid addr tick (writeSpares pid addr) src 0 s = true := by
    intro hrange
    simpa [HeapCall.spares, Nat.not_lt.mpr hrange] using hcall
  have hshows := vmWriteMem_stored hs.shows hok
  obtain ⟨vm, -, hmem, -⟩ := heaps_eq_some.mp hh
  refine ⟨⟨hshows.ok, hsteps.memSteps.guarded hs.guarded⟩, hsteps.extents.heaps_update hh ?_⟩
  rw [hshows.bytes, flatWrite_eq_update hmem]
  rfl

/-- A page that nobody touched is all zeros, before and after the heap grows over it. -/
theorem growPage_heaps (hs : s.Reliable pid) (hh : s.heaps pid = some h)
    (hroom : (h.heapBreak - vmSegHeapStart) / vmPageSize < vmSegHeapMaxPages)
    (hcall : s.breakUntouched pid = true) :
    (growPage s pid).Reliable pid ∧ (growPage s pid).heaps = Function.update s.heaps pid
      (some { h with heapBreak := (h.heapBreak + vmPageSize) % 2 ^ 16 }) := by
  obtain ⟨vm, hvm, hmem, hbreak⟩ := heaps_eq_some.mp hh
  have hstart : vm.heapStart = vmSegHeapStart :=
    (hs.guarded.heap pid vm.extent (by rw [hvm]; rfl)).1
  obtain ⟨hframe, hslot⟩ := (breakUntouched_iff hvm).mp hcall
  have hpaged : (growPage s pid).paged = s.paged := by
    rw [growPage_paged hvm, PagedStore.forget_of_absent hframe hslot]
  have hbytes : (growPage s pid).bytes = s.bytes := by
    funext p a
    rw [VmSys.bytes, VmSys.bytes, hpaged]
  refine ⟨⟨(growPage_ok_iff hs.ok).mpr hcall, ?_⟩, ?_⟩
  · refine growPage_guarded hs.guarded hvm ?_
    rw [hstart, hbreak]
    exact hroom
  · funext p
    rw [VmSys.heaps, hbytes, Function.update_apply]
    split_ifs with hp
    · rw [hp, growPage_vms hvm, Option.map_some, hmem, hbreak]
    · have hother : (growPage s pid).vms p = s.vms p := Function.update_of_ne hp _ _
      rw [hother, VmSys.heaps]

/-! ### The record of a call -/

/-- The accesses of a release. -/
def freeCalls (pid : ℤ) (tick addr : ℕ) (s : VmSys) : CallRecord :=
  ((vmAllocFree (recordCalls (vmHeapOps pid tick)) addr).run (s, [])).2.2

/-- No call does harm; where `strict`, none is refused. -/
def CallRecord.harmless (r : CallRecord) (pid : ℤ) (tick : ℕ) (strict : Bool) : Bool :=
  r.all fun e => e.2.spares pid tick e.1 && (!strict || e.2.served pid tick e.1)

/-- The record of a computation so far is harmless. -/
def RecordOk (pid : ℤ) (tick : ℕ) (strict : Bool) (s : VmSys × CallRecord) : Prop :=
  s.2.harmless pid tick strict = true

section Record

variable {strict : Bool} {H : ℤ → Option FlatHeap} {x : VmSys × CallRecord}

theorem harmless_concat {r : CallRecord} {c : HeapCall} :
    CallRecord.harmless (r ++ [(s, c)]) pid tick strict = true ↔
      r.harmless pid tick strict = true ∧ c.spares pid tick s = true ∧
        (strict = true → c.served pid tick s = true) := by
  rw [CallRecord.harmless, List.all_append, List.all_cons, List.all_nil, Bool.and_true]
  cases strict with
  | true => simp [CallRecord.harmless]
  | false => simp [CallRecord.harmless]

/-- The address spaces hold `H`, but that of `pid` holds `h`. -/
structure Holds (H : ℤ → Option FlatHeap) (pid : ℤ) (x : VmSys × CallRecord) (h : FlatHeap) :
    Prop where
  reliable : x.1.Reliable pid
  heaps : x.1.heaps = Function.update H pid (some h)

theorem Holds.own (hx : Holds H pid x h) : x.1.heaps pid = some h := by
  rw [hx.heaps, Function.update_self]

theorem Holds.bytes (hx : Holds H pid x h) : x.1.bytes pid = h.mem := by
  obtain ⟨vm, -, hmem, -⟩ := heaps_eq_some.mp hx.own
  exact hmem

theorem Holds.read {len : ℕ} (hx : Holds H pid x h)
    (hcall : (HeapCall.read addr len).spares pid tick x.1 = true) :
    Holds H pid (((recordCalls (vmHeapOps pid tick)).readMem addr len).run x).2 h ∧
      ∀ bs, (((recordCalls (vmHeapOps pid tick)).readMem addr len).run x).1 = some bs →
        bs = (List.range len).map fun i => h.mem (addr + i) := by
  obtain ⟨hrel, hsame, hread⟩ := vmReadMem_heaps hx.reliable hcall
  rw [hx.bytes] at hread
  exact ⟨⟨hrel, hsame.trans hx.heaps⟩, hread⟩

theorem Holds.write (hx : Holds H pid x h)
    (hcall : (HeapCall.write addr src).spares pid tick x.1 = true) :
    Holds H pid (((recordCalls (vmHeapOps pid tick)).writeMem addr src).run x).2
      (h.write addr (src.take (vmWriteMem x.1 pid addr src tick).2.1)) := by
  obtain ⟨hrel, hheaps⟩ := vmWriteMem_heaps hx.reliable hx.own hcall
  refine ⟨hrel, hheaps.trans ?_⟩
  rw [hx.heaps, Function.update_idem]

theorem Holds.grow (hx : Holds H pid x h)
    (hroom : (h.heapBreak - vmSegHeapStart) / vmPageSize < vmSegHeapMaxPages)
    (hcall : x.1.breakUntouched pid = true) :
    Holds H pid ((recordCalls (vmHeapOps pid tick)).growPage x)
      ((flatHeapOps FlatHeap.mem).growPage h) := by
  obtain ⟨hrel, hheaps⟩ := growPage_heaps hx.reliable hx.own hroom hcall
  have hgrown : (flatHeapOps FlatHeap.mem).growPage h =
      { h with heapBreak := (h.heapBreak + vmPageSize) % 2 ^ 16 } := by
    rw [flatHeapOps]
    simp only [ite_self]
  refine ⟨hrel, hheaps.trans ?_⟩
  rw [hx.heaps, Function.update_idem, hgrown]

theorem RecordOk.of_growPage
    (hok : RecordOk pid tick strict ((recordCalls (vmHeapOps pid tick)).growPage x)) :
    RecordOk pid tick strict x := (harmless_concat.mp hok).1

/-- Growing by pages that the limit allows. -/
theorem Holds.growPages (hx : Holds H pid x h) (n : ℕ)
    (hroom : (h.heapBreak - vmSegHeapStart) / vmPageSize + n ≤ vmSegHeapMaxPages)
    (hok : RecordOk pid tick strict ((recordCalls (vmHeapOps pid tick)).growPage^[n] x)) :
    Holds H pid ((recordCalls (vmHeapOps pid tick)).growPage^[n] x)
      ((flatHeapOps FlatHeap.mem).growPage^[n] h) := by
  induction n generalizing x h with
  | zero => exact hx
  | succ n ih =>
    rw [Function.iterate_succ_apply] at hok ⊢
    rw [Function.iterate_succ_apply]
    have hcall := (harmless_concat.mp (lost_iterate (fun _ => RecordOk.of_growPage) n _ hok)).2.1
    refine ih (hx.grow (by omega) hcall) ?_ hok
    have hle : ((flatHeapOps FlatHeap.mem).growPage h).heapBreak ≤ h.heapBreak + vmPageSize :=
      Nat.mod_le _ _
    generalize ((flatHeapOps FlatHeap.mem).growPage h).heapBreak = b at hle ⊢
    have hsub : b - vmSegHeapStart ≤ h.heapBreak - vmSegHeapStart + vmPageSize := by omega
    have hdiv := Nat.div_le_div_right (c := vmPageSize) hsub
    rw [Nat.add_div_right _ (by decide)] at hdiv
    linarith

/-! ### Paged memory against a flat heap -/

theorem Holds.hasVm (hx : Holds H pid x h) (tick : ℕ) :
    (recordCalls (vmHeapOps pid tick)).hasVm x = true := by
  obtain ⟨vm, hvm, -, -⟩ := heaps_eq_some.mp hx.own
  show (x.1.vms pid).isSome = true
  rw [hvm, Option.isSome_some]

theorem Holds.heapStart (hx : Holds H pid x h) (tick : ℕ) :
    (recordCalls (vmHeapOps pid tick)).heapStart x = vmSegHeapStart := by
  obtain ⟨vm, hvm, -, -⟩ := heaps_eq_some.mp hx.own
  show ((x.1.vms pid).map (·.heapStart)).getD 0 = _
  rw [hvm, Option.map_some, Option.getD_some]
  exact (hx.reliable.guarded.heap pid vm.extent (by rw [hvm]; rfl)).1

theorem Holds.heapBreak (hx : Holds H pid x h) (tick : ℕ) :
    (recordCalls (vmHeapOps pid tick)).heapBreak x = h.heapBreak := by
  obtain ⟨vm, hvm, -, hbreak⟩ := heaps_eq_some.mp hx.own
  show ((x.1.vms pid).map (·.heapBreak)).getD 0 = _
  rw [hvm, Option.map_some, Option.getD_some, hbreak]

theorem heapGrow_eq {σ : Type} (o : HeapOps σ) (n : ℕ) (x : σ) :
    (heapGrow o n).run x =
      if o.hasVm x = false ∨ n = 0 then (false, x)
      else if vmSegHeapMaxPages < (o.heapBreak x - o.heapStart x) / vmPageSize + n then (false, x)
      else (true, o.growPage^[n] x) := by
  rw [heapGrow, run_get_bind]
  split_ifs <;> rfl

theorem Holds.heapGrow (hx : Holds H pid x h) (n : ℕ)
    (hok : RecordOk pid tick strict ((heapGrow (recordCalls (vmHeapOps pid tick)) n).run x).2) :
    ((heapGrow (recordCalls (vmHeapOps pid tick)) n).run x).1 =
        ((heapGrow (flatHeapOps FlatHeap.mem) n).run h).1 ∧
      Holds H pid ((heapGrow (recordCalls (vmHeapOps pid tick)) n).run x).2
        ((heapGrow (flatHeapOps FlatHeap.mem) n).run h).2 := by
  have hvm : (flatHeapOps FlatHeap.mem).hasVm h = true := rfl
  have hstart : (flatHeapOps FlatHeap.mem).heapStart h = vmSegHeapStart := rfl
  have hbreak : (flatHeapOps FlatHeap.mem).heapBreak h = h.heapBreak := rfl
  rw [heapGrow_eq, hx.hasVm, hx.heapStart, hx.heapBreak] at hok ⊢
  rw [heapGrow_eq, hvm, hstart, hbreak]
  by_cases hnone : true = false ∨ n = 0
  · rw [if_pos hnone, if_pos hnone]
    exact ⟨rfl, hx⟩
  · rw [if_neg hnone] at hok ⊢
    rw [if_neg hnone]
    by_cases hfull : vmSegHeapMaxPages < (h.heapBreak - vmSegHeapStart) / vmPageSize + n
    · rw [if_pos hfull, if_pos hfull]
      exact ⟨rfl, hx⟩
    · rw [if_neg hfull] at hok ⊢
      rw [if_neg hfull]
      exact ⟨rfl, hx.growPages n (not_lt.mp hfull) hok⟩

theorem RecordOk.of_heapGrow (n : ℕ)
    (hok : RecordOk pid tick strict ((heapGrow (recordCalls (vmHeapOps pid tick)) n).run x).2) :
    RecordOk pid tick strict x := by
  rw [heapGrow_eq] at hok
  split_ifs at hok
  · exact hok
  · exact hok
  · exact lost_iterate (fun _ => RecordOk.of_growPage) n _ hok

/-- The allocator cannot tell paged memory from a flat heap while its calls do no harm; where
`strict`, none is refused. -/
theorem recordCalls_upto (H : ℤ → Option FlatHeap) (pid : ℤ) (tick : ℕ) (strict : Bool) :
    HeapSimUpto (recordCalls (vmHeapOps pid tick)) (flatHeapOps FlatHeap.mem)
      (RecordOk pid tick strict) (Holds H pid) (strict = false) where
  hasVm := fun _ _ hx => hx.hasVm tick
  heapStart := fun _ _ hx => hx.heapStart tick
  heapBreak := fun _ _ hx => hx.heapBreak tick
  readMem := by
    intro addr len
    refine ⟨fun x hok => (harmless_concat.mp hok).1, fun x h hx hok => ?_⟩
    obtain ⟨-, hcall, hserved⟩ := harmless_concat.mp hok
    obtain ⟨hx', hread⟩ := hx.read hcall
    cases hr : (((recordCalls (vmHeapOps pid tick)).readMem addr len).run x).1 with
    | none =>
      refine .inr ⟨Bool.eq_false_iff.mpr fun hstrict => ?_, rfl⟩
      have hsome : (((recordCalls (vmHeapOps pid tick)).readMem addr len).run x).1.isSome = true :=
        hserved hstrict
      rw [hr] at hsome
      cases hsome
    | some bs =>
      rw [hread bs hr]
      exact .inl ⟨rfl, hx'⟩
  writeMem := by
    intro addr src
    refine ⟨fun x hok => (harmless_concat.mp hok).1, fun x h hx hok => ?_⟩
    obtain ⟨-, hcall, hserved⟩ := harmless_concat.mp hok
    have hx' := hx.write hcall
    cases hr : (vmWriteMem x.1 pid addr src tick).1 with
    | false =>
      refine .inr ⟨Bool.eq_false_iff.mpr fun hstrict => ?_, hr⟩
      have htrue : (vmWriteMem x.1 pid addr src tick).1 = true := hserved hstrict
      rw [hr] at htrue
      cases htrue
    | true =>
      rw [vmWriteMem_true hr, List.take_length] at hx'
      exact .inl ⟨hr, hx'⟩
  heapGrow := fun n => ⟨fun _ => RecordOk.of_heapGrow n, fun _ _ hx hok => .inl (hx.heapGrow n hok)⟩

/-- Even where a call is refused, harmless calls touch the heap of `pid` alone. -/
theorem recordCalls_frame (H : ℤ → Option FlatHeap) (pid : ℤ) (tick : ℕ) (strict : Bool) :
    HeapCalls (recordCalls (vmHeapOps pid tick)) (recordCalls (vmHeapOps pid tick))
      fun x y => x = y ∧ (RecordOk pid tick strict x → ∃ h, Holds H pid x h) where
  hasVm := fun x y hxy => by rw [hxy.1]
  heapStart := fun x y hxy => by rw [hxy.1]
  heapBreak := fun x y hxy => by rw [hxy.1]
  readMem := by
    rintro addr len x _ ⟨rfl, hx⟩
    refine ⟨rfl, rfl, fun hok => ?_⟩
    obtain ⟨hold, hcall, -⟩ := harmless_concat.mp hok
    obtain ⟨h, hx⟩ := hx hold
    exact ⟨h, (hx.read hcall).1⟩
  writeMem := by
    rintro addr src x _ ⟨rfl, hx⟩
    refine ⟨rfl, rfl, fun hok => ?_⟩
    obtain ⟨hold, hcall, -⟩ := harmless_concat.mp hok
    obtain ⟨h, hx⟩ := hx hold
    exact ⟨_, hx.write hcall⟩
  heapGrow := by
    rintro n x _ ⟨rfl, hx⟩
    refine ⟨rfl, rfl, fun hok => ?_⟩
    obtain ⟨h, hx⟩ := hx (RecordOk.of_heapGrow n hok)
    exact ⟨_, (hx.heapGrow n hok).2⟩

end Record

/-! ### The allocator on paged memory -/

/-- A call with its record ends as the call without. -/
theorem traceMalloc_record (pid : ℤ) (tick fuel size : ℕ) (s : VmSys) :
    (traceMalloc (vmHeapOps pid tick) fuel size).run s =
      (((traceMalloc (recordCalls (vmHeapOps pid tick)) fuel size).run (s, [])).1,
        ((traceMalloc (recordCalls (vmHeapOps pid tick)) fuel size).run (s, [])).2.1) := by
  have hsim := ((recordCalls_sim (vmHeapOps pid tick)).calls.upto.traceMalloc fuel size).sim
    (s, []) s rfl trivial
  obtain ⟨heq, hstate⟩ := hsim.resolve_right fun h => h.1
  exact Prod.ext heq.symm hstate.symm

/-- The walks of an allocation that does no harm visit no header twice, with fuel for every
block it comes to an end, and a block it hands out is one of a well-formed heap. -/
theorem malloc_paged (hs : s.Reliable pid) (hh : s.heaps pid = some h) (ht : Tiled h bs)
    (hsep : Separated bs)
    (hcalls : (mallocCalls pid tick fuel size s).harmless pid tick false = true) :
    (∀ as ∈ ((traceMalloc (vmHeapOps pid tick) fuel size).run s).1.1, as.Nodup) ∧
      (4096 ≤ fuel → ((vmAllocMalloc (vmHeapOps pid tick) fuel size).run s).1.isSome = true) ∧
      ((vmAllocMalloc (vmHeapOps pid tick) fuel size).run s).2.Reliable pid ∧
      ∃ h', ((vmAllocMalloc (vmHeapOps pid tick) fuel size).run s).2.heaps =
          Function.update s.heaps pid (some h') ∧
        ∀ a, ((vmAllocMalloc (vmHeapOps pid tick) fuel size).run s).1 = some a → a ≠ 0 →
          ∃ bs' k, Tiled h' bs' ∧ Separated bs' ∧ (a, k) ∈ allocs 8 vmSegHeapStart bs' := by
  have hstart : Holds s.heaps pid (s, []) h := by
    refine ⟨hs, ?_⟩
    rw [← hh, Function.update_eq_self]
  have hrun := traceMalloc_run (recordCalls (vmHeapOps pid tick)) fuel size (s, [])
  have hok : RecordOk pid tick false
      ((vmAllocMalloc (recordCalls (vmHeapOps pid tick)) fuel size).run (s, [])).2 := hcalls
  obtain ⟨h', hframe⟩ := ((recordCalls_frame s.heaps pid tick false).malloc fuel size).invariant
    (s := (s, [])) (fun _ => ⟨h, hstart⟩) hok
  have hsim := ((recordCalls_upto s.heaps pid tick false).traceMalloc fuel size).sim
    (s, []) h hstart
  rw [traceMalloc_run, traceMalloc_record]
  rw [hrun] at hok hframe
  obtain ⟨hvisits, hends, hout⟩ := traceMalloc_spec FlatHeap.mem ht hsep fuel size
  generalize (traceMalloc (recordCalls (vmHeapOps pid tick)) fuel size).run (s, []) = r at *
  generalize (traceMalloc (flatHeapOps FlatHeap.mem) fuel size).run h = f at *
  rcases hsim hok with ⟨heq, hholds⟩ | ⟨-, hprefix, hzero⟩
  · rw [heq]
    refine ⟨hvisits, hends, hframe.reliable, f.2, hholds.heaps, fun a ha hne => ?_⟩
    obtain ⟨bs', ht', hsep', ho⟩ := hout a ha
    cases ho with
    | refused => exact absurd rfl hne
    | granted _ k _ _ hmem _ => exact ⟨bs', k, ht', hsep', (hmem a k).mpr (.inl rfl)⟩
  · -- the call met a refused access and returned `0`
    refine ⟨fun as has => ?_, fun _ => by rw [hzero]; rfl, hframe.reliable, h', hframe.heaps,
      fun a ha hne => ?_⟩
    · obtain ⟨as', has', hle⟩ := hprefix as has
      exact hle.sublist.nodup (hvisits as' has')
    · rw [hzero] at ha
      exact absurd (Option.some.inj ha).symm hne

/-- A release that does no harm and is not refused an access leaves a well-formed heap. -/
theorem free_paged (hs : s.Reliable pid) (hh : s.heaps pid = some h) (ht : Tiled h bs)
    (hsep : Separated bs) (hlive : addr = 0 ∨ ∃ k, (addr, k) ∈ allocs 8 vmSegHeapStart bs)
    (hcalls : (freeCalls pid tick addr s).harmless pid tick true = true) :
    ((vmAllocFree (vmHeapOps pid tick) addr).run s).2.Reliable pid ∧
      ∃ h' bs', ((vmAllocFree (vmHeapOps pid tick) addr).run s).2.heaps =
        Function.update s.heaps pid (some h') ∧ Tiled h' bs' ∧ Separated bs' := by
  have hstart : Holds s.heaps pid (s, []) h := by
    refine ⟨hs, ?_⟩
    rw [← hh, Function.update_eq_self]
  have hsim := ((recordCalls_upto s.heaps pid tick true).free addr).sim (s, []) h hstart hcalls
  obtain ⟨-, hholds⟩ := hsim.resolve_right Bool.noConfusion
  have hsame := ((recordCalls_sim (vmHeapOps pid tick)).calls.free addr (s, []) s rfl).2
  have hflat : ∃ h' bs', (vmAllocFree (flatHeapOps FlatHeap.mem) addr).run h = ((), h') ∧
      Tiled h' bs' ∧ Separated bs' := by
    rcases hlive with rfl | ⟨k, hk⟩
    · -- no block has the address `0`
      exact ⟨h, bs, rfl, ht, hsep⟩
    · obtain ⟨h', bs', hrun, ht', hsep', -⟩ := free_spec FlatHeap.mem ht hsep hk
      exact ⟨h', bs', hrun, ht', hsep'⟩
  obtain ⟨h', bs', hrun, ht', hsep'⟩ := hflat
  rw [hrun] at hholds
  rw [← hsame]
  exact ⟨hholds.reliable, h', bs', hholds.heaps, ht', hsep'⟩

end Mosrt
