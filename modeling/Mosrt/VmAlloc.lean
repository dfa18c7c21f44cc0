/-
The heap allocator (`vm_alloc.c`): a list of blocks with eight-byte headers in
the process's own memory, first fit, splitting and coalescing.

The allocator reaches memory only through `vm_read_mem`, `vm_write_mem` and the
fields of its address space, so it is written over these (`HeapOps`) and runs on
any memory that offers them; `vmHeapOps` is the paged one.  The walk along the
list and the retry after growth take fuel, as a damaged list may be cyclic;
`none` says that the fuel ran out.  Returns of `0` for want of memory are results
like any other.
-/
import Mosrt.Vm
import Mosrt.StateSim

namespace Mosrt

/-! ### Headers -/

/-- `VM_BLOCK_HDR_SIZE`. -/
abbrev vmBlockHdrSize : ℕ := 8

/-- `vm_block_hdr_t` as it lies in memory: `free` is the byte of the C `bool` and `pad`
the byte of padding after it, which a fresh header is taken to have `0`. -/
structure BlockHdr where
  size : ℕ := 0
  free : UInt8 := 0
  pad : UInt8 := 0
  next : ℕ := 0
  prev : ℕ := 0
deriving DecidableEq, Repr

/-- The two bytes of a `uint16_t`, low byte first. -/
def bytes16 (n : ℕ) : List UInt8 := [UInt8.ofNat n, UInt8.ofNat (n / 256)]

def word16 (bs : List UInt8) (i : ℕ) : ℕ := (bs.getD i 0).toNat + 256 * (bs.getD (i + 1) 0).toNat

def BlockHdr.encode (h : BlockHdr) : List UInt8 :=
  bytes16 h.size ++ [h.free, h.pad] ++ bytes16 h.next ++ bytes16 h.prev

def BlockHdr.decode (bs : List UInt8) : BlockHdr where
  size := word16 bs 0
  free := bs.getD 2 0
  pad := bs.getD 3 0
  next := word16 bs 4
  prev := word16 bs 6

/-- Reading `free` as a `bool`. -/
def BlockHdr.isFree (h : BlockHdr) : Bool := h.free != 0

/-! ### Memory as the allocator sees it -/

/-- What the allocator uses of a memory with states `σ`, for one process and one tick. -/
structure HeapOps (σ : Type) where
  /-- The address space pointer is not null. -/
  hasVm : σ → Bool
  heapStart : σ → ℕ
  heapBreak : σ → ℕ
  readMem : ℕ → ℕ → StateM σ (Option (List UInt8))
  writeMem : ℕ → List UInt8 → StateM σ Bool
  /-- The body of the loop of `heap_grow`. -/
  growPage : σ → σ

variable {σ : Type} (o : HeapOps σ)

def readHdr (addr : ℕ) : StateM σ (Option BlockHdr) := do
  let r ← o.readMem addr vmBlockHdrSize
  pure (r.map BlockHdr.decode)

def writeHdr (addr : ℕ) (hdr : BlockHdr) : StateM σ Bool := o.writeMem addr hdr.encode

/-- `align_up` on `size_t`. -/
def alignUp (size alignment : ℕ) : ℕ :=
  if alignment = 0 ∨ 2 ^ 64 - 1 - (alignment - 1) < size then 0
  else (size + alignment - 1) &&& (2 ^ 64 - alignment)

def heapGrow (pagesNeeded : ℕ) : StateM σ Bool := do
  let s ← get
  if o.hasVm s = false ∨ pagesNeeded = 0 then pure false
  else if vmSegHeapMaxPages < (o.heapBreak s - o.heapStart s) / vmPageSize + pagesNeeded then
    pure false
  else do
    modify (o.growPage^[pagesNeeded])
    pure true

/-! ### Allocation -/

/-- The first block of an empty heap; `false` is a `return 0`. -/
def allocInit : StateM σ Bool := do
  let s ← get
  if o.heapBreak s = o.heapStart s then do
    if ← heapGrow o 2 then do
      let s ← get
      writeHdr o (o.heapStart s)
        { size := (o.heapBreak s - o.heapStart s - vmBlockHdrSize) % 2 ^ 16, free := 1 }
    else pure false
  else pure true

/-- How the walk along the block list ends. -/
inductive WalkEnd where
  | failed
  | found (currAddr : ℕ) (currHdr : BlockHdr)
  | exhausted (currAddr : ℕ) (currHdr : BlockHdr)

/-- The `while` loop of `vm_alloc_malloc`, up to a block that fits. -/
def allocWalk (size : ℕ) : ℕ → ℕ → BlockHdr → StateM σ (Option WalkEnd)
  | 0, _, _ => pure none
  | fuel + 1, currAddr, currHdr => do
    let s ← get
    if currAddr < o.heapBreak s then do
      match ← readHdr o currAddr with
      | none => pure (some .failed)
      | some hdr =>
        if hdr.isFree ∧ size ≤ hdr.size then pure (some (.found currAddr hdr))
        else if hdr.next = 0 then pure (some (.exhausted currAddr hdr))
        else allocWalk size fuel hdr.next hdr
    else pure (some (.exhausted currAddr currHdr))

/-- Set the `prev` link of the block at `addr`, if there is one. -/
def relinkPrev (addr prev : ℕ) : StateM σ Bool := do
  if addr = 0 then pure true
  else do
    match ← readHdr o addr with
    | none => pure false
    | some nnHdr => writeHdr o addr { nnHdr with prev := prev }

/-- Allocate the block found, splitting it if enough is left over. -/
def allocTake (size currAddr : ℕ) (currHdr : BlockHdr) : StateM σ ℕ := do
  let payload := (currAddr + vmBlockHdrSize) % 2 ^ 16
  if size + vmBlockHdrSize + 4 ≤ currHdr.size then do
    let nextAddr := (currAddr + vmBlockHdrSize + size) % 2 ^ 16
    if ← writeHdr o nextAddr
        { size := currHdr.size - size - vmBlockHdrSize, free := 1, next := currHdr.next,
          prev := currAddr } then do
      if ← writeHdr o currAddr { currHdr with size := size, free := 0, next := nextAddr } then do
        if ← relinkPrev o currHdr.next nextAddr then pure payload else pure 0
      else pure 0
    else pure 0
  else do
    if ← writeHdr o currAddr { currHdr with free := 0 } then pure payload else pure 0

/-- Grow the heap by a block of at least `size` bytes and link it after the last block;
`false` is a `return 0`. -/
def allocGrow (size currAddr : ℕ) (currHdr : BlockHdr) : StateM σ Bool := do
  let pagesNeeded := alignUp (vmBlockHdrSize + size) vmPageSize / vmPageSize
  let s ← get
  let oldBreak := o.heapBreak s
  if ← heapGrow o pagesNeeded then do
    if ← writeHdr o oldBreak
        { size := (pagesNeeded * vmPageSize - vmBlockHdrSize) % 2 ^ 16, free := 1,
          prev := currAddr } then
      writeHdr o currAddr { currHdr with next := oldBreak }
    else pure false
  else pure false

/-- `vm_alloc_malloc`: the payload address, `0` for failure; `none` when out of fuel. -/
def vmAllocMalloc : ℕ → ℕ → StateM σ (Option ℕ)
  | 0, _ => pure none
  | fuel + 1, size => do
    let s ← get
    let size' := alignUp size 4
    if o.hasVm s = false ∨ size = 0 ∨ 2 ^ 16 - 1 < size ∨ size' = 0 ∨ 2 ^ 16 - 1 < size' then
      pure (some 0)
    else do
      if ← allocInit o then do
        let s ← get
        match ← allocWalk o size' fuel (o.heapStart s) {} with
        | none => pure none
        | some .failed => pure (some 0)
        | some (.found currAddr currHdr) => do
          let a ← allocTake o size' currAddr currHdr
          pure (some a)
        | some (.exhausted currAddr currHdr) => do
          if ← allocGrow o size' currAddr currHdr then vmAllocMalloc fuel size' else pure (some 0)
      else pure (some 0)

/-! ### Release -/

/-- Coalescing with the next block: the header of the freed block after it, or `none`
for a `return`. -/
def freeMergeNext (currAddr : ℕ) (currHdr : BlockHdr) : StateM σ (Option BlockHdr) := do
  if currHdr.next = 0 then pure (some currHdr)
  else do
    match ← readHdr o currHdr.next with
    | none => pure none
    | some nextHdr =>
      if nextHdr.isFree then do
        let merged := { currHdr with
          size := (currHdr.size + vmBlockHdrSize + nextHdr.size) % 2 ^ 16, next := nextHdr.next }
        if ← writeHdr o currAddr merged then do
          if ← relinkPrev o merged.next currAddr then pure (some merged) else pure none
        else pure none
      else pure (some currHdr)

/-- Coalescing with the previous block. -/
def freeMergePrev (currHdr : BlockHdr) : StateM σ Unit := do
  if currHdr.prev = 0 then pure ()
  else do
    match ← readHdr o currHdr.prev with
    | none => pure ()
    | some prevHdr =>
      if prevHdr.isFree then do
        let merged := { prevHdr with
          size := (prevHdr.size + vmBlockHdrSize + currHdr.size) % 2 ^ 16, next := currHdr.next }
        if ← writeHdr o currHdr.prev merged then do
          let _ ← relinkPrev o merged.next currHdr.prev
          pure ()
        else pure ()
      else pure ()

/-- `vm_alloc_free`. -/
def vmAllocFree (addr : ℕ) : StateM σ Unit := do
  let s ← get
  if o.hasVm s = false ∨ addr < o.heapStart s + vmBlockHdrSize ∨ o.heapBreak s ≤ addr then pure ()
  else do
    let currAddr := addr - vmBlockHdrSize
    match ← readHdr o currAddr with
    | none => pure ()
    | some hdr =>
      if hdr.isFree then pure ()
      else do
        let currHdr := { hdr with free := 1 }
        if ← writeHdr o currAddr currHdr then do
          match ← freeMergeNext o currAddr currHdr with
          | none => pure ()
          | some currHdr => freeMergePrev o currHdr
        else pure ()

/-! ### Simulation -/

open StateSim

/-- Two memories that the allocator cannot tell apart on states related by `R`. -/
structure HeapSim {σ τ : Type} (o : HeapOps σ) (o' : HeapOps τ) (R : σ → τ → Prop) : Prop where
  hasVm : ∀ s t, R s t → o.hasVm s = o'.hasVm t
  heapStart : ∀ s t, R s t → o.heapStart s = o'.heapStart t
  heapBreak : ∀ s t, R s t → o.heapBreak s = o'.heapBreak t
  readMem : ∀ addr len, Sim R (o.readMem addr len) (o'.readMem addr len)
  writeMem : ∀ addr src, Sim R (o.writeMem addr src) (o'.writeMem addr src)
  growPage : ∀ s t, R s t → R (o.growPage s) (o'.growPage t)

/-- What of this the allocator makes use of: it grows the heap page by page, but never beyond
the limit. -/
structure HeapCalls {σ τ : Type} (o : HeapOps σ) (o' : HeapOps τ) (R : σ → τ → Prop) : Prop where
  hasVm : ∀ s t, R s t → o.hasVm s = o'.hasVm t
  heapStart : ∀ s t, R s t → o.heapStart s = o'.heapStart t
  heapBreak : ∀ s t, R s t → o.heapBreak s = o'.heapBreak t
  readMem : ∀ addr len, Sim R (o.readMem addr len) (o'.readMem addr len)
  writeMem : ∀ addr src, Sim R (o.writeMem addr src) (o'.writeMem addr src)
  heapGrow : ∀ n, Sim R (heapGrow o n) (heapGrow o' n)

section Simulation

variable {τ : Type} {o : HeapOps σ} {o' : HeapOps τ} {R : σ → τ → Prop}

theorem HeapSim.calls (h : HeapSim o o' R) : HeapCalls o o' R where
  hasVm := h.hasVm
  heapStart := h.heapStart
  heapBreak := h.heapBreak
  readMem := h.readMem
  writeMem := h.writeMem
  heapGrow := by
    intro n
    refine Sim.get_bind fun s t hR => ?_
    rw [h.hasVm s t hR, h.heapBreak s t hR, h.heapStart s t hR]
    refine Sim.ite (.pure _) (Sim.ite (.pure _) ?_) s t hR
    exact (Sim.modify (Sim.iterate h.growPage n)).bind fun _ => .pure _

theorem HeapCalls.readHdr (h : HeapCalls o o' R) (addr : ℕ) :
    Sim R (Mosrt.readHdr o addr) (Mosrt.readHdr o' addr) :=
  (h.readMem addr _).bind fun _ => .pure _

theorem HeapCalls.writeHdr (h : HeapCalls o o' R) (addr : ℕ) (hdr : BlockHdr) :
    Sim R (Mosrt.writeHdr o addr hdr) (Mosrt.writeHdr o' addr hdr) := h.writeMem addr _

theorem HeapCalls.allocInit (h : HeapCalls o o' R) :
    Sim R (Mosrt.allocInit o) (Mosrt.allocInit o') := by
  refine Sim.get_bind fun s t hR => ?_
  rw [h.heapBreak s t hR, h.heapStart s t hR]
  refine Sim.ite ((h.heapGrow 2).bind fun ok => Sim.ite ?_ (.pure _)) (.pure _) s t hR
  refine Sim.get_bind fun s t hR => ?_
  rw [h.heapBreak s t hR, h.heapStart s t hR]
  exact h.writeHdr _ _ s t hR

theorem HeapCalls.allocWalk (h : HeapCalls o o' R) (size fuel currAddr : ℕ) (currHdr : BlockHdr) :
    Sim R (Mosrt.allocWalk o size fuel currAddr currHdr)
      (Mosrt.allocWalk o' size fuel currAddr currHdr) := by
  induction fuel generalizing currAddr currHdr with
  | zero => exact .pure _
  | succ fuel ih =>
    refine Sim.get_bind fun s t hR => ?_
    rw [h.heapBreak s t hR]
    refine Sim.ite ((h.readHdr currAddr).bind ?_) (.pure _) s t hR
    intro r
    cases r with
    | none => exact .pure _
    | some hdr => exact Sim.ite (.pure _) (Sim.ite (.pure _) (ih _ _))

theorem HeapCalls.relinkPrev (h : HeapCalls o o' R) (addr prev : ℕ) :
    Sim R (Mosrt.relinkPrev o addr prev) (Mosrt.relinkPrev o' addr prev) := by
  refine Sim.ite (.pure _) ((h.readHdr addr).bind ?_)
  intro r
  cases r with
  | none => exact .pure _
  | some hdr => exact h.writeHdr _ _

theorem HeapCalls.allocTake (h : HeapCalls o o' R) (size currAddr : ℕ) (currHdr : BlockHdr) :
    Sim R (Mosrt.allocTake o size currAddr currHdr) (Mosrt.allocTake o' size currAddr currHdr) := by
  refine Sim.ite ?_ ((h.writeHdr _ _).bind fun ok => Sim.ite (.pure _) (.pure _))
  refine (h.writeHdr _ _).bind fun ok => Sim.ite ?_ (.pure _)
  refine (h.writeHdr _ _).bind fun ok => Sim.ite ?_ (.pure _)
  exact (h.relinkPrev _ _).bind fun ok => Sim.ite (.pure _) (.pure _)

theorem HeapCalls.allocGrow (h : HeapCalls o o' R) (size currAddr : ℕ) (currHdr : BlockHdr) :
    Sim R (Mosrt.allocGrow o size currAddr currHdr) (Mosrt.allocGrow o' size currAddr currHdr) := by
  refine Sim.get_bind fun s t hR => ?_
  rw [h.heapBreak s t hR]
  refine (h.heapGrow _).bind (fun ok => Sim.ite ?_ (.pure _)) s t hR
  exact (h.writeHdr _ _).bind fun ok => Sim.ite (h.writeHdr _ _) (.pure _)

/-- Allocation gives the same address on both memories and leaves them related. -/
theorem HeapCalls.malloc (h : HeapCalls o o' R) (fuel size : ℕ) :
    Sim R (vmAllocMalloc o fuel size) (vmAllocMalloc o' fuel size) := by
  induction fuel generalizing size with
  | zero => exact .pure _
  | succ fuel ih =>
    refine Sim.get_bind fun s t hR => ?_
    rw [h.hasVm s t hR]
    refine Sim.ite (.pure _) (h.allocInit.bind fun ok => Sim.ite ?_ (.pure _)) s t hR
    refine Sim.get_bind fun s t hR => ?_
    rw [h.heapStart s t hR]
    refine (h.allocWalk _ _ _ _).bind ?_ s t hR
    intro r
    match r with
    | none => exact .pure _
    | some .failed => exact .pure _
    | some (.found _ _) => exact (h.allocTake _ _ _).bind fun _ => .pure _
    | some (.exhausted _ _) =>
      exact (h.allocGrow _ _ _).bind fun ok => Sim.ite (ih _) (.pure _)

theorem HeapCalls.freeMergeNext (h : HeapCalls o o' R) (currAddr : ℕ) (currHdr : BlockHdr) :
    Sim R (Mosrt.freeMergeNext o currAddr currHdr) (Mosrt.freeMergeNext o' currAddr currHdr) := by
  refine Sim.ite (.pure _) ((h.readHdr _).bind ?_)
  intro r
  cases r with
  | none => exact .pure _
  | some hdr =>
    refine Sim.ite ((h.writeHdr _ _).bind fun ok => Sim.ite ?_ (.pure _)) (.pure _)
    exact (h.relinkPrev _ _).bind fun ok => Sim.ite (.pure _) (.pure _)

theorem HeapCalls.freeMergePrev (h : HeapCalls o o' R) (currHdr : BlockHdr) :
    Sim R (Mosrt.freeMergePrev o currHdr) (Mosrt.freeMergePrev o' currHdr) := by
  refine Sim.ite (.pure _) ((h.readHdr _).bind ?_)
  intro r
  cases r with
  | none => exact .pure _
  | some hdr =>
    refine Sim.ite ((h.writeHdr _ _).bind fun ok => Sim.ite ?_ (.pure _)) (.pure _)
    exact (h.relinkPrev _ _).bind fun _ => .pure _

/-- Release leaves the memories related. -/
theorem HeapCalls.free (h : HeapCalls o o' R) (addr : ℕ) :
    Sim R (vmAllocFree o addr) (vmAllocFree o' addr) := by
  refine Sim.get_bind fun s t hR => ?_
  rw [h.hasVm s t hR, h.heapStart s t hR, h.heapBreak s t hR]
  refine Sim.ite (.pure _) ((h.readHdr _).bind ?_) s t hR
  intro r
  cases r with
  | none => exact .pure _
  | some hdr =>
    refine Sim.ite (.pure _) ((h.writeHdr _ _).bind fun ok => Sim.ite ?_ (.pure _))
    refine (h.freeMergeNext _ _).bind ?_
    intro r
    cases r with
    | none => exact .pure _
    | some hdr => exact h.freeMergePrev _

end Simulation

/-! ### The paged heap -/

/-- The loop body of `heap_grow`: the page above the break becomes a page never touched. -/
def growPage (s : VmSys) (pid : ℤ) : VmSys :=
  s.modifyVm pid fun vm =>
    { vm with
      pt := Function.update vm.pt (vpnOf vm.heapBreak)
        { vm.pt (vpnOf vm.heapBreak) with
          permissions := vmProtRead ||| vmProtWrite, present := false, inSwap := false }
      heapBreak := (vm.heapBreak + vmPageSize) % 2 ^ 16 }

/-- The memory of process `pid` at `tick`. -/
def vmHeapOps (pid : ℤ) (tick : ℕ) : HeapOps VmSys where
  hasVm := fun s => (s.vms pid).isSome
  heapStart := fun s => ((s.vms pid).map (·.heapStart)).getD 0
  heapBreak := fun s => ((s.vms pid).map (·.heapBreak)).getD 0
  readMem := fun addr len s => vmReadMem s pid addr len tick
  writeMem := fun addr src s =>
    let r := vmWriteMem s pid addr src tick
    (r.1, r.2.2)
  growPage := fun s => growPage s pid

end Mosrt
