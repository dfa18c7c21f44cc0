/-
Memory access by a process (`vm.c`): byte loops over TLB and pager.

`vmReadByte` and `vmWriteByte` are the bodies of the two loops; `none` is the
`return -1` inside them.  The loops return how far they got, so that the bytes a
failing write stored before it failed can be spoken about.
-/
import Mosrt.Pager

namespace Mosrt

/-- `curr_addr >> VM_PAGE_SHIFT`. -/
def vpnOf (addr : ℕ) : ℕ := addr / vmPageSize

/-- `curr_addr & VM_PAGE_MASK`. -/
def offsetOf (addr : ℕ) : ℕ := addr % vmPageSize

/-- `(uint16_t)(virt_addr + i)`. -/
def currAddr (virtAddr i : ℕ) : ℕ := (virtAddr + i) % vmVirtAddrSpaceSize

/-- The per-process counters after a page access that did not fail. -/
def VmState.countFault (vm : VmState) : PagerResult → VmState
  | .faultMinor => { vm with minorFaults := incr32 vm.minorFaults }
  | .faultMajor =>
    { vm with majorFaults := incr32 vm.majorFaults, pageInCount := incr32 vm.pageInCount }
  | _ => vm

/-- The miss path shared by both loops: page access, counters, TLB insertion. -/
def vmMiss (s : VmSys) (pid : ℤ) (vpn : ℕ) (write : Bool) (tick : ℕ) : Option ℕ × VmSys :=
  match pagerAccessPage s pid vpn write tick with
  | (res, out, s) =>
    if res.isError then (none, s)
    else
      let pfn := out.getD 0
      let s := s.modifyVm pid fun vm => vm.countFault res
      match s.pte pid vpn with
      | none => (some pfn, s)
      | some pte =>
        (some pfn, { s with tlb := tlbInsert s.tlb vpn pfn pte.dirty pte.permissions tick })

/-- Translate one address for reading. -/
def vmTranslateRead (s : VmSys) (pid : ℤ) (vpn tick : ℕ) : Option ℕ × VmSys :=
  let r := tlbLookup s.tlb vpn tick
  let s := { s with tlb := r.2 }
  match r.1 with
  | some hit =>
    if hit.permissions &&& vmProtRead = 0 then (none, s)
    else (some hit.pfn, s.modifyPte pid vpn fun e => { e with accessed := true })
  | none => vmMiss s pid vpn false tick

/-- Translate one address for writing. -/
def vmTranslateWrite (s : VmSys) (pid : ℤ) (vpn tick : ℕ) : Option ℕ × VmSys :=
  let r := tlbLookup s.tlb vpn tick
  let s := { s with tlb := r.2 }
  match r.1 with
  | some hit =>
    if hit.permissions &&& vmProtWrite = 0 then (none, s)
    else
      let s := s.modifyPte pid vpn fun e => { e with accessed := true, dirty := true }
      (some hit.pfn,
        if hit.dirty then s
        else { s with tlb := tlbInsert s.tlb vpn hit.pfn true hit.permissions tick })
  | none => vmMiss s pid vpn true tick

/-- One iteration of the loop of `vm_read_mem`. -/
def vmReadByte (s : VmSys) (pid : ℤ) (addr tick : ℕ) : Option UInt8 × VmSys :=
  match vmTranslateRead s pid (vpnOf addr) tick with
  | (none, s) => (none, s)
  | (some pfn, s) => (some (frameReadByte s.frame (pfn * vmPageSize + offsetOf addr)), s)

/-- One iteration of the loop of `vm_write_mem`; `true` when the byte was stored. -/
def vmWriteByte (s : VmSys) (pid : ℤ) (addr : ℕ) (val : UInt8) (tick : ℕ) : Bool × VmSys :=
  match vmTranslateWrite s pid (vpnOf addr) tick with
  | (none, s) => (false, s)
  | (some pfn, s) =>
    (true, { s with frame := frameWriteByte s.frame (pfn * vmPageSize + offsetOf addr) val })

/-- The loop of `vm_read_mem` from index `i` on, `n` iterations left.  `none` is the
`return -1` in it. -/
def vmReadLoop (pid : ℤ) (virtAddr tick : ℕ) : ℕ → ℕ → VmSys → Option (List UInt8) × VmSys
  | 0, _, s => (some [], s)
  | n + 1, i, s =>
    match vmReadByte s pid (currAddr virtAddr i) tick with
    | (none, s) => (none, s)
    | (some b, s) =>
      match vmReadLoop pid virtAddr tick n (i + 1) s with
      | (none, s) => (none, s)
      | (some bs, s) => (some (b :: bs), s)

/-- The loop of `vm_write_mem` from index `i` on: the number of bytes stored and the
state after.  It stops short of the end exactly at a `return -1`. -/
def vmWriteLoop (pid : ℤ) (virtAddr tick : ℕ) : List UInt8 → ℕ → VmSys → ℕ × VmSys
  | [], _, s => (0, s)
  | b :: bs, i, s =>
    match vmWriteByte s pid (currAddr virtAddr i) b tick with
    | (false, s) => (0, s)
    | (true, s) =>
      match vmWriteLoop pid virtAddr tick bs (i + 1) s with
      | (k, s) => (k + 1, s)

/-- The TLB statistics of a call that reached its end, charged to the process. -/
def vmCharge (before s : VmSys) (pid : ℤ) : VmSys :=
  s.modifyVm pid fun vm =>
    { vm with
      tlbHits := (vm.tlbHits + (s.tlb.hits + 2 ^ 32 - before.tlb.hits)) % 2 ^ 32
      tlbMisses := (vm.tlbMisses + (s.tlb.misses + 2 ^ 32 - before.tlb.misses)) % 2 ^ 32 }

/-- `vm_read_mem`: the bytes delivered, or `none` for `-1`. -/
def vmReadMem (s : VmSys) (pid : ℤ) (virtAddr len tick : ℕ) : Option (List UInt8) × VmSys :=
  if (s.vms pid).isNone then (none, s)
  else if virtAddr + len > vmVirtAddrSpaceSize then (none, s)
  else
    match vmReadLoop pid virtAddr tick len 0 s with
    | (none, s') => (none, s')
    | (some bs, s') => (some bs, vmCharge s s' pid)

/-- `vm_write_mem`: whether the call succeeded, the number of bytes it stored, and the
state after.  The C function returns the length or `-1`. -/
def vmWriteMem (s : VmSys) (pid : ℤ) (virtAddr : ℕ) (src : List UInt8) (tick : ℕ) :
    Bool × ℕ × VmSys :=
  if (s.vms pid).isNone then (false, 0, s)
  else if virtAddr + src.length > vmVirtAddrSpaceSize then (false, 0, s)
  else
    match vmWriteLoop pid virtAddr tick src 0 s with
    | (k, s') => if k = src.length then (true, k, vmCharge s s' pid) else (false, k, s')

/-- The body of the loop of `vm_proc_destroy`. -/
def vmReleasePage (pt : PageTable) (s : VmSys) (vpn : ℕ) : VmSys :=
  let s := if (pt vpn).present then { s with frame := frameFree s.frame (pt vpn).frameNum } else s
  if (pt vpn).inSwap then { s with swap := swapFree s.swap (pt vpn).swapSlot } else s

/-- `vm_proc_destroy` of the address space of `pid`. -/
def vmProcDestroy (s : VmSys) (pid : ℤ) : VmSys :=
  match s.vms pid with
  | none => s
  | some vm =>
    let s := (List.range vmNumPages).foldl (vmReleasePage vm.pt) s
    { s with vms := Function.update s.vms pid none }

end Mosrt
