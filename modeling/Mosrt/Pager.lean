/-
The pager (`pager.c`) over the global state of the virtual memory subsystem.

`VmSys` collects the globals of `frame.c`, `swap.c`, `tlb.c` and `pager.c` and,
for every process, the address space its PCB points to: `vms pid` is
`proc_get(pid)->vm`, and `none` when either pointer is null.  A function that
takes a process's page table by pointer takes its pid here, so that two pointers
into one table stay two names for one table.

`pagerAccessPage` follows the source in order: permission check, hit, frame
allocation with eviction (`pagerObtainFrame`, `pagerEvict`), page-in
(`pagerPageIn`).  The replacement policy's state block is never null here: the
host's `malloc` is taken to succeed in `pager_init` and `pager_set_policy`.
-/
import Mosrt.FrameSwap
import Mosrt.Tlb
import Mosrt.Replacement

namespace Mosrt

/-- `vm_state_t` with the fields of `vm_proc_stats_t` that some function writes. -/
structure VmState where
  pt : PageTable
  minorFaults : ℕ := 0
  majorFaults : ℕ := 0
  pageInCount : ℕ := 0
  tlbHits : ℕ := 0
  tlbMisses : ℕ := 0
  heapBreak : ℕ := vmSegHeapStart
  heapStart : ℕ := vmSegHeapStart

/-- The globals of `pager.c`. -/
structure PagerState where
  policy : Policy
  minorFaults : ℕ := 0
  majorFaults : ℕ := 0
  evictions : ℕ := 0

structure VmSys where
  frame : FrameState
  swap : SwapState
  tlb : TlbState
  pager : PagerState
  vms : ℤ → Option VmState

/-- `vm_proc_init`. -/
def vmProcInit : VmState := { pt := pageTableInit }

/-- `vm_init`, with no process created yet. -/
def vmInit : VmSys where
  frame := frameInit
  swap := swapInit
  tlb := tlbInit
  pager := { policy := .fifo [] }
  vms := fun _ => none

/-- `proc_create` as far as memory is concerned: a new process gets a fresh address
space.  Its pid is new, so an existing address space is never replaced. -/
def vmSpawn (s : VmSys) (pid : ℤ) : VmSys :=
  if (s.vms pid).isNone then { s with vms := Function.update s.vms pid (some vmProcInit) } else s

/-! ### Access to one process -/

/-- Change the address space of `pid`, if it has one. -/
def VmSys.modifyVm (s : VmSys) (pid : ℤ) (f : VmState → VmState) : VmSys :=
  { s with vms := Function.update s.vms pid ((s.vms pid).map f) }

/-- Change one page table entry of `pid`. -/
def VmSys.modifyPte (s : VmSys) (pid : ℤ) (vpn : ℕ) (f : Pte → Pte) : VmSys :=
  s.modifyVm pid fun vm => { vm with pt := Function.update vm.pt vpn (f (vm.pt vpn)) }

/-- The entry of `pid` for `vpn`. -/
def VmSys.pte (s : VmSys) (pid : ℤ) (vpn : ℕ) : Option Pte := (s.vms pid).map (·.pt vpn)

/-! ### Policy selection -/

/-- The re-insertion loop of `pager_set_policy`. -/
def policyReinsert (fr : FrameState) (p : Policy) : Policy :=
  (List.range vmNumFrames).foldl
    (fun p pfn => if (frameGetOwner fr pfn).isSome then p.insert pfn 0 else p) p

def pagerSetPolicy (s : VmSys) (name : String) : Bool × VmSys :=
  match Policy.ofName name with
  | none => (false, s)
  | some p => (true, { s with pager := { s.pager with policy := policyReinsert s.frame p } })

/-! ### Page access -/

/-- `pager_result_t`. -/
inductive PagerResult where
  | hit | faultMinor | faultMajor | errorPerm | errorOom | errorAddr
deriving DecidableEq, Repr

/-- The three results that `vm_read_mem` and `vm_write_mem` turn into `-1`. -/
def PagerResult.isError : PagerResult → Bool
  | .errorPerm | .errorOom | .errorAddr => true
  | _ => false

/-- Writing back a dirty victim: its own slot if it still has one, else a new one. -/
def pagerWriteBack (s : VmSys) (victimPfn : ℕ) (victimPid : ℤ) (victimVpn : ℕ) (pte : Pte) :
    Option VmSys :=
  let r := if pte.inSwap then (some pte.swapSlot, s.swap) else swapAlloc s.swap victimPid victimVpn
  match r.1 with
  | none => none
  | some slot =>
    some ({ s with swap := swapOut r.2 s.frame victimPfn slot }.modifyPte victimPid victimVpn
      fun e => { e with swapSlot := slot, inSwap := true })

/-- The tail of the eviction: unmap the victim, drop its TLB entry, free its frame. -/
def pagerUnmap (s : VmSys) (victimPfn : ℕ) (victimPid : ℤ) (victimVpn : ℕ) : VmSys :=
  let s := s.modifyPte victimPid victimVpn fun e => { e with present := false, dirty := false }
  { s with tlb := tlbFlushEntry s.tlb victimVpn, frame := frameFree s.frame victimPfn }

/-- Ask the policy for a victim on behalf of `pid`, whose table the policy sees. -/
def pagerPickVictim (s : VmSys) (pid : ℤ) : Option ℕ × VmSys :=
  match s.vms pid with
  | none => (none, s)
  | some vm =>
    let r := s.pager.policy.evict vm.pt
    (r.1, { s with pager := { s.pager with policy := r.2.1 } }.modifyVm pid
      fun vm => { vm with pt := r.2.2 })

/-- Free one frame for `pid`; `false` is `PAGER_ERROR_OOM`. -/
def pagerEvict (s : VmSys) (pid : ℤ) : Bool × VmSys :=
  let (victim, s) := pagerPickVictim s pid
  match victim with
  | none => (false, s)
  | some victimPfn =>
    match frameGetOwner s.frame victimPfn with
    | none => (false, s)
    | some (victimPid, victimVpn) =>
      match s.pte victimPid victimVpn with
      | none => (false, s)
      | some pte =>
        if pte.dirty then
          match pagerWriteBack s victimPfn victimPid victimVpn pte with
          | none => (false, s)
          | some s => (true, pagerUnmap s victimPfn victimPid victimVpn)
        else (true, pagerUnmap s victimPfn victimPid victimVpn)

/-- A frame for `(pid, vpn)`: a free one, else the one an eviction freed. -/
def pagerObtainFrame (s : VmSys) (pid : ℤ) (vpn : ℕ) : Option ℕ × VmSys :=
  match frameAlloc s.frame pid vpn with
  | (some pfn, fr) => (some pfn, { s with frame := fr })
  | (none, _) =>
    match pagerEvict s pid with
    | (false, s) => (none, s)
    | (true, s) =>
      match frameAlloc s.frame pid vpn with
      | (none, fr) => (none, { s with frame := fr })
      | (some pfn, fr) =>
        (some pfn,
          { s with frame := fr, pager := { s.pager with evictions := incr32 s.pager.evictions } })

/-- Fill the frame: from swap on a major fault, with zeros on a minor one. -/
def pagerFill (s : VmSys) (pid : ℤ) (vpn pfn : ℕ) (isMajor : Bool) : VmSys :=
  if isMajor then
    let slot := ((s.pte pid vpn).map (·.swapSlot)).getD 0
    let r := swapIn s.swap s.frame slot pfn
    { s with
      swap := swapFree r.1 slot
      frame := r.2
      pager := { s.pager with majorFaults := incr32 s.pager.majorFaults } }.modifyPte pid vpn
        fun e => { e with inSwap := false, swapSlot := 0 }
  else
    { s with
      frame := frameWriteBlock s.frame pfn fun _ => 0
      pager := { s.pager with minorFaults := incr32 s.pager.minorFaults } }

/-- Fill the frame, map it, tell the policy, refresh the TLB. -/
def pagerPageIn (s : VmSys) (pid : ℤ) (vpn pfn : ℕ) (isMajor write : Bool) (tick : ℕ) : VmSys :=
  let s := pagerFill s pid vpn pfn isMajor
  let s := s.modifyVm pid fun vm =>
    { vm with pt := pageTableMap vm.pt vpn pfn (vm.pt vpn).permissions }
  let s := s.modifyPte pid vpn fun e =>
    { e with accessed := true, referenced := true, dirty := write,
             lastAccessedTick := tick % 2 ^ 32 }
  let permissions := ((s.pte pid vpn).map (·.permissions)).getD 0
  { s with
    pager := { s.pager with policy := s.pager.policy.insert pfn tick }
    tlb := tlbInsert (tlbFlushEntry s.tlb vpn) vpn pfn write permissions tick }

/-- The hit path. -/
def pagerHit (s : VmSys) (pid : ℤ) (vpn : ℕ) (pte : Pte) (write : Bool) (tick : ℕ) : VmSys :=
  let s := s.modifyPte pid vpn fun e =>
    { e with accessed := true, referenced := true, lastAccessedTick := tick % 2 ^ 32,
             dirty := e.dirty || write }
  { s with
    pager := { s.pager with policy := s.pager.policy.update pte.frameNum tick }
    tlb := tlbInsert s.tlb vpn pte.frameNum (pte.dirty || write) pte.permissions tick }

/-- `pager_access_page`: the result, `*out_pfn` where it is set, and the state after. -/
def pagerAccessPage (s : VmSys) (pid : ℤ) (vpn : ℕ) (write : Bool) (tick : ℕ) :
    PagerResult × Option ℕ × VmSys :=
  match s.vms pid with
  | none => (.errorAddr, none, s)
  | some vm =>
    let pte := vm.pt vpn
    let reqPerm := if write then vmProtWrite else vmProtRead
    if !pageTableValidatePermissions vm.pt vpn reqPerm then (.errorPerm, none, s)
    else if pte.present then (.hit, some pte.frameNum, pagerHit s pid vpn pte write tick)
    else
      match pagerObtainFrame s pid vpn with
      | (none, s) => (.errorOom, none, s)
      | (some pfn, s) =>
        (if pte.inSwap then .faultMajor else .faultMinor, some pfn,
          pagerPageIn s pid vpn pfn pte.inSwap write tick)

end Mosrt
