/-
Page tables: the parameters of `vm_types.h` and the operations of `page_table.c`.

A page table is a function from virtual page numbers to entries.  The C array
has `vmNumPages` entries; every page number the runtime computes is a high byte
of a 16-bit address, so it is below that bound.  Null-pointer checks of the
source have no counterpart here: a table is a value.

The machine types are kept as naturals.  Casts that can lose information in the
source (`uint32_t` ticks) are written as remainders where they occur.
-/
import Mathlib

namespace Mosrt

/-! ### Parameters -/

/-- Bytes in a page, a frame and a swap slot. -/
abbrev vmPageSize : ℕ := 256

/-- Size of the 16-bit virtual address space. -/
abbrev vmVirtAddrSpaceSize : ℕ := 65536

abbrev vmNumPages : ℕ := vmVirtAddrSpaceSize / vmPageSize

abbrev vmPhysMemSize : ℕ := 16384

abbrev vmNumFrames : ℕ := vmPhysMemSize / vmPageSize

abbrev vmSwapSize : ℕ := 65536

abbrev vmNumSwapSlots : ℕ := vmSwapSize / vmPageSize

abbrev vmTlbSize : ℕ := 16

/-- Ticks a major fault blocks the faulting process. -/
abbrev vmPageFaultLatency : ℕ := 5

abbrev vmSegTextPages : ℕ := 16
abbrev vmSegRodataPages : ℕ := 16
abbrev vmSegDataPages : ℕ := 16
abbrev vmSegBssPages : ℕ := 16
abbrev vmSegHeapStart : ℕ := 0x4000
abbrev vmSegHeapMaxPages : ℕ := 128
abbrev vmSegStackMaxPages : ℕ := 64

abbrev vmProtRead : ℕ := 1
abbrev vmProtWrite : ℕ := 2
abbrev vmProtExec : ℕ := 4

/-- `++` on a `uint32_t` statistics counter. -/
def incr32 (n : ℕ) : ℕ := (n + 1) % 2 ^ 32

/-! ### Page table entries -/

/-- `pte_t`. -/
structure Pte where
  frameNum : ℕ := 0
  permissions : ℕ := 0
  present : Bool := false
  dirty : Bool := false
  accessed : Bool := false
  /-- For the clock policy. -/
  referenced : Bool := false
  lastAccessedTick : ℕ := 0
  inSwap : Bool := false
  swapSlot : ℕ := 0
deriving DecidableEq, Repr

/-- `page_table_t`. -/
abbrev PageTable := ℕ → Pte

/-- The segment a page number lies in (`page_table_get_segment_name`). -/
inductive Segment where
  | text | rodata | data | bss | heap | stack | unknown
deriving DecidableEq, Repr

def pageTableGetSegmentName (vpn : ℕ) : Segment :=
  let heapStartVpn := vmSegTextPages + vmSegRodataPages + vmSegDataPages + vmSegBssPages
  if vpn < vmSegTextPages then .text
  else if vpn < vmSegTextPages + vmSegRodataPages then .rodata
  else if vpn < vmSegTextPages + vmSegRodataPages + vmSegDataPages then .data
  else if vpn < vmSegTextPages + vmSegRodataPages + vmSegDataPages + vmSegBssPages then .bss
  else if heapStartVpn ≤ vpn ∧ vpn < heapStartVpn + vmSegHeapMaxPages then .heap
  else if vmNumPages - vmSegStackMaxPages ≤ vpn then .stack
  else .unknown

def pageTableGetSegmentDefaultPermissions (vpn : ℕ) : ℕ :=
  match pageTableGetSegmentName vpn with
  | .text => vmProtRead ||| vmProtExec
  | .rodata => vmProtRead
  | .data | .bss | .heap | .stack => vmProtRead ||| vmProtWrite
  | .unknown => 0

/-- `page_table_init`: nothing present, nothing swapped, default permissions. -/
def pageTableInit : PageTable :=
  fun vpn => { permissions := pageTableGetSegmentDefaultPermissions vpn }

def pageTableMap (pt : PageTable) (vpn pfn permissions : ℕ) : PageTable :=
  Function.update pt vpn
    { pt vpn with
      frameNum := pfn, permissions := permissions, present := true, inSwap := false }

def pageTableValidatePermissions (pt : PageTable) (vpn accessType : ℕ) : Bool :=
  (pt vpn).permissions &&& accessType == accessType

/-- Everything from the data segment on is writable, and nothing below. -/
theorem writable_iff (vpn : ℕ) :
    pageTableGetSegmentDefaultPermissions vpn &&& vmProtWrite = vmProtWrite ↔
      vmSegTextPages + vmSegRodataPages ≤ vpn := by
  rw [pageTableGetSegmentDefaultPermissions, pageTableGetSegmentName]
  simp only [vmSegTextPages, vmSegRodataPages, vmSegDataPages, vmSegBssPages, vmSegHeapMaxPages,
    vmSegStackMaxPages, vmNumPages, vmVirtAddrSpaceSize, vmPageSize, vmProtRead, vmProtWrite,
    vmProtExec]
  -- one goal for each segment; the seventh, unknown, is empty
  split_ifs <;> simp <;> omega

end Mosrt
