/-
Workloads (`workload.h`): the instructions that processes execute.
-/
import Mosrt.CString

namespace Mosrt

abbrev mosrtMaxWorkloadInsns : ℕ := 128

/-- `workload_op_t`. -/
inductive WorkloadOp where
  | cpu | io | send | recv | semWait | semPost | lock | unlock | mmap | access | mfree | exit
deriving DecidableEq, Repr

/-- `workload_insn_t`. -/
structure WorkloadInsn where
  op : WorkloadOp
  arg0 : ℤ := 0
  arg1 : ℤ := 0
  ticks : ℕ := 0
deriving DecidableEq, Repr

/-- `workload_t`; `count` is the length of `insns`. -/
structure Workload where
  name : CString := []
  insns : List WorkloadInsn := []
deriving DecidableEq, Repr

end Mosrt
