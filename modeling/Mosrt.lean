import Mosrt.FlatMemory
import Mosrt.Isolation
import Mosrt.SyncHandoff
import Mosrt.BinaryHeap
import Mosrt.Log
import Mosrt.Proc
import Mosrt.RingBuffer
import Mosrt.Sched
import Mosrt.Workload
import Mosrt.Ipc
import Mosrt.Runtime
import Mosrt.Core
import Mosrt.RuntimeSpec
import Mosrt.InsnSpec
import Mosrt.Consistency
import Mosrt.Conservation
import Mosrt.WaitLists
import Mosrt.IpcWakeup
import Mosrt.SyncSafety
import Mosrt.BlockList
import Mosrt.FlatHeap
import Mosrt.HeapSpec
import Mosrt.HeapGrowth
import Mosrt.HeapInvariant
import Mosrt.Ledger
import Mosrt.LedgerSpec
import Mosrt.Accounting
import Mosrt.StepTicks
import Mosrt.TimerFree
import Mosrt.AllocTrace
import Mosrt.HeapWalk
import Mosrt.ClockHand
import Mosrt.MemSteps
import Mosrt.PagerPolicy
import Mosrt.TrackerRuns
import Mosrt.Eviction
import Mosrt.Protection
import Mosrt.SecondChance
import Mosrt.WorkloadLoad
import Mosrt.Chronicle
import Mosrt.DoubleFree
import Mosrt.InternalErrors
import Mosrt.Recency
import Mosrt.Replay
import Mosrt.Aging
import Mosrt.ArrivalOrder
import Mosrt.BoostSpacing
import Mosrt.Comments
import Mosrt.Demotion
import Mosrt.IoDelay
import Mosrt.KillOrder
import Mosrt.PidLookup
import Mosrt.PriorityDispatch
import Mosrt.AllocStore
import Mosrt.HeapRuns
import Mosrt.AccessAddress
import Mosrt.Csv
import Mosrt.LruOrder
import Mosrt.ReadyOrder
import Mosrt.Teardown
import Mosrt.TlbLru
import Mosrt.TraceCsv
import Mosrt.WorkloadText
import Mosrt.Completion
import Mosrt.CriticalSections
import Mosrt.Deadlock
import Mosrt.LevelOrder
import Mosrt.RoundRobin
