/-
The trace log (`log.c`): a bounded list of events.

What `trace_event` prints when tracing is switched on goes to the terminal and is
left out, and with it the two switches.
-/
import Mosrt.CString

namespace Mosrt

abbrev mosrtMaxTraceEvents : ℕ := 4096

/-- `trace_event_t`. -/
structure TraceEvent where
  tick : ℕ
  pid : ℤ
  event : CString
  detail : CString
deriving DecidableEq, Repr

/-- `trace_log_t`; `count` is the length of `events`. -/
structure TraceLog where
  events : List TraceEvent := []
  overflow : ℕ := 0

def traceEvent (log : TraceLog) (tick : ℕ) (pid : ℤ) (event detail : CString) : TraceLog :=
  if log.events.length < mosrtMaxTraceEvents then
    { log with events := log.events ++ [⟨tick, pid, truncateTo 24 event, truncateTo 96 detail⟩] }
  else { log with overflow := (log.overflow + 1) % 2 ^ 64 }

end Mosrt
