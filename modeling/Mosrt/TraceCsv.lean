/-
The CSV export of the trace log (`trace_export_csv` in `log.c`).

The detail of an event stands in quotes as it is: commas and newlines in it do no harm, but a
quote is not doubled.

* `csvRead_events` — what a reader makes of the rows of events;
* `csv_lossless` — the export is read back as the events that are stored, exactly if there is
  no quote in a detail.
-/
import Mosrt.Log
import Mosrt.Csv

namespace Mosrt

open Csv

/-! ### The export -/

/-- The names of the fields. -/
def csvNames : List CString := ["tick", "pid", "event", "detail"]

def csvHeader : CString := "tick,pid,event,detail"

/-- The line of an event. -/
def csvRow (e : TraceEvent) : CString :=
  decimal e.tick ++ comma :: decimal e.pid ++ comma :: e.event ++
    comma :: quote :: e.detail ++ [quote, newline]

/-- The text that `trace_export_csv` writes. -/
def traceExportCsv (log : TraceLog) : CString :=
  csvHeader ++ newline :: log.events.flatMap csvRow ++
    if 0 < log.overflow then
      asciiBytes ("# " ++ toString log.overflow ++ " trace events dropped due to buffer overflow\n")
    else []

/-- The fields of an event. -/
def csvFields (e : TraceEvent) : List CString := [decimal e.tick, decimal e.pid, e.event, e.detail]

/-! ### Reading -/

theorem decimal_plain (n : ℤ) : ∀ b ∈ decimal n, IsPlain b := by
  intro b hb
  refine ⟨?_, ?_, ?_⟩ <;> rintro rfl <;> exact absurd (decimal_bytes hb) (by decide)

variable {e : TraceEvent} {es : List TraceEvent}

/-- The three plain fields of an event are read, and the quote is open. -/
theorem csvRead_row (hevent : ∀ b ∈ e.event, IsPlain b) (rest : CString) :
    csvRead (csvRow e ++ rest) = csvLoop .quoted [] [decimal e.tick, decimal e.pid, e.event]
      (e.detail ++ quote :: newline :: rest) := by
  have hrow : csvRow e ++ rest = decimal e.tick ++ comma :: (decimal e.pid ++
      comma :: (e.event ++ comma :: quote :: (e.detail ++ quote :: newline :: rest))) := by
    simp [csvRow]
  rw [hrow, csvRead, csvLoop_plain (decimal_plain _) (.inl rfl),
    csvLoop_plain (decimal_plain _) (.inl rfl), csvLoop_plain hevent (.inl rfl)]
  rfl

/-- The rows of events are read back exactly if no detail has a quote in it. -/
theorem csvRead_events (hevents : ∀ e ∈ es, ∀ b ∈ e.event, IsPlain b) :
    csvRead (es.flatMap csvRow) = some (es.map csvFields) ↔ ∀ e ∈ es, quote ∉ e.detail := by
  induction es with
  | nil => exact iff_of_true rfl fun e he => absurd he List.not_mem_nil
  | cons e es ih =>
    rw [List.forall_mem_cons] at hevents
    rw [List.flatMap_cons, csvRead_row hevents.1, List.forall_mem_cons, ← ih hevents.2]
    exact csvLoop_quoted_iff

theorem csvRead_header (rest : CString) :
    csvRead (csvHeader ++ newline :: rest) = (csvRead rest).map (csvNames :: ·) := by
  rfl

/-! ### Logs -/

/-- The log after the calls of `trace_event` with these arguments. -/
def tracedBy (calls : List TraceEvent) : TraceLog :=
  calls.foldl (fun log c => traceEvent log c.tick c.pid c.event c.detail) {}

/-- The names of events are cut off, but nothing comes into them. -/
theorem tracedBy_events {calls : List TraceEvent} (hcalls : ∀ c ∈ calls, ∀ b ∈ c.event, IsPlain b) :
    ∀ e ∈ (tracedBy calls).events, ∀ b ∈ e.event, IsPlain b := by
  have hinit : ∀ e ∈ ({} : TraceLog).events, ∀ b ∈ e.event, IsPlain b :=
    fun e he => absurd he List.not_mem_nil
  refine List.foldlRecOn (motive := fun log : TraceLog =>
    ∀ e ∈ log.events, ∀ b ∈ e.event, IsPlain b) calls _ hinit fun log ih c hc => ?_
  rw [traceEvent]
  split_ifs
  · intro e he b hb
    rcases List.mem_append.mp he with he | he
    · exact ih e he b hb
    · rw [List.mem_singleton.mp he] at hb
      exact hcalls c hc b (List.mem_of_mem_take hb)
  · exact ih

/-- **CSV export.**  A log without overflow, built by any calls of `trace_event` with names free
of commas, quotes and newlines, is read back from its export exactly if there is no quote in a
detail that is stored. -/
theorem csv_lossless (calls : List TraceEvent)
    (hcalls : ∀ c ∈ calls, ∀ b ∈ c.event, b ≠ comma ∧ b ≠ quote ∧ b ≠ newline)
    (hoverflow : (tracedBy calls).overflow = 0) :
    csvRead (traceExportCsv (tracedBy calls)) =
        some (csvNames :: (tracedBy calls).events.map csvFields) ↔
      ∀ e ∈ (tracedBy calls).events, quote ∉ e.detail := by
  have hinj : Function.Injective (Option.map (csvNames :: ·)) :=
    Option.map_injective fun rs rs' h => (List.cons.inj h).2
  have htext : traceExportCsv (tracedBy calls) =
      csvHeader ++ newline :: (tracedBy calls).events.flatMap csvRow := by
    rw [traceExportCsv, hoverflow, if_neg (lt_irrefl 0), List.append_nil]
  rw [htext, csvRead_header, ← csvRead_events (tracedBy_events hcalls)]
  exact hinj.eq_iff (b := some _)

/-- A call whose detail has commas and newlines in it, and a quote only after its 96th byte:
U+00E9 takes two bytes. -/
def longCall : List TraceEvent :=
  [⟨7, -1, "CREATE", asciiBytes "a,b\nc" ++ (List.replicate 60 [0xC3, 0xA9]).flatten ++ [quote]⟩]

theorem csv_lossless_long :
    ((tracedBy longCall).events.map fun e => e.detail.length) = [95] ∧
      csvRead (traceExportCsv (tracedBy longCall)) =
        some (csvNames :: (tracedBy longCall).events.map csvFields) :=
  ⟨by decide +kernel,
    (csv_lossless longCall (by decide +kernel) (by decide +kernel)).mpr (by decide +kernel)⟩

/-- A workload path with two quotes in it. -/
def quoteCall : List TraceEvent := [⟨0, 1, "CREATE", "a\"\"b"⟩]

/-- One of the two quotes is lost. -/
theorem csv_lossless_quotes :
    (tracedBy quoteCall).overflow = 0 ∧ csvRead (traceExportCsv (tracedBy quoteCall)) =
      some [csvNames, ["0", "1", "CREATE", "a\"b"]] := by
  decide +kernel

end Mosrt
