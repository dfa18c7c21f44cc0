/-
The page replacement policies (`replacement_fifo.c`, `replacement_lru.c`,
`replacement_clock.c`) behind the interface of `replacement.h`.

Arrays with a size field are lists.  The interface speaks of pages (`vpn`); the
pager passes frame numbers, and the clock policy then uses such a number as an
index into the page table it is given (`clockEvict`).
-/
import Mosrt.PageTable

namespace Mosrt

/-! ### First in, first out -/

abbrev maxQueueSize : ℕ := 256

def fifoInsert (queue : List ℕ) (vpn : ℕ) : List ℕ :=
  if vpn ∈ queue then queue
  else if queue.length < maxQueueSize then queue ++ [vpn]
  else queue

def fifoRemove (queue : List ℕ) (vpn : ℕ) : List ℕ := queue.erase vpn

def fifoEvict : List ℕ → Option ℕ × List ℕ
  | [] => (none, [])
  | vpn :: rest => (some vpn, rest)

/-! ### Least recently used -/

abbrev maxLruPages : ℕ := 256

/-- `lru_entry_t`. -/
structure LruEntry where
  vpn : ℕ
  lastTick : ℕ
deriving DecidableEq, Repr

/-- The scan of `lru_update`: refresh the first entry for `vpn`, if there is one. -/
def lruRefresh (vpn tick : ℕ) : List LruEntry → Option (List LruEntry)
  | [] => none
  | e :: rest =>
    if e.vpn = vpn then some ({ e with lastTick := tick % 2 ^ 32 } :: rest)
    else (lruRefresh vpn tick rest).map (e :: ·)

def lruUpdate (pages : List LruEntry) (vpn tick : ℕ) : List LruEntry :=
  match lruRefresh vpn tick pages with
  | some pages' => pages'
  | none =>
    if pages.length < maxLruPages then
      pages ++ [{ vpn := vpn, lastTick := tick % 2 ^ 32 }]
    else pages

def lruInsert (pages : List LruEntry) (vpn tick : ℕ) : List LruEntry := lruUpdate pages vpn tick

def lruRemove (pages : List LruEntry) (vpn : ℕ) : List LruEntry :=
  pages.eraseP fun e => e.vpn == vpn

/-- The first entry with the least tick among `best` and `rest`. -/
def lruOldest (best : LruEntry) : List LruEntry → LruEntry
  | [] => best
  | e :: rest => if e.lastTick < best.lastTick then lruOldest e rest else lruOldest best rest

/-- `lru_evict`.  Removing the chosen index is removing the first entry equal to
the chosen one: an equal entry before it would have been chosen. -/
def lruEvict : List LruEntry → Option ℕ × List LruEntry
  | [] => (none, [])
  | e :: rest =>
    let oldest := lruOldest e rest
    (some oldest.vpn, (e :: rest).erase oldest)

/-! ### Clock -/

/-- `clock_state_t`. -/
structure ClockState where
  pages : List ℕ := []
  hand : ℕ := 0
deriving DecidableEq, Repr

def clockInsert (c : ClockState) (vpn : ℕ) : ClockState :=
  if vpn ∈ c.pages then c
  else if c.pages.length < vmNumFrames then { c with pages := c.pages ++ [vpn] }
  else c

def clockRemove (c : ClockState) (vpn : ℕ) : ClockState :=
  if vpn ∈ c.pages then
    let pages := c.pages.erase vpn
    { pages := pages, hand := if c.hand ≥ pages.length then 0 else c.hand }
  else c

/-- The `while` loop of `clock_evict`; the first argument counts the attempts left.
The table is the one the caller passes, indexed by the tracked number. -/
def clockScan : ℕ → ClockState → PageTable → Option ℕ × ClockState × PageTable
  | 0, c, pt =>
    -- fallback: evict the first element
    (c.pages.head?, { pages := c.pages.tail, hand := 0 }, pt)
  | attempts + 1, c, pt =>
    let vpn := c.pages.getD c.hand 0
    if (pt vpn).referenced then
      -- second chance
      clockScan attempts { c with hand := (c.hand + 1) % c.pages.length }
        (Function.update pt vpn { pt vpn with referenced := false })
    else
      let nextHand := (c.hand + 1) % c.pages.length
      let pages := c.pages.eraseIdx c.hand
      (some vpn,
        { pages := pages, hand := if 0 < pages.length then nextHand % pages.length else 0 }, pt)

def clockEvict (c : ClockState) (pt : PageTable) : Option ℕ × ClockState × PageTable :=
  if c.pages.length = 0 then (none, c, pt) else clockScan (2 * c.pages.length) c pt

/-! ### The active policy -/

/-- `g_policy` together with `g_policy_state`. -/
inductive Policy where
  | fifo (queue : List ℕ)
  | lru (pages : List LruEntry)
  | clock (c : ClockState)
deriving DecidableEq, Repr

/-- The policy named by a string, freshly initialised. -/
def Policy.ofName (name : String) : Option Policy :=
  if name = "fifo" then some (.fifo [])
  else if name = "lru" then some (.lru [])
  else if name = "clock" then some (.clock {})
  else none

def Policy.update : Policy → ℕ → ℕ → Policy
  | .fifo queue, _, _ => .fifo queue
  | .lru pages, vpn, tick => .lru (lruUpdate pages vpn tick)
  | .clock c, _, _ => .clock c

def Policy.insert : Policy → ℕ → ℕ → Policy
  | .fifo queue, vpn, _ => .fifo (fifoInsert queue vpn)
  | .lru pages, vpn, tick => .lru (lruInsert pages vpn tick)
  | .clock c, vpn, _ => .clock (clockInsert c vpn)

/-- `evict`: the page given up, the policy state after, and the page table, in which
the clock policy clears referenced bits. -/
def Policy.evict : Policy → PageTable → Option ℕ × Policy × PageTable
  | .fifo queue, pt => ((fifoEvict queue).1, .fifo (fifoEvict queue).2, pt)
  | .lru pages, pt => ((lruEvict pages).1, .lru (lruEvict pages).2, pt)
  | .clock c, pt =>
    ((clockEvict c pt).1, .clock (clockEvict c pt).2.1, (clockEvict c pt).2.2)

end Mosrt
