/-
The process table (`proc.c`).

A PCB keeps the fields that some function reads; its stack and its saved context
are host resources and its address space lives in `VmSys`.  `pid_to_slot` holds
`none` for `-1`.  Stack allocation is taken to succeed.

A table is used through `procGet` and the updates `ProcTable.modify` and
`procForEach`; `procGet_modify` and `procGet_forEach` say what a reader sees after
them, without any assumption on the table.  `ProcTable.Packed` is the shape a
table has as long as no process is destroyed: the `k`-th process created has pid
`k` and sits in slot `k - 1`.
-/
import Mathlib

namespace Mosrt

abbrev mosrtMaxProcs : ℕ := 1024
abbrev mosrtMaxPrio : ℤ := 39
abbrev mosrtMinPrio : ℤ := 0

/-- `UINT64_MAX`. -/
abbrev uint64Max : ℕ := 2 ^ 64 - 1

/-- `x++` on a `uint64_t`. -/
def incr64 (n : ℕ) : ℕ := (n + 1) % 2 ^ 64

/-- `a - b` on `uint64_t`. -/
def sub64 (a b : ℕ) : ℕ := (a + (2 ^ 64 - b)) % 2 ^ 64

/-- `proc_state_t`. -/
inductive ProcState where
  | new | ready | running | blocked | exited
deriving DecidableEq, Repr

/-- `pcb_t`. -/
structure Pcb where
  used : Bool := false
  pid : ℤ := 0
  ppid : ℤ := 0
  state : ProcState := .new
  priority : ℤ := 0
  basePriority : ℤ := 0
  nice : ℤ := 0
  mlfqLevel : ℕ := 0
  cpuTime : ℕ := 0
  waitTime : ℕ := 0
  responseTime : ℕ := 0
  startTick : ℕ := 0
  finishTick : ℕ := 0
  lastReadyTick : ℕ := 0
  wakeupTick : ℕ := 0
  exitCode : ℤ := 0
  vmLastAlloc : ℕ := 0

/-- `process_table_t`. -/
structure ProcTable where
  entries : ℕ → Pcb
  nextPid : ℤ
  pidToSlot : ℕ → Option ℕ

def findFreeSlot (t : ProcTable) : Option ℕ :=
  (List.range mosrtMaxProcs).find? fun i => !(t.entries i).used

def findSlotByPid (t : ProcTable) (pid : ℤ) : Option ℕ :=
  if 1 ≤ pid ∧ pid < t.nextPid ∧ pid ≤ mosrtMaxProcs then
    match t.pidToSlot (pid - 1).toNat with
    | none => none
    | some slot =>
      if slot < mosrtMaxProcs ∧ (t.entries slot).used ∧ (t.entries slot).pid = pid then some slot
      else none
  else none

def procTableInit : ProcTable where
  entries := fun _ => {}
  nextPid := 1
  pidToSlot := fun _ => none

/-- A priority forced into `[MOSRT_MIN_PRIO, MOSRT_MAX_PRIO]`. -/
def clampPrio (priority : ℤ) : ℤ :=
  if priority < mosrtMinPrio then mosrtMinPrio
  else if mosrtMaxPrio < priority then mosrtMaxPrio
  else priority

/-- The PCB that `proc_create` fills in. -/
def newPcb (pid ppid priority : ℤ) (nowTick : ℕ) : Pcb where
  used := true
  pid := pid
  ppid := ppid
  state := .new
  priority := clampPrio priority
  basePriority := clampPrio priority
  startTick := nowTick
  lastReadyTick := nowTick
  responseTime := uint64Max

/-- `proc_create`; `none` is the return of `-1`. -/
def procCreate (t : ProcTable) (ppid priority : ℤ) (nowTick : ℕ) : Option (ℤ × ProcTable) :=
  (findFreeSlot t).map fun slot =>
    (t.nextPid,
      { entries := Function.update t.entries slot (newPcb t.nextPid ppid priority nowTick)
        nextPid := t.nextPid + 1
        pidToSlot :=
          if t.nextPid ≤ mosrtMaxProcs then
            Function.update t.pidToSlot (t.nextPid - 1).toNat (some slot)
          else t.pidToSlot })

def procGet (t : ProcTable) (pid : ℤ) : Option Pcb := (findSlotByPid t pid).map t.entries

/-- Write through the pointer that `proc_get` returns. -/
def ProcTable.modify (t : ProcTable) (pid : ℤ) (f : Pcb → Pcb) : ProcTable :=
  match findSlotByPid t pid with
  | none => t
  | some slot => { t with entries := Function.update t.entries slot (f (t.entries slot)) }

def procIsValidTransition : ProcState → ProcState → Bool
  | .new, dst => dst == .ready || dst == .exited
  | .ready, dst => dst == .running || dst == .exited
  | .running, dst => dst == .ready || dst == .blocked || dst == .exited
  | .blocked, dst => dst == .ready || dst == .exited
  | .exited, _ => false

/-- The writes of `proc_set_state` on a legal transition. -/
def Pcb.setState (p : Pcb) (newState : ProcState) (nowTick : ℕ) : Pcb :=
  { p with
    responseTime :=
      if newState = .running ∧ p.responseTime = uint64Max then sub64 nowTick p.startTick
      else p.responseTime
    lastReadyTick := if newState = .ready then nowTick else p.lastReadyTick
    finishTick := if newState = .exited then nowTick else p.finishTick
    state := newState }

/-- `proc_set_state`; `none` is the return of `false`. -/
def procSetState (t : ProcTable) (pid : ℤ) (newState : ProcState) (nowTick : ℕ) :
    Option ProcTable :=
  match procGet t pid with
  | none => none
  | some p =>
    if procIsValidTransition p.state newState then
      some (t.modify pid fun p => p.setState newState nowTick)
    else none

/-- The writes of `proc_mark_exited`. -/
def Pcb.markExited (p : Pcb) (exitCode : ℤ) (nowTick : ℕ) : Pcb :=
  { p with exitCode := exitCode, finishTick := nowTick, state := .exited, wakeupTick := 0 }

/-- `proc_mark_exited`; `none` is the return of `false`. -/
def procMarkExited (t : ProcTable) (pid exitCode : ℤ) (nowTick : ℕ) : Option ProcTable :=
  match procGet t pid with
  | none => none
  | some p =>
    if p.state = .exited then none
    else if procIsValidTransition p.state .exited then
      some (t.modify pid fun p => p.markExited exitCode nowTick)
    else none

/-- `proc_destroy` without the address space. -/
def procDestroy (t : ProcTable) (pid exitCode : ℤ) : ProcTable :=
  match procGet t pid with
  | none => t
  | some _ =>
    let t := t.modify pid fun p => { p with exitCode := exitCode, state := .exited, used := false }
    { t with
      pidToSlot :=
        if 1 ≤ pid ∧ pid ≤ mosrtMaxProcs then Function.update t.pidToSlot (pid - 1).toNat none
        else t.pidToSlot }

/-- `proc_for_each` with a function that writes the PCB it is given and nothing else. -/
def procForEach (t : ProcTable) (f : Pcb → Pcb) : ProcTable :=
  { t with
    entries := fun i =>
      if i < mosrtMaxProcs ∧ (t.entries i).used then f (t.entries i) else t.entries i }

/-! ### What a reader of the table sees -/

variable {t t' : ProcTable} {pid pid' : ℤ} {slot : ℕ} {p : Pcb} {f : Pcb → Pcb}

/-- A write that leaves alone what the lookup goes by. -/
def KeepsId (f : Pcb → Pcb) : Prop := ∀ p, (f p).used = p.used ∧ (f p).pid = p.pid

theorem findSlotByPid_eq_some :
    findSlotByPid t pid = some slot ↔
      (1 ≤ pid ∧ pid < t.nextPid ∧ pid ≤ mosrtMaxProcs) ∧
        t.pidToSlot (pid - 1).toNat = some slot ∧
        slot < mosrtMaxProcs ∧ (t.entries slot).used = true ∧ (t.entries slot).pid = pid := by
  rw [findSlotByPid]
  split_ifs with hpid
  · cases hslot : t.pidToSlot (pid - 1).toNat with
    | none => simp
    | some s =>
      dsimp only
      split_ifs with hs
      · constructor
        · rintro ⟨⟩
          exact ⟨hpid, rfl, hs⟩
        · rintro ⟨-, h, -⟩
          exact h
      · constructor
        · rintro ⟨⟩
        · rintro ⟨-, ⟨⟩, h⟩
          exact absurd h hs
  · constructor
    · rintro ⟨⟩
    · rintro ⟨h, -⟩
      exact absurd h hpid

theorem procGet_eq_some :
    procGet t pid = some p ↔ ∃ slot, findSlotByPid t pid = some slot ∧ t.entries slot = p := by
  rw [procGet, Option.map_eq_some_iff]

/-- Pids of processes are in range. -/
theorem procGet_range (h : procGet t pid = some p) : 1 ≤ pid ∧ pid ≤ mosrtMaxProcs := by
  obtain ⟨slot, hslot, -⟩ := procGet_eq_some.mp h
  have := (findSlotByPid_eq_some.mp hslot).1
  exact ⟨this.1, this.2.2⟩

/-- Tables that agree on what the lookup goes by find the same slots. -/
theorem findSlotByPid_congr (hnext : t'.nextPid = t.nextPid) (hslots : t'.pidToSlot = t.pidToSlot)
    (hentries : ∀ i, (t'.entries i).used = (t.entries i).used ∧
      (t'.entries i).pid = (t.entries i).pid) :
    findSlotByPid t' pid = findSlotByPid t pid := by
  rw [findSlotByPid, findSlotByPid, hnext, hslots]
  simp only [hentries]

theorem findSlotByPid_modify (hf : KeepsId f) :
    findSlotByPid (t.modify pid f) pid' = findSlotByPid t pid' := by
  rw [ProcTable.modify]
  cases hslot : findSlotByPid t pid with
  | none => rfl
  | some slot =>
    refine findSlotByPid_congr rfl rfl fun i => ?_
    by_cases hi : i = slot
    · subst hi
      simp only [Function.update_self]
      exact hf _
    · simp only [Function.update_of_ne hi, and_self]

theorem procGet_modify (hf : KeepsId f) (pid' : ℤ) :
    procGet (t.modify pid f) pid' =
      if pid' = pid then (procGet t pid).map f else procGet t pid' := by
  rw [procGet, findSlotByPid_modify hf]
  split_ifs with hpid
  · subst hpid
    rw [procGet, ProcTable.modify]
    cases hslot : findSlotByPid t pid' with
    | none => rfl
    | some slot => simp
  · rw [procGet, ProcTable.modify]
    cases hslot : findSlotByPid t pid with
    | none => rfl
    | some slot =>
      cases hslot' : findSlotByPid t pid' with
      | none => rfl
      | some slot' =>
        -- one slot cannot hold two pids
        have hne : slot' ≠ slot := by
          rintro rfl
          have h1 := (findSlotByPid_eq_some.mp hslot).2.2.2.2
          have h2 := (findSlotByPid_eq_some.mp hslot').2.2.2.2
          exact hpid (h2.symm.trans h1)
        simp [Function.update_of_ne hne]

theorem procGet_modify_self (hf : KeepsId f) (h : procGet t pid = some p) :
    procGet (t.modify pid f) pid = some (f p) := by
  rw [procGet_modify hf, if_pos rfl, h, Option.map_some]

theorem procGet_forEach (hf : KeepsId f) (pid : ℤ) :
    procGet (procForEach t f) pid = (procGet t pid).map f := by
  have hfind : findSlotByPid (procForEach t f) pid = findSlotByPid t pid := by
    refine findSlotByPid_congr rfl rfl fun i => ?_
    simp only [procForEach]
    split_ifs
    · exact hf _
    · exact ⟨rfl, rfl⟩
  rw [procGet, hfind, procGet, Option.map_map]
  cases hslot : findSlotByPid t pid with
  | none => rfl
  | some slot =>
    have hs := (findSlotByPid_eq_some.mp hslot).2.2
    simp [procForEach, hs.1, hs.2.1]

/-- Writes that a reader who looks through `g` does not see. -/
theorem procGet_modify_map {β : Type} {g : Pcb → β} (hf : KeepsId f) (hg : ∀ p, g (f p) = g p)
    (pid pid' : ℤ) : (procGet (t.modify pid f) pid').map g = (procGet t pid').map g := by
  rw [procGet_modify hf]
  split_ifs with hpid
  · subst hpid
    rw [Option.map_map]
    exact congrArg (fun g => (procGet t pid').map g) (funext hg)
  · rfl

theorem procGet_forEach_map {β : Type} {g : Pcb → β} (hf : KeepsId f) (hg : ∀ p, g (f p) = g p)
    (pid : ℤ) : (procGet (procForEach t f) pid).map g = (procGet t pid).map g := by
  rw [procGet_forEach hf, Option.map_map]
  exact congrArg (fun g => (procGet t pid).map g) (funext hg)

/-- Writing one entry of the table, whoever it belongs to. -/
theorem procGet_entry_map {β : Type} {g : Pcb → β} (i : ℕ) {q : Pcb}
    (hused : q.used = (t.entries i).used) (hpid : q.pid = (t.entries i).pid)
    (hg : g q = g (t.entries i)) (pid : ℤ) :
    (procGet { t with entries := Function.update t.entries i q } pid).map g =
      (procGet t pid).map g := by
  have hfind : findSlotByPid { t with entries := Function.update t.entries i q } pid =
      findSlotByPid t pid := by
    refine findSlotByPid_congr rfl rfl fun j => ?_
    dsimp only
    by_cases hj : j = i
    · rw [hj, Function.update_self]
      exact ⟨hused, hpid⟩
    · rw [Function.update_of_ne hj]
      exact ⟨rfl, rfl⟩
  rw [procGet, procGet, hfind, Option.map_map, Option.map_map]
  refine congrArg (fun g => (findSlotByPid t pid).map g) (funext fun j => ?_)
  simp only [Function.comp_apply]
  by_cases hj : j = i
  · rw [hj, Function.update_self]
    exact hg
  · rw [Function.update_of_ne hj]

theorem keepsId_setState (newState : ProcState) (nowTick : ℕ) :
    KeepsId fun p => p.setState newState nowTick := fun _ => ⟨rfl, rfl⟩

theorem keepsId_markExited (exitCode : ℤ) (nowTick : ℕ) :
    KeepsId fun p => p.markExited exitCode nowTick := fun _ => ⟨rfl, rfl⟩

/-- `proc_set_state` succeeds exactly on a legal transition of an existing process. -/
theorem procSetState_eq_some {newState : ProcState} {nowTick : ℕ} :
    procSetState t pid newState nowTick = some t' ↔
      (∃ p, procGet t pid = some p ∧ procIsValidTransition p.state newState = true) ∧
        t' = t.modify pid fun p => p.setState newState nowTick := by
  rw [procSetState]
  cases hp : procGet t pid with
  | none => simp
  | some p =>
    dsimp only
    split_ifs with hv
    · constructor
      · rintro ⟨⟩
        exact ⟨⟨p, rfl, hv⟩, rfl⟩
      · rintro ⟨-, rfl⟩
        rfl
    · simp [hv]

theorem procMarkExited_eq_some {exitCode : ℤ} {nowTick : ℕ} :
    procMarkExited t pid exitCode nowTick = some t' ↔
      (∃ p, procGet t pid = some p ∧ p.state ≠ .exited) ∧
        t' = t.modify pid fun p => p.markExited exitCode nowTick := by
  rw [procMarkExited]
  cases hp : procGet t pid with
  | none => simp
  | some p =>
    dsimp only
    split_ifs with hx hv
    · simp [hx]
    · constructor
      · rintro ⟨⟩
        exact ⟨⟨p, rfl, hx⟩, rfl⟩
      · rintro ⟨-, rfl⟩
        rfl
    · -- every state but `EXITED` may be left for `EXITED`
      exact absurd (by cases hs : p.state <;> simp_all [procIsValidTransition]) hv

/-! ### Tables without destroyed processes -/

/-- The table of `n` processes created one after the other. -/
structure ProcTable.Packed (t : ProcTable) (n : ℕ) : Prop where
  le : n ≤ mosrtMaxProcs
  next : t.nextPid = n + 1
  used : ∀ i < mosrtMaxProcs, (t.entries i).used = true ↔ i < n
  pid : ∀ i < n, (t.entries i).pid = i + 1
  slot : ∀ i < n, t.pidToSlot i = some i

theorem packed_init : procTableInit.Packed 0 where
  le := Nat.zero_le _
  next := rfl
  used := fun i _ => by simp [procTableInit]
  pid := fun i hi => absurd hi (Nat.not_lt_zero i)
  slot := fun i hi => absurd hi (Nat.not_lt_zero i)

variable {n : ℕ}

theorem ProcTable.Packed.find (h : t.Packed n) (i : ℕ) (hi : i < n) :
    findSlotByPid t (i + 1) = some i := by
  have hle := h.le
  have hnext := h.next
  refine findSlotByPid_eq_some.mpr ⟨⟨by omega, by omega, by omega⟩, ?_, by omega, ?_, ?_⟩
  · simpa using h.slot i hi
  · exact (h.used i (by omega)).mpr hi
  · exact h.pid i hi

theorem ProcTable.Packed.get (h : t.Packed n) (i : ℕ) (hi : i < n) :
    procGet t (i + 1) = some (t.entries i) := by
  rw [procGet, h.find i hi, Option.map_some]

theorem ProcTable.Packed.get_eq_some (h : t.Packed n) (hp : procGet t pid = some p) :
    ∃ i < n, pid = i + 1 ∧ t.entries i = p := by
  obtain ⟨slot, hslot, hent⟩ := procGet_eq_some.mp hp
  obtain ⟨-, -, hlt, hused, hpid⟩ := findSlotByPid_eq_some.mp hslot
  have hn := (h.used slot hlt).mp hused
  exact ⟨slot, hn, by rw [← hpid, h.pid slot hn], hent⟩

theorem ProcTable.Packed.get_none (h : t.Packed n) (hpid : pid = n + 1) : procGet t pid = none := by
  cases hp : procGet t pid with
  | none => rfl
  | some p =>
    obtain ⟨i, hi, heq, -⟩ := h.get_eq_some hp
    omega

/-- The shape depends only on what the lookup goes by. -/
theorem ProcTable.Packed.congr (h : t.Packed n) (hnext : t'.nextPid = t.nextPid)
    (hslots : t'.pidToSlot = t.pidToSlot)
    (hentries : ∀ i, (t'.entries i).used = (t.entries i).used ∧
      (t'.entries i).pid = (t.entries i).pid) : t'.Packed n where
  le := h.le
  next := by rw [hnext, h.next]
  used := fun i hi => by rw [(hentries i).1, h.used i hi]
  pid := fun i hi => by rw [(hentries i).2, h.pid i hi]
  slot := fun i hi => by rw [hslots, h.slot i hi]

theorem ProcTable.Packed.modify (h : t.Packed n) (hf : KeepsId f) : (t.modify pid f).Packed n := by
  rw [ProcTable.modify]
  cases findSlotByPid t pid with
  | none => exact h
  | some slot =>
    refine h.congr rfl rfl fun i => ?_
    by_cases hi : i = slot
    · subst hi
      simp only [Function.update_self]
      exact hf _
    · simp only [Function.update_of_ne hi, and_self]

theorem ProcTable.Packed.forEach (h : t.Packed n) (hf : KeepsId f) :
    (procForEach t f).Packed n := by
  refine h.congr rfl rfl fun i => ?_
  simp only [procForEach]
  split_ifs
  · exact hf _
  · exact ⟨rfl, rfl⟩

theorem ProcTable.Packed.freeSlot (h : t.Packed n) :
    findFreeSlot t = if n < mosrtMaxProcs then some n else none := by
  split_ifs with hn
  · refine List.find?_range_eq_some.mpr ⟨?_, List.mem_range.mpr hn, fun j hj => ?_⟩
    · have := (h.used n hn).not.mpr (lt_irrefl n)
      simpa using this
    · have := (h.used j (hj.trans hn)).mpr hj
      simp [this]
  · rw [findFreeSlot, List.find?_eq_none]
    intro i hi
    have hi := List.mem_range.mp hi
    have := (h.used i hi).mpr (by omega)
    simp [this]

/-- Creation on a packed table: the next pid, in the next slot. -/
theorem ProcTable.Packed.create (h : t.Packed n) (hn : n < mosrtMaxProcs) (ppid priority : ℤ)
    (nowTick : ℕ) :
    ∃ t', procCreate t ppid priority nowTick = some ((n : ℤ) + 1, t') ∧ t'.Packed (n + 1) ∧
      procGet t' (n + 1) = some (newPcb (n + 1) ppid priority nowTick) ∧
      ∀ pid : ℤ, pid ≠ n + 1 → procGet t' pid = procGet t pid := by
  have hnext := h.next
  have hpid : (n : ℤ) + 1 ≤ mosrtMaxProcs := by omega
  have hidx : ((n : ℤ) + 1 - 1).toNat = n := by omega
  obtain ⟨t', ht'⟩ : ∃ t' : ProcTable, t' =
    { entries := Function.update t.entries n (newPcb (n + 1) ppid priority nowTick)
      nextPid := (n : ℤ) + 1 + 1
      pidToSlot := Function.update t.pidToSlot n (some n) } := ⟨_, rfl⟩
  have hfree : findFreeSlot t = some n := by rw [h.freeSlot, if_pos hn]
  have hcreate : procCreate t ppid priority nowTick = some ((n : ℤ) + 1, t') := by
    rw [procCreate, hfree, Option.map_some, hnext, if_pos hpid, hidx, ht']
  have hent : t'.entries = Function.update t.entries n (newPcb (n + 1) ppid priority nowTick) := by
    rw [ht']
  have hslots : t'.pidToSlot = Function.update t.pidToSlot n (some n) := by rw [ht']
  have hpacked : t'.Packed (n + 1) := by
    refine ⟨hn, by simp [ht'], fun i hi => ?_, fun i hi => ?_, fun i hi => ?_⟩
    · by_cases hin : i = n
      · subst hin
        simp [hent, newPcb]
      · rw [hent, Function.update_of_ne hin, h.used i hi]
        omega
    · by_cases hin : i = n
      · subst hin
        simp [hent, newPcb]
      · rw [hent, Function.update_of_ne hin, h.pid i (by omega)]
    · by_cases hin : i = n
      · subst hin
        simp [hslots]
      · rw [hslots, Function.update_of_ne hin, h.slot i (by omega)]
  refine ⟨t', hcreate, hpacked, ?_, fun pid hne => ?_⟩
  · rw [hpacked.get n (Nat.lt_succ_self n), hent, Function.update_self]
  · -- an old pid has its old slot, which is not `n`
    ext p
    constructor
    · intro hp
      obtain ⟨i, hi, rfl, rfl⟩ := hpacked.get_eq_some hp
      have hin : i ≠ n := by rintro rfl; exact hne rfl
      rw [h.get i (by omega), hent, Function.update_of_ne hin]
    · intro hp
      obtain ⟨i, hi, rfl, rfl⟩ := h.get_eq_some hp
      rw [hpacked.get i (by omega), hent, Function.update_of_ne (by omega)]

end Mosrt
