/-
Loading workloads (`workload.c`).

`workloadLoad path content` is `workload_load` on a file with any bytes in it.  The
functions of the C library that it calls are modelled on byte lists: `fgets` into a
buffer of 256 bytes, so that longer lines arrive in pieces; strings that end at the first
NUL; `strtok`, `strtoull` and `strtol`, the latter two with white space and a sign in
front, so that `CPU -1` is a burst of 2^64 - 1 ticks.

* `WorkloadInsn.Ok` — a burst is not empty;
* `Workload.WellFormed` — at most 128 such instructions, the last one EXIT;
* `workloadLoad_wellFormed` — what is loaded is well formed;
* `findWorkload` — the places where `runtime_run_workload` looks for a file.
-/
import Mosrt.Workload

namespace Mosrt

/-! ### Lines -/

def isSpace (c : UInt8) : Bool := c == 32 || c == 9 || c == 10 || c == 13 || c == 11 || c == 12

/-- The buffer of a line, without the NUL behind it. -/
abbrev lineMax : ℕ := 255

/-- The lines that `fgets` delivers of the rest of a file, with `buf` read already: it stops
behind a newline, when the buffer is full, and at the end of the file. -/
def fgetsLines : List UInt8 → List UInt8 → List (List UInt8)
  | buf, [] => if buf = [] then [] else [buf]
  | buf, b :: bs =>
    if b = 10 ∨ (buf ++ [b]).length = lineMax then (buf ++ [b]) :: fgetsLines [] bs
    else fgetsLines (buf ++ [b]) bs

/-- Nothing of the file is lost. -/
theorem fgetsLines_flatten (buf bs : List UInt8) : (fgetsLines buf bs).flatten = buf ++ bs := by
  induction bs generalizing buf with
  | nil =>
    rw [fgetsLines]
    split_ifs with hbuf
    · simp [hbuf]
    · simp
  | cons b bs ih =>
    rw [fgetsLines]
    split_ifs
    · rw [List.flatten_cons, ih]
      simp
    · rw [ih]
      simp

/-- The string in a buffer, up to its NUL, and up to a comment. -/
def cutComment (line : List UInt8) : List UInt8 :=
  (line.takeWhile fun c => c != 0).takeWhile fun c => c != 35

def trim (s : List UInt8) : List UInt8 := (s.dropWhile isSpace).rdropWhile isSpace

/-- The delimiters of `strtok`: white space, but no vertical tab and no form feed. -/
def isDelim (c : UInt8) : Bool := c == 32 || c == 9 || c == 13 || c == 10

/-- What repeated calls of `strtok` deliver. -/
def strtok (s : List UInt8) : List (List UInt8) :=
  (s.splitOnP isDelim).filter fun tok => tok ≠ []

/-- The fields of a line; none when it is blank. -/
def fields (line : List UInt8) : List (List UInt8) := strtok (trim (cutComment line))

/-! ### Numbers -/

def isDigit (c : UInt8) : Bool := 48 ≤ c && c ≤ 57

/-- What `strtoull` and `strtol` read in base 10: whether there is a minus sign, the digits,
and what follows them. -/
def scanNumber (s : List UInt8) : Bool × List UInt8 × List UInt8 :=
  match s.dropWhile isSpace with
  | 45 :: s => (true, s.takeWhile isDigit, s.dropWhile isDigit)
  | 43 :: s => (false, s.takeWhile isDigit, s.dropWhile isDigit)
  | s => (false, s.takeWhile isDigit, s.dropWhile isDigit)

def digitsValue (ds : List UInt8) : ℕ := ds.foldl (fun n d => 10 * n + (d.toNat - 48)) 0

/-- A number is refused without digits, with anything behind it, and out of range; the minus
sign of an unsigned number negates modulo 2^64. -/
def parseU64 (s : List UInt8) : Option ℕ :=
  let (neg, ds, rest) := scanNumber s
  let v := digitsValue ds
  if ds = [] ∨ rest ≠ [] ∨ 2 ^ 64 ≤ v then none
  else some (if neg then (2 ^ 64 - v) % 2 ^ 64 else v)

def parseI32 (s : List UInt8) : Option ℤ :=
  let (neg, ds, rest) := scanNumber s
  let v : ℤ := if neg then -digitsValue ds else digitsValue ds
  -- `ERANGE` of `strtol`, then the range of `int`
  if ds = [] ∨ rest ≠ [] ∨ (v < -2 ^ 63 ∨ 2 ^ 63 ≤ v) ∨ v < -2 ^ 31 ∨ 2 ^ 31 ≤ v then none
  else some v

/-! ### Instructions -/

def atLine (path : CString) (lineno : ℕ) (text : String) : CString :=
  path ++ asciiBytes (":" ++ toString lineno ++ ": " ++ text)

/-- The branch of a burst: `CPU` or `IO`, and its number of ticks. -/
def decodeBurst (path : CString) (lineno : ℕ) (op : WorkloadOp) (empty : String) :
    List (List UInt8) → Except CString WorkloadInsn
  | [ticks] =>
    match parseU64 ticks with
    | none => .error (atLine path lineno "invalid instruction")
    | some n => if n = 0 then .error (atLine path lineno empty) else .ok { op := op, ticks := n }
  | _ => .error (atLine path lineno "invalid instruction")

/-- The branch of an instruction with one operand. -/
def decodeOne (path : CString) (lineno : ℕ) (op : WorkloadOp) :
    List (List UInt8) → Except CString WorkloadInsn
  | [arg0] =>
    match parseI32 arg0 with
    | none => .error (atLine path lineno "invalid instruction")
    | some n => .ok { op := op, arg0 := n }
  | _ => .error (atLine path lineno "invalid instruction")

/-- The branch of an instruction with two operands. -/
def decodeTwo (path : CString) (lineno : ℕ) (op : WorkloadOp) :
    List (List UInt8) → Except CString WorkloadInsn
  | [arg0, arg1] =>
    match parseI32 arg0, parseI32 arg1 with
    | some n, some m => .ok { op := op, arg0 := n, arg1 := m }
    | _, _ => .error (atLine path lineno "invalid instruction")
  | _ => .error (atLine path lineno "invalid instruction")

/-- The branch of an instruction without operands. -/
def decodeBare (path : CString) (lineno : ℕ) (op : WorkloadOp) :
    List (List UInt8) → Except CString WorkloadInsn
  | [] => .ok { op := op }
  | _ => .error (atLine path lineno "invalid instruction")

/-- The chain of comparisons on `argv[0]`. -/
def decodeInsn (path : CString) (lineno : ℕ) (op : List UInt8) (args : List (List UInt8)) :
    Except CString WorkloadInsn :=
  if op = asciiBytes "CPU" then
    decodeBurst path lineno .cpu "CPU burst must be greater than zero" args
  else if op = asciiBytes "IO" then
    decodeBurst path lineno .io "IO burst must be greater than zero" args
  else if op = asciiBytes "SEND" then decodeTwo path lineno .send args
  else if op = asciiBytes "RECV" then decodeOne path lineno .recv args
  else if op = asciiBytes "SEM_WAIT" then decodeOne path lineno .semWait args
  else if op = asciiBytes "SEM_POST" then decodeOne path lineno .semPost args
  else if op = asciiBytes "LOCK" then decodeOne path lineno .lock args
  else if op = asciiBytes "UNLOCK" then decodeOne path lineno .unlock args
  else if op = asciiBytes "MMAP" then decodeOne path lineno .mmap args
  else if op = asciiBytes "ACCESS" then decodeTwo path lineno .access args
  else if op = asciiBytes "MFREE" then decodeBare path lineno .mfree args
  else if op = asciiBytes "EXIT" then decodeBare path lineno .exit args
  else .error (atLine path lineno "invalid instruction")

/-! ### Files -/

def addInsn (insns : List WorkloadInsn) (insn : WorkloadInsn) :
    Except CString (List WorkloadInsn) :=
  if mosrtMaxWorkloadInsns ≤ insns.length then .error "too many workload instructions"
  else .ok (insns ++ [insn])

/-- The loop of `workload_load`: `lineno` lines are read, with the instructions `insns`. -/
def loadLines (path : CString) : List (List UInt8) → ℕ → List WorkloadInsn →
    Except CString (List WorkloadInsn)
  | [], _, insns => .ok insns
  | line :: lines, lineno, insns =>
    let lineno := (lineno + 1) % 2 ^ 32
    match fields line with
    | [] => loadLines path lines lineno insns
    | op :: args =>
      if 4 < (op :: args).length then .error (atLine path lineno "too many instruction fields")
      else do
        let insn ← decodeInsn path lineno op args
        let insns ← addInsn insns insn
        loadLines path lines lineno insns

/-- The EXIT that is added to a workload without one at its end. -/
def addExit (insns : List WorkloadInsn) : Except CString (List WorkloadInsn) :=
  if (insns.getLast?.map (·.op)) ≠ some .exit then addInsn insns { op := .exit } else .ok insns

/-- `workload_load`; `content` is `none` when the file cannot be opened.  Error texts are as
they are before `snprintf` cuts them to the buffer of the caller. -/
def workloadLoad (path : CString) (content : Option (List UInt8)) : Except CString Workload :=
  match content with
  | none => .error (asciiBytes "failed to open workload '" ++ path ++ asciiBytes "'")
  | some bytes => do
    let insns ← loadLines path (fgetsLines [] bytes) 0 []
    let insns ← addExit insns
    pure { name := truncateTo 128 path, insns := insns }

/-- The paths that `runtime_run_workload` tries, in order. -/
def candidatePaths (path : CString) : List CString :=
  let dir := asciiBytes "workloads/"
  let trimmed := if dir.isPrefixOf path then path.drop dir.length else path
  [path, truncateTo 256 (dir ++ trimmed), truncateTo 256 (asciiBytes "mosrt/workloads/" ++ trimmed)]

/-- The workload that `runtime_run_workload` finds for a path in the file system `files`. -/
def findWorkload (files : CString → Option (List UInt8)) (path : CString) : Option Workload :=
  (candidatePaths path).findSome? fun p => (workloadLoad p (files p)).toOption

/-! ### What is loaded -/

/-- A burst has ticks. -/
def WorkloadInsn.Ok (insn : WorkloadInsn) : Prop := insn.op = .cpu ∨ insn.op = .io → 0 < insn.ticks

structure Workload.WellFormed (w : Workload) : Prop where
  nonempty : 1 ≤ w.insns.length
  bounded : w.insns.length ≤ mosrtMaxWorkloadInsns
  last : w.insns.getLast?.map (·.op) = some .exit
  ok : ∀ insn ∈ w.insns, insn.Ok

variable {path : CString} {lineno : ℕ} {op : WorkloadOp} {args : List (List UInt8)}
  {insn : WorkloadInsn} {insns insns' : List WorkloadInsn}

/-- Only instructions that are in order come out. -/
def DecodesOk (r : Except CString WorkloadInsn) : Prop := ∀ insn, r = .ok insn → insn.Ok

theorem DecodesOk.error (text : CString) : DecodesOk (.error text) := by
  intro insn h
  cases h

theorem DecodesOk.ite {c : Prop} [Decidable c] {r r' : Except CString WorkloadInsn}
    (h : DecodesOk r) (h' : DecodesOk r') : DecodesOk (if c then r else r') := by
  by_cases hc : c
  · rw [if_pos hc]
    exact h
  · rw [if_neg hc]
    exact h'

/-- An instruction that is no burst is always in order. -/
theorem DecodesOk.of_op (hop : insn.op ≠ .cpu ∧ insn.op ≠ .io) : DecodesOk (.ok insn) := by
  intro i h
  cases h
  rintro (hcpu | hio)
  · exact absurd hcpu hop.1
  · exact absurd hio hop.2

theorem decodeBurst_ok (path : CString) (lineno : ℕ) (op : WorkloadOp) (empty : String)
    (args : List (List UInt8)) : DecodesOk (decodeBurst path lineno op empty args) := by
  rw [decodeBurst.eq_def]
  split
  · split
    · exact .error _
    · next n _ =>
      by_cases hzero : n = 0
      · rw [if_pos hzero]
        exact .error _
      · rw [if_neg hzero]
        intro i h
        cases h
        exact fun _ => Nat.pos_of_ne_zero hzero
  · exact .error _

theorem decodeOne_ok (path : CString) (lineno : ℕ) (hop : op ≠ .cpu ∧ op ≠ .io)
    (args : List (List UInt8)) : DecodesOk (decodeOne path lineno op args) := by
  rw [decodeOne.eq_def]
  split
  · split
    · exact .error _
    · exact .of_op hop
  · exact .error _

theorem decodeTwo_ok (path : CString) (lineno : ℕ) (hop : op ≠ .cpu ∧ op ≠ .io)
    (args : List (List UInt8)) : DecodesOk (decodeTwo path lineno op args) := by
  rw [decodeTwo.eq_def]
  split
  · split
    · exact .of_op hop
    · exact .error _
  · exact .error _

theorem decodeBare_ok (path : CString) (lineno : ℕ) (hop : op ≠ .cpu ∧ op ≠ .io)
    (args : List (List UInt8)) : DecodesOk (decodeBare path lineno op args) := by
  rw [decodeBare.eq_def]
  split
  · exact .of_op hop
  · exact .error _

theorem decodeInsn_ok (path : CString) (lineno : ℕ) (name : List UInt8)
    (args : List (List UInt8)) : DecodesOk (decodeInsn path lineno name args) := by
  rw [decodeInsn]
  refine .ite (decodeBurst_ok _ _ _ _ _) (.ite (decodeBurst_ok _ _ _ _ _) ?_)
  refine .ite (decodeTwo_ok _ _ (by decide) _) (.ite (decodeOne_ok _ _ (by decide) _) ?_)
  refine .ite (decodeOne_ok _ _ (by decide) _) (.ite (decodeOne_ok _ _ (by decide) _) ?_)
  refine .ite (decodeOne_ok _ _ (by decide) _) (.ite (decodeOne_ok _ _ (by decide) _) ?_)
  refine .ite (decodeOne_ok _ _ (by decide) _) (.ite (decodeTwo_ok _ _ (by decide) _) ?_)
  exact .ite (decodeBare_ok _ _ (by decide) _) (.ite (decodeBare_ok _ _ (by decide) _) (.error _))

theorem parseU64_lt {s : List UInt8} {n : ℕ} (h : parseU64 s = some n) : n < 2 ^ 64 := by
  rw [parseU64] at h
  generalize scanNumber s = r at h
  obtain ⟨neg, ds, rest⟩ := r
  dsimp only at h
  split_ifs at h with hbad hneg
  · cases h
    exact Nat.mod_lt _ (by decide)
  · cases h
    push Not at hbad
    exact hbad.2.2

/-- A burst that is accepted has between 1 and 2^64 - 1 ticks. -/
theorem decodeBurst_eq {empty : String} (h : decodeBurst path lineno op empty args = .ok insn) :
    insn.op = op ∧ 0 < insn.ticks ∧ insn.ticks < 2 ^ 64 := by
  rw [decodeBurst.eq_def] at h
  split at h
  · split at h
    · cases h
    · next n hn =>
      split_ifs at h with hzero
      cases h
      exact ⟨rfl, Nat.pos_of_ne_zero hzero, parseU64_lt hn⟩
  · cases h

/-- The instructions read so far. -/
structure Readable (insns : List WorkloadInsn) : Prop where
  bounded : insns.length ≤ mosrtMaxWorkloadInsns
  ok : ∀ insn ∈ insns, insn.Ok

theorem bind_eq_ok {α β : Type} {x : Except CString α} {f : α → Except CString β} {b : β}
    (h : x >>= f = .ok b) : ∃ a, x = .ok a ∧ f a = .ok b := by
  cases x with
  | error e => cases h
  | ok a => exact ⟨a, rfl, h⟩

theorem addInsn_eq (h : addInsn insns insn = .ok insns') :
    insns' = insns ++ [insn] ∧ insns.length < mosrtMaxWorkloadInsns := by
  rw [addInsn] at h
  split_ifs at h with hfull
  cases h
  exact ⟨rfl, not_le.mp hfull⟩

theorem Readable.add (h : Readable insns) (hinsn : insn.Ok)
    (hadd : addInsn insns insn = .ok insns') :
    Readable insns' := by
  obtain ⟨rfl, hroom⟩ := addInsn_eq hadd
  refine ⟨?_, ?_⟩
  · rw [List.length_append, List.length_singleton]
    exact hroom
  · intro i hi
    rcases List.mem_append.mp hi with hi | hi
    · exact h.ok i hi
    · rw [List.mem_singleton.mp hi]
      exact hinsn

/-- A line is skipped, or adds an instruction. -/
theorem loadLines_readable {lines : List (List UInt8)} (hinsns : Readable insns)
    (h : loadLines path lines lineno insns = .ok insns') : Readable insns' := by
  induction lines generalizing lineno insns with
  | nil =>
    cases h
    exact hinsns
  | cons line lines ih =>
    rw [loadLines] at h
    split at h
    · exact ih hinsns h
    · split_ifs at h
      obtain ⟨insn, hdecode, h⟩ := bind_eq_ok h
      obtain ⟨added, hadd, h⟩ := bind_eq_ok h
      exact ih (hinsns.add (decodeInsn_ok _ _ _ _ _ hdecode) hadd) h

theorem addExit_last (h : addExit insns = .ok insns') :
    insns'.getLast?.map (·.op) = some .exit := by
  rw [addExit] at h
  split_ifs at h with hlast
  · rw [(addInsn_eq h).1, List.getLast?_append]
    rfl
  · cases h
    exact not_not.mp hlast

theorem Readable.addExit (hinsns : Readable insns) (h : Mosrt.addExit insns = .ok insns') :
    Readable insns' := by
  rw [Mosrt.addExit] at h
  split_ifs at h
  · exact hinsns.add (DecodesOk.of_op (by decide) _ rfl) h
  · cases h
    exact hinsns

theorem workloadLoad_wellFormed {content : Option (List UInt8)} {w : Workload}
    (h : workloadLoad path content = .ok w) : w.WellFormed := by
  cases content with
  | none => cases h
  | some bytes =>
    obtain ⟨read, hread, h⟩ := bind_eq_ok h
    obtain ⟨ended, hended, h⟩ := bind_eq_ok h
    cases h
    have hreadable := (loadLines_readable ⟨Nat.zero_le _,
      fun _ hi => absurd hi List.not_mem_nil⟩ hread).addExit hended
    have hlast := addExit_last hended
    refine ⟨?_, hreadable.bounded, hlast, hreadable.ok⟩
    -- an empty workload has no last instruction
    by_contra hempty
    have hnil : ended = [] := List.length_eq_zero_iff.mp (by dsimp only at hempty; omega)
    rw [hnil] at hlast
    cases hlast

theorem findWorkload_wellFormed {files : CString → Option (List UInt8)} {w : Workload}
    (h : findWorkload files path = some w) : w.WellFormed := by
  obtain ⟨p, -, hload⟩ := List.exists_of_findSome?_eq_some h
  cases hp : workloadLoad p (files p) with
  | error e =>
    rw [hp] at hload
    cases hload
  | ok w' =>
    rw [hp] at hload
    cases hload
    exact workloadLoad_wellFormed hp

end Mosrt
