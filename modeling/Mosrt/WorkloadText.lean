/-
The text of workloads: what a line means, and what is printed is read again.

* `fields_words` — the fields of a line that is written as words with a blank between them;
* `parseU64_eq`, `parseI32_eq` — the numbers that are accepted, by their digits;
* `burst_operand` — which operands of `CPU` and `IO` are taken for what they say: not those
  with a minus sign or with a vertical tab or form feed beside them, and not those that do not
  fit into the buffer of a line;
* `parse_print` — a workload that is printed line by line is loaded as it was.
-/
import Mosrt.Comments

namespace Mosrt

/-! ### White space -/

section Trim

variable {α : Type} (p : α → Bool)

theorem rdropWhile_append (l m : List α) : (l ++ m).rdropWhile p =
    if m.rdropWhile p = [] then l.rdropWhile p else l ++ m.rdropWhile p := by
  simp only [List.rdropWhile, List.reverse_append, List.dropWhile_append, List.isEmpty_iff,
    List.reverse_eq_nil_iff]
  split_ifs
  · rfl
  · rw [List.reverse_append, List.reverse_reverse]

/-- It does not matter at which end one starts. -/
theorem dropWhile_rdropWhile (l : List α) :
    (l.rdropWhile p).dropWhile p = (l.dropWhile p).rdropWhile p := by
  induction l with
  | nil => rfl
  | cons a l ih =>
    have hcons : (a :: l).rdropWhile p =
        if l.rdropWhile p = [] then [a].rdropWhile p else a :: l.rdropWhile p :=
      rdropWhile_append p [a] l
    by_cases ha : p a
    · rw [List.dropWhile_cons_of_pos ha, ← ih, hcons]
      split_ifs with hnil
      · rw [hnil, List.rdropWhile_singleton, if_pos ha]
      · rw [List.dropWhile_cons_of_pos ha]
    · rw [List.dropWhile_cons_of_neg ha, hcons]
      split_ifs
      · rw [List.rdropWhile_singleton, if_neg ha, List.dropWhile_cons_of_neg ha]
      · rw [List.dropWhile_cons_of_neg ha]

end Trim

theorem dropWhile_space {s : List UInt8} (h : ∀ c ∈ s.head?, isSpace c = false) :
    s.dropWhile isSpace = s := by
  cases s with
  | nil => rfl
  | cons c s => exact List.dropWhile_cons_of_neg (by rw [h c rfl]; decide)

theorem rdropWhile_space {s : List UInt8} (h : ∀ c ∈ s.getLast?, isSpace c = false) :
    s.rdropWhile isSpace = s := by
  rw [List.rdropWhile_eq_self_iff]
  intro hne
  rw [h _ (List.getLast?_eq_some_getLast hne)]
  decide

/-! ### Fields -/

/-- A word that `strtok` delivers in one piece: there is no delimiter in it, and it is not cut
by a comment or a NUL. -/
def IsToken (s : List UInt8) : Prop := s ≠ [] ∧ ∀ c ∈ s, isDelim c = false ∧ inText c = true

instance (s : List UInt8) : Decidable (IsToken s) := inferInstanceAs (Decidable (_ ∧ _))

/-- A word without any white space. -/
def IsWord (s : List UInt8) : Prop := s ≠ [] ∧ ∀ c ∈ s, isSpace c = false ∧ inText c = true

instance (s : List UInt8) : Decidable (IsWord s) := inferInstanceAs (Decidable (_ ∧ _))

theorem isDelim_of_isSpace {c : UInt8} (h : isSpace c = false) : isDelim c = false := by
  simp only [isSpace, isDelim, Bool.or_eq_false_iff] at h ⊢
  tauto

variable {s t name : List UInt8} {ws : List (List UInt8)}

theorem IsWord.token (h : IsWord s) : IsToken s :=
  ⟨h.1, fun c hc => ⟨isDelim_of_isSpace (h.2 c hc).1, (h.2 c hc).2⟩⟩

theorem IsWord.dropWhile_append (h : IsWord s) (u : List UInt8) :
    (s ++ u).dropWhile isSpace = s ++ u := by
  obtain ⟨c, cs, rfl⟩ := List.exists_cons_of_ne_nil h.1
  refine dropWhile_space fun d hd => ?_
  rw [← Option.some.inj hd]
  exact (h.2 c List.mem_cons_self).1

theorem IsWord.append_rdropWhile (h : IsWord s) (u : List UInt8) :
    (u ++ s).rdropWhile isSpace = u ++ s := by
  refine rdropWhile_space fun d hd => (h.2 d ?_).1
  rw [List.getLast?_append_of_ne_nil u h.1] at hd
  exact List.mem_of_getLast? hd

theorem cutComment_eq_self (h : ∀ c ∈ s, inText c = true) : cutComment s = s := by
  rw [cutComment_eq, List.takeWhile_eq_self_iff]
  exact h

theorem strtok_of_noDelim (h : ∀ c ∈ s, isDelim c = false) :
    strtok s = if s = [] then [] else [s] := by
  rw [strtok, List.splitOnP_eq_singleton h]
  split_ifs with hs
  · rw [hs]
    rfl
  · exact List.filter_cons_of_pos (by simpa using hs)

theorem strtok_token (h : IsToken s) : strtok s = [s] := by
  rw [strtok_of_noDelim fun c hc => (h.2 c hc).1, if_neg h.1]

theorem strtok_blank (s t : List UInt8) : strtok (s ++ 32 :: t) = strtok s ++ strtok t := by
  rw [strtok, List.splitOnP_append_cons s t (by decide), List.filter_append]
  rfl

/-- Words with a blank between them. -/
def words (name : List UInt8) (ws : List (List UInt8)) : List UInt8 := name ++ ws.flatMap (32 :: ·)

theorem strtok_words (hname : IsToken name) (hws : ∀ w ∈ ws, IsToken w) :
    strtok (words name ws) = name :: ws := by
  induction ws generalizing name with
  | nil => rw [words, List.flatMap_nil, List.append_nil, strtok_token hname]
  | cons w ws ih =>
    have hcons : words name (w :: ws) = name ++ 32 :: words w ws := by
      rw [words, words, List.flatMap_cons, List.cons_append]
    rw [hcons, strtok_blank, strtok_token hname,
      ih (hws w List.mem_cons_self) fun v hv => hws v (List.mem_cons_of_mem w hv)]
    rfl

/-- The first field stands at the beginning of the line, so only the end is trimmed. -/
theorem trim_words (hname : IsWord name) (t : List UInt8) : trim (name ++ 32 :: t) =
    if t.rdropWhile isSpace = [] then name else name ++ 32 :: t.rdropWhile isSpace := by
  have hblank : (32 :: t).rdropWhile isSpace =
      if t.rdropWhile isSpace = [] then [] else 32 :: t.rdropWhile isSpace :=
    rdropWhile_append isSpace [32] t
  rw [trim, hname.dropWhile_append, rdropWhile_append, hblank]
  by_cases ht : t.rdropWhile isSpace = []
  · rw [if_pos ht, if_pos rfl, if_pos ht]
    exact hname.append_rdropWhile []
  · rw [if_neg ht, if_neg (List.cons_ne_nil _ _), if_neg ht]

/-- The fields of a line with one operand, which may have white space at its end. -/
theorem fields_operand (hname : IsWord name) (ht : ∀ c ∈ t, isDelim c = false ∧ inText c = true) :
    fields (name ++ 32 :: t) =
      name :: if t.rdropWhile isSpace = [] then [] else [t.rdropWhile isSpace] := by
  have htext : ∀ c ∈ name ++ 32 :: t, inText c = true := by
    intro c hc
    rcases List.mem_append.mp hc with hc | hc
    · exact (hname.2 c hc).2
    · rcases List.mem_cons.mp hc with rfl | hc
      · decide
      · exact (ht c hc).2
  have hmem : ∀ c ∈ t.rdropWhile isSpace, c ∈ t := fun c hc =>
    (List.rdropWhile_prefix isSpace t).subset hc
  rw [fields, cutComment_eq_self htext, trim_words hname]
  split_ifs with hnil
  · rw [strtok_token hname.token]
  · rw [strtok_blank, strtok_token hname.token,
      strtok_token ⟨hnil, fun c hc => ht c (hmem c hc)⟩]
    rfl

/-- The fields of a line of words are these words. -/
theorem fields_words (hname : IsWord name) (hws : ∀ w ∈ ws, IsWord w) :
    fields (words name ws) = name :: ws := by
  have hall : ∀ c ∈ words name ws, inText c = true := by
    intro c hc
    rcases List.mem_append.mp hc with hc | hc
    · exact (hname.2 c hc).2
    · obtain ⟨w, hw, hc⟩ := List.mem_flatMap.mp hc
      rcases List.mem_cons.mp hc with rfl | hc
      · decide
      · exact ((hws w hw).2 c hc).2
  have htrim : trim (words name ws) = words name ws := by
    rw [trim, words, hname.dropWhile_append]
    -- the line ends with its last word
    rcases List.eq_nil_or_concat ws with rfl | ⟨vs, w, rfl⟩
    · rw [List.flatMap_nil, List.append_nil]
      exact hname.append_rdropWhile []
    · have hw : IsWord w := hws w (by simp)
      rw [List.concat_eq_append, List.flatMap_append, List.flatMap_singleton,
        ← List.singleton_append (x := 32), ← List.append_assoc, ← List.append_assoc]
      exact hw.append_rdropWhile _
  rw [fields, cutComment_eq_self hall, htrim,
    strtok_words hname.token fun w hw => (hws w hw).token]

/-- `fgets` takes a line 255 bytes at a time. -/
theorem pieces_line {line : List UInt8} (hline : 10 ∉ line) :
    pieces line = nonblank [line.take lineMax] ++ pieces (line.drop lineMax) := by
  by_cases hlong : lineMax ≤ line.length
  · have hlen : (line.take lineMax).length = lineMax := by
      rw [List.length_take]
      omega
    have hne : line.take lineMax ≠ [] := by
      intro hnil
      rw [hnil] at hlen
      cases hlen
    have hfull : fgetsLines [] (line.take lineMax ++ line.drop lineMax) =
        line.take lineMax :: fgetsLines [] (line.drop lineMax) :=
      fgetsLines_full (fun hmem => hline (List.mem_of_mem_take hmem)) hne hlen
    rw [List.take_append_drop] at hfull
    rw [pieces, hfull, nonblank_cons]
    rfl
  · have hshort : fgetsLines [] line = fgetsLines line [] :=
      fgetsLines_short hline (not_le.mp hlong)
    rw [pieces, hshort, nonblank_fgetsLines_nil, List.take_of_length_le (by omega),
      List.drop_eq_nil_of_le (by omega)]
    exact (List.append_nil _).symm

/-! ### Numbers -/

/-- What is left of a number without its sign. -/
def afterSign : List UInt8 → List UInt8
  | 45 :: ds => ds
  | 43 :: ds => ds
  | ds => ds

theorem scanNumber_eq (s : List UInt8) : scanNumber s =
    (decide ((s.dropWhile isSpace).head? = some 45),
      (afterSign (s.dropWhile isSpace)).takeWhile isDigit,
      (afterSign (s.dropWhile isSpace)).dropWhile isDigit) := by
  rw [scanNumber]
  split
  · next u hu =>
    rw [hu]
    rfl
  · next u hu =>
    rw [hu]
    rfl
  · next hminus hplus =>
    have hhead : (s.dropWhile isSpace).head? ≠ some 45 := by
      intro h
      obtain ⟨v, hv⟩ := List.head?_eq_some_iff.mp h
      exact hminus v hv
    have hsign : afterSign (s.dropWhile isSpace) = s.dropWhile isSpace := by
      rw [afterSign.eq_def]
      split
      · next v hv => exact absurd hv (hminus v)
      · next v hv => exact absurd hv (hplus v)
      · rfl
    rw [hsign, decide_eq_false hhead]

/-- There are digits, and nothing behind them. -/
def IsDigits (ds : List UInt8) : Prop := ds ≠ [] ∧ ∀ d ∈ ds, isDigit d = true

instance (ds : List UInt8) : Decidable (IsDigits ds) := inferInstanceAs (Decidable (_ ∧ _))

theorem scan_digits {α : Type} (ds : List UInt8) (bad : List UInt8 → Prop) [DecidablePred bad]
    (r : List UInt8 → Option α) :
    (if ds.takeWhile isDigit = [] ∨ ds.dropWhile isDigit ≠ [] ∨ bad (ds.takeWhile isDigit) then none
      else r (ds.takeWhile isDigit)) = if IsDigits ds ∧ ¬ bad ds then r ds else none := by
  by_cases hall : ∀ d ∈ ds, isDigit d = true
  · have htake : ds.takeWhile isDigit = ds := List.takeWhile_eq_self_iff.mpr hall
    have hdrop : ds.dropWhile isDigit = [] := List.dropWhile_eq_nil_iff.mpr hall
    rw [htake, hdrop]
    by_cases hbad : ds = [] ∨ bad ds
    · rw [if_pos (by tauto), if_neg fun h => hbad.elim h.1.1 h.2]
    · rw [if_neg (by tauto), if_pos ⟨⟨by tauto, hall⟩, by tauto⟩]
  · have hdrop : ds.dropWhile isDigit ≠ [] := fun h => hall (List.dropWhile_eq_nil_iff.mp h)
    rw [if_pos (.inr (.inl hdrop)), if_neg fun h => hall h.1.2]

/-- The unsigned numbers that are accepted, and what is made of a minus sign. -/
theorem parseU64_eq (hs : s.dropWhile isSpace = t) : parseU64 s =
    if IsDigits (afterSign t) ∧ ¬ 2 ^ 64 ≤ digitsValue (afterSign t) then
      some (if t.head? = some 45 then (2 ^ 64 - digitsValue (afterSign t)) % 2 ^ 64
        else digitsValue (afterSign t))
    else none := by
  rw [parseU64, scanNumber_eq, hs]
  dsimp only
  rw [scan_digits (afterSign t) (fun ds => 2 ^ 64 ≤ digitsValue ds) fun ds =>
    some (if decide (t.head? = some 45) = true then (2 ^ 64 - digitsValue ds) % 2 ^ 64
      else digitsValue ds)]
  simp only [decide_eq_true_eq]

/-- The value of a signed number. -/
def signedValue (t : List UInt8) : ℤ :=
  if t.head? = some 45 then -(digitsValue (afterSign t) : ℤ) else digitsValue (afterSign t)

/-- The signed numbers that are accepted. -/
theorem parseI32_eq (hs : s.dropWhile isSpace = t) : parseI32 s =
    if IsDigits (afterSign t) ∧ -2 ^ 31 ≤ signedValue t ∧ signedValue t < 2 ^ 31 then
      some (signedValue t)
    else none := by
  obtain ⟨v, hv⟩ : ∃ v : List UInt8 → ℤ, v = fun ds =>
    if decide (t.head? = some 45) = true then -(digitsValue ds : ℤ) else digitsValue ds := ⟨_, rfl⟩
  have hvalue : signedValue t = v (afterSign t) := by
    simp only [hv, signedValue, decide_eq_true_eq]
  have hscan := scan_digits (afterSign t) (fun ds =>
    (v ds < -2 ^ 63 ∨ 2 ^ 63 ≤ v ds) ∨ v ds < -2 ^ 31 ∨ 2 ^ 31 ≤ v ds) fun ds => some (v ds)
  rw [parseI32, scanNumber_eq, hs, hvalue]
  subst hv
  refine hscan.trans (if_congr (and_congr_right fun _ => ?_) rfl rfl)
  dsimp only
  omega

/-! ### The operand of a burst -/

/-- `workload_op_name`. -/
def workloadOpName : WorkloadOp → String
  | .cpu => "CPU"
  | .io => "IO"
  | .send => "SEND"
  | .recv => "RECV"
  | .semWait => "SEM_WAIT"
  | .semPost => "SEM_POST"
  | .lock => "LOCK"
  | .unlock => "UNLOCK"
  | .mmap => "MMAP"
  | .access => "ACCESS"
  | .mfree => "MFREE"
  | .exit => "EXIT"

def opBytes (op : WorkloadOp) : List UInt8 := asciiBytes (workloadOpName op)

theorem opBytes_word (op : WorkloadOp) : IsWord (opBytes op) := by
  cases op <;> decide +kernel

theorem length_opBytes_le (op : WorkloadOp) : (opBytes op).length ≤ 8 := by
  cases op <;> decide

/-- The operands of an instruction: a number of ticks, or none, one or two numbers. -/
inductive OperandKind where
  | burst | none | one | two
deriving DecidableEq

def WorkloadOp.operands : WorkloadOp → OperandKind
  | .cpu | .io => .burst
  | .recv | .semWait | .semPost | .lock | .unlock | .mmap => .one
  | .send | .access => .two
  | .mfree | .exit => .none

/-- How the operands of an instruction are read. -/
def decodeOperands (op : WorkloadOp) (args : List (List UInt8)) : Except CString WorkloadInsn :=
  match op.operands with
  | .burst => decodeBurst [] 0 op "" args
  | .none => decodeBare [] 0 op args
  | .one => decodeOne [] 0 op args
  | .two => decodeTwo [] 0 op args

theorem decodeInsn_opBytes (op : WorkloadOp) (args : List (List UInt8)) :
    (decodeInsn [] 0 (opBytes op) args).toOption = (decodeOperands op args).toOption := by
  have hcpu := decodeBurst_toOption [] 0 .cpu "CPU burst must be greater than zero" args
  have hio := decodeBurst_toOption [] 0 .io "IO burst must be greater than zero" args
  cases op <;> simp [decodeInsn, decodeOperands, WorkloadOp.operands, opBytes, workloadOpName,
    asciiBytes, hcpu, hio]

theorem decodeFields_opBytes (op : WorkloadOp) {args : List (List UInt8)}
    (hargs : args.length ≤ 3) :
    decodeFields (opBytes op :: args) = (decodeOperands op args).toOption := by
  have hlen : ¬ 4 < (opBytes op :: args).length := by
    rw [List.length_cons]
    omega
  rw [decodeFields, if_neg hlen, decodeInsn_opBytes]

/-- The bytes of an operand that fit into the buffer with the name of the instruction. -/
def operandRoom (op : WorkloadOp) : ℕ := lineMax - ((opBytes op).length + 1)

/-- The value of a string of digits between 1 and 2^64 - 1. -/
def burstValue (ds : List UInt8) : Option ℕ :=
  if IsDigits ds ∧ 1 ≤ digitsValue ds ∧ digitsValue ds < 2 ^ 64 then some (digitsValue ds) else none

/-- A decimal numeral, with or without a plus sign, that denotes a number of ticks. -/
def burstNumeral : List UInt8 → Option ℕ
  | 43 :: ds => burstValue ds
  | ds => burstValue ds

variable {op : WorkloadOp}

theorem burstValue_isDigits {ds : List UInt8} {n : ℕ} (h : burstValue ds = some n) :
    IsDigits ds := by
  rw [burstValue] at h
  split_ifs at h with hds
  exact hds.1

theorem isSpace_of_isDigit {c : UInt8} (h : isDigit c = true) : isSpace c = false := by
  simp only [isDigit, isSpace] at h ⊢
  grind

/-- A numeral begins with no minus sign, and there is no white space in it. -/
theorem burstNumeral_some {n : ℕ} (h : burstNumeral s = some n) :
    burstValue (afterSign s) = some n ∧ s.head? ≠ some 45 ∧ ∀ c ∈ s, isSpace c = false := by
  rw [burstNumeral.eq_def] at h
  split at h
  · next ds =>
    refine ⟨h, by simp, fun c hc => ?_⟩
    rcases List.mem_cons.mp hc with rfl | hc
    · decide
    · exact isSpace_of_isDigit ((burstValue_isDigits h).2 c hc)
  · next hplus =>
    have hdigits := burstValue_isDigits h
    have hminus : s.head? ≠ some 45 := by
      intro hhead
      obtain ⟨u, rfl⟩ := List.head?_eq_some_iff.mp hhead
      exact absurd (hdigits.2 45 List.mem_cons_self) (by decide)
    have hsign : afterSign s = s := by
      rw [afterSign.eq_def]
      split
      · exact absurd rfl hminus
      · next u => exact absurd rfl (hplus u)
      · rfl
    rw [hsign]
    exact ⟨h, hminus, fun c hc => isSpace_of_isDigit (hdigits.2 c hc)⟩

theorem burstNumeral_eq (h : s.head? ≠ some 45) : burstNumeral s = burstValue (afterSign s) := by
  rw [burstNumeral.eq_def, afterSign.eq_def]
  split
  · rfl
  · next hplus =>
    split
    · exact absurd rfl h
    · next u => exact absurd rfl (hplus u)
    · rfl

/-- The ticks that `CPU` and `IO` take from an operand. -/
def burstTicks (s : List UInt8) : Option ℕ := (parseU64 s).filter fun n => n ≠ 0

/-- An operand is accepted if there is a numeral in it, behind white space and any sign. -/
theorem burstTicks_eq (hs : s.dropWhile isSpace = t) : burstTicks s =
    (burstValue (afterSign t)).map fun n => if t.head? = some 45 then 2 ^ 64 - n else n := by
  rw [burstTicks, parseU64_eq hs, burstValue]
  generalize digitsValue (afterSign t) = v
  by_cases hdigits : IsDigits (afterSign t) ∧ ¬ 2 ^ 64 ≤ v
  · rw [if_pos hdigits]
    rcases Nat.eq_zero_or_pos v with rfl | hpos
    · simp
    · have hyes : IsDigits (afterSign t) ∧ 1 ≤ v ∧ v < 2 ^ 64 :=
        ⟨hdigits.1, hpos, not_le.mp hdigits.2⟩
      have hlt : 2 ^ 64 - v < 2 ^ 64 := by omega
      have hne : (if t.head? = some 45 then 2 ^ 64 - v else v) ≠ 0 := by
        split_ifs <;> omega
      rw [Nat.mod_eq_of_lt hlt, if_pos (c := _ ∧ _) hyes, Option.map_some]
      exact Option.filter_some_pos (by simpa using hne)
  · rw [if_neg hdigits, if_neg fun h => hdigits ⟨h.1, not_le.mpr h.2.2⟩]
    rfl

/-- The line of a burst. -/
def burstLine (op : WorkloadOp) (s : List UInt8) : List UInt8 := opBytes op ++ 32 :: s

/-- The first fields of the line of a burst. -/
def burstFields (op : WorkloadOp) (s : List UInt8) : List (List UInt8) :=
  opBytes op :: if s.rdropWhile isSpace = [] then [] else [s.rdropWhile isSpace]

theorem isToken_newline (hs : IsToken s) : 10 ∉ s := by
  intro hmem
  exact absurd (hs.2 10 hmem).1 (by decide)

/-- What does not fit into the buffer with the name is read as lines of its own. -/
theorem pieces_burstLine (hs : IsToken s) : pieces (burstLine op s ++ [10]) =
    burstFields op (s.take (operandRoom op)) :: pieces (s.drop (operandRoom op)) := by
  have hline : 10 ∉ burstLine op s := by
    intro hmem
    rcases List.mem_append.mp hmem with hmem | hmem
    · exact absurd ((opBytes_word op).2 10 hmem).1 (by decide)
    · rcases List.mem_cons.mp hmem with h | hmem
      · exact absurd h (by decide)
      · exact isToken_newline hs hmem
  have hlen := length_opBytes_le op
  have hroom : lineMax - (opBytes op).length = operandRoom op + 1 := by
    rw [operandRoom, lineMax]
    omega
  have htake : (burstLine op s).take lineMax = burstLine op (s.take (operandRoom op)) := by
    rw [burstLine, List.take_append, List.take_of_length_le (by omega), hroom, List.take_succ_cons]
    rfl
  have hdrop : (burstLine op s).drop lineMax = s.drop (operandRoom op) := by
    rw [burstLine, List.drop_append, List.drop_eq_nil_of_le (by omega), hroom, List.drop_succ_cons,
      List.nil_append]
  have hfields := fields_operand (opBytes_word op) (t := s.take (operandRoom op))
    fun c hc => hs.2 c (List.mem_of_mem_take hc)
  have hfirst : nonblank [burstLine op (s.take (operandRoom op))] =
      [burstFields op (s.take (operandRoom op))] := by
    rw [nonblank, List.map_singleton, burstLine, hfields]
    rfl
  rw [pieces_lines, pieces_line hline, htake, hdrop, hfirst]
  exact List.append_nil _

theorem decodeBurst_ticks (op : WorkloadOp) (s : List UInt8) :
    (decodeBurst [] 0 op "" [s]).toOption =
      (burstTicks s).map fun n => { op := op, ticks := n } := by
  rw [decodeBurst, burstTicks]
  cases parseU64 s with
  | none => rfl
  | some n =>
    by_cases hn : n = 0
    · simp [hn, Except.toOption]
    · simp [hn, Except.toOption]

theorem decodeFields_burst (hop : op.operands = .burst) (s : List UInt8) :
    decodeFields (burstFields op s) =
      (burstTicks (s.rdropWhile isSpace)).map fun n => { op := op, ticks := n } := by
  rw [burstFields]
  split_ifs with hs
  · rw [decodeFields_opBytes op (by simp), decodeOperands, hop, hs]
    rfl
  · rw [decodeFields_opBytes op (by simp), decodeOperands, hop]
    exact decodeBurst_ticks op _

/-- Only the twelve names are known. -/
theorem decodeInsn_unknown {args : List (List UInt8)} (h : ∀ op, name ≠ opBytes op) :
    decodeInsn [] 0 name args = .error (atLine [] 0 "invalid instruction") := by
  rw [decodeInsn]
  refine (if_neg (h .cpu)).trans ((if_neg (h .io)).trans ((if_neg (h .send)).trans ?_))
  refine (if_neg (h .recv)).trans ((if_neg (h .semWait)).trans ((if_neg (h .semPost)).trans ?_))
  refine (if_neg (h .lock)).trans ((if_neg (h .unlock)).trans ((if_neg (h .mmap)).trans ?_))
  exact (if_neg (h .access)).trans ((if_neg (h .mfree)).trans (if_neg (h .exit)))

/-- A word that makes a line of its own. -/
theorem decodeFields_single (s : List UInt8) :
    (decodeFields [s]).isSome ↔ s = opBytes .mfree ∨ s = opBytes .exit := by
  by_cases hs : ∃ op, s = opBytes op
  · obtain ⟨op, rfl⟩ := hs
    rw [decodeFields_opBytes op (by simp)]
    cases op <;> decide
  · push Not at hs
    rw [decodeFields, if_neg (by simp), decodeInsn_unknown hs]
    exact ⟨fun hsome => (by cases hsome), fun h => (h.elim (hs .mfree) (hs .exit)).elim⟩

theorem mem_fgetsLines {line : List UInt8} (hline : line ∈ fgetsLines [] s) : line ⊆ s := by
  intro c hc
  have hflat := fgetsLines_flatten [] s
  rw [List.nil_append] at hflat
  rw [← hflat]
  exact List.mem_flatten.mpr ⟨line, hline, hc⟩

theorem mem_pieces {fs : List (List UInt8)} :
    fs ∈ pieces s ↔ fs ≠ [] ∧ ∃ line ∈ fgetsLines [] s, fields line = fs := by
  rw [pieces, nonblank, List.mem_filter, List.mem_map, decide_eq_true_eq, and_comm]

/-- What is left of a word is a word in each line. -/
theorem pieces_single (h : ∀ c ∈ s, isDelim c = false) {fs : List (List UInt8)}
    (hfs : fs ∈ pieces s) : ∃ w, fs = [w] := by
  obtain ⟨hne, line, hline, rfl⟩ := mem_pieces.mp hfs
  have hsub : trim (cutComment line) ⊆ s := by
    intro c hc
    have hdrop := (List.rdropWhile_prefix isSpace _).subset hc
    have hcut := (List.dropWhile_suffix isSpace).subset hdrop
    rw [cutComment_eq] at hcut
    exact mem_fgetsLines hline ((List.takeWhile_prefix inText).subset hcut)
  rw [fields, strtok_of_noDelim fun c hc => h c (hsub hc)] at hne ⊢
  split_ifs at hne ⊢
  · exact absurd rfl hne
  · exact ⟨_, rfl⟩

theorem inText_of_isDigit {c : UInt8} (h : isDigit c = true) : inText c = true := by
  rw [inText, Bool.and_eq_true, bne_iff_ne, bne_iff_ne]
  refine ⟨?_, ?_⟩
  · rintro rfl
    exact absurd h (by decide)
  · rintro rfl
    exact absurd h (by decide)

theorem IsDigits.word (h : IsDigits s) : IsWord s :=
  ⟨h.1, fun c hc => ⟨isSpace_of_isDigit (h.2 c hc), inText_of_isDigit (h.2 c hc)⟩⟩

/-- Digits that are left over are a line of digits. -/
theorem pieces_digits (h : IsDigits s) : ∃ ds, IsDigits ds ∧ [ds] ∈ pieces s := by
  have hflat := fgetsLines_flatten [] s
  rw [List.nil_append] at hflat
  obtain ⟨line, hline, hne⟩ : ∃ line ∈ fgetsLines [] s, line ≠ [] := by
    by_contra hall
    push Not at hall
    exact h.1 (hflat.symm.trans (List.flatten_eq_nil_iff.mpr hall))
  have hdigits : IsDigits line := ⟨hne, fun c hc => h.2 c (mem_fgetsLines hline hc)⟩
  have hfields : fields line = [line] := by
    have hwords : fields (words line []) = [line] :=
      fields_words hdigits.word fun w hw => absurd hw List.not_mem_nil
    rwa [words, List.flatMap_nil, List.append_nil] at hwords
  exact ⟨line, hdigits, mem_pieces.mpr ⟨List.cons_ne_nil _ _, line, hline, hfields⟩⟩

theorem withExit_cons {fs : List (List UInt8)} (hfs : fs ≠ [asciiBytes "EXIT"])
    (ps : List (List (List UInt8))) : withExit (fs :: ps) = fs :: withExit ps := by
  cases ps with
  | nil =>
    have hlast : [fs].getLast? ≠ some [asciiBytes "EXIT"] := fun h => hfs (Option.some.inj h)
    rw [withExit, if_neg hlast]
    rfl
  | cons q ps =>
    rw [withExit, withExit, List.getLast?_cons_cons]
    split_ifs <;> rfl

/-- The numeral in an operand, whatever its sign and the white space around it. -/
def looseNumeral (s : List UInt8) : Option ℕ := burstValue (afterSign (trim s))

/-- The buffer cuts the operand in two, but the first part is a number of ticks, and the rest is
nothing but instructions without operands. -/
def CutAccepted (op : WorkloadOp) (s : List UInt8) : Prop :=
  (looseNumeral (s.take (operandRoom op))).isSome ∧
    (∀ fs ∈ pieces (s.drop (operandRoom op)), fs = [opBytes .mfree] ∨ fs = [opBytes .exit]) ∧
    (withExit (pieces (s.drop (operandRoom op)))).length < mosrtMaxWorkloadInsns

/-- An operand that is taken for what it says: when it fits into the buffer, it is not a numeral
with a minus sign or with white space around it; when it does not, neither is it a numeral, nor
are its parts accepted one by one. -/
def OperandPlain (op : WorkloadOp) (s : List UInt8) : Prop :=
  if s.length ≤ operandRoom op then (looseNumeral s).isSome → trim s = s ∧ s.head? ≠ some 45
  else burstNumeral s = none ∧ ¬ CutAccepted op s

theorem burstTicks_loose (s : List UInt8) : burstTicks (s.rdropWhile isSpace) =
    (looseNumeral s).map fun n => if (trim s).head? = some 45 then 2 ^ 64 - n else n :=
  burstTicks_eq (dropWhile_rdropWhile isSpace s)

theorem burstFields_ne_exit (hop : op.operands = .burst) (s : List UInt8) :
    burstFields op s ≠ [asciiBytes "EXIT"] := by
  intro h
  have hname : opBytes op = opBytes .exit := (List.cons.inj h).1
  cases op <;> first | exact absurd hname (by decide) | cases hop

/-- The pieces of the line are accepted. -/
theorem loadable_burst (hop : op.operands = .burst) (hs : IsToken s) :
    Loadable (pieces (burstLine op s ++ [10])) ↔ CutAccepted op s := by
  have hrest : (∀ fs ∈ pieces (s.drop (operandRoom op)), (decodeFields fs).isSome) ↔
      ∀ fs ∈ pieces (s.drop (operandRoom op)), fs = [opBytes .mfree] ∨ fs = [opBytes .exit] := by
    refine forall₂_congr fun fs hfs => ?_
    obtain ⟨w, rfl⟩ := pieces_single (fun c hc => (hs.2 c (List.mem_of_mem_drop hc)).1) hfs
    rw [decodeFields_single, List.singleton_inj, List.singleton_inj]
  rw [pieces_burstLine hs, Loadable, withExit_cons (burstFields_ne_exit hop _), List.length_cons,
    List.forall_mem_cons, hrest, decodeFields_burst hop, burstTicks_loose, CutAccepted,
    Option.isSome_map, Option.isSome_map, Nat.add_one_le_iff]
  exact ⟨fun h => ⟨h.2.1, h.2.2, h.1⟩, fun h => ⟨h.2.2, h.1, h.2.1⟩⟩

/-- A line that fits into the buffer. -/
theorem assemble_burst (hop : op.operands = .burst) (hs : IsToken s)
    (hshort : s.length ≤ operandRoom op) : assemble (pieces (burstLine op s ++ [10])) =
      (burstTicks (s.rdropWhile isSpace)).map
        fun n => [{ op := op, ticks := n }, { op := .exit }] := by
  have hnil : withExit (pieces []) = [[asciiBytes "EXIT"]] := rfl
  rw [pieces_burstLine hs, List.take_of_length_le hshort, List.drop_eq_nil_of_le hshort, assemble,
    withExit_cons (burstFields_ne_exit hop _), hnil, if_pos (by simp [mosrtMaxWorkloadInsns]),
      List.mapM_cons,
    decodeFields_burst hop, List.mapM_cons, decodeFields_bareExit]
  cases burstTicks (s.rdropWhile isSpace) <;> rfl

theorem operandPlain_short (s : List UInt8) : burstTicks (s.rdropWhile isSpace) = burstNumeral s ↔
    ((looseNumeral s).isSome → trim s = s ∧ s.head? ≠ some 45) := by
  have hnumeral : ∀ n, burstNumeral s = some n → looseNumeral s = some n ∧ trim s = s ∧
      s.head? ≠ some 45 := by
    intro n hn
    obtain ⟨hvalue, hminus, hspace⟩ := burstNumeral_some hn
    have htrim : trim s = s := by
      rw [trim, dropWhile_space fun c hc => hspace c (List.mem_of_head? hc),
        rdropWhile_space fun c hc => hspace c (List.mem_of_getLast? hc)]
    rw [looseNumeral, htrim]
    exact ⟨hvalue, rfl, hminus⟩
  rw [burstTicks_loose]
  cases hloose : looseNumeral s with
  | none =>
    refine iff_of_true ?_ fun hsome => by cases hsome
    cases hn : burstNumeral s with
    | none => rfl
    | some n => exact absurd (hnumeral n hn).1 (by simp [hloose])
  | some v =>
    constructor
    · intro h _
      exact (hnumeral _ h.symm).2
    · intro h
      obtain ⟨htrim, hminus⟩ := h rfl
      rw [looseNumeral, htrim] at hloose
      rw [Option.map_some, htrim, if_neg hminus, burstNumeral_eq hminus, hloose]

/-- A numeral that does not fit into the buffer leaves digits over. -/
theorem not_cutAccepted {n : ℕ} (hlong : operandRoom op < s.length)
    (hn : burstNumeral s = some n) : ¬ CutAccepted op s := by
  intro hcut
  have hroom : 0 < operandRoom op := by
    have hlen := length_opBytes_le op
    rw [operandRoom, lineMax]
    omega
  have hdigits : IsDigits (s.drop (operandRoom op)) := by
    refine ⟨fun h => absurd (List.drop_eq_nil_iff.mp h) (by omega), fun d hd => ?_⟩
    rw [burstNumeral.eq_def] at hn
    split at hn
    · obtain ⟨k, hk⟩ : ∃ k, operandRoom op = k + 1 := ⟨operandRoom op - 1, by omega⟩
      rw [hk, List.drop_succ_cons] at hd
      exact (burstValue_isDigits hn).2 d (List.mem_of_mem_drop hd)
    · exact (burstValue_isDigits hn).2 d (List.mem_of_mem_drop hd)
  obtain ⟨ds, hds, hmem⟩ := pieces_digits hdigits
  have hmfree : ¬ IsDigits (opBytes .mfree) := by decide
  have hexit : ¬ IsDigits (opBytes .exit) := by decide
  rcases hcut.2.1 _ hmem with h | h
  · exact hmfree (List.singleton_inj.mp h ▸ hds)
  · exact hexit (List.singleton_inj.mp h ▸ hds)

/-- **Burst operands.**  The line `CPU s` or `IO s` is accepted if and only if `s` is a decimal
numeral for a number of ticks, and gives this number, exactly if `s` is written plainly. -/
theorem burst_operand (path : CString) (op : WorkloadOp) (hop : op = .cpu ∨ op = .io)
    (s : List UInt8) (hs : IsToken s) :
    (workloadLoad path (some (burstLine op s ++ [10]))).toOption.map (·.insns) =
        (burstNumeral s).map (fun n => [{ op := op, ticks := n }, { op := .exit }]) ↔
      OperandPlain op s := by
  have hburst : op.operands = .burst := by
    rcases hop with rfl | rfl <;> rfl
  have hload : (workloadLoad path (some (burstLine op s ++ [10]))).toOption.map (·.insns) =
      assemble (pieces (burstLine op s ++ [10])) := by
    rw [workloadLoad_toOption, Option.map_map]
    exact Option.map_id'
  rw [hload, OperandPlain]
  split_ifs with hshort
  · have hinj : Function.Injective
        fun n => [({ op := op, ticks := n } : WorkloadInsn), { op := .exit }] := by
      intro n m hnm
      exact congrArg WorkloadInsn.ticks (List.cons.inj hnm).1
    rw [assemble_burst hburst hs hshort, (Option.map_injective hinj).eq_iff, operandPlain_short]
  · have haccepted : assemble (pieces (burstLine op s ++ [10])) = none ↔ ¬ CutAccepted op s := by
      rw [← loadable_burst hburst hs, loadable_iff, Option.not_isSome_iff_eq_none]
    cases hn : burstNumeral s with
    | none => rw [Option.map_none, haccepted, and_iff_right rfl]
    | some n =>
      -- the numeral is rejected
      have hcut := not_cutAccepted (not_le.mp hshort) hn
      rw [haccepted.mpr hcut]
      exact ⟨nofun, nofun⟩

theorem burst_operand_twelve :
    (workloadLoad "w" (some (burstLine .cpu (asciiBytes "+12") ++ [10]))).toOption.map (·.insns) =
      (burstNumeral (asciiBytes "+12")).map
        (fun n => [{ op := .cpu, ticks := n }, { op := .exit }]) :=
  (burst_operand "w" .cpu (.inl rfl) (asciiBytes "+12") (by decide +kernel)).mpr fun _ =>
    ⟨by decide +kernel, by decide +kernel⟩

/-- `CPU -1` runs for 2^64 - 1 ticks. -/
theorem burst_operand_minus :
    IsToken (asciiBytes "-1") ∧ burstNumeral (asciiBytes "-1") = none ∧
      (workloadLoad "w" (some (burstLine .cpu (asciiBytes "-1") ++ [10]))).toOption.map (·.insns) =
        some [⟨.cpu, 0, 0, 2 ^ 64 - 1⟩, ⟨.exit, 0, 0, 0⟩] := by
  decide +kernel

/-! ### Printing -/

/-- The digits of a number are read as this number. -/
theorem asciiBytes_repr (n : ℕ) : IsDigits (asciiBytes (Nat.repr n)) ∧
    digitsValue (asciiBytes (Nat.repr n)) = n := by
  have hdigit : ∀ c ∈ Nat.toDigits 10 n, c.isDigit = true := fun c hc =>
    Nat.isDigit_of_mem_toDigits (by decide) (by decide) hc
  rw [asciiBytes, Nat.toList_repr]
  refine ⟨⟨?_, ?_⟩, ?_⟩
  · rw [Ne, List.map_eq_nil_iff]
    exact Nat.toDigits_ne_nil
  · intro d hd
    rw [← Nat.toList_repr] at hd
    rw [isDigit, Bool.and_eq_true, decide_eq_true_eq, decide_eq_true_eq, UInt8.le_iff_toNat_le,
      UInt8.le_iff_toNat_le]
    exact asciiBytes_repr_digit hd
  · have hvalue := Nat.ofDigitChars_ten_toDigits (n := n)
    rw [Nat.ofDigitChars_eq_foldl] at hvalue
    rw [digitsValue, List.foldl_map]
    refine (List.foldl_ext _ _ _ fun m c hc => ?_).trans hvalue
    rw [(toNat_digit (hdigit c hc)).2.2]
    rfl

/-- A string of digits begins with no sign. -/
theorem IsDigits.afterSign_eq (h : IsDigits s) : afterSign s = s ∧ s.head? ≠ some 45 := by
  have hsign : ∀ c u, isDigit c = false → s ≠ c :: u := by
    rintro c u hc rfl
    rw [h.2 c List.mem_cons_self] at hc
    cases hc
  constructor
  · rw [afterSign.eq_def]
    split
    · next u => exact absurd rfl (hsign 45 u (by decide))
    · next u => exact absurd rfl (hsign 43 u (by decide))
    · rfl
  · intro hhead
    obtain ⟨u, hu⟩ := List.head?_eq_some_iff.mp hhead
    exact hsign 45 u (by decide) hu

/-- **Numbers.**  What is printed of a number is a word that is read as the number. -/
theorem decimal_spec (n : ℤ) : IsWord (decimal n) ∧ IsDigits (afterSign (decimal n)) ∧
    signedValue (decimal n) = n := by
  rw [decimal_eq]
  split_ifs with hn
  · obtain ⟨hdigits, hvalue⟩ := asciiBytes_repr n.toNat
    obtain ⟨hsign, hminus⟩ := hdigits.afterSign_eq
    refine ⟨hdigits.word, hsign.symm ▸ hdigits, ?_⟩
    rw [signedValue, if_neg hminus, hsign, hvalue]
    omega
  · obtain ⟨hdigits, hvalue⟩ := asciiBytes_repr (-n).toNat
    refine ⟨⟨List.cons_ne_nil _ _, fun c hc => ?_⟩, hdigits, ?_⟩
    · rcases List.mem_cons.mp hc with rfl | hc
      · decide
      · exact hdigits.word.2 c hc
    · have hsign : ∀ ds, afterSign (45 :: ds) = ds := fun _ => rfl
      rw [signedValue, if_pos List.head?_cons, hsign, hvalue]
      omega

theorem IsWord.dropWhile_eq (h : IsWord s) : s.dropWhile isSpace = s := by
  have hself := h.dropWhile_append []
  rwa [List.append_nil] at hself

theorem parseI32_decimal {n : ℤ} (h : -2 ^ 31 ≤ n ∧ n < 2 ^ 31) :
    parseI32 (decimal n) = some n := by
  obtain ⟨hword, hdigits, hvalue⟩ := decimal_spec n
  rw [parseI32_eq hword.dropWhile_eq, hvalue, if_pos ⟨hdigits, h⟩]

theorem burstTicks_decimal {n : ℕ} (h : 1 ≤ n ∧ n < 2 ^ 64) : burstTicks (decimal n) = some n := by
  have hrepr : decimal n = asciiBytes (Nat.repr n) := by
    rw [decimal_eq, if_pos (Int.natCast_nonneg n), Int.toNat_natCast]
  obtain ⟨hdigits, hvalue⟩ := asciiBytes_repr n
  obtain ⟨hsign, hminus⟩ := hdigits.afterSign_eq
  rw [hrepr, burstTicks_eq hdigits.word.dropWhile_eq, hsign, burstValue, hvalue,
    if_pos ⟨hdigits, h.1, h.2⟩, Option.map_some, if_neg hminus]

theorem length_decimal_le {n : ℤ} (h : -10 ^ 20 < n ∧ n < 10 ^ 20) : (decimal n).length ≤ 21 := by
  have hlen : ∀ m : ℕ, m < 10 ^ 20 → (asciiBytes (Nat.repr m)).length ≤ 20 := by
    intro m hm
    rw [asciiBytes, List.length_map, String.length_toList]
    exact (Nat.length_repr_le_iff (by decide)).mpr hm
  rw [decimal_eq]
  split_ifs
  · exact (hlen _ (by omega)).trans (by decide)
  · exact Nat.succ_le_succ (hlen _ (by omega))

/-- The operands of an instruction in decimal. -/
def printOperands (insn : WorkloadInsn) : List (List UInt8) :=
  match insn.op.operands with
  | .burst => [decimal insn.ticks]
  | .none => []
  | .one => [decimal insn.arg0]
  | .two => [decimal insn.arg0, decimal insn.arg1]

/-- The line of an instruction: its name and its operands, with blanks between them. -/
def printInsn (insn : WorkloadInsn) : List UInt8 := words (opBytes insn.op) (printOperands insn)

def printWorkload (insns : List WorkloadInsn) : List UInt8 :=
  insns.flatMap fun insn => printInsn insn ++ [10]

/-- A 32-bit operand. -/
def IsInt32 (n : ℤ) : Prop := -2 ^ 31 ≤ n ∧ n < 2 ^ 31

/-- The operands of an instruction are in range, and there are no others. -/
def WorkloadInsn.Printable (insn : WorkloadInsn) : Prop :=
  match insn.op.operands with
  | .burst => insn.arg0 = 0 ∧ insn.arg1 = 0 ∧ 1 ≤ insn.ticks ∧ insn.ticks < 2 ^ 64
  | .none => insn.arg0 = 0 ∧ insn.arg1 = 0 ∧ insn.ticks = 0
  | .one => IsInt32 insn.arg0 ∧ insn.arg1 = 0 ∧ insn.ticks = 0
  | .two => IsInt32 insn.arg0 ∧ IsInt32 insn.arg1 ∧ insn.ticks = 0

variable {insn : WorkloadInsn} {insns : List WorkloadInsn}

theorem printOperands_word (insn : WorkloadInsn) : ∀ w ∈ printOperands insn, IsWord w := by
  intro w hw
  obtain ⟨n, rfl⟩ : ∃ n, w = decimal n := by
    rw [printOperands] at hw
    split at hw
    · exact ⟨_, List.mem_singleton.mp hw⟩
    · cases hw
    · exact ⟨_, List.mem_singleton.mp hw⟩
    · rcases List.mem_pair.mp hw with rfl | rfl
      · exact ⟨_, rfl⟩
      · exact ⟨_, rfl⟩
  exact (decimal_spec n).1

theorem length_printInsn_lt (h : insn.Printable) : (printInsn insn).length < lineMax := by
  have hname := length_opBytes_le insn.op
  have hops : ((printOperands insn).flatMap (32 :: ·)).length ≤ 44 := by
    rw [WorkloadInsn.Printable] at h
    rw [printOperands]
    cases hop : insn.op.operands with
    | burst =>
      rw [hop] at h
      have hticks := length_decimal_le (n := insn.ticks) (by omega)
      simp
      omega
    | none => simp
    | one =>
      rw [hop] at h
      have harg := length_decimal_le (n := insn.arg0) (by unfold IsInt32 at h; omega)
      simp
      omega
    | two =>
      rw [hop] at h
      have harg := length_decimal_le (n := insn.arg0) (by unfold IsInt32 at h; omega)
      have harg' := length_decimal_le (n := insn.arg1) (by unfold IsInt32 at h; omega)
      simp
      omega
  rw [printInsn, words, List.length_append, lineMax]
  omega

/-- The line that is printed is decoded as the instruction. -/
theorem decodeFields_print (h : insn.Printable) :
    decodeFields (opBytes insn.op :: printOperands insn) = some insn := by
  obtain ⟨op, arg0, arg1, ticks⟩ := insn
  rw [WorkloadInsn.Printable] at h
  have hlen : (printOperands ⟨op, arg0, arg1, ticks⟩).length ≤ 3 := by
    rw [printOperands]
    split <;> simp
  rw [decodeFields_opBytes op hlen, decodeOperands, printOperands]
  dsimp only at h ⊢
  cases hop : op.operands with
  | burst =>
    rw [hop] at h
    obtain ⟨rfl, rfl, hticks⟩ := h
    dsimp only
    rw [decodeBurst_ticks, burstTicks_decimal hticks]
    rfl
  | none =>
    rw [hop] at h
    obtain ⟨rfl, rfl, rfl⟩ := h
    rfl
  | one =>
    rw [hop] at h
    obtain ⟨harg, rfl, rfl⟩ := h
    simp only [decodeOne, parseI32_decimal harg]
    rfl
  | two =>
    rw [hop] at h
    obtain ⟨harg, harg', rfl⟩ := h
    simp only [decodeTwo, parseI32_decimal harg, parseI32_decimal harg']
    rfl

theorem printInsn_newline (insn : WorkloadInsn) : 10 ∉ printInsn insn := by
  intro hmem
  rcases List.mem_append.mp hmem with hmem | hmem
  · exact absurd ((opBytes_word insn.op).2 10 hmem).1 (by decide)
  · obtain ⟨w, hw, hmem⟩ := List.mem_flatMap.mp hmem
    rcases List.mem_cons.mp hmem with h | hmem
    · exact absurd h (by decide)
    · exact absurd ((printOperands_word insn w hw).2 10 hmem).1 (by decide)

theorem pieces_printInsn (h : insn.Printable) :
    pieces (printInsn insn) = [opBytes insn.op :: printOperands insn] := by
  have hlen := (length_printInsn_lt h).le
  have hfields := fields_words (opBytes_word insn.op) (printOperands_word insn)
  rw [pieces_line (printInsn_newline insn), List.take_of_length_le hlen,
    List.drop_eq_nil_of_le hlen, nonblank, List.map_singleton, printInsn, hfields]
  rfl

/-- A printed workload is read line by line. -/
theorem pieces_printWorkload (h : ∀ insn ∈ insns, insn.Printable) : pieces (printWorkload insns) =
    insns.map fun insn => opBytes insn.op :: printOperands insn := by
  induction insns with
  | nil => rfl
  | cons insn insns ih =>
    rw [List.forall_mem_cons] at h
    have hcons : printWorkload (insn :: insns) = printInsn insn ++ 10 :: printWorkload insns := by
      rw [printWorkload, List.flatMap_cons, List.append_assoc]
      rfl
    rw [hcons, pieces_lines, pieces_printInsn h.1, ih h.2]
    rfl

/-- The instructions with the EXIT that is added. -/
def withExitInsn (insns : List WorkloadInsn) : List WorkloadInsn :=
  if insns.getLast?.map (·.op) = some .exit then insns else insns ++ [{ op := .exit }]

theorem mapM_print (h : ∀ insn ∈ insns, insn.Printable) :
    (insns.map fun insn => opBytes insn.op :: printOperands insn).mapM decodeFields =
      some insns := by
  induction insns with
  | nil => rfl
  | cons insn insns ih =>
    rw [List.forall_mem_cons] at h
    rw [List.map_cons, List.mapM_cons, decodeFields_print h.1, ih h.2]
    rfl

theorem assemble_print (h : ∀ insn ∈ insns, insn.Printable) :
    assemble (pieces (printWorkload insns)) =
      if (withExitInsn insns).length ≤ mosrtMaxWorkloadInsns then some (withExitInsn insns)
      else none := by
  have hmap := mapM_print h
  have hlast := mapM_last hmap
  rw [pieces_printWorkload h, assemble, withExit, withExitInsn]
  by_cases hend : insns.getLast?.map (·.op) = some .exit
  · rw [if_pos (hlast.mp hend), if_pos hend, List.length_map, hmap]
  · rw [if_neg fun hx => hend (hlast.mpr hx), if_neg hend, mapM_concat, hmap,
      decodeFields_bareExit, List.length_append, List.length_append, List.length_map]
    rfl

theorem ok_of_toOption {x : Except CString Workload} {w : Workload} (h : x.toOption = some w) :
    x = .ok w := by
  cases x with
  | error text => cases h
  | ok v => rw [Option.some.inj h]

/-- **Parsing undoes printing.**  A workload that is printed line by line is loaded as it was,
with an EXIT at the end; one that is too long is rejected. -/
theorem parse_print (path : CString) (insns : List WorkloadInsn)
    (h : ∀ insn ∈ insns, insn.Printable) :
    (insns.getLast?.map (·.op) = some .exit → insns.length ≤ 128 →
        workloadLoad path (some (printWorkload insns)) =
          .ok { name := truncateTo 128 path, insns := insns }) ∧
      (insns.getLast?.map (·.op) ≠ some .exit → insns.length ≤ 127 →
        workloadLoad path (some (printWorkload insns)) =
          .ok { name := truncateTo 128 path, insns := insns ++ [{ op := .exit }] }) ∧
      (insns.length > (if insns.getLast?.map (·.op) = some .exit then 128 else 127) →
        ∃ text, workloadLoad path (some (printWorkload insns)) = .error text) := by
  have hload := workloadLoad_toOption path (printWorkload insns)
  rw [assemble_print h, withExitInsn] at hload
  refine ⟨fun hend hlen => ?_, fun hend hlen => ?_, fun hlong => ?_⟩
  · rw [if_pos hend, if_pos hlen] at hload
    exact ok_of_toOption hload
  · have hfits : (insns ++ [({ op := .exit } : WorkloadInsn)]).length ≤ mosrtMaxWorkloadInsns := by
      rw [List.length_append, List.length_singleton]
      exact Nat.succ_le_succ hlen
    rw [if_neg hend, if_pos hfits] at hload
    exact ok_of_toOption hload
  · have hnone : (workloadLoad path (some (printWorkload insns))).toOption = none := by
      rw [hload]
      split_ifs at hlong ⊢ with hend hfits hfits
      · exact absurd hlong (not_lt.mpr hfits)
      · rfl
      · rw [List.length_append, List.length_singleton] at hfits
        exact absurd hlong (not_lt.mpr (Nat.le_of_succ_le_succ hfits))
      · rfl
    cases hres : workloadLoad path (some (printWorkload insns)) with
    | error text => exact ⟨text, rfl⟩
    | ok w =>
      rw [hres] at hnone
      cases hnone

/-- A workload with a negative operand and the longest burst. -/
def sampleWorkload : List WorkloadInsn :=
  [⟨.cpu, 0, 0, 2 ^ 64 - 1⟩, ⟨.send, 2, -7, 0⟩, ⟨.access, -2 ^ 31, 1, 0⟩, ⟨.mfree, 0, 0, 0⟩]

theorem parse_print_sample :
    workloadLoad "w" (some (printWorkload sampleWorkload)) =
      .ok { name := "w", insns := sampleWorkload ++ [{ op := .exit }] } :=
  (parse_print "w" sampleWorkload (by
    simp [sampleWorkload, WorkloadInsn.Printable, WorkloadOp.operands, IsInt32])).2.1
      (by decide) (by decide)

end Mosrt
