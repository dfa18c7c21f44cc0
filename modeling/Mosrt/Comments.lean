/-
Comments in workload files.

`fgets` delivers a long line in pieces of 255 bytes, and `workload_load` takes every piece for
a line of its own.  A comment ends with the piece in which it starts, so what follows of it is
read as instructions.

* `pieces`, `assemble` — loading a file in terms of the fields of its pieces;
* `pieces_comment` — a comment adds to these what spills out of its first piece;
* `comment_ignored` — a comment changes nothing, exactly if nothing spills; or the file was
  rejected anyway; or what spills is the EXIT that would be added at the end.
-/
import Mosrt.WorkloadLoad

namespace Mosrt

variable {path : CString} {lineno : ℕ} {bs buf text rest : List UInt8}

/-! ### Pieces -/

/-- The fields of the lines that are not blank. -/
def nonblank (lines : List (List UInt8)) : List (List (List UInt8)) :=
  (lines.map fields).filter fun fs => fs ≠ []

/-- What `workload_load` reads in a file. -/
def pieces (bytes : List UInt8) : List (List (List UInt8)) := nonblank (fgetsLines [] bytes)

theorem nonblank_append (ls ls' : List (List UInt8)) :
    nonblank (ls ++ ls') = nonblank ls ++ nonblank ls' := by
  rw [nonblank, List.map_append, List.filter_append]
  rfl

theorem nonblank_cons (line : List UInt8) (ls : List (List UInt8)) :
    nonblank (line :: ls) = nonblank [line] ++ nonblank ls := nonblank_append [line] ls

/-- What `fgets` has put into its buffer when it comes to the end of `bs`. -/
def openPiece : List UInt8 → List UInt8 → List UInt8
  | buf, [] => buf
  | buf, b :: bs =>
    if b = 10 ∨ (buf ++ [b]).length = lineMax then openPiece [] bs else openPiece (buf ++ [b]) bs

/-- The pieces that are complete by then. -/
def closedPieces : List UInt8 → List UInt8 → List (List UInt8)
  | _, [] => []
  | buf, b :: bs =>
    if b = 10 ∨ (buf ++ [b]).length = lineMax then (buf ++ [b]) :: closedPieces [] bs
    else closedPieces (buf ++ [b]) bs

theorem fgetsLines_cons (buf : List UInt8) (b : UInt8) (bs : List UInt8) :
    fgetsLines buf (b :: bs) =
      if b = 10 ∨ (buf ++ [b]).length = lineMax then (buf ++ [b]) :: fgetsLines [] bs
      else fgetsLines (buf ++ [b]) bs := rfl

theorem fgetsLines_append (buf bs rest : List UInt8) :
    fgetsLines buf (bs ++ rest) = closedPieces buf bs ++ fgetsLines (openPiece buf bs) rest := by
  induction bs generalizing buf with
  | nil => rfl
  | cons b bs ih =>
    rw [List.cons_append, fgetsLines_cons, openPiece, closedPieces]
    split_ifs
    · rw [ih, List.cons_append]
    · exact ih _

/-- How far `bs` has come in the buffer: the column, counted anew after each newline and after
255 bytes. -/
def column (bs : List UInt8) : ℕ := bs.foldl (fun n b => if b = 10 then 0 else (n + 1) % lineMax) 0

theorem length_openPiece (bs : List UInt8) : (openPiece [] bs).length = column bs := by
  have hgen : ∀ (bs buf : List UInt8), buf.length < lineMax → (openPiece buf bs).length =
      bs.foldl (fun n b => if b = 10 then 0 else (n + 1) % lineMax) buf.length := by
    intro bs
    induction bs with
    | nil => exact fun _ _ => rfl
    | cons b bs ih =>
      intro buf hbuf
      have hlen : (buf ++ [b]).length = buf.length + 1 := by simp
      rw [openPiece, List.foldl_cons]
      by_cases hb : b = 10
      · rw [if_pos (.inl hb), if_pos hb]
        exact ih [] (by decide)
      · rw [if_neg hb]
        by_cases hfull : (buf ++ [b]).length = lineMax
        · rw [if_pos (.inr hfull), ← hlen, hfull, Nat.mod_self]
          exact ih [] (by decide)
        · have hlt : (buf ++ [b]).length < lineMax := by omega
          rw [if_neg (by tauto), ih _ hlt, ← hlen, Nat.mod_eq_of_lt hlt]
  exact hgen bs [] (by decide)

/-! ### Comments and ends of lines in a piece -/

/-- A byte of the string before a comment. -/
def inText (c : UInt8) : Bool := c != 35 && c != 0

theorem cutComment_eq (line : List UInt8) : cutComment line = line.takeWhile inText := by
  rw [cutComment, List.takeWhile_takeWhile]
  congr 1
  funext c
  rw [inText, Bool.decide_and, Bool.decide_eq_true, Bool.decide_eq_true]

/-- What is behind a piece counts only if the piece holds no comment and no NUL. -/
theorem cutComment_append (line tail : List UInt8) : cutComment (line ++ tail) =
    if cutComment line = line then line ++ tail.takeWhile inText else cutComment line := by
  have hiff : (line.takeWhile inText).length = line.length ↔ line.takeWhile inText = line :=
    ⟨(List.takeWhile_prefix inText).eq_of_length, congrArg List.length⟩
  rw [cutComment_eq, cutComment_eq, List.takeWhile_append]
  exact if_congr hiff rfl rfl

theorem fields_comment (line text : List UInt8) : fields (line ++ 35 :: text) = fields line := by
  have hcut : cutComment (line ++ 35 :: text) = cutComment line := by
    rw [cutComment_append, List.takeWhile_cons_of_neg (by decide), List.append_nil]
    split_ifs with hall
    · exact hall.symm
    · rfl
  rw [fields, hcut, fields]

theorem trim_newline (line : List UInt8) : trim (line ++ [10]) = trim line := by
  have hspace : isSpace 10 = true := by decide
  rw [trim, trim, List.dropWhile_append]
  split_ifs with hblank
  · rw [List.isEmpty_iff.mp hblank, List.dropWhile_cons_of_pos hspace]
    rfl
  · exact List.rdropWhile_concat_pos _ _ _ hspace

theorem fields_newline (line : List UInt8) : fields (line ++ [10]) = fields line := by
  rw [fields, fields, cutComment_append, List.takeWhile_cons_of_pos (by decide), List.takeWhile_nil]
  split_ifs with hall
  · rw [trim_newline, hall]
  · rfl

theorem nonblank_nil_piece : nonblank [[]] = [] := by decide

theorem nonblank_comment (line text : List UInt8) :
    nonblank [line ++ 35 :: text] = nonblank [line] := by
  rw [nonblank, List.map_singleton, fields_comment]
  rfl

theorem nonblank_newline (line : List UInt8) : nonblank [line ++ [10]] = nonblank [line] := by
  rw [nonblank, List.map_singleton, fields_newline]
  rfl

theorem nonblank_fgetsLines_nil (buf : List UInt8) :
    nonblank (fgetsLines buf []) = nonblank [buf] := by
  rw [fgetsLines]
  split_ifs with hbuf
  · rw [hbuf, nonblank_nil_piece]
    rfl
  · rfl

/-! ### Comments in a file -/

/-- A newline closes the piece. -/
theorem nonblank_fgetsLines_newline (buf rest : List UInt8) :
    nonblank (fgetsLines buf (10 :: rest)) = nonblank [buf] ++ pieces rest := by
  rw [fgetsLines_cons, if_pos (.inl rfl), nonblank_cons, nonblank_newline]
  rfl

/-- The rest of a piece that is filled up. -/
theorem fgetsLines_full (hline : 10 ∉ bs) (hne : bs ≠ []) (hlen : (buf ++ bs).length = lineMax) :
    fgetsLines buf (bs ++ rest) = (buf ++ bs) :: fgetsLines [] rest := by
  induction bs generalizing buf with
  | nil => exact absurd rfl hne
  | cons b bs ih =>
    have hb : b ≠ 10 := fun h => hline (h ▸ List.mem_cons_self)
    rw [List.cons_append, fgetsLines_cons]
    cases hbs : bs with
    | nil =>
      rw [hbs] at hlen
      rw [if_pos (.inr hlen)]
      rfl
    | cons c cs =>
      have hshort : ¬ (b = 10 ∨ (buf ++ [b]).length = lineMax) := by
        rintro (h | h)
        · exact hb h
        · rw [hbs] at hlen
          simp only [List.length_append, List.length_cons, List.length_nil] at hlen h
          omega
      rw [if_neg hshort, ← hbs, ih (fun hmem => hline (List.mem_cons_of_mem b hmem))
        (by rw [hbs]; exact List.cons_ne_nil c cs) (by simpa using hlen)]
      simp

/-- A piece that is not filled up. -/
theorem fgetsLines_short (hline : 10 ∉ bs) (hlen : (buf ++ bs).length < lineMax) :
    fgetsLines buf bs = fgetsLines (buf ++ bs) [] := by
  induction bs generalizing buf with
  | nil => rw [List.append_nil]
  | cons b bs ih =>
    have hshort : ¬ (b = 10 ∨ (buf ++ [b]).length = lineMax) := by
      rintro (h | h)
      · exact hline (h ▸ List.mem_cons_self)
      · simp only [List.length_append, List.length_cons, List.length_nil] at hlen h
        omega
    rw [fgetsLines_cons, if_neg hshort, ih (fun hmem => hline (List.mem_cons_of_mem b hmem))
      (by simpa using hlen)]
    simp

/-- What is left of a comment when the piece in which it starts is full. -/
def spill (before text : List UInt8) : List (List (List UInt8)) :=
  pieces (text.drop (lineMax - 1 - column before))

/-- A comment at the end of the file. -/
theorem nonblank_comment_text (htext : 10 ∉ text) (hbuf : buf.length < lineMax) :
    nonblank (fgetsLines buf (35 :: text)) =
      nonblank [buf] ++ pieces (text.drop (lineMax - 1 - buf.length)) := by
  by_cases hlong : lineMax - 1 - buf.length ≤ text.length
  · obtain ⟨k, hk⟩ : ∃ k, k = lineMax - 1 - buf.length := ⟨_, rfl⟩
    have hsplit : 35 :: text = (35 :: text.take k) ++ text.drop k := by
      rw [List.cons_append, List.take_append_drop]
    have hline : 10 ∉ 35 :: text.take k := by
      rw [List.mem_cons, not_or]
      exact ⟨by decide, fun hmem => htext (List.mem_of_mem_take hmem)⟩
    rw [← hk] at hlong ⊢
    rw [hsplit, fgetsLines_full hline (List.cons_ne_nil _ _) (by simp; omega), nonblank_cons,
      nonblank_comment]
    rfl
  · have hline : 10 ∉ 35 :: text := by
      rw [List.mem_cons, not_or]
      exact ⟨by decide, htext⟩
    rw [fgetsLines_short hline (by simp; omega), nonblank_fgetsLines_nil, nonblank_comment,
      List.drop_eq_nil_of_le (by omega)]
    exact (List.append_nil _).symm

theorem length_openPiece_lt (bs : List UInt8) : (openPiece [] bs).length < lineMax := by
  rw [length_openPiece, column]
  refine List.foldlRecOn (motive := fun n : ℕ => n < lineMax) bs _ (by decide) fun n _ b _ => ?_
  split_ifs
  · decide
  · exact Nat.mod_lt _ (by decide)

theorem pieces_append (before rest : List UInt8) : pieces (before ++ rest) =
    nonblank (closedPieces [] before) ++ nonblank (fgetsLines (openPiece [] before) rest) := by
  rw [pieces, fgetsLines_append, nonblank_append]

theorem pieces_before (before : List UInt8) :
    pieces before = nonblank (closedPieces [] before) ++ nonblank [openPiece [] before] := by
  have h := pieces_append before []
  rw [List.append_nil, nonblank_fgetsLines_nil] at h
  exact h

theorem pieces_newline (rest : List UInt8) : pieces (10 :: rest) = pieces rest :=
  nonblank_fgetsLines_newline [] rest

/-- A file that ends with a comment. -/
theorem pieces_comment (before : List UInt8) (htext : 10 ∉ text) :
    pieces (before ++ 35 :: text) = pieces before ++ spill before text := by
  rw [pieces_append, nonblank_comment_text htext (length_openPiece_lt before), length_openPiece,
    ← List.append_assoc, ← pieces_before]
  rfl

/-- What follows a newline does not depend on what precedes it. -/
theorem pieces_lines (before after : List UInt8) :
    pieces (before ++ 10 :: after) = pieces before ++ pieces after := by
  rw [pieces_append, pieces_before, List.append_assoc, nonblank_fgetsLines_newline]

/-- A comment put into a file: at the end of a line, or as a line of its own. -/
inductive CommentAt (before after text : List UInt8) : List UInt8 → Prop
  | endOfLine : after = [] ∨ after.head? = some 10 →
      CommentAt before after text (before ++ 35 :: text ++ after)
  | ownLine : before = [] ∨ before.getLast? = some 10 →
      CommentAt before after text (before ++ 35 :: text ++ 10 :: after)

theorem CommentAt.pieces {before after commented : List UInt8}
    (h : CommentAt before after text commented) (htext : 10 ∉ text) :
    pieces commented = pieces before ++ spill before text ++ pieces after ∧
      pieces (before ++ after) = pieces before ++ pieces after := by
  cases h with
  | endOfLine hafter =>
    rcases hafter with rfl | hafter
    · rw [List.append_nil, List.append_nil, pieces_comment before htext]
      exact ⟨(List.append_nil _).symm, (List.append_nil _).symm⟩
    · obtain ⟨rest, rfl⟩ : ∃ rest, after = 10 :: rest := by
        cases after with
        | nil => cases hafter
        | cons b rest => exact ⟨rest, by rw [Option.some.inj hafter]⟩
      rw [pieces_lines, pieces_lines, pieces_comment before htext, pieces_newline]
      exact ⟨rfl, rfl⟩
  | ownLine hbefore =>
    rw [pieces_lines, pieces_comment before htext]
    refine ⟨rfl, ?_⟩
    rcases hbefore with rfl | hbefore
    · rfl
    · obtain ⟨line, rfl⟩ : ∃ line, before = line ++ [10] := by
        obtain ⟨line, hline⟩ := List.getLast?_eq_some_iff.mp hbefore
        exact ⟨line, hline⟩
      rw [List.append_assoc, List.singleton_append, pieces_lines, pieces_lines]
      show _ = Mosrt.pieces line ++ [] ++ _
      rw [List.append_nil]

/-! ### Loading -/

/-- The instruction in a line with these fields. -/
def decodeFields : List (List UInt8) → Option WorkloadInsn
  | [] => none
  | op :: args => if 4 < (op :: args).length then none else (decodeInsn [] 0 op args).toOption

/-- The lines of a workload, with an EXIT at the end. -/
def withExit (ps : List (List (List UInt8))) : List (List (List UInt8)) :=
  if ps.getLast? = some [asciiBytes "EXIT"] then ps else ps ++ [[asciiBytes "EXIT"]]

/-- The instructions of a workload, if it is accepted. -/
def assemble (ps : List (List (List UInt8))) : Option (List WorkloadInsn) :=
  if (withExit ps).length ≤ mosrtMaxWorkloadInsns then (withExit ps).mapM decodeFields else none

variable {op : WorkloadOp} {args : List (List UInt8)} {insn : WorkloadInsn}

/-- Path, line number and complaint are for error texts only. -/
theorem decodeBurst_toOption (path : CString) (lineno : ℕ) (op : WorkloadOp) (empty : String)
    (args : List (List UInt8)) : (decodeBurst path lineno op empty args).toOption =
      (decodeBurst [] 0 op "" args).toOption := by
  rw [decodeBurst.eq_def, decodeBurst.eq_def]
  split
  · split
    · rfl
    · split_ifs <;> rfl
  · rfl

theorem decodeInsn_toOption (path : CString) (lineno : ℕ) (name : List UInt8)
    (args : List (List UInt8)) :
    (decodeInsn path lineno name args).toOption = (decodeInsn [] 0 name args).toOption := by
  have hburst : ∀ op empty, (decodeBurst path lineno op empty args).toOption =
      (decodeBurst [] 0 op empty args).toOption := by
    intro op empty
    rw [decodeBurst_toOption path lineno op empty, decodeBurst_toOption [] 0 op empty]
  have hone : ∀ op, (decodeOne path lineno op args).toOption =
      (decodeOne [] 0 op args).toOption := by
    intro op
    rw [decodeOne.eq_def, decodeOne.eq_def]
    split
    · split <;> rfl
    · rfl
  have htwo : ∀ op, (decodeTwo path lineno op args).toOption =
      (decodeTwo [] 0 op args).toOption := by
    intro op
    rw [decodeTwo.eq_def, decodeTwo.eq_def]
    split
    · split <;> rfl
    · rfl
  have hbare : ∀ op, (decodeBare path lineno op args).toOption =
      (decodeBare [] 0 op args).toOption := by
    intro op
    rw [decodeBare.eq_def, decodeBare.eq_def]
    split <;> rfl
  rw [decodeInsn, decodeInsn]
  simp only [apply_ite Except.toOption, hburst, hone, htwo, hbare]
  rfl

theorem decodeOne_op (h : decodeOne path lineno op args = .ok insn) : insn.op = op := by
  rw [decodeOne.eq_def] at h
  split at h
  · split at h
    · cases h
    · cases h
      rfl
  · cases h

theorem decodeTwo_op (h : decodeTwo path lineno op args = .ok insn) : insn.op = op := by
  rw [decodeTwo.eq_def] at h
  split at h
  · split at h
    · cases h
      rfl
    · cases h
  · cases h

theorem decodeBare_eq (h : decodeBare path lineno op args = .ok insn) :
    insn.op = op ∧ args = [] := by
  rw [decodeBare.eq_def] at h
  split at h
  · cases h
    exact ⟨rfl, rfl⟩
  · cases h

/-- What is decoded in one branch or the other. -/
theorem ok_of_ite {c : Prop} [Decidable c] {r r' : Except CString WorkloadInsn}
    {P : WorkloadInsn → Prop} (h : c → ∀ insn, r = .ok insn → P insn)
    (h' : ∀ insn, r' = .ok insn → P insn) : ∀ insn, (if c then r else r') = .ok insn → P insn := by
  by_cases hc : c
  · rw [if_pos hc]
    exact h hc
  · rw [if_neg hc]
    exact h'

/-- An EXIT is written in one way only. -/
theorem decodeInsn_exit (path : CString) (lineno : ℕ) (name : List UInt8)
    (args : List (List UInt8)) : ∀ insn, decodeInsn path lineno name args = .ok insn →
      insn.op = .exit → name :: args = [asciiBytes "EXIT"] := by
  have hno : ∀ (op : WorkloadOp) {r : Except CString WorkloadInsn}, op ≠ .exit →
      (∀ insn, r = .ok insn → insn.op = op) → ∀ insn, r = .ok insn → insn.op = .exit →
      name :: args = [asciiBytes "EXIT"] := by
    intro op r hop hr insn hi hexit
    exact absurd ((hr insn hi).symm.trans hexit) hop
  rw [decodeInsn]
  refine ok_of_ite (fun _ => hno .cpu (by decide) fun _ hi => (decodeBurst_eq hi).1) ?_
  refine ok_of_ite (fun _ => hno .io (by decide) fun _ hi => (decodeBurst_eq hi).1) ?_
  refine ok_of_ite (fun _ => hno .send (by decide) fun _ hi => decodeTwo_op hi) ?_
  refine ok_of_ite (fun _ => hno .recv (by decide) fun _ hi => decodeOne_op hi) ?_
  refine ok_of_ite (fun _ => hno .semWait (by decide) fun _ hi => decodeOne_op hi) ?_
  refine ok_of_ite (fun _ => hno .semPost (by decide) fun _ hi => decodeOne_op hi) ?_
  refine ok_of_ite (fun _ => hno .lock (by decide) fun _ hi => decodeOne_op hi) ?_
  refine ok_of_ite (fun _ => hno .unlock (by decide) fun _ hi => decodeOne_op hi) ?_
  refine ok_of_ite (fun _ => hno .mmap (by decide) fun _ hi => decodeOne_op hi) ?_
  refine ok_of_ite (fun _ => hno .access (by decide) fun _ hi => decodeTwo_op hi) ?_
  refine ok_of_ite (fun _ => hno .mfree (by decide) fun _ hi => (decodeBare_eq hi).1) ?_
  refine ok_of_ite (fun hname insn hi _ => ?_) fun insn hi => ?_
  · rw [hname, (decodeBare_eq hi).2]
  · cases hi

theorem toOption_bind {α β : Type} (x : Except CString α) (f : α → Except CString β) :
    (x >>= f).toOption = x.toOption.bind fun a => (f a).toOption := by
  cases x <;> rfl

theorem addInsn_toOption (insns : List WorkloadInsn) (insn : WorkloadInsn) :
    (addInsn insns insn).toOption =
      if insns.length < mosrtMaxWorkloadInsns then some (insns ++ [insn]) else none := by
  rw [addInsn]
  by_cases hfull : mosrtMaxWorkloadInsns ≤ insns.length
  · rw [if_pos hfull, if_neg (not_lt.mpr hfull)]
    rfl
  · rw [if_neg hfull, if_pos (not_le.mp hfull)]
    rfl

/-- The loop decodes all lines that are not blank, or fails. -/
theorem loadLines_toOption (path : CString) (lines : List (List UInt8)) (lineno : ℕ)
    (insns : List WorkloadInsn) (hinsns : insns.length ≤ mosrtMaxWorkloadInsns) :
    (loadLines path lines lineno insns).toOption =
      if insns.length + (nonblank lines).length ≤ mosrtMaxWorkloadInsns then
        ((nonblank lines).mapM decodeFields).map (insns ++ ·)
      else none := by
  induction lines generalizing lineno insns with
  | nil =>
    have hnil : nonblank [] = [] := rfl
    rw [loadLines, hnil, List.length_nil, Nat.add_zero, if_pos hinsns]
    show some insns = some (insns ++ [])
    rw [List.append_nil]
  | cons line lines ih =>
    rw [loadLines]
    cases hfields : fields line with
    | nil =>
      have hskip : nonblank (line :: lines) = nonblank lines := by
        rw [nonblank, List.map_cons, hfields]
        rfl
      rw [hskip]
      exact ih _ insns hinsns
    | cons op args =>
      have hcons : nonblank (line :: lines) = (op :: args) :: nonblank lines := by
        rw [nonblank, List.map_cons, hfields]
        rfl
      rw [hcons, List.mapM_cons, List.length_cons]
      dsimp only
      rw [decodeFields]
      by_cases hmany : 4 < (op :: args).length
      · rw [if_pos hmany, if_pos hmany]
        split_ifs <;> rfl
      · rw [if_neg hmany, if_neg hmany, toOption_bind, decodeInsn_toOption]
        cases hdecode : (decodeInsn [] 0 op args).toOption with
        | none =>
          split_ifs <;> rfl
        | some insn =>
          rw [Option.bind_some, toOption_bind, addInsn_toOption]
          by_cases hroom : insns.length < mosrtMaxWorkloadInsns
          · rw [if_pos hroom, Option.bind_some, ih _ _ (by simpa using hroom)]
            have hlen : (insns ++ [insn]).length + (nonblank lines).length =
                insns.length + ((nonblank lines).length + 1) := by
              rw [List.length_append, List.length_singleton]
              omega
            rw [hlen]
            split_ifs
            · cases (nonblank lines).mapM decodeFields with
              | none => rfl
              | some js =>
                show some (insns ++ [insn] ++ js) = some (insns ++ insn :: js)
                rw [List.append_assoc, List.singleton_append]
            · rfl
          · rw [if_neg hroom, if_neg (by omega)]
            rfl

theorem decodeFields_bareExit : decodeFields [asciiBytes "EXIT"] = some { op := .exit } := rfl

theorem decodeFields_exit {fs : List (List UInt8)} (h : decodeFields fs = some insn) :
    insn.op = .exit ↔ fs = [asciiBytes "EXIT"] := by
  constructor
  · intro hexit
    cases fs with
    | nil => cases h
    | cons name args =>
      rw [decodeFields] at h
      split_ifs at h
      cases hdecode : decodeInsn [] 0 name args with
      | error text =>
        rw [hdecode] at h
        cases h
      | ok i =>
        rw [hdecode] at h
        cases h
        exact decodeInsn_exit _ _ _ _ _ hdecode hexit
  · rintro rfl
    rw [decodeFields_bareExit] at h
    cases h
    rfl

theorem mapM_concat (ps : List (List (List UInt8))) (fs : List (List UInt8)) :
    (ps ++ [fs]).mapM decodeFields =
      (ps.mapM decodeFields).bind fun js => (decodeFields fs).map fun j => js ++ [j] := by
  rw [List.mapM_append, List.mapM_cons, List.mapM_nil]
  cases ps.mapM decodeFields with
  | none => rfl
  | some js =>
    cases decodeFields fs with
    | none => rfl
    | some j => rfl

/-- The last instruction is an EXIT if the last line is one. -/
theorem mapM_last {ps : List (List (List UInt8))} {js : List WorkloadInsn}
    (h : ps.mapM decodeFields = some js) :
    js.getLast?.map (·.op) = some .exit ↔ ps.getLast? = some [asciiBytes "EXIT"] := by
  rcases List.eq_nil_or_concat ps with rfl | ⟨qs, fs, rfl⟩
  · cases h
    exact ⟨nofun, nofun⟩
  · rw [List.concat_eq_append] at h ⊢
    rw [mapM_concat] at h
    obtain ⟨is, -, h⟩ := Option.bind_eq_some_iff.mp h
    obtain ⟨j, hj, rfl⟩ := Option.map_eq_some_iff.mp h
    rw [List.getLast?_concat, List.getLast?_concat, Option.map_some, Option.some_inj,
      Option.some_inj]
    exact decodeFields_exit hj

theorem length_mapM {ps : List (List (List UInt8))} {js : List WorkloadInsn}
    (h : ps.mapM decodeFields = some js) : js.length = ps.length := by
  induction ps generalizing js with
  | nil =>
    cases h
    rfl
  | cons fs ps ih =>
    rw [List.mapM_cons] at h
    obtain ⟨j, -, h⟩ := Option.bind_eq_some_iff.mp h
    obtain ⟨is, his, h⟩ := Option.bind_eq_some_iff.mp h
    cases h
    rw [List.length_cons, List.length_cons, ih his]

theorem mapM_isSome {ps : List (List (List UInt8))} :
    (ps.mapM decodeFields).isSome ↔ ∀ fs ∈ ps, (decodeFields fs).isSome := by
  induction ps with
  | nil => simp
  | cons fs ps ih =>
    rw [List.forall_mem_cons, ← ih, List.mapM_cons]
    cases decodeFields fs with
    | none => simp
    | some j =>
      cases ps.mapM decodeFields with
      | none => simp
      | some js => simp

theorem subset_withExit (ps : List (List (List UInt8))) : ps ⊆ withExit ps := by
  rw [withExit]
  split_ifs
  · exact List.Subset.refl ps
  · exact List.subset_append_left ps _

theorem assemble_none {ps : List (List (List UInt8))} {fs : List (List UInt8)} (hmem : fs ∈ ps)
    (h : decodeFields fs = none) : assemble ps = none := by
  have hnone : ¬ ((withExit ps).mapM decodeFields).isSome := by
    intro hsome
    have hfs := mapM_isSome.mp hsome fs (subset_withExit ps hmem)
    rw [h] at hfs
    cases hfs
  rw [assemble, Option.not_isSome_iff_eq_none.mp hnone, ite_self]

theorem addExit_toOption {ps : List (List (List UInt8))} {js : List WorkloadInsn}
    (h : ps.mapM decodeFields = some js) (hlen : ps.length ≤ mosrtMaxWorkloadInsns) :
    (addExit js).toOption = assemble ps := by
  have hlast := mapM_last h
  have hjs := length_mapM h
  rw [addExit, assemble, withExit]
  by_cases hend : ps.getLast? = some [asciiBytes "EXIT"]
  · rw [if_neg (not_not.mpr (hlast.mpr hend)), if_pos hend, if_pos hlen, h]
    rfl
  · rw [if_pos fun hx => hend (hlast.mp hx), if_neg hend, addInsn_toOption, mapM_concat, h,
      decodeFields_bareExit, List.length_append, List.length_singleton, hjs]
    rfl

/-- **Loading.**  A file is the list of its pieces that are not blank, with an EXIT at the end;
it is accepted if there are at most 128 of them and each is an instruction. -/
theorem workloadLoad_toOption (path : CString) (bytes : List UInt8) :
    (workloadLoad path (some bytes)).toOption =
      (assemble (pieces bytes)).map
        fun insns => { name := truncateTo 128 path, insns := insns } := by
  rw [workloadLoad, toOption_bind, loadLines_toOption _ _ _ _ (Nat.zero_le _), List.length_nil,
    Nat.zero_add]
  have hmany : ∀ ps, (withExit ps).length ≤ mosrtMaxWorkloadInsns →
      ps.length ≤ mosrtMaxWorkloadInsns := by
    intro ps hps
    rw [withExit] at hps
    split_ifs at hps
    · exact hps
    · rw [List.length_append] at hps
      omega
  show (if (pieces bytes).length ≤ mosrtMaxWorkloadInsns then
    ((pieces bytes).mapM decodeFields).map ([] ++ ·) else none).bind _ = _
  generalize pieces bytes = ps
  by_cases hlen : ps.length ≤ mosrtMaxWorkloadInsns
  · rw [if_pos hlen]
    cases hps : ps.mapM decodeFields with
    | none =>
      have hnot : ¬ ∀ fs ∈ ps, (decodeFields fs).isSome := by
        rw [← mapM_isSome, hps]
        exact nofun
      push Not at hnot
      obtain ⟨fs, hmem, hfs⟩ := hnot
      rw [assemble_none hmem (Option.not_isSome_iff_eq_none.mp (by simpa using hfs))]
      rfl
    | some js =>
      rw [← addExit_toOption hps hlen, Option.map_some, List.nil_append, Option.bind_some,
        toOption_bind]
      cases (addExit js).toOption <;> rfl
  · rw [if_neg hlen, assemble, if_neg fun h => hlen (hmany ps h)]
    rfl

/-! ### Comments that change nothing -/

/-- Without the comment the file is accepted: each piece is an instruction, and there are at
most 128, with an EXIT at the end. -/
def Loadable (ps : List (List (List UInt8))) : Prop :=
  (withExit ps).length ≤ mosrtMaxWorkloadInsns ∧ ∀ fs ∈ ps, (decodeFields fs).isSome

/-- Lines between others that make no difference: there are none, or the only one is an EXIT at
the end, which was not there. -/
def Redundant (ps qs rs : List (List (List UInt8))) : Prop :=
  qs = [] ∨ qs = [[asciiBytes "EXIT"]] ∧ rs = [] ∧ ps.getLast? ≠ some [asciiBytes "EXIT"]

variable {ps qs rs : List (List (List UInt8))}

theorem loadable_iff : Loadable ps ↔ (assemble ps).isSome := by
  have hall : (∀ fs ∈ ps, (decodeFields fs).isSome) ↔
      ∀ fs ∈ withExit ps, (decodeFields fs).isSome := by
    refine ⟨fun h fs hmem => ?_, fun h fs hmem => h fs (subset_withExit ps hmem)⟩
    rw [withExit] at hmem
    split_ifs at hmem
    · exact h fs hmem
    · rcases List.mem_append.mp hmem with hmem | hmem
      · exact h fs hmem
      · rw [List.mem_singleton.mp hmem, decodeFields_bareExit]
        rfl
  rw [Loadable, hall, ← mapM_isSome, assemble]
  split_ifs with hlen
  · exact and_iff_right hlen
  · exact ⟨fun h => absurd h.1 hlen, nofun⟩

theorem length_withExit (ps : List (List (List UInt8))) : (withExit ps).length =
    ps.length + if ps.getLast? = some [asciiBytes "EXIT"] then 0 else 1 := by
  rw [withExit]
  split_ifs
  · rfl
  · rw [List.length_append]
    rfl

/-- A file with more lines is longer, with its EXIT too. -/
theorem length_withExit_le (ps qs rs : List (List (List UInt8))) :
    (withExit (ps ++ rs)).length ≤ (withExit (ps ++ qs ++ rs)).length := by
  cases qs with
  | nil => rw [List.append_nil]
  | cons q qs =>
    rw [length_withExit, length_withExit]
    simp only [List.length_append, List.length_cons]
    split_ifs <;> omega

theorem Loadable.of_inserted (h : Loadable (ps ++ qs ++ rs)) : Loadable (ps ++ rs) := by
  refine ⟨(length_withExit_le ps qs rs).trans h.1, fun fs hmem => h.2 fs ?_⟩
  rcases List.mem_append.mp hmem with hmem | hmem
  · exact List.mem_append_left _ (List.mem_append_left _ hmem)
  · exact List.mem_append_right _ hmem

theorem Redundant.withExit_eq (h : Redundant ps qs rs) :
    withExit (ps ++ qs ++ rs) = withExit (ps ++ rs) := by
  rcases h with rfl | ⟨rfl, rfl, hlast⟩
  · rw [List.append_nil]
  · rw [List.append_nil, List.append_nil, withExit, withExit, List.getLast?_concat, if_pos rfl,
      if_neg hlast]

/-- Lines between others, of which as many are accepted as without them. -/
theorem redundant_of_length
    (h : (withExit (ps ++ qs ++ rs)).length = (withExit (ps ++ rs)).length) :
    Redundant ps qs rs := by
  rw [length_withExit, length_withExit] at h
  simp only [List.length_append] at h
  cases qs with
  | nil => exact .inl rfl
  | cons q qs =>
    -- one line more, and it saves the EXIT
    rw [List.length_cons] at h
    split_ifs at h with hin hout
    · omega
    · have hqs : qs = [] := List.length_eq_zero_iff.mp (by omega)
      subst hqs
      cases hrs : rs.getLast? with
      | none =>
        rw [List.getLast?_eq_none_iff] at hrs
        subst hrs
        rw [List.append_nil, List.getLast?_concat] at hin
        rw [List.append_nil] at hout
        exact .inr ⟨by rw [Option.some.inj hin], rfl, hout⟩
      | some r =>
        rw [List.getLast?_append, hrs] at hin hout
        exact absurd hin hout
    · omega
    · omega

theorem assemble_inserted : assemble (ps ++ qs ++ rs) = assemble (ps ++ rs) ↔
    (Loadable (ps ++ rs) → Redundant ps qs rs) := by
  constructor
  · intro heq hload
    obtain ⟨js, hjs⟩ := Option.isSome_iff_exists.mp (loadable_iff.mp hload)
    have hlength : ∀ {ps}, assemble ps = some js → js.length = (withExit ps).length := by
      intro ps hps
      rw [assemble] at hps
      split_ifs at hps
      exact length_mapM hps
    exact redundant_of_length ((hlength (heq.trans hjs)).symm.trans (hlength hjs))
  · intro h
    by_cases hload : Loadable (ps ++ rs)
    · rw [assemble, assemble, (h hload).withExit_eq]
    · -- a file that is rejected is rejected with more lines too
      have hmore : ¬ Loadable (ps ++ qs ++ rs) := fun hmore => hload hmore.of_inserted
      rw [loadable_iff, Option.not_isSome_iff_eq_none] at hload hmore
      rw [hload, hmore]

/-- **Comments.**  A comment at the end of any line of any file, or as a line of its own, leaves
acceptance and instructions as they are exactly if the file is rejected without it, or nothing but
a missing EXIT is left of it behind the piece in which it starts. -/
theorem comment_ignored (path : CString) (before after text commented : List UInt8)
    (htext : 10 ∉ text) (h : CommentAt before after text commented) :
    (workloadLoad path (some commented)).toOption =
        (workloadLoad path (some (before ++ after))).toOption ↔
      (Loadable (pieces (before ++ after)) →
        Redundant (pieces before) (spill before text) (pieces after)) := by
  obtain ⟨hcommented, hplain⟩ := h.pieces htext
  have hinj : Function.Injective
      (Option.map fun insns => ({ name := truncateTo 128 path, insns := insns } : Workload)) := by
    refine Option.map_injective fun is is' heq => ?_
    exact congrArg Workload.insns heq
  rw [workloadLoad_toOption, workloadLoad_toOption, hinj.eq_iff, hcommented, hplain,
    assemble_inserted]

theorem comment_ignored_short :
    (workloadLoad "w"
        (some (asciiBytes "CPU 1" ++ 35 :: asciiBytes " one tick" ++ [10]))).toOption =
      (workloadLoad "w" (some (asciiBytes "CPU 1" ++ [10]))).toOption :=
  (comment_ignored "w" (asciiBytes "CPU 1") [10] (asciiBytes " one tick") _ (by decide)
    (.endOfLine (.inr rfl))).mpr fun _ => .inl (by decide +kernel)

/-- A comment of 254 characters behind `CPU 1`, the last five of which are `CPU 5`. -/
def longComment : List UInt8 := List.replicate 249 120 ++ asciiBytes "CPU 5"

set_option maxRecDepth 100000 in
/-- The end of a long comment is executed. -/
theorem comment_read :
    10 ∉ longComment ∧ 0 ∉ longComment ∧
      (workloadLoad "w" (some (asciiBytes "CPU 1" ++ 35 :: longComment ++ [10]))).toOption.map
        (·.insns) = some [⟨.cpu, 0, 0, 1⟩, ⟨.cpu, 0, 0, 5⟩, ⟨.exit, 0, 0, 0⟩] ∧
      (workloadLoad "w" (some (asciiBytes "CPU 1" ++ [10]))).toOption.map (·.insns) =
        some [⟨.cpu, 0, 0, 1⟩, ⟨.exit, 0, 0, 0⟩] := by
  decide +kernel

end Mosrt
