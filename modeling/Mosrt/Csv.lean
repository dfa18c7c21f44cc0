/-
Reading comma-separated values (RFC 4180).

`csvRead` splits a text, which is a list of bytes, into records of fields.  A record ends with
LF or CRLF, the last one also with the text; a field is plain, or it stands in quotes, with every
quote in it doubled.  Anything else is refused: a quote in a plain field, text behind the closing
quote, a quote that is not closed.

* `csvLoop_plain` — a plain field;
* `csvLoop_quoted_iff` — a field that was put in quotes as it is comes back as it was, exactly
  if there is no quote in it.
-/
import Mathlib

namespace Csv

abbrev comma : UInt8 := 44
abbrev quote : UInt8 := 34
abbrev newline : UInt8 := 10
abbrev carriageReturn : UInt8 := 13

/-- Where the reader is: at the start of a field, in a plain one, in a quoted one, or behind a
quote in a quoted one. -/
inductive CsvMode where
  | start | plain | quoted | closing
deriving DecidableEq

/-- The records of a text, with `fld` read of the current field and `row` of the current record. -/
def csvLoop : CsvMode → List UInt8 → List (List UInt8) → List UInt8 →
    Option (List (List (List UInt8)))
  | .start, fld, row, [] => if row = [] then some [] else some [row ++ [fld]]
  | .quoted, _, _, [] => none
  | _, fld, row, [] => some [row ++ [fld]]
  | .quoted, fld, row, c :: cs =>
    if c = quote then csvLoop .closing fld row cs else csvLoop .quoted (fld ++ [c]) row cs
  | mode, fld, row, c :: cs =>
    if c = comma then csvLoop .start [] (row ++ [fld]) cs
    else if c = newline then (csvLoop .start [] [] cs).map ((row ++ [fld]) :: ·)
    else if c = carriageReturn ∧ cs.head? = some newline then csvLoop mode fld row cs
    else if c = quote then
      match mode with
      | .start => csvLoop .quoted [] row cs
      | .closing => csvLoop .quoted (fld ++ [quote]) row cs
      | _ => none
    else if mode = .closing then none
    else csvLoop .plain (fld ++ [c]) row cs

def csvRead (text : List UInt8) : Option (List (List (List UInt8))) := csvLoop .start [] [] text

variable {mode : CsvMode} {fld d cs text : List UInt8} {row : List (List UInt8)}
  {rows : List (List (List UInt8))} {c : UInt8}

/-! ### One byte -/

theorem csvLoop_quote (fld : List UInt8) (row : List (List UInt8)) (cs : List UInt8) :
    csvLoop .quoted fld row (quote :: cs) = csvLoop .closing fld row cs := rfl

theorem csvLoop_inside (hc : c ≠ quote) :
    csvLoop .quoted fld row (c :: cs) = csvLoop .quoted (fld ++ [c]) row cs := by
  rw [csvLoop, if_neg hc]

/-- A byte outside quotes. -/
theorem csvLoop_outside (hmode : mode ≠ .quoted) : csvLoop mode fld row (c :: cs) =
    if c = comma then csvLoop .start [] (row ++ [fld]) cs
    else if c = newline then (csvLoop .start [] [] cs).map ((row ++ [fld]) :: ·)
    else if c = carriageReturn ∧ cs.head? = some newline then csvLoop mode fld row cs
    else if c = quote then
      match mode with
      | .start => csvLoop .quoted [] row cs
      | .closing => csvLoop .quoted (fld ++ [quote]) row cs
      | _ => none
    else if mode = .closing then none
    else csvLoop .plain (fld ++ [c]) row cs := by
  cases mode with
  | start => rfl
  | plain => rfl
  | quoted => exact absurd rfl hmode
  | closing => rfl

theorem csvLoop_comma (hmode : mode ≠ .quoted) :
    csvLoop mode fld row (comma :: cs) = csvLoop .start [] (row ++ [fld]) cs := by
  rw [csvLoop_outside hmode, if_pos rfl]

theorem csvLoop_newline (hmode : mode ≠ .quoted) : csvLoop mode fld row (newline :: cs) =
    (csvLoop .start [] [] cs).map ((row ++ [fld]) :: ·) := by
  rw [csvLoop_outside hmode, if_neg (by decide), if_pos rfl]

/-- A byte that means nothing outside quotes. -/
def IsPlain (c : UInt8) : Prop := c ≠ comma ∧ c ≠ quote ∧ c ≠ newline

theorem csvLoop_text (hmode : mode = .start ∨ mode = .plain) (hc : IsPlain c)
    (hcs : cs.head? ≠ some newline) :
    csvLoop mode fld row (c :: cs) = csvLoop .plain (fld ++ [c]) row cs := by
  have hout : mode ≠ .quoted ∧ mode ≠ .closing := by
    rcases hmode with rfl | rfl <;> decide
  rw [csvLoop_outside hout.1, if_neg hc.1, if_neg hc.2.2, if_neg fun h => hcs h.2, if_neg hc.2.1,
    if_neg hout.2]

/-! ### One field -/

/-- A plain field with a comma behind it. -/
theorem csvLoop_plain {f : List UInt8} (hf : ∀ c ∈ f, IsPlain c)
    (hmode : mode = .start ∨ mode = .plain) :
    csvLoop mode fld row (f ++ comma :: cs) = csvLoop .start [] (row ++ [fld ++ f]) cs := by
  induction f generalizing mode fld with
  | nil =>
    rw [List.nil_append, List.append_nil, csvLoop_comma (by rcases hmode with rfl | rfl <;> decide)]
  | cons c f ih =>
    rw [List.forall_mem_cons] at hf
    have hhead : (f ++ comma :: cs).head? ≠ some newline := by
      cases f with
      | nil => exact fun h => absurd (Option.some.inj h) (by decide)
      | cons a f => exact fun h => (hf.2 a List.mem_cons_self).2.2 (Option.some.inj h)
    rw [List.cons_append, csvLoop_text hmode hf.1 hhead, ih hf.2 (.inr rfl), List.append_assoc]
    rfl

/-- A quoted field without quotes in it. -/
theorem csvLoop_quoted (hd : quote ∉ d) :
    csvLoop .quoted fld row (d ++ quote :: cs) = csvLoop .closing (fld ++ d) row cs := by
  induction d generalizing fld with
  | nil => rw [List.nil_append, List.append_nil, csvLoop_quote]
  | cons c d ih =>
    rw [List.mem_cons, not_or] at hd
    rw [List.cons_append, csvLoop_inside (Ne.symm hd.1), ih hd.2, List.append_assoc]
    rfl

/-- A field as it is written between quotes. -/
def csvEscape (d : List UInt8) : List UInt8 :=
  d.flatMap fun c => if c = quote then [quote, quote] else [c]

theorem csvEscape_cons (c : UInt8) (d : List UInt8) :
    csvEscape (c :: d) = (if c = quote then [quote, quote] else [c]) ++ csvEscape d := rfl

/-- What is accepted as a quoted field was written so. -/
theorem csvLoop_quoted_sound (h : csvLoop .quoted fld row text = some rows) :
    ∃ d cs, text = csvEscape d ++ quote :: cs ∧ cs.head? ≠ some quote ∧
      csvLoop .closing (fld ++ d) row cs = some rows := by
  obtain ⟨n, hn⟩ : ∃ n, n = text.length := ⟨_, rfl⟩
  -- a doubled quote takes two bytes at once
  induction n using Nat.strong_induction_on generalizing fld text with
  | _ n ih =>
    cases text with
    | nil => cases h
    | cons c text =>
      by_cases hc : c = quote
      · subst hc
        rw [csvLoop_quote] at h
        by_cases hdouble : text.head? = some quote
        · obtain ⟨rest, rfl⟩ := List.head?_eq_some_iff.mp hdouble
          have hquoted : csvLoop .quoted (fld ++ [quote]) row rest = some rows := h
          obtain ⟨d, cs, htext, hhead, hloop⟩ := ih rest.length (by simp [hn]) hquoted rfl
          refine ⟨quote :: d, cs, ?_, hhead, ?_⟩
          · rw [htext, csvEscape_cons]
            rfl
          · rw [List.append_assoc] at hloop
            exact hloop
        · refine ⟨[], text, rfl, hdouble, ?_⟩
          rw [List.append_nil]
          exact h
      · rw [csvLoop_inside hc] at h
        obtain ⟨d, cs, htext, hhead, hloop⟩ := ih text.length (by simp [hn]) h rfl
        refine ⟨c :: d, cs, ?_, hhead, ?_⟩
        · rw [htext, csvEscape_cons, if_neg hc]
          rfl
        · rw [List.append_assoc] at hloop
          exact hloop

/-! ### One record -/

/-- The fields that are read already stay, and one more follows. -/
theorem csvLoop_extends (hrow : row ≠ []) (h : csvLoop mode fld row text = some rows) :
    ∃ f fs rs, rows = (row ++ f :: fs) :: rs := by
  induction text generalizing mode fld row rows with
  | nil =>
    have hone : some rows = some [row ++ [fld]] := by
      cases mode with
      | start => rw [← h, csvLoop, if_neg hrow]
      | quoted => cases h
      | plain => exact h.symm
      | closing => exact h.symm
    exact ⟨fld, [], [], Option.some.inj hone⟩
  | cons c cs ih =>
    have hcomma : csvLoop .start [] (row ++ [fld]) cs = some rows →
        ∃ f fs rs, rows = (row ++ f :: fs) :: rs := by
      intro hcs
      obtain ⟨f, fs, rs, rfl⟩ := ih (by simp) hcs
      exact ⟨fld, f :: fs, rs, by simp⟩
    have hnewline : (csvLoop .start [] [] cs).map ((row ++ [fld]) :: ·) = some rows →
        ∃ f fs rs, rows = (row ++ f :: fs) :: rs := by
      intro hcs
      obtain ⟨rs, -, rfl⟩ := Option.map_eq_some_iff.mp hcs
      exact ⟨fld, [], rs, rfl⟩
    by_cases hmode : mode = .quoted
    · subst hmode
      rw [csvLoop] at h
      split_ifs at h
      · exact ih hrow h
      · exact ih hrow h
    · rw [csvLoop_outside hmode] at h
      split_ifs at h
      · exact hcomma h
      · exact hnewline h
      · exact ih hrow h
      · cases mode with
        | start => exact ih hrow h
        | plain => cases h
        | quoted => exact absurd rfl hmode
        | closing => exact ih hrow h
      · exact ih hrow h

/-- Behind a closing quote the record ends, or has another field. -/
theorem csvLoop_closing (hcs : cs.head? ≠ some quote)
    (h : csvLoop .closing fld row cs = some rows) :
    (∃ rs, rows = (row ++ [fld]) :: rs) ∨ ∃ f fs rs, rows = (row ++ [fld] ++ f :: fs) :: rs := by
  have hnewline : ∀ cs, csvLoop .closing fld row (newline :: cs) = some rows →
      ∃ rs, rows = (row ++ [fld]) :: rs := by
    intro cs hcs
    rw [csvLoop_newline (by decide)] at hcs
    obtain ⟨rs, -, rfl⟩ := Option.map_eq_some_iff.mp hcs
    exact ⟨rs, rfl⟩
  cases cs with
  | nil => exact .inl ⟨[], (Option.some.inj h).symm⟩
  | cons c cs =>
    rw [csvLoop_outside (by decide)] at h
    split_ifs at h with hcomma hend hcr hquote hclosing
    · exact .inr (csvLoop_extends (by simp) h)
    · obtain ⟨rs, -, rfl⟩ := Option.map_eq_some_iff.mp h
      exact .inl ⟨rs, rfl⟩
    · obtain ⟨rest, rfl⟩ := List.head?_eq_some_iff.mp hcr.2
      exact .inl (hnewline rest h)
    · exact absurd (by rw [hquote]; rfl) hcs
    · exact absurd rfl hclosing

/-- Doubled quotes are not the quotes that were there. -/
theorem csvEscape_append_ne (k : ℕ) (d cs rest : List UInt8) (hc : c ≠ quote) :
    List.replicate (k + 1) quote ++ (csvEscape d ++ quote :: cs) ≠ d ++ quote :: c :: rest := by
  induction d generalizing k with
  | nil =>
    intro h
    have htail := (List.cons.inj h).2
    cases k with
    | zero => exact hc (List.cons.inj htail).1.symm
    | succ k => exact hc (List.cons.inj htail).1.symm
  | cons a d ih =>
    intro h
    rw [List.replicate_succ, List.cons_append, List.cons_append, List.cons.injEq] at h
    obtain ⟨rfl, h⟩ := h
    refine ih (k + 1) ?_
    rw [← h, csvEscape_cons, if_pos rfl, List.replicate_succ', List.replicate_succ']
    simp

theorem csvEscape_eq (hc : c ≠ quote) {rest : List UInt8}
    (h : d ++ quote :: c :: rest = csvEscape d ++ quote :: cs) : quote ∉ d := by
  induction d with
  | nil => exact List.not_mem_nil
  | cons a d ih =>
    rw [csvEscape_cons] at h
    by_cases ha : a = quote
    · subst ha
      rw [if_pos rfl, List.cons_append, List.cons_append, List.cons_append, List.cons.injEq] at h
      exact absurd h.2.symm (csvEscape_append_ne 0 d cs rest hc)
    · rw [if_neg ha, List.cons_append, List.cons_append, List.cons_append, List.cons.injEq] at h
      rw [List.mem_cons, not_or]
      exact ⟨Ne.symm ha, ih h.2⟩

/-- **Quoted fields.**  A field that was put in quotes as it is, at the end of a record, comes
back as it was exactly if there is no quote in it. -/
theorem csvLoop_quoted_iff {rest : List UInt8} {rs : List (List (List UInt8))} :
    csvLoop .quoted [] row (d ++ quote :: newline :: rest) = some ((row ++ [d]) :: rs) ↔
      quote ∉ d ∧ csvRead rest = some rs := by
  constructor
  · intro h
    obtain ⟨e, cs, htext, hhead, hloop⟩ := csvLoop_quoted_sound h
    rw [List.nil_append] at hloop
    have hde : d = e := by
      rcases csvLoop_closing hhead hloop with ⟨rs', hrows⟩ | ⟨f, fs, rs', hrows⟩
      · exact List.singleton_inj.mp (List.append_cancel_left (List.cons.inj hrows).1)
      · have hlen := congrArg List.length (List.cons.inj hrows).1
        simp at hlen
    subst hde
    have hd := csvEscape_eq (by decide) htext
    rw [csvLoop_quoted hd, csvLoop_newline (by decide)] at h
    obtain ⟨rs', hrest, hrows⟩ := Option.map_eq_some_iff.mp h
    exact ⟨hd, hrest.trans (congrArg some (List.cons.inj hrows).2)⟩
  · rintro ⟨hd, hrest⟩
    rw [csvLoop_quoted hd, csvLoop_newline (by decide), ← csvRead, hrest]
    rfl

end Csv
