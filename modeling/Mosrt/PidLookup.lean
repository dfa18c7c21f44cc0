/-
The direct-mapped pid index against a scan of the table.

Slots of destroyed processes are used again, pids are not.  The index `pid_to_slot` has
`MOSRT_MAX_PROCS` entries; a process with a larger pid is in the table but cannot be found, and so
cannot be destroyed either.

* `Indexed` — what the table and its index have in common after any history;
* `Stray` — a process that is out of reach of the index, for good;
* `lookup_agrees` — lookups agree with a scan, created processes are found until they are
  destroyed and pids are not given twice, exactly if no more than `MOSRT_MAX_PROCS` processes
  were ever created.
-/
import Mosrt.Proc
import Mosrt.Runs

namespace Mosrt

/-- The calls that change the process table. -/
inductive ProcOp where
  | create (ppid priority : ℤ) (nowTick : ℕ)
  | setState (pid : ℤ) (newState : ProcState) (nowTick : ℕ)
  | markExited (pid exitCode : ℤ) (nowTick : ℕ)
  | destroy (pid exitCode : ℤ)

def ProcOp.exec (t : ProcTable) : ProcOp → ProcTable
  | .create ppid priority nowTick => (procCreate t ppid priority nowTick).elim t Prod.snd
  | .setState pid newState nowTick => (procSetState t pid newState nowTick).getD t
  | .markExited pid exitCode nowTick => (procMarkExited t pid exitCode nowTick).getD t
  | .destroy pid exitCode => procDestroy t pid exitCode

/-- The pid that the call returns for a new process. -/
def ProcOp.created (t : ProcTable) : ProcOp → List ℤ
  | .create ppid priority nowTick => ((procCreate t ppid priority nowTick).map Prod.fst).toList
  | _ => []

/-- The slots that a scan finds for a pid. -/
def slotsOf (t : ProcTable) (pid : ℤ) : List ℕ :=
  (List.range mosrtMaxProcs).filter fun i => (t.entries i).used && (t.entries i).pid == pid

variable {t : ProcTable} {op : ProcOp} {ops : List ProcOp} {pid : ℤ} {slot i n : ℕ} {f : Pcb → Pcb}

theorem mem_slotsOf :
    i ∈ slotsOf t pid ↔ i < mosrtMaxProcs ∧ (t.entries i).used = true ∧
      (t.entries i).pid = pid := by
  simp [slotsOf]

/-! ### What a call does -/

/-- What the lookup goes by is the same in all slots but one. -/
def SameElsewhere (t t' : ProcTable) (slot : ℕ) : Prop :=
  ∀ i, i ≠ slot → (t'.entries i).used = (t.entries i).used ∧ (t'.entries i).pid = (t.entries i).pid

/-- What the lookup goes by, after a call that returns the pids `created`. -/
inductive TableStep (t : ProcTable) (op : ProcOp) (t' : ProcTable) : List ℤ → Prop
  | keeps : t'.nextPid = t.nextPid → t'.pidToSlot = t.pidToSlot →
      (∀ i, (t'.entries i).used = (t.entries i).used ∧ (t'.entries i).pid = (t.entries i).pid) →
      TableStep t op t' []
  | creates (slot : ℕ) : slot < mosrtMaxProcs → (t.entries slot).used = false →
      t'.nextPid = t.nextPid + 1 →
      (t'.pidToSlot = if t.nextPid ≤ mosrtMaxProcs then
        Function.update t.pidToSlot (t.nextPid - 1).toNat (some slot) else t.pidToSlot) →
      (t'.entries slot).used = true → (t'.entries slot).pid = t.nextPid →
      SameElsewhere t t' slot → TableStep t op t' [t.nextPid]
  | destroys (pid exitCode : ℤ) (slot : ℕ) : op = .destroy pid exitCode →
      findSlotByPid t pid = some slot → t'.nextPid = t.nextPid →
      t'.pidToSlot = Function.update t.pidToSlot (pid - 1).toNat none →
      (t'.entries slot).used = false → SameElsewhere t t' slot → TableStep t op t' []

/-- Writes that leave `used` and `pid` alone. -/
theorem TableStep.modify (hf : KeepsId f) (pid : ℤ) : TableStep t op (t.modify pid f) [] := by
  rw [ProcTable.modify]
  cases hslot : findSlotByPid t pid with
  | none => exact .keeps rfl rfl fun _ => ⟨rfl, rfl⟩
  | some slot =>
    refine .keeps rfl rfl fun i => ?_
    by_cases hi : i = slot
    · subst hi
      simp only [Function.update_self]
      exact hf _
    · simp only [Function.update_of_ne hi, and_self]

theorem ProcOp.step (t : ProcTable) (op : ProcOp) : TableStep t op (op.exec t) (op.created t) := by
  have hsame : TableStep t op t [] := .keeps rfl rfl fun _ => ⟨rfl, rfl⟩
  cases op with
  | create ppid priority nowTick =>
    rw [ProcOp.exec, ProcOp.created, procCreate]
    cases hfree : findFreeSlot t with
    | none => exact hsame
    | some slot =>
      have hlt := List.mem_range.mp (List.mem_of_find?_eq_some hfree)
      have hunused : (t.entries slot).used = false := by simpa using List.find?_some hfree
      refine .creates slot hlt hunused rfl rfl ?_ ?_ fun i hi => ?_
      · show (Function.update t.entries slot _ slot).used = true
        rw [Function.update_self]
        rfl
      · show (Function.update t.entries slot _ slot).pid = t.nextPid
        rw [Function.update_self]
        rfl
      · show (Function.update t.entries slot _ i).used = _ ∧
            (Function.update t.entries slot _ i).pid = _
        rw [Function.update_of_ne hi]
        exact ⟨rfl, rfl⟩
  | setState pid newState nowTick =>
    rw [ProcOp.exec]
    cases hset : procSetState t pid newState nowTick with
    | none => exact hsame
    | some t' =>
      obtain ⟨-, rfl⟩ := procSetState_eq_some.mp hset
      exact .modify (keepsId_setState newState nowTick) pid
  | markExited pid exitCode nowTick =>
    rw [ProcOp.exec]
    cases hmark : procMarkExited t pid exitCode nowTick with
    | none => exact hsame
    | some t' =>
      obtain ⟨-, rfl⟩ := procMarkExited_eq_some.mp hmark
      exact .modify (keepsId_markExited exitCode nowTick) pid
  | destroy pid exitCode =>
    rw [ProcOp.exec, procDestroy, procGet]
    cases hslot : findSlotByPid t pid with
    | none => exact hsame
    | some slot =>
      have hrange := (findSlotByPid_eq_some.mp hslot).1
      rw [Option.map_some, ProcTable.modify, hslot]
      refine .destroys pid exitCode slot rfl hslot rfl (if_pos ⟨hrange.1, hrange.2.2⟩) ?_
        fun i hi => ?_
      · show (Function.update t.entries slot _ slot).used = false
        rw [Function.update_self]
      · show (Function.update t.entries slot _ i).used = _ ∧
            (Function.update t.entries slot _ i).pid = _
        rw [Function.update_of_ne hi]
        exact ⟨rfl, rfl⟩

/-! ### The table and its index -/

/-- After `n` creations: pids go up to `n`, and the index finds those it has room for. -/
structure Indexed (t : ProcTable) (n : ℕ) : Prop where
  next : t.nextPid = n + 1
  range : ∀ i < mosrtMaxProcs, (t.entries i).used = true →
    1 ≤ (t.entries i).pid ∧ (t.entries i).pid ≤ n
  index : ∀ i < mosrtMaxProcs, (t.entries i).used = true → (t.entries i).pid ≤ mosrtMaxProcs →
    t.pidToSlot ((t.entries i).pid - 1).toNat = some i

theorem indexed_init : Indexed procTableInit 0 :=
  ⟨rfl, fun _ _ hused => (nomatch hused), fun _ _ hused => (nomatch hused)⟩

theorem Indexed.find (h : Indexed t n) (hi : i < mosrtMaxProcs) (hused : (t.entries i).used = true)
    (hpid : (t.entries i).pid = pid) (hle : pid ≤ mosrtMaxProcs) :
    findSlotByPid t pid = some i := by
  obtain ⟨hpos, hlast⟩ := h.range i hi hused
  have hnext := h.next
  have hindex := h.index i hi hused (hpid ▸ hle)
  rw [hpid] at hpos hlast hindex
  exact findSlotByPid_eq_some.mpr ⟨⟨hpos, by omega, hle⟩, hindex, hi, hused, hpid⟩

theorem Indexed.step {t' : ProcTable} {created : List ℤ} (h : Indexed t n)
    (hs : TableStep t op t' created) : Indexed t' (n + created.length) := by
  have hnext := h.next
  cases hs with
  | keeps hn hindex hsame =>
    refine ⟨hn.trans h.next, fun i hi hused => ?_, fun i hi hused hle => ?_⟩
    · rw [(hsame i).1] at hused
      rw [(hsame i).2]
      exact h.range i hi hused
    · rw [(hsame i).1] at hused
      rw [(hsame i).2] at hle ⊢
      rw [hindex]
      exact h.index i hi hused hle
  | creates slot hslot hunused hn hindex hused' hpid' hsame =>
    refine ⟨by rw [hn, hnext]; rfl, fun i hi hused => ?_, fun i hi hused hle => ?_⟩
    · by_cases his : i = slot
      · rw [his, hpid', hnext]
        exact ⟨by omega, le_rfl⟩
      · rw [(hsame i his).1] at hused
        rw [(hsame i his).2]
        have hr := h.range i hi hused
        exact ⟨hr.1, hr.2.trans (by simp)⟩
    · by_cases his : i = slot
      · rw [his, hpid'] at hle ⊢
        rw [hindex, if_pos hle, Function.update_self]
      · rw [(hsame i his).1] at hused
        rw [(hsame i his).2] at hle ⊢
        -- an older pid has another place in the index
        have hr := h.range i hi hused
        have hold := h.index i hi hused hle
        rw [hindex]
        split_ifs
        · rw [Function.update_of_ne (by omega)]
          exact hold
        · exact hold
  | destroys pid exitCode slot hop hslot hn hindex hgone hsame =>
    obtain ⟨hrange, hat, -, -, hpid⟩ := findSlotByPid_eq_some.mp hslot
    have hother : ∀ i, (t'.entries i).used = true → i ≠ slot := by
      rintro i hused rfl
      rw [hgone] at hused
      cases hused
    refine ⟨hn.trans h.next, fun i hi hused => ?_, fun i hi hused hle => ?_⟩
    · have his := hother i hused
      rw [(hsame i his).1] at hused
      rw [(hsame i his).2]
      exact h.range i hi hused
    · have his := hother i hused
      rw [(hsame i his).1] at hused
      rw [(hsame i his).2] at hle ⊢
      have hr := h.range i hi hused
      have hold := h.index i hi hused hle
      -- two slots do not hold one pid
      have hne : ((t.entries i).pid - 1).toNat ≠ (pid - 1).toNat := by
        intro heq
        have hsamepid : (t.entries i).pid = pid := by omega
        rw [hsamepid, hat] at hold
        exact his (Option.some.inj hold).symm
      rw [hindex, Function.update_of_ne hne]
      exact hold

/-- An entry in use keeps its process unless that is destroyed. -/
theorem TableStep.keeps_entry {t' : ProcTable} {created : List ℤ} (hs : TableStep t op t' created)
    (hused : (t.entries i).used = true)
    (hother : ∀ pid code slot, op = .destroy pid code →
      findSlotByPid t pid = some slot → i ≠ slot) :
    (t'.entries i).used = true ∧ (t'.entries i).pid = (t.entries i).pid := by
  rw [← hused]
  cases hs with
  | keeps hn hindex hsame => exact hsame i
  | creates slot hslot hunused hn hindex hused' hpid' hsame =>
    refine hsame i ?_
    rintro rfl
    rw [hunused] at hused
    cases hused
  | destroys pid exitCode slot hop hslot hn hindex hgone hsame =>
    exact hsame i (hother pid exitCode slot hop hslot)

/-! ### Processes out of reach -/

/-- A process whose pid the index has no room for. -/
def Stray (t : ProcTable) : Prop :=
  ∃ i < mosrtMaxProcs, (t.entries i).used = true ∧ mosrtMaxProcs < (t.entries i).pid

theorem Stray.step {t' : ProcTable} {created : List ℤ} (h : Stray t)
    (hs : TableStep t op t' created) : Stray t' := by
  obtain ⟨i, hi, hused, hlarge⟩ := h
  obtain ⟨hused', hpid'⟩ : (t'.entries i).used = true ∧ (t'.entries i).pid = (t.entries i).pid := by
    refine hs.keeps_entry hused fun pid code slot hop hslot => ?_
    -- a process beyond the index is not found, so it is not the one that is destroyed
    obtain ⟨hrange, -, -, -, hpid⟩ := findSlotByPid_eq_some.mp hslot
    rintro rfl
    omega
  exact ⟨i, hi, hused', hpid'.symm ▸ hlarge⟩

/-- The first creation beyond the index leaves such a process. -/
theorem Indexed.stray {t' : ProcTable} {created : List ℤ} (h : Indexed t n)
    (hs : TableStep t op t' created) (hle : n ≤ mosrtMaxProcs)
    (hlt : mosrtMaxProcs < n + created.length) : Stray t' := by
  have hnext := h.next
  cases hs with
  | creates slot hslot hunused hn hindex hused' hpid' hsame =>
    refine ⟨slot, hslot, hused', ?_⟩
    rw [List.length_singleton] at hlt
    rw [hpid', hnext]
    omega
  | keeps | destroys => exact absurd hlt (by simpa using hle)

/-! ### Histories -/

/-- The pids of `n` processes, in the order of their creation. -/
def firstPids (n : ℕ) : List ℤ := (List.range n).map fun i : ℕ => (i : ℤ) + 1

/-- After any history: the pids given so far are the first ones, and a pid beyond the index leaves
a stray process behind. -/
theorem run_indexed (ops : List ProcOp) :
    let created := Runs.history ProcOp.exec ProcOp.created procTableInit ops
    let t := Runs.run ProcOp.exec procTableInit ops
    Indexed t created.length ∧ created = firstPids created.length ∧
      (mosrtMaxProcs < created.length → Stray t) := by
  have hall : Runs.Along ProcOp.exec (fun _ _ => True) procTableInit ops := Runs.along_true _ ops
  refine Runs.run_history (h := [])
    (I := fun (t : ProcTable) (created : List ℤ) => Indexed t created.length ∧
      created = firstPids created.length ∧
      (mosrtMaxProcs < created.length → Stray t))
    (fun t created op h _ => ?_) ⟨indexed_init, rfl, fun hlt => absurd hlt (by simp)⟩ hall
  obtain ⟨hindexed, hpids, hstray⟩ := h
  have hs := op.step t
  refine ⟨?_, ?_, fun hlt => ?_⟩
  · rw [List.length_append]
    exact hindexed.step hs
  · have hnext := hindexed.next
    generalize op.exec t = t' at hs
    generalize op.created t = new at hs
    cases hs with
    | keeps | destroys => simpa using hpids
    | creates =>
      rw [List.length_append, List.length_singleton, firstPids, List.range_succ, List.map_append,
        ← firstPids, ← hpids, hnext]
      rfl
  · by_cases hmany : mosrtMaxProcs < created.length
    · exact (hstray hmany).step hs
    · rw [List.length_append] at hlt
      exact hindexed.stray hs (not_lt.mp hmany) hlt

theorem nodup_firstPids (n : ℕ) : (firstPids n).Nodup :=
  List.nodup_range.map fun i j heq => by
    have : (i : ℤ) + 1 = j + 1 := heq
    omega

theorem Indexed.scan (h : Indexed t n) (hn : n ≤ mosrtMaxProcs) (pid : ℤ) :
    (findSlotByPid t pid).toList = slotsOf t pid := by
  have hfind : ∀ i ∈ slotsOf t pid, findSlotByPid t pid = some i := by
    intro i hi
    obtain ⟨hlt, hused, hpid⟩ := mem_slotsOf.mp hi
    have hr := h.range i hlt hused
    exact h.find hlt hused hpid (by omega)
  cases hslot : findSlotByPid t pid with
  | none =>
    refine (List.eq_nil_iff_forall_not_mem.mpr fun i hi => ?_).symm
    rw [hfind i hi] at hslot
    cases hslot
  | some slot =>
    obtain ⟨-, -, hlt, hused, hpid⟩ := findSlotByPid_eq_some.mp hslot
    have hnodup : (slotsOf t pid).Nodup := List.nodup_range.filter _
    have hperm : (slotsOf t pid).Perm [slot] := by
      refine (List.perm_ext_iff_of_nodup hnodup (List.nodup_singleton slot)).mpr fun i => ?_
      rw [List.mem_singleton]
      constructor
      · intro hi
        exact Option.some.inj ((hfind i hi).symm.trans hslot)
      · rintro rfl
        exact mem_slotsOf.mpr ⟨hlt, hused, hpid⟩
    exact (List.perm_singleton.mp hperm).symm

/-- A process in the table stays there until it is destroyed. -/
def Present (t : ProcTable) (pid : ℤ) : Prop :=
  ∃ i < mosrtMaxProcs, (t.entries i).used = true ∧ (t.entries i).pid = pid

theorem Present.step {t' : ProcTable} {created : List ℤ} (h : Present t pid)
    (hs : TableStep t op t' created) (hop : ∀ code, op ≠ .destroy pid code) : Present t' pid := by
  obtain ⟨i, hi, hused, hpid⟩ := h
  obtain ⟨hused', hpid'⟩ : (t'.entries i).used = true ∧ (t'.entries i).pid = (t.entries i).pid := by
    refine hs.keeps_entry hused fun q code slot hdestroy hslot => ?_
    rintro rfl
    have hq := (findSlotByPid_eq_some.mp hslot).2.2.2.2
    rw [hpid] at hq
    exact hop code (hq ▸ hdestroy)
  exact ⟨i, hi, hused', hpid'.trans hpid⟩

theorem present_of_created {t' : ProcTable} {created : List ℤ} (hs : TableStep t op t' created)
    (hpid : pid ∈ created) : Present t' pid := by
  cases hs with
  | keeps | destroys => cases hpid
  | creates slot hslot hunused hn hindex hused' hpid' hsame =>
    rw [List.mem_singleton.mp hpid]
    exact ⟨slot, hslot, hused', hpid'⟩

/-- What a client of the process table may expect after a history of calls. -/
structure LookupAgrees (ops : List ProcOp) : Prop where
  /-- The entry that `proc_get` returns is the only one in use with this pid, and there is none
  when it returns `NULL`. -/
  scan : ∀ pid, (findSlotByPid (Runs.run ProcOp.exec procTableInit ops) pid).toList =
    slotsOf (Runs.run ProcOp.exec procTableInit ops) pid
  /-- A process that was created is found until it is destroyed. -/
  found : ∀ before op after pid, ops = before ++ op :: after →
    pid ∈ op.created (Runs.run ProcOp.exec procTableInit before) →
    (∀ exitCode, .destroy pid exitCode ∉ after) →
      (procGet (Runs.run ProcOp.exec procTableInit ops) pid).isSome = true
  /-- No pid is given twice. -/
  fresh : (Runs.history ProcOp.exec ProcOp.created procTableInit ops).Nodup

theorem Stray.not_agrees (h : Stray (Runs.run ProcOp.exec procTableInit ops)) :
    ¬ LookupAgrees ops := by
  obtain ⟨i, hi, hused, hlarge⟩ := h
  intro hagrees
  have hscan := hagrees.scan ((Runs.run ProcOp.exec procTableInit ops).entries i).pid
  have hmem := mem_slotsOf.mpr ⟨hi, hused, rfl⟩
  rw [← hscan] at hmem
  have hrange := (findSlotByPid_eq_some.mp (Option.mem_toList.mp hmem)).1
  omega

/-- **Lookup by pid.**  After any history of calls, lookups agree with a scan of the table,
processes are found from their creation to their destruction and no pid is given twice, exactly if
at most `MOSRT_MAX_PROCS` processes were ever created. -/
theorem lookup_agrees (ops : List ProcOp) :
    LookupAgrees ops ↔
      (Runs.history ProcOp.exec ProcOp.created procTableInit ops).length ≤ mosrtMaxProcs := by
  obtain ⟨hindexed, hpids, hstray⟩ := run_indexed ops
  constructor
  · intro hagrees
    by_contra hmany
    exact (hstray (not_le.mp hmany)).not_agrees hagrees
  · intro hfew
    refine ⟨hindexed.scan hfew, ?_, by rw [hpids]; exact nodup_firstPids _⟩
    rintro before op after pid rfl hpid hafter
    -- present after its creation, and from then on
    have hspared : Runs.Along ProcOp.exec (fun _ op => ∀ code, op ≠ .destroy pid code)
        (op.exec (Runs.run ProcOp.exec procTableInit before)) after :=
      Runs.along_of_forall (fun op hmem code heq => hafter code (by rw [← heq]; exact hmem)) _
    have hpresent := Runs.run_invariant (I := fun t => Present t pid)
      (fun t op h hop => h.step (op.step t) hop) (present_of_created (op.step _) hpid) hspared
    have hrun : Runs.run ProcOp.exec procTableInit (before ++ op :: after) = Runs.run ProcOp.exec
      (op.exec (Runs.run ProcOp.exec procTableInit before)) after := Runs.run_append
    rw [← hrun] at hpresent
    obtain ⟨i, hi, hused, heq⟩ := hpresent
    have hr := hindexed.range i hi hused
    rw [procGet, hindexed.find hi hused heq (by omega)]
    rfl

/-- Processes are created and destroyed, one after the other. -/
def churn (n : ℕ) : List ProcOp :=
  (List.range n).flatMap fun i : ℕ => [.create 0 20 0, .destroy (i + 1) 0]

theorem findFreeSlot_empty (h : ∀ i, (t.entries i).used = false) : findFreeSlot t = some 0 := by
  rw [findFreeSlot, List.find?_range_eq_some]
  refine ⟨?_, List.mem_range.mpr (by decide), fun j hj => absurd hj (Nat.not_lt_zero j)⟩
  rw [h 0]
  rfl

/-- One process comes and goes. -/
theorem churn_step (hfree : ∀ i, (t.entries i).used = false) (hnext : t.nextPid = n + 1)
    (hn : n < mosrtMaxProcs) :
    (∀ i, ((Runs.run ProcOp.exec t [.create 0 20 0, .destroy (n + 1) 0]).entries i).used = false) ∧
      (Runs.run ProcOp.exec t [.create 0 20 0, .destroy (n + 1) 0]).nextPid = (n + 1 : ℕ) + 1 := by
  obtain ⟨t₁, ht₁⟩ : ∃ t₁, ProcOp.exec t (.create 0 20 0) = t₁ := ⟨_, rfl⟩
  have hcreate : t₁.entries = Function.update t.entries 0 (newPcb (n + 1) 0 20 0) ∧
      t₁.nextPid = (n + 1 : ℕ) + 1 ∧ t₁.pidToSlot n = some 0 := by
    rw [← ht₁, ProcOp.exec, procCreate, findFreeSlot_empty hfree, Option.map_some, Option.elim_some,
      hnext]
    refine ⟨rfl, by push_cast; rfl, ?_⟩
    dsimp only
    rw [if_pos (by omega), show ((n : ℤ) + 1 - 1).toNat = n by omega, Function.update_self]
  obtain ⟨hentries, hnext₁, hindex⟩ := hcreate
  have hat : t₁.entries 0 = newPcb (n + 1) 0 20 0 := by rw [hentries, Function.update_self]
  have hfind : findSlotByPid t₁ (n + 1) = some 0 := by
    refine findSlotByPid_eq_some.mpr ⟨⟨by omega, by omega, by omega⟩, ?_, by decide, ?_, ?_⟩
    · rw [show ((n : ℤ) + 1 - 1).toNat = n by omega, hindex]
    · rw [hat]
      rfl
    · rw [hat]
      rfl
  rw [Runs.run_cons, ht₁, Runs.run_cons, Runs.run_nil, ProcOp.exec, procDestroy, procGet, hfind,
    Option.map_some, ProcTable.modify, hfind]
  refine ⟨fun i => ?_, hnext₁⟩
  show (Function.update t₁.entries 0 _ i).used = false
  by_cases hi : i = 0
  · rw [hi, Function.update_self]
  · rw [Function.update_of_ne hi, hentries, Function.update_of_ne hi]
    exact hfree i

theorem churn_run (hn : n ≤ mosrtMaxProcs) :
    (∀ i, ((Runs.run ProcOp.exec procTableInit (churn n)).entries i).used = false) ∧
      (Runs.run ProcOp.exec procTableInit (churn n)).nextPid = n + 1 := by
  induction n with
  | zero => exact ⟨fun _ => rfl, rfl⟩
  | succ n ih =>
    obtain ⟨hfree, hnext⟩ := ih (by omega)
    have hrun : Runs.run ProcOp.exec procTableInit (churn (n + 1)) =
        Runs.run ProcOp.exec (Runs.run ProcOp.exec procTableInit (churn n))
          [.create 0 20 0, .destroy (n + 1) 0] := by
      rw [churn, List.range_succ, List.flatMap_append, Runs.run_append, ← churn]
      rfl
    rw [hrun]
    exact churn_step hfree hnext (by omega)

/-- The process created after 1024 others have come and gone is not found. -/
theorem lookup_misses :
    let t := Runs.run ProcOp.exec procTableInit (churn 1024)
    ProcOp.created t (.create 0 20 0) = [1025] ∧
      procGet (ProcOp.exec t (.create 0 20 0)) 1025 = none := by
  obtain ⟨hfree, hnext⟩ := churn_run (n := 1024) le_rfl
  generalize Runs.run ProcOp.exec procTableInit (churn 1024) = t at hfree hnext
  refine ⟨?_, ?_⟩
  · rw [ProcOp.created, procCreate, findFreeSlot_empty hfree, Option.map_some,
      Option.map_some, hnext]
    rfl
  · rw [procGet, findSlotByPid, if_neg (fun h => absurd h.2.2 (by decide)), Option.map_none]

end Mosrt
