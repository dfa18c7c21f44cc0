/-
Hand-offs of tokens and mutexes.

A release that wakes a waiter `w` should let `w` through when it repeats its
call.  A semaphore keeps the token for `w` in the list of grants, if there is
room; a mutex makes `w` its owner, and the repeated call of an owner is refused.

* `Sem.Ok` — the invariant of every object: waiters are distinct, not granted
  already, and find no token left;
* `Granted` — a grant survives every call of other processes;
* `handoff_iff` — a hand-off succeeds, whatever others do meanwhile, just when
  the object is a semaphore with room for a grant;
* `mutex_handoff_fails` — a mutex passed on, and its new owner turned away.
-/
import Mosrt.Sync

namespace Mosrt

variable {s : Sem} {t t' : SemTable} {id pid w : ℤ} {i : ℕ}

/-! ### The invariant of an object -/

structure Sem.Ok (s : Sem) : Prop where
  nodup : s.waiters.Nodup
  not_granted : ∀ p ∈ s.waiters, p ∉ s.grants
  positive : ∀ p ∈ s.waiters, 0 < p
  no_token : s.waiters ≠ [] → s.count ≤ 0

/-- An object nobody waits for. -/
theorem Sem.Ok.of_nil (h : s.waiters = []) : s.Ok := by
  constructor
  · rw [h]
    exact List.nodup_nil
  · intro p hp
    rw [h] at hp
    cases hp
  · intro p hp
    rw [h] at hp
    cases hp
  · exact fun hne => absurd h hne

/-- Somebody new waits. -/
theorem Sem.Ok.enter (h : s.Ok) (hp : 0 < pid) (hg : pid ∉ s.grants) (hc : s.count ≤ 0)
    (hmem : pid ∉ s.waiters) : ({ s with waiters := s.waiters ++ [pid] } : Sem).Ok := by
  have hcases : ∀ p ∈ s.waiters ++ [pid], p ∈ s.waiters ∨ p = pid := by
    intro p hpm
    rcases List.mem_append.mp hpm with hpm | hpm
    · exact .inl hpm
    · exact .inr (List.mem_singleton.mp hpm)
  refine ⟨?_, fun p hpm => ?_, fun p hpm => ?_, fun _ => hc⟩
  · refine List.nodup_append.mpr ⟨h.nodup, List.nodup_singleton pid, fun a ha b hb heq => ?_⟩
    rw [heq, List.mem_singleton.mp hb] at ha
    exact hmem ha
  · rcases hcases p hpm with hpm | rfl
    · exact h.not_granted p hpm
    · exact hg
  · rcases hcases p hpm with hpm | rfl
    · exact h.positive p hpm
    · exact hp

theorem semWait_ok (h : s.Ok) (hp : 0 < pid) : (semWait s pid).2.Ok := by
  have hcase := semWait_case s pid
  generalize semWait s pid = r at hcase ⊢
  cases hcase with
  | granted _ =>
    exact ⟨h.nodup, fun p hp hmem => h.not_granted p hp (List.mem_of_mem_erase hmem), h.positive,
      h.no_token⟩
  | owner | waiting | full => exact h
  | entered hg _ hc hmem _ => exact h.enter hp hg hc hmem
  | taken _ _ hc =>
    -- a token is left, so nobody waits
    refine Sem.Ok.of_nil ?_
    by_contra hne
    have := h.no_token hne
    omega

/-- Granting somebody who no longer waits. -/
theorem Sem.Ok.addGrant (h : s.Ok) (hw : w ∉ s.waiters) : (Mosrt.addGrant s w).Ok := by
  rw [Mosrt.addGrant]
  split_ifs
  · exact h
  · refine ⟨h.nodup, ?_, h.positive, h.no_token⟩
    intro p hp hmem
    rcases List.mem_append.mp hmem with hmem | hmem
    · exact h.not_granted p hp hmem
    · rw [List.mem_singleton] at hmem
      exact hw (hmem ▸ hp)
  · exact h

/-- The first waiter is taken out. -/
theorem Sem.Ok.pop {rest : List ℤ} (h : s.Ok) (hws : s.waiters = w :: rest) :
    ({ s with waiters := rest } : Sem).Ok ∧ w ∉ rest := by
  have hnodup := h.nodup
  rw [hws] at hnodup
  obtain ⟨hw, hrest⟩ := List.nodup_cons.mp hnodup
  have hmem : ∀ p ∈ rest, p ∈ s.waiters := by
    intro p hp
    rw [hws]
    exact List.mem_cons_of_mem _ hp
  refine ⟨⟨hrest, fun p hp => h.not_granted p (hmem p hp), fun p hp => h.positive p (hmem p hp),
    fun _ => h.no_token ?_⟩, hw⟩
  rw [hws]
  exact List.cons_ne_nil _ _

/-- Pids are positive, so a release that wakes nobody found nobody. -/
theorem Sem.Ok.nil_of_head (h : s.Ok) (hhead : s.waiters.headD (-1) < 0) : s.waiters = [] := by
  cases hws : s.waiters with
  | nil => rfl
  | cons w rest =>
    have hpos := h.positive w (by rw [hws]; exact List.mem_cons_self)
    rw [hws] at hhead
    exact absurd hhead (not_lt.mpr hpos.le)

theorem semPost_ok (h : s.Ok) : (semPost s pid).2.2.Ok := by
  have hcase := semPost_case s pid
  generalize semPost s pid = r at hcase ⊢
  cases hcase with
  | refused => exact h
  | handedOver w rest _ _ hws _ =>
    obtain ⟨hrest, -⟩ := h.pop hws
    exact ⟨hrest.nodup, hrest.not_granted, hrest.positive, fun _ => le_refl 0⟩
  | granted w rest _ hws _ =>
    obtain ⟨hrest, hw⟩ := h.pop hws
    exact hrest.addGrant hw
  | unlocked _ _ hhead | posted _ hhead =>
    have hnil := h.nil_of_head hhead
    refine Sem.Ok.of_nil ?_
    show s.waiters.tail = []
    rw [hnil, List.tail_nil]

/-! ### Calls -/

/-- The calls of `sync.c`. -/
inductive SyncOp where
  | createSem (id initial : ℤ)
  | createMutex (id : ℤ)
  | wait (id pid : ℤ)
  | lock (id pid : ℤ)
  | post (id pid : ℤ)
  | unlock (id pid : ℤ)

/-- The result of a call, the pid it reports as woken (`-1` for none) and the table after. -/
def SyncOp.call (t : SemTable) : SyncOp → SyncResult × ℤ × SemTable
  | .createSem id initial =>
    let r := syncCreateSem t id initial
    (if r.1 then .ok else .error, -1, r.2)
  | .createMutex id =>
    let r := syncCreateMutex t id
    (if r.1 then .ok else .error, -1, r.2)
  | .wait id pid => ((syncWait t id pid).1, -1, (syncWait t id pid).2)
  | .lock id pid => ((syncMutexLock t id pid).1, -1, (syncMutexLock t id pid).2)
  | .post id pid => syncPost t id pid
  | .unlock id pid => syncMutexUnlock t id pid

def SyncOp.exec (t : SemTable) (op : SyncOp) : SemTable := (op.call t).2.2

/-- The process that makes the call; creation is done by the runtime. -/
def SyncOp.caller : SyncOp → Option ℤ
  | .createSem _ _ | .createMutex _ => none
  | .wait _ pid | .lock _ pid | .post _ pid | .unlock _ pid => some pid

theorem SyncOp.frame (op : SyncOp) (h : op.caller = some pid) : CallFrame t (op.exec t) pid := by
  cases op with
  | createSem | createMutex => cases h
  | wait id p =>
    obtain rfl := Option.some_inj.mp h
    exact syncWait_frame t id p
  | lock id p =>
    obtain rfl := Option.some_inj.mp h
    exact syncMutexLock_frame t id p
  | post id p =>
    obtain rfl := Option.some_inj.mp h
    exact syncPost_frame t id p
  | unlock id p =>
    obtain rfl := Option.some_inj.mp h
    exact syncPost_frame t id p

/-- Pids are positive, as the process table hands them out. -/
def SyncOp.Valid (op : SyncOp) : Prop := ∀ p, op.caller = some p → 0 < p

instance (op : SyncOp) : Decidable op.Valid :=
  match h : op.caller with
  | none => isTrue fun p hp => by rw [h] at hp; cases hp
  | some p =>
    if hp : 0 < p then isTrue fun q hq => by
      rw [h, Option.some_inj] at hq
      exact hq ▸ hp
    else isFalse fun hv => hp (hv p h)

/-! What is true of every object stays true if new objects have it and calls keep it. -/

section Entries

variable {P : Sem → Prop}

theorem update_entries (h : ∀ i, P (t i)) (hs : P s) (j i : ℕ) : P (Function.update t j s i) := by
  rw [Function.update_apply]
  split_ifs
  · exact hs
  · exact h i

theorem createCommon_entries (h : ∀ i, P (t i)) {initial : ℤ} {mutex : Bool}
    (hnew : P (newSem id initial mutex)) (i : ℕ) : P ((createCommon t id initial mutex).2 i) := by
  rw [createCommon]
  split
  · exact h i
  · exact update_entries h hnew _ i

theorem syncWait_entries (h : ∀ i, P (t i)) (hnew : P (newSem id 1 false))
    (hwait : ∀ s, P s → P (semWait s pid).2) (i : ℕ) : P ((syncWait t id pid).2 i) := by
  rw [syncWait]
  cases findSem t id with
  | some j => exact update_entries h (hwait _ (h j)) j i
  | none =>
    dsimp only
    have hcreate := createCommon_entries h hnew
    rw [syncCreateSem]
    obtain ⟨ok, u, hu⟩ : ∃ ok u, createCommon t id 1 false = (ok, u) := ⟨_, _, rfl⟩
    rw [hu] at hcreate ⊢
    cases ok with
    | false => exact hcreate i
    | true =>
      dsimp only
      cases findSem u id with
      | none => exact hcreate i
      | some j => exact update_entries hcreate (hwait _ (hcreate j)) j i

theorem syncMutexLock_entries (h : ∀ i, P (t i)) (hsem : P (newSem id 1 false))
    (hmutex : P (newSem id 1 true)) (hwait : ∀ s, P s → P (semWait s pid).2) (i : ℕ) :
    P ((syncMutexLock t id pid).2 i) := by
  have hensure : ∀ i, P ((ensureCommon t id 1 true).2 i) := by
    intro i
    rw [ensureCommon]
    cases findSem t id with
    | some j => exact h i
    | none => exact createCommon_entries h hmutex i
  rw [syncMutexLock]
  obtain ⟨ok, u, hu⟩ : ∃ ok u, ensureCommon t id 1 true = (ok, u) := ⟨_, _, rfl⟩
  rw [hu] at hensure ⊢
  cases ok with
  | false => exact hensure i
  | true => exact syncWait_entries hensure hsem hwait i

theorem SyncOp.exec_entries (op : SyncOp) (hsem : ∀ id n, P (newSem id n false))
    (hmutex : ∀ id, P (newSem id 1 true))
    (hwait : ∀ pid s, op.caller = some pid → P s → P (semWait s pid).2)
    (hpost : ∀ pid s, op.caller = some pid → P s → P (semPost s pid).2.2)
    (h : ∀ i, P (t i)) (i : ℕ) : P (op.exec t i) := by
  have hrelease : ∀ id pid, op.caller = some pid → P ((syncPost t id pid).2.2 i) := by
    intro id pid hc
    rw [syncPost]
    cases findSem t id with
    | none => exact h i
    | some j => exact update_entries h (hpost pid _ hc (h j)) j i
  cases op with
  | createSem id n => exact createCommon_entries h (hsem id n) i
  | createMutex id => exact createCommon_entries h (hmutex id) i
  | wait id pid => exact syncWait_entries h (hsem id 1) (hwait pid · rfl) i
  | lock id pid => exact syncMutexLock_entries h (hsem id 1) (hmutex id) (hwait pid · rfl) i
  | post id pid => exact hrelease id pid rfl
  | unlock id pid => exact hrelease id pid rfl

end Entries

theorem SyncOp.exec_ok (op : SyncOp) (hv : op.Valid) (h : ∀ i, (t i).Ok) (i : ℕ) :
    (op.exec t i).Ok :=
  op.exec_entries (fun _ _ => Sem.Ok.of_nil rfl) (fun _ => Sem.Ok.of_nil rfl)
    (fun pid _ hc hs => semWait_ok hs (hv pid hc)) (fun _ _ _ hs => semPost_ok hs) h i

theorem SyncOp.run_ok {ops : List SyncOp} (hv : ∀ op ∈ ops, op.Valid) (i : ℕ) :
    (Runs.run SyncOp.exec syncInit ops i).Ok :=
  Runs.run_invariant (I := fun t : SemTable => ∀ i, (t i).Ok)
    (fun _ op h hv => op.exec_ok hv h) (fun _ => Sem.Ok.of_nil rfl)
    (Runs.along_of_forall hv syncInit) i

/-! ### Grants -/

theorem semWait_grants (hne : pid ≠ w) (hw : w ∈ s.grants) : w ∈ (semWait s pid).2.grants := by
  have hcase := semWait_case s pid
  generalize semWait s pid = r at hcase ⊢
  cases hcase with
  | granted _ => exact (List.mem_erase_of_ne hne.symm).mpr hw
  | owner | waiting | entered | full | taken => exact hw

theorem addGrant_grants (p : ℤ) (hw : w ∈ s.grants) : w ∈ (Mosrt.addGrant s p).grants := by
  rw [Mosrt.addGrant]
  split_ifs
  · exact hw
  · exact List.mem_append_left _ hw
  · exact hw

theorem semPost_grants (hw : w ∈ s.grants) : w ∈ (semPost s pid).2.2.grants := by
  have hcase := semPost_case s pid
  generalize semPost s pid = r at hcase ⊢
  cases hcase with
  | granted w' rest => exact addGrant_grants w' hw
  | refused | handedOver | unlocked | posted => exact hw

/-- A call of another process leaves the grant of `w` and the kind of the object alone. -/
theorem Evolved.grants {u : Sem} (h : Evolved s pid u) (hused : s.used = true) (hne : pid ≠ w)
    (hw : w ∈ s.grants) : w ∈ u.grants ∧ u.mutex = s.mutex := by
  cases h with
  | same => exact ⟨hw, rfl⟩
  | waited => exact ⟨semWait_grants hne hw, semWait_name.2.2⟩
  | posted => exact ⟨semPost_grants hw, (semPost_name _ _).2.2⟩
  | created _ _ _ hfree =>
    rw [hused] at hfree
    cases hfree
  | entered _ _ _ hfree =>
    rw [hused] at hfree
    cases hfree

/-- Semaphore `id` holds a token for `w`. -/
def Granted (t : SemTable) (id w : ℤ) : Prop :=
  ∃ i, findSem t id = some i ∧ (t i).mutex = false ∧ w ∈ (t i).grants

theorem Granted.frame (h : Granted t id w) (hf : CallFrame t t' pid) (hne : pid ≠ w) :
    Granted t' id w := by
  obtain ⟨i, hfind, hmutex, hw⟩ := h
  obtain ⟨hw', hmutex'⟩ := (hf.entry i).grants (findSem_some hfind).2.1 hne hw
  exact ⟨i, hf.found hfind, hmutex'.trans hmutex, hw'⟩

/-- The grant of `w` survives whatever other processes do. -/
theorem Granted.run (h : Granted t id w) {between : List SyncOp}
    (hb : ∀ op ∈ between, ∃ p, op.caller = some p ∧ p ≠ w) :
    Granted (Runs.run SyncOp.exec t between) id w :=
  Runs.run_invariant (I := fun t : SemTable => Granted t id w)
    (fun _ op hg hp => by
      obtain ⟨p, hp, hne⟩ := hp
      exact hg.frame (op.frame hp) hne) h (Runs.along_of_forall hb t)

theorem Granted.wait (h : Granted t id w) : (syncWait t id w).1 = .ok := by
  obtain ⟨i, hfind, -, hw⟩ := h
  simp [syncWait, hfind, semWait, takeGrant, hw]

/-! ### The hand-off -/

/-- A release that wakes somebody: who it is, and what becomes of the object. -/
theorem semPost_woken (hok : (semPost s pid).1 = .ok) (hw : (semPost s pid).2.1 = w)
    (hne : w ≠ -1) :
    ∃ rest, s.waiters = w :: rest ∧
      (semPost s pid).2.2 =
        if s.mutex then { s with waiters := rest, ownerPid := w, count := 0 }
        else Mosrt.addGrant { s with waiters := rest } w := by
  have hcase := semPost_case s pid
  generalize semPost s pid = r at hcase hok hw ⊢
  cases hcase with
  | refused => cases hok
  | handedOver w' rest hm _ hws _ =>
    subst hw
    exact ⟨rest, hws, (if_pos hm).symm⟩
  | granted w' rest hm hws _ =>
    subst hw
    refine ⟨rest, hws, (if_neg ?_).symm⟩
    rw [hm]
    exact Bool.false_ne_true
  | unlocked | posted => exact absurd hw.symm hne

/-- The call that `w` was blocked in and repeats: `sync_mutex_lock` blocks on mutexes only. -/
def retries (t : SemTable) (id w : ℤ) : List SyncOp :=
  match findSem t id with
  | none => []
  | some i => if (t i).mutex then [.lock id w, .wait id w] else [.wait id w]

/-- The woken process is turned away at once unless it was granted a token. -/
theorem semWait_woken_ne_ok (h : s.Ok) {u : Sem} {rest : List ℤ} (hws : s.waiters = w :: rest)
    (hu : u = if s.mutex then { s with waiters := rest, ownerPid := w, count := 0 }
      else Mosrt.addGrant { s with waiters := rest } w)
    (hfull : s.mutex = false → mosrtSyncWaiters ≤ s.grants.length) : (semWait u w).1 ≠ .ok := by
  have hg : w ∉ s.grants := h.not_granted w (by rw [hws]; exact List.mem_cons_self)
  have hc : s.count ≤ 0 := h.no_token (by rw [hws]; exact List.cons_ne_nil _ _)
  cases hm : s.mutex with
  | true =>
    rw [hm, if_pos rfl] at hu
    simp [hu, semWait, takeGrant, hg]
  | false =>
    have hroom : ¬s.grants.length < mosrtSyncWaiters := Nat.not_lt.mpr (hfull hm)
    rw [hm, if_neg Bool.false_ne_true, Mosrt.addGrant, if_neg hg, if_neg hroom] at hu
    rw [hu, semWait, takeGrant, if_neg hg]
    dsimp only
    rw [if_neg (by simp), if_pos hc, Mosrt.addWaiter]
    split_ifs <;> simp

/-- **When a hand-off succeeds.**  After any calls, let a release report `w` as woken.  Whatever
calls other processes make next, the repeated call of `w` succeeds, just when the object is a
semaphore whose list of grants had room. -/
theorem handoff_iff (ops : List SyncOp) (hv : ∀ op ∈ ops, op.Valid) (release : SyncOp)
    (id q w : ℤ) (hrel : release = .post id q ∨ release = .unlock id q) :
    let t := Runs.run SyncOp.exec syncInit ops
    (release.call t).1 = .ok → (release.call t).2.1 = w → w ≠ -1 →
    ((∀ between : List SyncOp, (∀ op ∈ between, ∃ p, op.caller = some p ∧ p ≠ w) →
      ∀ again ∈ retries t id w,
        (again.call (Runs.run SyncOp.exec (release.exec t) between)).1 = .ok) ↔
    ∃ i, findSem t id = some i ∧ (t i).mutex = false ∧
      (t i).grants.length < mosrtSyncWaiters) := by
  intro t hok hwoken hw
  have hinv : ∀ i, (t i).Ok := SyncOp.run_ok hv
  have hpost : release.call t = syncPost t id q := by
    rcases hrel with rfl | rfl <;> rfl
  rw [hpost] at hok hwoken
  have hexec : release.exec t = (syncPost t id q).2.2 := by rw [SyncOp.exec, hpost]
  rw [hexec]
  cases hfind : findSem t id with
  | none =>
    rw [syncPost, hfind] at hok
    cases hok
  | some i =>
    rw [syncPost, hfind] at hok hwoken
    obtain ⟨rest, hws, hafter⟩ := semPost_woken hok hwoken hw
    have hwait : SyncOp.wait id w ∈ retries t id w := by
      rw [retries, hfind]
      dsimp only
      split_ifs <;> simp
    have hfound := (syncPost_frame t id q).found hfind
    have hentry : (syncPost t id q).2.2 i = (semPost (t i) q).2.2 := by
      rw [syncPost, hfind]
      exact Function.update_self _ _ _
    constructor
    · intro h
      -- already the call made at once, with nobody in between, decides
      have hnow := h [] (fun op hop => by cases hop) (.wait id w) hwait
      refine ⟨i, rfl, ?_⟩
      by_contra hcond
      refine semWait_woken_ne_ok (hinv i) hws hafter ?_ ?_
      · intro hm
        by_contra hlen
        exact hcond ⟨hm, by omega⟩
      · rw [Runs.run_nil, SyncOp.call, syncWait, hfound] at hnow
        dsimp only at hnow
        rw [hentry] at hnow
        exact hnow
    · rintro ⟨j, hj, hm, hlen⟩ between hb again hagain
      obtain rfl := Option.some_inj.mp hj
      have hgranted : Granted (syncPost t id q).2.2 id w := by
        refine ⟨i, hfound, ?_, ?_⟩
        · rw [hentry]
          exact (semPost_name _ _).2.2.trans hm
        · rw [hentry, hafter, hm, if_neg Bool.false_ne_true, Mosrt.addGrant]
          split_ifs with hmem
          · exact hmem
          · exact List.mem_append_right _ (List.mem_singleton.mpr rfl)
      rw [retries, hfind] at hagain
      dsimp only at hagain
      rw [hm, if_neg Bool.false_ne_true, List.mem_singleton] at hagain
      rw [hagain]
      exact (hgranted.run hb).wait

/-- A semaphore without tokens: `5` waits, `6` posts, and the hand-off to `5` succeeds. -/
theorem handoff_iff_semaphore :
    let t := Runs.run SyncOp.exec syncInit [.createSem 1 0, .wait 1 5]
    (∀ between : List SyncOp, (∀ op ∈ between, ∃ p, op.caller = some p ∧ p ≠ 5) →
      ∀ again ∈ retries t 1 5,
        (again.call (Runs.run SyncOp.exec (SyncOp.exec t (.post 1 6)) between)).1 = .ok) ↔
    ∃ i, findSem t 1 = some i ∧ (t i).mutex = false ∧ (t i).grants.length < mosrtSyncWaiters :=
  handoff_iff [.createSem 1 0, .wait 1 5] (by decide) (.post 1 6) 1 6 5 (Or.inl rfl) (by decide)
    (by decide) (by decide)

/-- Process `2` waits for the mutex that `1` holds. -/
def contendedMutex : SemTable := Runs.run SyncOp.exec syncInit [.lock 7 1, .lock 7 2]

/-- The mutex is handed to `2` when `1` unlocks it, and the repeated `LOCK` of `2` fails. -/
theorem mutex_handoff_fails :
    ((SyncOp.unlock 7 1).call contendedMutex).1 = .ok ∧
      ((SyncOp.unlock 7 1).call contendedMutex).2.1 = 2 ∧
      ((SyncOp.lock 7 2).call ((SyncOp.unlock 7 1).exec contendedMutex)).1 = .error := by
  decide

end Mosrt
