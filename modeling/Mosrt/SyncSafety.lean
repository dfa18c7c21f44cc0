/-
Mutual exclusion and conservation of tokens.

A mutex is free, with one token and no owner, or held, with no token and an owner who
does not wait (`Sem.Locks`).  A semaphore neither loses nor makes tokens: its count,
its grants and the waits that succeeded add up to what it was created with and the
posts that succeeded (`Tally`).

* `mutual_exclusion` — in every run, a mutex is in one of its two states, only its
  owner can release it, and once somebody has it nobody else gets it before that;
* `tokens_conserved` — the account of a semaphore after any waits and posts by at most
  128 processes.
-/
import Mosrt.SyncHandoff

namespace Mosrt

variable {s : Sem} {t : SemTable} {id pid : ℤ} {i : ℕ} {op : SyncOp}

/-! ### The object that a call finds -/

/-- Making another object leaves this one alone. -/
theorem createCommon_found (h : findSem t id = some i) {id' : ℤ} (hnew : findSem t id' = none)
    (initial : ℤ) (mutex : Bool) : (createCommon t id' initial mutex).2 i = t i := by
  cases hfree : freeSem t with
  | none => rw [createCommon_full hnew hfree]
  | some j =>
    have hne : i ≠ j := by
      rintro rfl
      have hunused := (freeSem_some hfree).2
      rw [(findSem_some h).2.1] at hunused
      cases hunused
    rw [createCommon_new hnew hfree]
    exact Function.update_of_ne hne _ _

/-- A wait changes the object it names, and no other. -/
theorem syncWait_found (h : findSem t id = some i) (id' pid : ℤ) :
    (syncWait t id' pid).2 i = t i ∨ (syncWait t id' pid).2 i = (semWait (t i) pid).2 := by
  rw [syncWait]
  cases hfind : findSem t id' with
  | some j =>
    show Function.update t j _ i = _ ∨ Function.update t j _ i = _
    rw [Function.update_apply]
    split_ifs with hij
    · rw [hij]
      exact .inr rfl
    · exact .inl rfl
  | none =>
    dsimp only
    have hsame := createCommon_found h hfind 1 false
    rw [syncCreateSem]
    obtain ⟨ok, u, hu⟩ : ∃ ok u, createCommon t id' 1 false = (ok, u) := ⟨_, _, rfl⟩
    rw [hu] at hsame ⊢
    dsimp only at hsame
    cases ok with
    | false => exact .inl hsame
    | true =>
      dsimp only
      cases hfind' : findSem u id' with
      | none => exact .inl hsame
      | some j =>
        -- the new object has another id, so it is another entry
        have hne : i ≠ j := by
          rintro rfl
          have hid := (findSem_some hfind').2.2
          rw [hsame, (findSem_some h).2.2] at hid
          rw [← hid, h] at hfind
          cases hfind
        exact .inl ((Function.update_of_ne hne _ _).trans hsame)

theorem syncMutexLock_found (h : findSem t id = some i) (id' pid : ℤ) :
    (syncMutexLock t id' pid).2 i = t i ∨
      (syncMutexLock t id' pid).2 i = (semWait (t i) pid).2 := by
  obtain ⟨hfound, hsame⟩ : findSem (ensureCommon t id' 1 true).2 id = some i ∧
      (ensureCommon t id' 1 true).2 i = t i := by
    rw [ensureCommon]
    cases hfind : findSem t id' with
    | some j => exact ⟨h, rfl⟩
    | none =>
      refine ⟨?_, createCommon_found h hfind 1 true⟩
      cases hfree : freeSem t with
      | none => rwa [createCommon_full hfind hfree]
      | some j =>
        rw [createCommon_new hfind hfree]
        exact findSem_new h hfind hfree true
  rw [syncMutexLock]
  obtain ⟨ok, u, hu⟩ : ∃ ok u, ensureCommon t id' 1 true = (ok, u) := ⟨_, _, rfl⟩
  rw [hu] at hfound hsame ⊢
  cases ok with
  | false => exact .inl hsame
  | true =>
    have hwait := syncWait_found hfound id' pid
    rw [hsame] at hwait
    exact hwait

/-- A release changes the object it names, and no other. -/
theorem syncPost_found (h : findSem t id = some i) (id' pid : ℤ) :
    (syncPost t id' pid).2.2 i = t i ∨
      id' = id ∧ (syncPost t id' pid).2.2 i = (semPost (t i) pid).2.2 := by
  rw [syncPost]
  cases hfind : findSem t id' with
  | none => exact .inl rfl
  | some j =>
    show Function.update t j _ i = _ ∨ _ ∧ Function.update t j _ i = _
    rw [Function.update_apply]
    split_ifs with hij
    · rw [hij] at h ⊢
      exact .inr ⟨(findSem_some hfind).2.2.symm.trans (findSem_some h).2.2, rfl⟩
    · exact .inl rfl

/-- What a call makes of an object that exists. -/
theorem SyncOp.exec_found (h : findSem t id = some i) (hc : op.caller = some pid) :
    op.exec t i = t i ∨ op.exec t i = (semWait (t i) pid).2 ∨
      (op = .post id pid ∨ op = .unlock id pid) ∧ op.exec t i = (semPost (t i) pid).2.2 := by
  cases op with
  | createSem | createMutex => cases hc
  | wait id' p =>
    obtain rfl := Option.some_inj.mp hc
    rcases syncWait_found h id' p with heq | heq
    · exact .inl heq
    · exact .inr (.inl heq)
  | lock id' p =>
    obtain rfl := Option.some_inj.mp hc
    rcases syncMutexLock_found h id' p with heq | heq
    · exact .inl heq
    · exact .inr (.inl heq)
  | post id' p =>
    obtain rfl := Option.some_inj.mp hc
    rcases syncPost_found h id' p with heq | ⟨rfl, heq⟩
    · exact .inl heq
    · exact .inr (.inr ⟨.inl rfl, heq⟩)
  | unlock id' p =>
    obtain rfl := Option.some_inj.mp hc
    rcases syncPost_found h id' p with heq | ⟨rfl, heq⟩
    · exact .inl heq
    · exact .inr (.inr ⟨.inr rfl, heq⟩)

/-! ### Mutexes -/

/-- A mutex is free or held, grants nothing, and its owner does not wait. -/
structure Sem.Locks (s : Sem) : Prop where
  state : s.mutex = true → s.count = 1 ∧ s.ownerPid = -1 ∨ s.count = 0 ∧ 0 < s.ownerPid
  ungranted : s.mutex = true → s.grants = []
  apart : s.mutex = true → s.ownerPid ∉ s.waiters

theorem Sem.Locks.semaphore (h : s.mutex = false) : s.Locks := by
  refine ⟨fun hm => ?_, fun hm => ?_, fun hm => ?_⟩ <;>
  · rw [h] at hm
    cases hm

theorem Sem.Locks.wait (h : s.Locks) (hs : s.Ok) (hp : 0 < pid) : (semWait s pid).2.Locks := by
  have hcase := semWait_case s pid
  generalize semWait s pid = r at hcase ⊢
  cases hcase with
  | owner | waiting | full => exact h
  | granted hg =>
    refine Sem.Locks.semaphore ?_
    by_contra hm
    rw [h.ungranted ((Bool.not_eq_false _).mp hm)] at hg
    cases hg
  | entered _ hown _ _ _ =>
    refine ⟨h.state, h.ungranted, fun hm hmem => ?_⟩
    rcases List.mem_append.mp hmem with hmem | hmem
    · exact h.apart hm hmem
    · exact hown ⟨hm, List.mem_singleton.mp hmem⟩
  | taken _ _ hc =>
    -- a token is left, so nobody waits
    have hnil : s.waiters = [] := by
      by_contra hne
      have := hs.no_token hne
      omega
    refine ⟨fun hm => .inr ?_, h.ungranted, fun _ hmem => ?_⟩
    · have hm : s.mutex = true := hm
      have hstate := h.state hm
      show s.count - 1 = 0 ∧ 0 < if s.mutex = true then pid else s.ownerPid
      rw [if_pos hm]
      omega
    · have hmem : _ ∈ s.waiters := hmem
      rw [hnil] at hmem
      cases hmem

theorem Sem.Locks.post (h : s.Locks) (hs : s.Ok) : (semPost s pid).2.2.Locks := by
  have hcase := semPost_case s pid
  generalize semPost s pid = r at hcase ⊢
  cases hcase with
  | refused => exact h
  | granted w rest hm =>
    exact Sem.Locks.semaphore ((addGrant_name { s with waiters := rest } w).2.2.trans hm)
  | posted hm => exact Sem.Locks.semaphore hm
  | handedOver w rest _ _ hws _ =>
    have hw : 0 < w := hs.positive w (by rw [hws]; exact List.mem_cons_self)
    exact ⟨fun _ => .inr ⟨rfl, hw⟩, h.ungranted, fun _ => (hs.pop hws).2⟩
  | unlocked hm _ hhead =>
    have hnil := hs.nil_of_head hhead
    have hstate := h.state hm
    refine ⟨fun _ => .inl ⟨?_, rfl⟩, h.ungranted, fun _ hmem => ?_⟩
    · show (if 1 < s.count + 1 then 1 else s.count + 1) = 1
      split_ifs <;> omega
    · have hmem : _ ∈ s.waiters.tail := hmem
      rw [hnil] at hmem
      cases hmem

theorem SyncOp.exec_locks (op : SyncOp) (hv : op.Valid) (h : ∀ i, (t i).Ok ∧ (t i).Locks) (i : ℕ) :
    (op.exec t i).Ok ∧ (op.exec t i).Locks :=
  op.exec_entries (P := fun s => s.Ok ∧ s.Locks)
    (fun _ _ => ⟨Sem.Ok.of_nil rfl, Sem.Locks.semaphore rfl⟩)
    (fun _ => ⟨Sem.Ok.of_nil rfl, fun _ => .inl ⟨rfl, rfl⟩, fun _ => rfl, fun _ => nofun⟩)
    (fun pid _ hc hs => ⟨semWait_ok hs.1 (hv pid hc), hs.2.wait hs.1 (hv pid hc)⟩)
    (fun _ _ _ hs => ⟨semPost_ok hs.1, hs.2.post hs.1⟩) h i

/-- Mutexes keep their invariant in every run. -/
theorem SyncOp.run_locks {ops : List SyncOp} (hv : ∀ op ∈ ops, op.Valid) (i : ℕ) :
    (Runs.run SyncOp.exec syncInit ops i).Ok ∧ (Runs.run SyncOp.exec syncInit ops i).Locks :=
  Runs.run_invariant (I := fun t : SemTable => ∀ i, (t i).Ok ∧ (t i).Locks)
    (fun _ op h hv => op.exec_locks hv h)
    (fun _ => ⟨Sem.Ok.of_nil rfl, Sem.Locks.semaphore rfl⟩) (Runs.along_of_forall hv syncInit) i

/-- A wait leaves a held mutex with its owner. -/
theorem Sem.Locks.owner_wait (h : s.Locks) (hm : s.mutex = true) (hown : 0 < s.ownerPid) :
    (semWait s pid).2.ownerPid = s.ownerPid := by
  have hcase := semWait_case s pid
  generalize semWait s pid = r at hcase ⊢
  cases hcase with
  | granted | owner | waiting | entered | full => rfl
  | taken _ _ hc =>
    have := h.state hm
    omega

/-- A held mutex turns everybody else away. -/
theorem Sem.Locks.wait_held (h : s.Locks) (hm : s.mutex = true) (hown : 0 < s.ownerPid) :
    (semWait s pid).1 ≠ .ok := by
  have hcase := semWait_case s pid
  generalize semWait s pid = r at hcase ⊢
  cases hcase with
  | granted hg =>
    rw [h.ungranted hm] at hg
    cases hg
  | owner | waiting | entered | full => exact nofun
  | taken _ _ hc =>
    have := h.state hm
    omega

/-- Who is let in is the owner. -/
theorem Sem.Locks.owner_of_ok (h : s.Locks) (hm : s.mutex = true) (hok : (semWait s pid).1 = .ok) :
    (semWait s pid).2.ownerPid = pid := by
  have hcase := semWait_case s pid
  generalize semWait s pid = r at hcase hok ⊢
  cases hcase with
  | granted hg =>
    rw [h.ungranted hm] at hg
    cases hg
  | owner | waiting | entered | full => cases hok
  | taken => exact if_pos hm

theorem syncWait_of_find (h : findSem t id = some i) (pid : ℤ) :
    syncWait t id pid = ((semWait (t i) pid).1, Function.update t i (semWait (t i) pid).2) := by
  rw [syncWait, h]

theorem syncPost_of_find (h : findSem t id = some i) (pid : ℤ) : syncPost t id pid =
    ((semPost (t i) pid).1, (semPost (t i) pid).2.1,
      Function.update t i (semPost (t i) pid).2.2) := by
  rw [syncPost, h]

/-- On a mutex, locking is waiting. -/
theorem SyncOp.call_acquire (h : findSem t id = some i) (hm : (t i).mutex = true)
    (hop : op = .wait id pid ∨ op = .lock id pid) :
    op.call t = ((semWait (t i) pid).1, -1, Function.update t i (semWait (t i) pid).2) := by
  have hwait := syncWait_of_find h pid
  rcases hop with rfl | rfl
  · rw [SyncOp.call, hwait]
  · have hlock : syncMutexLock t id pid = syncWait t id pid := by
      rw [syncMutexLock, ensureCommon, h]
      dsimp only
      rw [hm]
      rfl
    rw [SyncOp.call, hlock, hwait]

/-- The owner of a mutex is unchanged by what others do, and by everything but its release. -/
theorem SyncOp.exec_owner (hl : (t i).Locks) (h : findSem t id = some i) (hm : (t i).mutex = true)
    (hown : 0 < (t i).ownerPid) (hc : op.caller = some pid)
    (hpost : op ≠ .post id (t i).ownerPid) (hunlock : op ≠ .unlock id (t i).ownerPid) :
    (op.exec t i).ownerPid = (t i).ownerPid := by
  rcases SyncOp.exec_found h hc with heq | heq | ⟨hop, heq⟩
  · rw [heq]
  · rw [heq]
    exact hl.owner_wait hm hown
  · have hne : (t i).ownerPid ≠ pid := by
      rintro rfl
      rcases hop with hop | hop
      · exact hpost hop
      · exact hunlock hop
    rw [heq]
    -- a release by somebody else is refused
    rw [semPost, if_pos ⟨hm, hne⟩]

/-- The mutex `id`, in entry `i`, is held by `pid`. -/
structure Held (id : ℤ) (i : ℕ) (pid : ℤ) (t : SemTable) : Prop where
  inv : ∀ i, (t i).Ok ∧ (t i).Locks
  found : findSem t id = some i
  mutex : (t i).mutex = true
  owner : (t i).ownerPid = pid

/-- Whoever is let in holds the mutex. -/
theorem Held.acquire (hinv : ∀ i, (t i).Ok ∧ (t i).Locks) (hfind : findSem t id = some i)
    (hm : (t i).mutex = true) (hop : op = .wait id pid ∨ op = .lock id pid) (hpos : 0 < pid)
    (hok : (op.call t).1 = .ok) : Held id i pid (op.exec t) := by
  have hcall := SyncOp.call_acquire hfind hm hop
  have hexec : op.exec t = Function.update t i (semWait (t i) pid).2 := by
    rw [SyncOp.exec, hcall]
  have hvalid : op.Valid := by
    intro p hp
    rcases hop with rfl | rfl <;>
    · rw [← Option.some_inj.mp hp]
      exact hpos
  rw [hcall] at hok
  refine ⟨op.exec_locks hvalid hinv, ?_, ?_, ?_⟩
  · rw [hexec, findSem_update semWait_name.1 semWait_name.2.1]
    exact hfind
  · rw [hexec, Function.update_self]
    exact semWait_name.2.2.trans hm
  · rw [hexec, Function.update_self]
    exact (hinv i).2.owner_of_ok hm hok

/-- Calls that are not its holder's release leave a mutex held. -/
theorem Held.exec (h : Held id i pid t) (hpos : 0 < pid) (hv : op.Valid) (hc : op.caller ≠ none)
    (hpost : op ≠ .post id pid) (hunlock : op ≠ .unlock id pid) : Held id i pid (op.exec t) := by
  obtain ⟨p, hp⟩ := Option.ne_none_iff_exists'.mp hc
  obtain rfl := h.owner
  refine ⟨op.exec_locks hv h.inv, (op.frame hp).found h.found, ?_, ?_⟩
  · rcases SyncOp.exec_found h.found hp with heq | heq | ⟨-, heq⟩
    · rw [heq]
      exact h.mutex
    · rw [heq]
      exact semWait_name.2.2.trans h.mutex
    · rw [heq]
      exact (semPost_name _ _).2.2.trans h.mutex
  · exact SyncOp.exec_owner (h.inv i).2 h.found h.mutex hpos hp hpost hunlock

theorem Held.run (h : Held id i pid t) (hpos : 0 < pid) {ops : List SyncOp}
    (hops : ∀ op ∈ ops, op.Valid ∧ op.caller ≠ none ∧ op ≠ .post id pid ∧ op ≠ .unlock id pid) :
    Held id i pid (Runs.run SyncOp.exec t ops) :=
  Runs.run_invariant (I := Held id i pid)
    (fun _ _ h hop => h.exec hpos hop.1 hop.2.1 hop.2.2.1 hop.2.2.2) h (Runs.along_of_forall hops t)

/-- A mutex that is held lets nobody in. -/
theorem Held.turns_away (h : Held id i pid t) (hpos : 0 < pid) {other : ℤ}
    (hop : op = .wait id other ∨ op = .lock id other) : (op.call t).1 ≠ .ok := by
  rw [SyncOp.call_acquire h.found h.mutex hop]
  exact (h.inv i).2.wait_held h.mutex (by rw [h.owner]; exact hpos)

/-- **Mutual exclusion.**  After any calls of `sync.c` by positive pids, a mutex is free with one
token and no owner, or held with no token; its waiters are distinct, do not include the owner,
and only wait while it is held.  A release succeeds for the owner only, and only a release by the
owner changes it.  Once a process was let in, nobody else is let in by whatever calls are made
before it releases the mutex. -/
theorem mutual_exclusion (ops : List SyncOp) (hv : ∀ op ∈ ops, op.Valid) (id : ℤ) (i : ℕ) :
    let t := Runs.run SyncOp.exec syncInit ops
    findSem t id = some i → (t i).mutex = true →
    ((t i).count = 0 ∨ (t i).count = 1) ∧
    ((t i).ownerPid = -1 ↔ (t i).count = 1) ∧
    (t i).waiters.Nodup ∧
    (t i).ownerPid ∉ (t i).waiters ∧
    ((t i).waiters ≠ [] → (t i).count = 0) ∧
    (∀ (op : SyncOp) (pid : ℤ), op = .post id pid ∨ op = .unlock id pid →
      (op.call t).1 = .ok → (t i).ownerPid = pid) ∧
    (∀ (op : SyncOp) (pid : ℤ), op.caller = some pid → 0 < pid → (t i).ownerPid ≠ -1 →
      (op.exec t i).ownerPid ≠ (t i).ownerPid →
      op = .post id (t i).ownerPid ∨ op = .unlock id (t i).ownerPid) ∧
    ∀ (acquire : SyncOp) (pid : ℤ), acquire = .wait id pid ∨ acquire = .lock id pid → 0 < pid →
      (acquire.call t).1 = .ok →
      ∀ between : List SyncOp, (∀ op ∈ between, op.Valid ∧ op.caller ≠ none ∧
        op ≠ .post id pid ∧ op ≠ .unlock id pid) →
      ∀ (again : SyncOp) (other : ℤ), again = .wait id other ∨ again = .lock id other →
        (again.call (Runs.run SyncOp.exec (acquire.exec t) between)).1 ≠ .ok := by
  intro t hfind hm
  have hinv : ∀ i, (t i).Ok ∧ (t i).Locks := SyncOp.run_locks hv
  obtain ⟨hok, hlocks⟩ := hinv i
  have hstate := hlocks.state hm
  refine ⟨by omega, by omega, hok.nodup, hlocks.apart hm, fun hne => ?_, ?_, ?_, ?_⟩
  · have := hok.no_token hne
    omega
  · intro op pid hop hres
    have hcall : op.call t = syncPost t id pid := by
      rcases hop with rfl | rfl <;> rfl
    rw [hcall, syncPost_of_find hfind] at hres
    by_contra hne
    have hrefused : semPost (t i) pid = (.error, -1, t i) := by rw [semPost, if_pos ⟨hm, hne⟩]
    rw [hrefused] at hres
    cases hres
  · intro op pid hc _ hown hne
    by_contra hrelease
    refine hne (SyncOp.exec_owner hlocks hfind hm (by omega) hc ?_ ?_)
    · exact fun hop => hrelease (.inl hop)
    · exact fun hop => hrelease (.inr hop)
  · intro acquire pid hacq hpos hres between hbetween again other hagain
    have hheld := Held.acquire hinv hfind hm hacq hpos hres
    exact (hheld.run hpos hbetween).turns_away hpos hagain

/-- While `1` holds the mutex and `2` waits, `3` does not get it. -/
theorem mutual_exclusion_contended :
    (contendedMutex 0).waiters.Nodup ∧
    ((SyncOp.lock 7 3).call (Runs.run SyncOp.exec
      ((SyncOp.lock 7 1).exec (Runs.run SyncOp.exec syncInit [.createMutex 7])) [.lock 7 2])).1 ≠
        .ok := by
  have hfirst := mutual_exclusion [.lock 7 1, .lock 7 2] (by decide) 7 0 (by decide) (by decide)
  have hsecond := mutual_exclusion [.createMutex 7] (by decide) 7 0 (by decide) (by decide)
  refine ⟨hfirst.2.2.1, hsecond.2.2.2.2.2.2.2 (.lock 7 1) 1 (.inr rfl) (by decide) (by decide)
    [.lock 7 2] ?_ (.lock 7 3) 3 (.inr rfl)⟩
  intro op hop
  rw [List.mem_singleton.mp hop]
  exact ⟨by decide, nofun, nofun, nofun⟩

/-! ### Semaphores -/

/-- Tokens that are left or granted, and whether one went out. -/
theorem semWait_tokens (s : Sem) (pid : ℤ) :
    (semWait s pid).2.count + (semWait s pid).2.grants.length +
        (if (semWait s pid).1 = .ok then 1 else 0) = s.count + s.grants.length := by
  have hcase := semWait_case s pid
  generalize semWait s pid = r at hcase ⊢
  cases hcase with
  | granted hg =>
    have hlen := List.length_erase_of_mem hg
    have hpos := List.length_pos_of_mem hg
    show s.count + ((s.grants.erase pid).length : ℤ) + 1 = _
    omega
  | owner | waiting | entered | full => exact add_zero _
  | taken =>
    show s.count - 1 + (s.grants.length : ℤ) + 1 = _
    omega

/-- A post to a semaphore adds one token, as long as there is room for a grant. -/
theorem semPost_tokens (h : s.Ok) (hm : s.mutex = false)
    (hroom : s.waiters ≠ [] → s.grants.length < mosrtSyncWaiters) (pid : ℤ) :
    (semPost s pid).1 = .ok ∧
      (semPost s pid).2.2.count + (semPost s pid).2.2.grants.length =
        s.count + s.grants.length + 1 := by
  have hcase := semPost_case s pid
  generalize semPost s pid = r at hcase ⊢
  cases hcase with
  | refused hmutex | handedOver _ _ hmutex | unlocked hmutex =>
    rw [hm] at hmutex
    cases hmutex
  | granted w rest _ hws _ =>
    have hnew : w ∉ s.grants := h.not_granted w (by rw [hws]; exact List.mem_cons_self)
    have hlen := hroom (by rw [hws]; exact List.cons_ne_nil _ _)
    have hadd : addGrant { s with waiters := rest } w =
        { s with waiters := rest, grants := s.grants ++ [w] } := by
      rw [addGrant, if_neg hnew, if_pos hlen]
    rw [hadd]
    refine ⟨rfl, ?_⟩
    show s.count + ((s.grants ++ [w]).length : ℤ) = _
    rw [List.length_append, List.length_singleton]
    omega
  | posted =>
    refine ⟨rfl, ?_⟩
    show s.count + 1 + (s.grants.length : ℤ) = _
    omega

/-- The calls that succeed. -/
def SyncOp.succeeded (t : SemTable) (op : SyncOp) : List SyncOp :=
  if (op.call t).1 = .ok then [op] else []

def SyncOp.isWait : SyncOp → Bool
  | .wait _ _ => true
  | _ => false

def SyncOp.isPost : SyncOp → Bool
  | .post _ _ => true
  | _ => false

/-- The account of a semaphore that was created with `n` tokens and is used by the pids in `S`. -/
structure Tally (S : Finset ℤ) (n : ℤ) (done : List SyncOp) (s : Sem) : Prop where
  ok : s.Ok
  semaphore : s.mutex = false
  grants_nodup : s.grants.Nodup
  users : ∀ p, p ∈ s.waiters ∨ p ∈ s.grants → p ∈ S
  balance : s.count + s.grants.length + done.countP SyncOp.isWait =
    n + done.countP SyncOp.isPost

variable {S : Finset ℤ} {n : ℤ} {done : List SyncOp}

/-- A waiter and everybody who was granted a token are different processes. -/
theorem Tally.room (h : Tally S n done s) (hS : S.card ≤ mosrtSyncWaiters) (hne : s.waiters ≠ []) :
    s.grants.length < mosrtSyncWaiters := by
  obtain ⟨w, rest, hws⟩ := List.exists_cons_of_ne_nil hne
  have hw : w ∈ s.waiters := by
    rw [hws]
    exact List.mem_cons_self
  have hnodup : (w :: s.grants).Nodup :=
    List.nodup_cons.mpr ⟨h.ok.not_granted w hw, h.grants_nodup⟩
  have hsub : (w :: s.grants).toFinset ⊆ S := by
    intro p hp
    rcases List.mem_cons.mp (List.mem_toFinset.mp hp) with rfl | hp
    · exact h.users p (.inl hw)
    · exact h.users p (.inr hp)
  have hle := Finset.card_le_card hsub
  rw [List.toFinset_card_of_nodup hnodup, List.length_cons] at hle
  omega

theorem Tally.wait (h : Tally S n done s) (hpid : pid ∈ S) (hpos : 0 < pid) :
    Tally S n (done ++ if (semWait s pid).1 = .ok then [.wait id pid] else [])
      (semWait s pid).2 := by
  refine ⟨semWait_ok h.ok hpos, semWait_name.2.2.trans h.semaphore, ?_, fun p hp => ?_, ?_⟩
  · have hcase := semWait_case s pid
    generalize semWait s pid = r at hcase ⊢
    cases hcase with
    | granted => exact h.grants_nodup.erase pid
    | owner | waiting | entered | full | taken => exact h.grants_nodup
  · have hcase := semWait_case s pid
    generalize semWait s pid = r at hcase hp
    cases hcase with
    | granted =>
      rcases hp with hp | hp
      · exact h.users p (.inl hp)
      · exact h.users p (.inr (List.mem_of_mem_erase hp))
    | owner | waiting | full | taken => exact h.users p hp
    | entered =>
      rcases hp with hp | hp
      · rcases List.mem_append.mp hp with hp | hp
        · exact h.users p (.inl hp)
        · rw [List.mem_singleton.mp hp]
          exact hpid
      · exact h.users p (.inr hp)
  · have htokens := semWait_tokens s pid
    have hbalance := h.balance
    rw [List.countP_append, List.countP_append]
    split_ifs at htokens ⊢
    · have hwait : List.countP SyncOp.isWait [.wait id pid] = 1 := rfl
      have hpost : List.countP SyncOp.isPost [.wait id pid] = 0 := rfl
      rw [hwait, hpost]
      omega
    · rw [List.countP_nil, List.countP_nil]
      omega

theorem Tally.post (h : Tally S n done s) (hS : S.card ≤ mosrtSyncWaiters) (id pid : ℤ) :
    (semPost s pid).1 = .ok ∧ Tally S n (done ++ [.post id pid]) (semPost s pid).2.2 := by
  obtain ⟨hres, htokens⟩ := semPost_tokens h.ok h.semaphore (h.room hS) pid
  refine ⟨hres, semPost_ok h.ok, (semPost_name s pid).2.2.trans h.semaphore, ?_, fun p hp => ?_, ?_⟩
  · have hcase := semPost_case s pid
    generalize semPost s pid = r at hcase ⊢
    cases hcase with
    | refused | handedOver | unlocked | posted => exact h.grants_nodup
    | granted w rest _ hws _ =>
      rw [addGrant]
      split_ifs with hmem
      · exact h.grants_nodup
      · refine List.nodup_append.mpr ⟨h.grants_nodup, List.nodup_singleton w,
          fun a ha b hb heq => ?_⟩
        rw [heq, List.mem_singleton.mp hb] at ha
        exact hmem ha
      · exact h.grants_nodup
  · have hcase := semPost_case s pid
    generalize semPost s pid = r at hcase hp
    cases hcase with
    | refused => exact h.users p hp
    | handedOver w rest _ _ hws _ =>
      rcases hp with hp | hp
      · exact h.users p (.inl (by rw [hws]; exact List.mem_cons_of_mem _ hp))
      · exact h.users p (.inr hp)
    | unlocked | posted =>
      rcases hp with hp | hp
      · exact h.users p (.inl (List.mem_of_mem_tail hp))
      · exact h.users p (.inr hp)
    | granted w rest _ hws _ =>
      have hw : w ∈ S := h.users w (.inl (by rw [hws]; exact List.mem_cons_self))
      have hrest : ∀ p ∈ rest, p ∈ S :=
        fun p hp => h.users p (.inl (by rw [hws]; exact List.mem_cons_of_mem _ hp))
      rw [addGrant] at hp
      split_ifs at hp
      · exact hp.elim (hrest p) fun hp => h.users p (.inr hp)
      · refine hp.elim (hrest p) fun hp => ?_
        rcases List.mem_append.mp hp with hp | hp
        · exact h.users p (.inr hp)
        · rw [List.mem_singleton.mp hp]
          exact hw
      · exact hp.elim (hrest p) fun hp => h.users p (.inr hp)
  · have hbalance := h.balance
    have hwait : List.countP SyncOp.isWait [.post id pid] = 0 := rfl
    have hpost : List.countP SyncOp.isPost [.post id pid] = 1 := rfl
    rw [List.countP_append, List.countP_append, hwait, hpost]
    omega

/-- A semaphore just made. -/
theorem tally_new (S : Finset ℤ) (id n : ℤ) : Tally S n [] (newSem id n false) :=
  ⟨Sem.Ok.of_nil rfl, rfl, List.nodup_nil, by simp [newSem], by simp [newSem]⟩

/-- The object that `sync_create_sem` made. -/
theorem syncCreateSem_found (hcreate : (syncCreateSem t id n).1 = true) :
    ∃ i, findSem (syncCreateSem t id n).2 id = some i ∧
      (syncCreateSem t id n).2 i = newSem id n false := by
  cases hfind : findSem t id with
  | some i =>
    have heq : syncCreateSem t id n = (true, Function.update t i (newSem id n false)) := by
      rw [syncCreateSem, createCommon, hfind]
      rfl
    obtain ⟨-, hused, hid⟩ := findSem_some hfind
    refine ⟨i, ?_, ?_⟩
    · rw [heq, findSem_update hused.symm hid.symm]
      exact hfind
    · rw [heq]
      exact Function.update_self _ _ _
  | none =>
    cases hfree : freeSem t with
    | none =>
      rw [syncCreateSem, createCommon_full hfind hfree] at hcreate
      cases hcreate
    | some j =>
      have heq : syncCreateSem t id n = (true, Function.update t j (newSem id n false)) :=
        createCommon_new hfind hfree false
      refine ⟨j, ?_, ?_⟩
      · rw [heq]
        exact findSem_new_self hfind hfree false
      · rw [heq]
        exact Function.update_self _ _ _

/-- A wait or post on the semaphore keeps its account. -/
theorem Tally.call (hS : S.card ≤ mosrtSyncWaiters) (hfind : findSem t id = some i)
    (h : Tally S n done (t i)) (hpid : pid ∈ S) (hpos : 0 < pid)
    (hop : op = .wait id pid ∨ op = .post id pid) :
    findSem (op.exec t) id = some i ∧ Tally S n (done ++ op.succeeded t) (op.exec t i) := by
  have hcaller : op.caller = some pid := by
    rcases hop with rfl | rfl <;> rfl
  refine ⟨(op.frame hcaller).found hfind, ?_⟩
  rcases hop with rfl | rfl
  · have hcall : (SyncOp.wait id pid).call t = ((semWait (t i) pid).1, -1,
        Function.update t i (semWait (t i) pid).2) := by
      rw [SyncOp.call, syncWait_of_find hfind]
    rw [SyncOp.succeeded, SyncOp.exec, hcall]
    dsimp only
    rw [Function.update_self]
    exact h.wait hpid hpos
  · obtain ⟨hres, hafter⟩ := h.post hS id pid
    have hcall : (SyncOp.post id pid).call t = ((semPost (t i) pid).1, (semPost (t i) pid).2.1,
        Function.update t i (semPost (t i) pid).2.2) := syncPost_of_find hfind pid
    rw [SyncOp.succeeded, SyncOp.exec, hcall]
    dsimp only
    rw [Function.update_self, hres, if_pos rfl]
    exact hafter

/-- **Conservation of tokens.**  After any waits and posts on a semaphore created with `n`
tokens, by at most 128 processes: count, grants and successful waits add up to `n` and the
successful posts; waiters and grants are duplicate-free and disjoint; and who waits finds no
token left. -/
theorem tokens_conserved (t : SemTable) (id n : ℤ) (hcreate : (syncCreateSem t id n).1 = true)
    (S : Finset ℤ) (hS : S.card ≤ 128) (ops : List SyncOp)
    (hops : ∀ op ∈ ops, ∃ pid ∈ S, 0 < pid ∧ (op = .wait id pid ∨ op = .post id pid)) :
    let u := (syncCreateSem t id n).2
    let done := Runs.history SyncOp.exec SyncOp.succeeded u ops
    ∃ i, findSem (Runs.run SyncOp.exec u ops) id = some i ∧
      let s := Runs.run SyncOp.exec u ops i
      s.count + s.grants.length + done.countP SyncOp.isWait = n + done.countP SyncOp.isPost ∧
        s.waiters.Nodup ∧ s.grants.Nodup ∧ (∀ pid ∈ s.waiters, pid ∉ s.grants) ∧
        (s.waiters ≠ [] → s.count ≤ 0) := by
  obtain ⟨i, hfind, hnew⟩ := syncCreateSem_found hcreate
  dsimp only
  generalize (syncCreateSem t id n).2 = u at hfind hnew ⊢
  have hinit : findSem u id = some i ∧ Tally S n [] (u i) := by
    rw [hnew]
    exact ⟨hfind, tally_new S id n⟩
  have hrun : findSem (Runs.run SyncOp.exec u ops) id = some i ∧
      Tally S n ([] ++ Runs.history SyncOp.exec SyncOp.succeeded u ops)
        (Runs.run SyncOp.exec u ops i) :=
    Runs.run_history (I := fun u done => findSem u id = some i ∧ Tally S n done (u i))
      (fun u done op h hop => by
        obtain ⟨pid, hpid, hpos, hop⟩ := hop
        exact Tally.call hS h.1 h.2 hpid hpos hop) hinit (Runs.along_of_forall hops u)
  obtain ⟨hfound, h⟩ := hrun
  exact ⟨i, hfound, h.balance, h.ok.nodup, h.grants_nodup, h.ok.not_granted, h.ok.no_token⟩

/-- A semaphore without tokens, one waiter and one post: the token is granted. -/
theorem tokens_conserved_grant :
    let t := Runs.run SyncOp.exec (syncCreateSem syncInit 1 0).2 [.wait 1 5, .post 1 6]
    ∃ i, findSem t 1 = some i ∧ (t i).waiters.Nodup :=
  have h := tokens_conserved syncInit 1 0 (by decide) {5, 6} (by decide) [.wait 1 5, .post 1 6]
    (by simp)
  h.imp fun _ hi => ⟨hi.1, hi.2.2.1⟩

end Mosrt
