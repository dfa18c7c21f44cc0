/-
Semaphores and mutexes (`sync.c`).

An object is a count, an owner for mutexes, a list of waiting pids and a list of
pids that were granted a token before they were woken.  The arrays `waiters` and
`grants` are lists of at most `mosrtSyncWaiters` elements; a pid of `-1` stands
for nobody, as in the source.

* `CallFrame` — what a call may do to the entries of the table;
* `semWaiters` and the lemmas named `…_waiters` — who waits for which object after
  a call.
-/
import Mosrt.Runs
import Mosrt.KeyedTable

namespace Mosrt

abbrev mosrtMaxSemaphores : ℕ := 32
abbrev mosrtSyncWaiters : ℕ := 128

/-- `sync_result_t`. -/
inductive SyncResult where
  | ok | wouldBlock | error
deriving DecidableEq, Repr

/-- `mosrt_sem_t`. -/
structure Sem where
  used : Bool := false
  id : ℤ := 0
  count : ℤ := 0
  ownerPid : ℤ := 0
  mutex : Bool := false
  waiters : List ℤ := []
  grants : List ℤ := []

/-- `g_sems`. -/
abbrev SemTable := ℕ → Sem

def findSem (t : SemTable) (id : ℤ) : Option ℕ :=
  KeyedTable.find Sem.used Sem.id mosrtMaxSemaphores t id

/-- The first unused entry. -/
def freeSem (t : SemTable) : Option ℕ := KeyedTable.free Sem.used mosrtMaxSemaphores t

/-- A fresh object. -/
def newSem (id initial : ℤ) (mutex : Bool) : Sem :=
  { used := true, id := id, count := initial, ownerPid := -1, mutex := mutex }

/-- `create_common`: reuses the entry of an existing object, which is thereby reset. -/
def createCommon (t : SemTable) (id initial : ℤ) (mutex : Bool) : Bool × SemTable :=
  match (findSem t id).orElse fun _ => freeSem t with
  | none => (false, t)
  | some i =>
    (true, Function.update t i (newSem id initial mutex))

def ensureCommon (t : SemTable) (id initial : ℤ) (mutex : Bool) : Bool × SemTable :=
  match findSem t id with
  | some i => ((t i).mutex == mutex, t)
  | none => createCommon t id initial mutex

def addWaiter (s : Sem) (pid : ℤ) : Bool × Sem :=
  if pid ∈ s.waiters then (true, s)
  else if s.waiters.length < mosrtSyncWaiters then
    (true, { s with waiters := s.waiters ++ [pid] })
  else (false, s)

/-- `pop_waiter`; `-1` when nobody waits. -/
def popWaiter (s : Sem) : ℤ × Sem :=
  match s.waiters with
  | [] => (-1, s)
  | pid :: rest => (pid, { s with waiters := rest })

def addGrant (s : Sem) (pid : ℤ) : Sem :=
  if pid ∈ s.grants then s
  else if s.grants.length < mosrtSyncWaiters then { s with grants := s.grants ++ [pid] }
  else s

def takeGrant (s : Sem) (pid : ℤ) : Bool × Sem :=
  if pid ∈ s.grants then (true, { s with grants := s.grants.erase pid }) else (false, s)

/-- `sync_wait` on an object that was found. -/
def semWait (s : Sem) (pid : ℤ) : SyncResult × Sem :=
  match takeGrant s pid with
  | (true, s) => (.ok, s)
  | (false, s) =>
    if s.mutex ∧ s.ownerPid = pid then (.error, s)
    else if s.count ≤ 0 then
      match addWaiter s pid with
      | (true, s) => (.wouldBlock, s)
      | (false, s) => (.error, s)
    else
      (.ok, { s with count := s.count - 1, ownerPid := if s.mutex then pid else s.ownerPid })

/-- `sync_post` on an object that was found: result, `*woken_pid` and the object after. -/
def semPost (s : Sem) (pid : ℤ) : SyncResult × ℤ × Sem :=
  if s.mutex ∧ s.ownerPid ≠ pid then (.error, -1, s)
  else
    match popWaiter s with
    | (wake, s) =>
      if 0 ≤ wake then
        (.ok, wake, if s.mutex then { s with ownerPid := wake, count := 0 } else addGrant s wake)
      else
        (.ok, -1,
          if s.mutex then
            { s with count := if 1 < s.count + 1 then 1 else s.count + 1, ownerPid := -1 }
          else { s with count := s.count + 1 })

def syncInit : SemTable := fun _ => {}

def syncCreateSem (t : SemTable) (id initial : ℤ) : Bool × SemTable :=
  createCommon t id initial false

def syncCreateMutex (t : SemTable) (id : ℤ) : Bool × SemTable := createCommon t id 1 true

/-- `sync_wait`: an unknown id becomes a semaphore with one token. -/
def syncWait (t : SemTable) (id pid : ℤ) : SyncResult × SemTable :=
  match findSem t id with
  | some i =>
    let r := semWait (t i) pid
    (r.1, Function.update t i r.2)
  | none =>
    match syncCreateSem t id 1 with
    | (false, t) => (.error, t)
    | (true, t) =>
      match findSem t id with
      | none => (.error, t)
      | some i =>
        let r := semWait (t i) pid
        (r.1, Function.update t i r.2)

def syncMutexLock (t : SemTable) (id pid : ℤ) : SyncResult × SemTable :=
  match ensureCommon t id 1 true with
  | (false, t) => (.error, t)
  | (true, t) => syncWait t id pid

def syncPost (t : SemTable) (id pid : ℤ) : SyncResult × ℤ × SemTable :=
  match findSem t id with
  | none => (.error, -1, t)
  | some i =>
    let r := semPost (t i) pid
    (r.1, r.2.1, Function.update t i r.2.2)

def syncMutexUnlock (t : SemTable) (id pid : ℤ) : SyncResult × ℤ × SemTable := syncPost t id pid

/-! ### Finding objects -/

variable {t : SemTable} {id id' initial : ℤ} {i j : ℕ}

theorem findSem_some (h : findSem t id = some i) :
    i < mosrtMaxSemaphores ∧ (t i).used = true ∧ (t i).id = id :=
  KeyedTable.find_some Sem.used Sem.id mosrtMaxSemaphores h

theorem freeSem_some (h : freeSem t = some i) : i < mosrtMaxSemaphores ∧ (t i).used = false :=
  KeyedTable.free_some Sem.used mosrtMaxSemaphores h

/-- Changing an object but not its name is invisible to `find_sem`. -/
theorem findSem_update {s : Sem} (hu : s.used = (t j).used) (hid : s.id = (t j).id) :
    findSem (Function.update t j s) id = findSem t id :=
  KeyedTable.find_update Sem.used Sem.id mosrtMaxSemaphores hu hid

theorem createCommon_new (hnew : findSem t id = none) (hfree : freeSem t = some j)
    (mutex : Bool) :
    createCommon t id initial mutex = (true, Function.update t j (newSem id initial mutex)) := by
  simp [createCommon, hnew, hfree]

theorem createCommon_full (hnew : findSem t id = none) (hfree : freeSem t = none)
    (mutex : Bool) : createCommon t id initial mutex = (false, t) := by
  simp [createCommon, hnew, hfree]

/-- A new object under another id takes an unused entry, so the others are still found. -/
theorem findSem_new (h : findSem t id = some i) (hnew : findSem t id' = none)
    (hfree : freeSem t = some j) (mutex : Bool) :
    findSem (Function.update t j (newSem id' initial mutex)) id = some i := by
  have hne : id' ≠ id := by
    rintro rfl
    rw [h] at hnew
    cases hnew
  rw [← h]
  exact KeyedTable.find_new Sem.used Sem.id mosrtMaxSemaphores hfree hne

/-- A new object is found in the entry it took. -/
theorem findSem_new_self (hnew : findSem t id = none) (hfree : freeSem t = some j) (mutex : Bool) :
    findSem (Function.update t j (newSem id initial mutex)) id = some j :=
  KeyedTable.find_new_self Sem.used Sem.id mosrtMaxSemaphores hnew hfree rfl rfl

/-! ### The branches -/

/-- What `sync_wait` does on an object, branch by branch. -/
inductive WaitCase (s : Sem) (pid : ℤ) : SyncResult × Sem → Prop
  | granted : pid ∈ s.grants → WaitCase s pid (.ok, { s with grants := s.grants.erase pid })
  | owner : pid ∉ s.grants → s.mutex = true → s.ownerPid = pid → WaitCase s pid (.error, s)
  | waiting : pid ∉ s.grants → ¬ (s.mutex = true ∧ s.ownerPid = pid) → s.count ≤ 0 →
      pid ∈ s.waiters → WaitCase s pid (.wouldBlock, s)
  | entered : pid ∉ s.grants → ¬ (s.mutex = true ∧ s.ownerPid = pid) → s.count ≤ 0 →
      pid ∉ s.waiters → s.waiters.length < mosrtSyncWaiters →
      WaitCase s pid (.wouldBlock, { s with waiters := s.waiters ++ [pid] })
  | full : pid ∉ s.grants → ¬ (s.mutex = true ∧ s.ownerPid = pid) → s.count ≤ 0 →
      mosrtSyncWaiters ≤ s.waiters.length → WaitCase s pid (.error, s)
  | taken : pid ∉ s.grants → ¬ (s.mutex = true ∧ s.ownerPid = pid) → 0 < s.count →
      WaitCase s pid (.ok,
        { s with count := s.count - 1, ownerPid := if s.mutex then pid else s.ownerPid })

theorem semWait_case (s : Sem) (pid : ℤ) : WaitCase s pid (semWait s pid) := by
  rw [semWait, takeGrant]
  by_cases hg : pid ∈ s.grants
  · rw [if_pos hg]
    exact .granted hg
  rw [if_neg hg]
  dsimp only
  by_cases hown : s.mutex = true ∧ s.ownerPid = pid
  · rw [if_pos hown]
    exact .owner hg hown.1 hown.2
  rw [if_neg hown]
  by_cases hc : s.count ≤ 0
  · rw [if_pos hc, addWaiter]
    by_cases hmem : pid ∈ s.waiters
    · rw [if_pos hmem]
      exact .waiting hg hown hc hmem
    rw [if_neg hmem]
    by_cases hroom : s.waiters.length < mosrtSyncWaiters
    · rw [if_pos hroom]
      exact .entered hg hown hc hmem hroom
    · rw [if_neg hroom]
      exact .full hg hown hc (not_lt.mp hroom)
  · rw [if_neg hc]
    exact .taken hg hown (not_le.mp hc)

/-- What `sync_post` does on an object, branch by branch.  A negative pid in the list would be
taken out and not woken. -/
inductive PostCase (s : Sem) (pid : ℤ) : SyncResult × ℤ × Sem → Prop
  | refused : s.mutex = true → s.ownerPid ≠ pid → PostCase s pid (.error, -1, s)
  | handedOver (w : ℤ) (rest : List ℤ) : s.mutex = true → s.ownerPid = pid →
      s.waiters = w :: rest → 0 ≤ w →
      PostCase s pid (.ok, w, { s with waiters := rest, ownerPid := w, count := 0 })
  | granted (w : ℤ) (rest : List ℤ) : s.mutex = false → s.waiters = w :: rest → 0 ≤ w →
      PostCase s pid (.ok, w, addGrant { s with waiters := rest } w)
  | unlocked : s.mutex = true → s.ownerPid = pid → s.waiters.headD (-1) < 0 →
      PostCase s pid (.ok, -1, { s with
        waiters := s.waiters.tail
        count := if 1 < s.count + 1 then 1 else s.count + 1
        ownerPid := -1 })
  | posted : s.mutex = false → s.waiters.headD (-1) < 0 →
      PostCase s pid (.ok, -1, { s with waiters := s.waiters.tail, count := s.count + 1 })

theorem semPost_case (s : Sem) (pid : ℤ) : PostCase s pid (semPost s pid) := by
  rw [semPost]
  by_cases hown : s.mutex = true ∧ s.ownerPid ≠ pid
  · rw [if_pos hown]
    exact .refused hown.1 hown.2
  rw [if_neg hown, popWaiter]
  have howner : s.mutex = true → s.ownerPid = pid := by
    intro hm
    by_contra hne
    exact hown ⟨hm, hne⟩
  -- nobody is woken
  have hnone : ∀ u : Sem, u = { s with waiters := s.waiters.tail } → s.waiters.headD (-1) < 0 →
      PostCase s pid (.ok, -1, if u.mutex then
        { u with count := if 1 < u.count + 1 then 1 else u.count + 1, ownerPid := -1 }
        else { u with count := u.count + 1 }) := by
    rintro u rfl hhead
    dsimp only
    cases hm : s.mutex with
    | true =>
      rw [if_pos rfl, ← hm]
      exact .unlocked hm (howner hm) hhead
    | false =>
      rw [if_neg Bool.false_ne_true, ← hm]
      exact .posted hm hhead
  cases hws : s.waiters with
  | nil =>
    dsimp only
    rw [if_neg (by decide)]
    refine hnone s ?_ ?_
    · rw [hws, List.tail_nil, ← hws]
    · rw [hws]
      decide
  | cons w rest =>
    dsimp only
    by_cases hw : 0 ≤ w
    · rw [if_pos hw]
      cases hm : s.mutex with
      | true =>
        rw [if_pos rfl, ← hm]
        exact .handedOver w rest hm (howner hm) hws hw
      | false =>
        rw [if_neg Bool.false_ne_true, ← hm]
        exact .granted w rest hm hws hw
    · rw [if_neg hw]
      refine hnone { s with waiters := rest } ?_ ?_
      · rw [hws, List.tail_cons]
      · rw [hws]
        exact not_le.mp hw

/-! ### What a call does to the table -/

/-- What a call of `pid` makes of one entry. -/
inductive Evolved (s : Sem) (pid : ℤ) : Sem → Prop
  | same : Evolved s pid s
  | waited : Evolved s pid (semWait s pid).2
  | posted : Evolved s pid (semPost s pid).2.2
  | created (id initial : ℤ) (mutex : Bool) : s.used = false →
      Evolved s pid (newSem id initial mutex)
  | entered (id initial : ℤ) (mutex : Bool) : s.used = false →
      Evolved s pid (semWait (newSem id initial mutex) pid).2

/-- A call keeps every object where it is and changes entries as `Evolved` says. -/
structure CallFrame (t t' : SemTable) (pid : ℤ) : Prop where
  found : ∀ {id i}, findSem t id = some i → findSem t' id = some i
  entry : ∀ i, Evolved (t i) pid (t' i)

variable {s : Sem} {pid : ℤ}

/-- Waiting changes neither name nor kind of an object. -/
theorem semWait_name : (semWait s pid).2.used = s.used ∧ (semWait s pid).2.id = s.id ∧
    (semWait s pid).2.mutex = s.mutex := by
  have hcase := semWait_case s pid
  generalize semWait s pid = r at hcase ⊢
  cases hcase <;> exact ⟨rfl, rfl, rfl⟩

theorem addGrant_name (s : Sem) (pid : ℤ) : (addGrant s pid).used = s.used ∧
    (addGrant s pid).id = s.id ∧ (addGrant s pid).mutex = s.mutex := by
  rw [addGrant]
  split_ifs <;> exact ⟨rfl, rfl, rfl⟩

theorem semPost_name (s : Sem) (pid : ℤ) : (semPost s pid).2.2.used = s.used ∧
    (semPost s pid).2.2.id = s.id ∧ (semPost s pid).2.2.mutex = s.mutex := by
  have hcase := semPost_case s pid
  generalize semPost s pid = r at hcase ⊢
  cases hcase with
  | granted w rest => exact addGrant_name { s with waiters := rest } w
  | refused | handedOver | unlocked | posted => exact ⟨rfl, rfl, rfl⟩

theorem CallFrame.refl (t : SemTable) (pid : ℤ) : CallFrame t t pid :=
  ⟨fun h => h, fun _ => .same⟩

theorem CallFrame.wait (t : SemTable) (i : ℕ) (pid : ℤ) :
    CallFrame t (Function.update t i (semWait (t i) pid).2) pid where
  found := by
    intro id' k hk
    rw [findSem_update semWait_name.1 semWait_name.2.1]
    exact hk
  entry := by
    intro k
    rw [Function.update_apply]
    split_ifs with hki
    · rw [hki]
      exact .waited
    · exact .same

theorem CallFrame.post (t : SemTable) (i : ℕ) (pid : ℤ) :
    CallFrame t (Function.update t i (semPost (t i) pid).2.2) pid where
  found := by
    intro id' k hk
    rw [findSem_update (semPost_name _ _).1 (semPost_name _ _).2.1]
    exact hk
  entry := by
    intro k
    rw [Function.update_apply]
    split_ifs with hki
    · rw [hki]
      exact .posted
    · exact .same

/-- A call that makes a new object and waits on it. -/
theorem CallFrame.enter (hnew : findSem t id = none) (hfree : freeSem t = some j) (mutex : Bool) :
    CallFrame t (Function.update t j (semWait (newSem id initial mutex) pid).2) pid where
  found := by
    intro id' k hk
    have hfound : findSem (Function.update t j (newSem id initial mutex)) id' = some k :=
      findSem_new hk hnew hfree mutex
    rw [← Function.update_idem (a := j) (newSem id initial mutex), findSem_update, hfound]
    · rw [Function.update_self]
      exact semWait_name.1
    · rw [Function.update_self]
      exact semWait_name.2.1
  entry := by
    intro k
    rw [Function.update_apply]
    split_ifs with hkj
    · rw [hkj]
      exact .entered _ _ _ (freeSem_some hfree).2
    · exact .same

theorem syncWait_frame (t : SemTable) (id pid : ℤ) : CallFrame t (syncWait t id pid).2 pid := by
  rw [syncWait]
  cases hfind : findSem t id with
  | some i => exact .wait t i pid
  | none =>
    dsimp only
    rw [syncCreateSem]
    cases hfree : freeSem t with
    | none =>
      rw [createCommon_full hfind hfree]
      exact .refl t pid
    | some j =>
      rw [createCommon_new hfind hfree]
      dsimp only
      rw [findSem_new_self hfind hfree]
      dsimp only
      rw [Function.update_self, Function.update_idem]
      exact .enter hfind hfree false

theorem syncMutexLock_frame (t : SemTable) (id pid : ℤ) :
    CallFrame t (syncMutexLock t id pid).2 pid := by
  rw [syncMutexLock, ensureCommon]
  cases hfind : findSem t id with
  | some i =>
    dsimp only
    cases (t i).mutex == true with
    | false => exact .refl t pid
    | true => exact syncWait_frame t id pid
  | none =>
    dsimp only
    cases hfree : freeSem t with
    | none =>
      rw [createCommon_full hfind hfree]
      exact .refl t pid
    | some j =>
      rw [createCommon_new hfind hfree]
      dsimp only
      rw [syncWait, findSem_new_self hfind hfree]
      dsimp only
      rw [Function.update_self, Function.update_idem]
      exact .enter hfind hfree true

theorem syncPost_frame (t : SemTable) (id pid : ℤ) : CallFrame t (syncPost t id pid).2.2 pid := by
  rw [syncPost]
  cases findSem t id with
  | none => exact .refl t pid
  | some i => exact .post t i pid

/-! ### Who waits -/

/-- The pids that wait for the object `id`. -/
def semWaiters (t : SemTable) (id : ℤ) : List ℤ :=
  (KeyedTable.get Sem.used Sem.id mosrtMaxSemaphores (fun _ => {}) t id).waiters

theorem semWaiters_init (id : ℤ) : semWaiters syncInit id = [] := by
  rw [semWaiters, KeyedTable.get]
  split <;> rfl

theorem semWaiters_of_find (h : findSem t id = some i) : semWaiters t id = (t i).waiters := by
  rw [semWaiters, KeyedTable.get_of_find Sem.used Sem.id mosrtMaxSemaphores h]

theorem semWaiters_update (h : findSem t id = some i) (hu : s.used = (t i).used)
    (hid : s.id = (t i).id) (id' : ℤ) :
    semWaiters (Function.update t i s) id' = if id' = id then s.waiters else semWaiters t id' := by
  rw [semWaiters, KeyedTable.get_update Sem.used Sem.id mosrtMaxSemaphores h hu hid, semWaiters]
  split_ifs <;> rfl

/-- Nobody waits for an object just made. -/
theorem semWaiters_create (initial : ℤ) (hnew : findSem t id = none) (mutex : Bool) (id' : ℤ) :
    semWaiters (createCommon t id initial mutex).2 id' = semWaiters t id' := by
  cases hfree : freeSem t with
  | none => rw [createCommon_full hnew hfree]
  | some j =>
    rw [createCommon_new hnew hfree, semWaiters,
      KeyedTable.get_new Sem.used Sem.id mosrtMaxSemaphores hnew hfree rfl rfl, semWaiters]
    split_ifs with hid
    · subst hid
      rw [KeyedTable.get_of_none Sem.used Sem.id mosrtMaxSemaphores hnew]
      rfl
    · rfl

/-- Waiting enters the caller in the list just when it blocks. -/
theorem semWait_waiters : (semWait s pid).2.waiters =
    if (semWait s pid).1 = .wouldBlock ∧ pid ∉ s.waiters then s.waiters ++ [pid]
    else s.waiters := by
  have hcase := semWait_case s pid
  generalize semWait s pid = r at hcase ⊢
  cases hcase with
  | granted | owner | full | taken => exact (if_neg fun h => nomatch h.1).symm
  | waiting _ _ _ hmem => exact (if_neg fun h => h.2 hmem).symm
  | entered _ _ _ hmem => exact (if_pos ⟨rfl, hmem⟩).symm

theorem syncWait_waiters (t : SemTable) (id pid id' : ℤ) :
    semWaiters (syncWait t id pid).2 id' =
      if (syncWait t id pid).1 = .wouldBlock ∧ id' = id ∧ pid ∉ semWaiters t id then
        semWaiters t id ++ [pid]
      else semWaiters t id' := by
  -- on an object that exists
  have hfound : ∀ (u : SemTable) (i : ℕ), findSem u id = some i →
      semWaiters (Function.update u i (semWait (u i) pid).2) id' =
        if (semWait (u i) pid).1 = .wouldBlock ∧ id' = id ∧ pid ∉ semWaiters u id then
          semWaiters u id ++ [pid]
        else semWaiters u id' := by
    intro u i hi
    rw [semWaiters_update hi semWait_name.1 semWait_name.2.1, semWaiters_of_find hi]
    by_cases hid : id' = id
    · rw [if_pos hid, semWait_waiters, hid, semWaiters_of_find hi]
      simp
    · simp [hid]
  cases hfind : findSem t id with
  | some i =>
    have heq : syncWait t id pid =
        ((semWait (t i) pid).1, Function.update t i (semWait (t i) pid).2) := by
      rw [syncWait, hfind]
    rw [heq]
    exact hfound t i hfind
  | none =>
    have hcreate := fun id' => semWaiters_create 1 hfind false id'
    cases hfree : freeSem t with
    | none =>
      have heq : syncWait t id pid = (.error, t) := by
        rw [syncWait, hfind]
        dsimp only
        rw [syncCreateSem, createCommon_full hfind hfree]
      rw [heq]
      simp
    | some j =>
      rw [createCommon_new hfind hfree] at hcreate
      obtain ⟨u, hu⟩ : ∃ u, Function.update t j (newSem id 1 false) = u := ⟨_, rfl⟩
      have hj : findSem u id = some j := by
        rw [← hu]
        exact findSem_new_self hfind hfree false
      have heq : syncWait t id pid =
          ((semWait (u j) pid).1, Function.update u j (semWait (u j) pid).2) := by
        rw [syncWait, hfind]
        dsimp only
        rw [syncCreateSem, createCommon_new hfind hfree, hu]
        dsimp only
        rw [hj]
      rw [hu] at hcreate
      rw [heq, hfound u j hj, hcreate, hcreate]

theorem syncMutexLock_waiters (t : SemTable) (id pid id' : ℤ) :
    semWaiters (syncMutexLock t id pid).2 id' =
      if (syncMutexLock t id pid).1 = .wouldBlock ∧ id' = id ∧ pid ∉ semWaiters t id then
        semWaiters t id ++ [pid]
      else semWaiters t id' := by
  -- a refusal changes nothing; otherwise it is a wait on a table with the same waiters
  have hcall : syncMutexLock t id pid = (.error, (ensureCommon t id 1 true).2) ∨
      syncMutexLock t id pid = syncWait (ensureCommon t id 1 true).2 id pid := by
    rw [syncMutexLock]
    obtain ⟨ok, u, hu⟩ : ∃ ok u, ensureCommon t id 1 true = (ok, u) := ⟨_, _, rfl⟩
    rw [hu]
    cases ok with
    | false => exact .inl rfl
    | true => exact .inr rfl
  have hsame : ∀ id', semWaiters (ensureCommon t id 1 true).2 id' = semWaiters t id' := by
    intro id'
    rw [ensureCommon]
    cases hfind : findSem t id with
    | some i => rfl
    | none => exact semWaiters_create 1 hfind true id'
  rcases hcall with heq | heq
  · rw [heq, hsame]
    simp
  · rw [heq, syncWait_waiters, hsame, hsame]

/-- What a release reports of the waiters it found. -/
def woken (ws : List ℤ) : ℤ := if 0 ≤ ws.headD (-1) then ws.headD (-1) else -1

/-- A release takes the first waiter, if there is one, and reports it. -/
theorem semPost_waiters (s : Sem) (pid : ℤ) :
    (semPost s pid).1 = .error ∧ (semPost s pid).2.2.waiters = s.waiters ∨
      (semPost s pid).1 = .ok ∧ (semPost s pid).2.1 = woken s.waiters ∧
        (semPost s pid).2.2.waiters = s.waiters.tail := by
  have hcase := semPost_case s pid
  generalize semPost s pid = r at hcase ⊢
  cases hcase with
  | refused => exact .inl ⟨rfl, rfl⟩
  | handedOver w rest _ _ hws hw =>
    rw [hws]
    exact .inr ⟨rfl, (if_pos hw).symm, rfl⟩
  | granted w rest _ hws hw =>
    have hsame : (addGrant { s with waiters := rest } w).waiters = rest := by
      rw [addGrant]
      split_ifs <;> rfl
    rw [hws]
    exact .inr ⟨rfl, (if_pos hw).symm, hsame⟩
  | unlocked _ _ hhead => exact .inr ⟨rfl, (if_neg (not_le.mpr hhead)).symm, rfl⟩
  | posted _ hhead => exact .inr ⟨rfl, (if_neg (not_le.mpr hhead)).symm, rfl⟩

theorem syncPost_waiters (t : SemTable) (id pid : ℤ) :
    (syncPost t id pid).1 = .error ∧
        (∀ id', semWaiters (syncPost t id pid).2.2 id' = semWaiters t id') ∨
      (syncPost t id pid).1 = .ok ∧
        (syncPost t id pid).2.1 = woken (semWaiters t id) ∧
        ∀ id', semWaiters (syncPost t id pid).2.2 id' =
          if id' = id then (semWaiters t id).tail else semWaiters t id' := by
  rw [syncPost]
  cases hfind : findSem t id with
  | none => exact .inl ⟨rfl, fun _ => rfl⟩
  | some i =>
    obtain ⟨hused, hid, -⟩ := semPost_name (t i) pid
    have hupdate := semWaiters_update hfind hused hid
    rw [semWaiters_of_find hfind]
    rcases semPost_waiters (t i) pid with ⟨herr, hws⟩ | ⟨hok, hwake, hws⟩
    · refine .inl ⟨herr, fun id' => ?_⟩
      rw [hupdate, hws]
      split_ifs with hid
      · rw [hid, semWaiters_of_find hfind]
      · rfl
    · refine .inr ⟨hok, hwake, fun id' => ?_⟩
      rw [hupdate, hws]

end Mosrt
