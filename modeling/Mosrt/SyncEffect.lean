/-
What an instruction makes of one semaphore or mutex.

`LOCK`, `SEM_WAIT`, `UNLOCK` and `SEM_POST` call `sync.c`, which looks the object up, makes it where
it is missing and has room for it, and refuses a `LOCK` on a semaphore.  Seen from one object this
is little: nothing, a wait or a post.

* `semOf` — the object with a given id;
* `Effect` — what an instruction of a process makes of the object `m`, and whether the process is
  done with it;
* `Desk.Acts.effect` — that there is nothing else;
* `Effect.locks`, `Effect.owner_of_held`, `Effect.waiters` — what follows for the invariants of the
  object, its owner and its waiters.
-/
import Mosrt.Programs

namespace Mosrt

/-! ### One object -/

/-- The object `id`, if there is one. -/
def semOf (t : SemTable) (id : ℤ) : Option Sem := (findSem t id).map t

variable {t t' : SemTable} {id m pid q w : ℤ} {i j : ℕ} {s s' : Sem} {op : SyncOp}
  {o o' : Option Sem} {b : Bool} {insn : WorkloadInsn}

theorem semOf_of_find (h : findSem t id = some i) : semOf t id = some (t i) := by
  rw [semOf, h, Option.map_some]

theorem semOf_of_none (h : findSem t id = none) : semOf t id = none := by
  rw [semOf, h, Option.map_none]

/-- Changing one object, but not its name. -/
theorem semOf_update (h : findSem t id = some i) (hu : s.used = (t i).used) (hid : s.id = (t i).id)
    (m : ℤ) : semOf (Function.update t i s) m = if m = id then some s else semOf t m := by
  rw [semOf, findSem_update hu hid]
  split_ifs with hm
  · rw [hm, h, Option.map_some, Function.update_self]
  · rw [semOf]
    cases hfind : findSem t m with
    | none => rfl
    | some k =>
      have hne : k ≠ i := by
        rintro rfl
        exact hm ((findSem_some hfind).2.2.symm.trans (findSem_some h).2.2)
      rw [Option.map_some, Option.map_some, Function.update_of_ne hne]

theorem semOf_new (hnew : findSem t id = none) (hfree : freeSem t = some j) (mutex : Bool) (m : ℤ) :
    semOf (Function.update t j (newSem id 1 mutex)) m =
      if m = id then some (newSem id 1 mutex) else semOf t m := by
  split_ifs with hm
  · rw [hm, semOf_of_find (findSem_new_self hnew hfree mutex), Function.update_self]
  · have hfind : findSem (Function.update t j (newSem id 1 mutex)) m = findSem t m :=
      KeyedTable.find_new Sem.used Sem.id mosrtMaxSemaphores hfree (Ne.symm hm)
    rw [semOf, hfind, semOf]
    cases hk : findSem t m with
    | none => rfl
    | some k =>
      have hne : k ≠ j := by
        rintro rfl
        have hused := (findSem_some hk).2.1
        rw [(freeSem_some hfree).2] at hused
        cases hused
      rw [Option.map_some, Option.map_some, Function.update_of_ne hne]

/-! ### What an instruction makes of an object -/

/-- `LOCK m` or `SEM_WAIT m`. -/
def WorkloadInsn.acquires (m : ℤ) (insn : WorkloadInsn) : Bool :=
  insn.arg0 = m ∧ (insn.op = .lock ∨ insn.op = .semWait)

/-- `UNLOCK m` or `SEM_POST m`. -/
def WorkloadInsn.releases (m : ℤ) (insn : WorkloadInsn) : Bool :=
  insn.arg0 = m ∧ (insn.op = .unlock ∨ insn.op = .semPost)

theorem not_releases_of_acquires (h : insn.acquires m = true) : insn.releases m = false := by
  have h := of_decide_eq_true h
  refine decide_eq_false fun h' => ?_
  rcases h.2 with hop | hop <;> rcases h'.2 with hop' | hop' <;>
  · rw [hop] at hop'
    cases hop'

/-- What the instruction `insn` of `pid` makes of the object `m`; the flag says whether the process
is done with it. -/
inductive Effect (m pid : ℤ) (insn : WorkloadInsn) (o : Option Sem) : Bool → Option Sem → Prop
  /-- The instruction is not about this object, or there is no room for the object, or the object
  is of the wrong kind. -/
  | away (b : Bool) : (b = true → insn.acquires m = false ∧ insn.releases m = false) →
      Effect m pid insn o b o
  | acquires (s : Sem) : insn.acquires m = true →
      o = some s ∨ o = none ∧ (∃ mutex, s = newSem m 1 mutex) →
      Effect m pid insn o (decide ((semWait s pid).1 = .ok)) (some (semWait s pid).2)
  | releases (s : Sem) : insn.releases m = true → o = some s →
      Effect m pid insn o (decide ((semPost s pid).1 = .ok)) (some (semPost s pid).2.2)

/-- An instruction on another object. -/
theorem Effect.elsewhere (h : insn.arg0 ≠ m) (b : Bool) : Effect m pid insn o b o :=
  .away b fun _ => ⟨decide_eq_false fun h' => h h'.1, decide_eq_false fun h' => h h'.1⟩

theorem Effect.refused : Effect m pid insn o (decide (SyncResult.error = .ok)) o :=
  .away _ fun h => absurd (of_decide_eq_true h) (by decide)

/-- A wait for an object that is there, or was made for the wait. -/
theorem syncWait_effect (hop : insn.op = .lock ∨ insn.op = .semWait) (hid : insn.arg0 = id)
    (hfind : findSem t id = some i)
    (ho : semOf t' id = some (t i) ∨ semOf t' id = none ∧ ∃ mutex, t i = newSem id 1 mutex)
    (helse : ∀ m, m ≠ id → semOf t m = semOf t' m) (m : ℤ) :
    Effect m pid insn (semOf t' m) (decide ((syncWait t id pid).1 = .ok))
      (semOf (syncWait t id pid).2 m) := by
  rw [syncWait_of_find hfind]
  dsimp only
  rw [semOf_update hfind semWait_name.1 semWait_name.2.1]
  split_ifs with hm
  · rw [hm]
    exact .acquires (t i) (decide_eq_true ⟨hid, hop⟩) ho
  · rw [helse m hm]
    exact Effect.elsewhere (fun h => hm (h.symm.trans hid)) _

/-- A wait for an object that was made for it. -/
theorem made_effect (hop : insn.op = .lock ∨ insn.op = .semWait)
    (hfind : findSem t insn.arg0 = none) (hfree : freeSem t = some j) (mutex : Bool) (m : ℤ) :
    let t' := Function.update t j (newSem insn.arg0 1 mutex)
    Effect m pid insn (semOf t m) (decide ((syncWait t' insn.arg0 pid).1 = .ok))
      (semOf (syncWait t' insn.arg0 pid).2 m) := by
  have hself : findSem (Function.update t j (newSem insn.arg0 1 mutex)) insn.arg0 = some j :=
    findSem_new_self hfind hfree mutex
  refine syncWait_effect hop rfl hself (.inr ⟨semOf_of_none hfind, mutex, ?_⟩) (fun m hm => ?_) m
  · rw [Function.update_self]
  · rw [semOf_new hfind hfree, if_neg hm]

/-- `sync_wait`, which makes a semaphore where there is no object. -/
theorem semWait_effect (hop : insn.op = .lock ∨ insn.op = .semWait) (t : SemTable) (m : ℤ) :
    Effect m pid insn (semOf t m) (decide ((syncWait t insn.arg0 pid).1 = .ok))
      (semOf (syncWait t insn.arg0 pid).2 m) := by
  cases hfind : findSem t insn.arg0 with
  | some i =>
    exact syncWait_effect hop rfl hfind (.inl (semOf_of_find hfind)) (fun _ _ => rfl) m
  | none =>
    have hwait : syncWait t insn.arg0 pid = (.error, t) ∨ ∃ j, freeSem t = some j ∧
        syncWait t insn.arg0 pid =
          syncWait (Function.update t j (newSem insn.arg0 1 false)) insn.arg0 pid := by
      cases hfree : freeSem t with
      | none =>
        rw [syncWait, hfind]
        dsimp only
        rw [syncCreateSem, createCommon_full hfind hfree]
        exact .inl rfl
      | some j =>
        have hself : findSem (Function.update t j (newSem insn.arg0 1 false)) insn.arg0 = some j :=
          findSem_new_self hfind hfree false
        refine .inr ⟨j, rfl, ?_⟩
        rw [syncWait_of_find hself, syncWait, hfind]
        dsimp only
        rw [syncCreateSem, createCommon_new hfind hfree]
        dsimp only
        rw [hself]
    rcases hwait with hfull | ⟨j, hfree, hmade⟩
    · rw [hfull]
      exact Effect.refused
    · rw [hmade]
      exact made_effect hop hfind hfree false m

/-- `sync_mutex_lock`, which makes a mutex where there is no object. -/
theorem lock_effect (hop : insn.op = .lock ∨ insn.op = .semWait) (t : SemTable) (m : ℤ) :
    Effect m pid insn (semOf t m) (decide ((syncMutexLock t insn.arg0 pid).1 = .ok))
      (semOf (syncMutexLock t insn.arg0 pid).2 m) := by
  have hlock : syncMutexLock t insn.arg0 pid = (.error, t) ∨
      syncMutexLock t insn.arg0 pid = syncWait t insn.arg0 pid ∨
      findSem t insn.arg0 = none ∧ ∃ j, freeSem t = some j ∧ syncMutexLock t insn.arg0 pid =
        syncWait (Function.update t j (newSem insn.arg0 1 true)) insn.arg0 pid := by
    rw [syncMutexLock, ensureCommon]
    cases hfind : findSem t insn.arg0 with
    | some i =>
      dsimp only
      cases (t i).mutex with
      | false => exact .inl rfl
      | true => exact .inr (.inl rfl)
    | none =>
      cases hfree : freeSem t with
      | none =>
        dsimp only
        rw [createCommon_full hfind hfree]
        exact .inl rfl
      | some j =>
        dsimp only
        rw [createCommon_new hfind hfree]
        exact .inr (.inr ⟨rfl, j, rfl, rfl⟩)
  rcases hlock with hrefused | hfound | ⟨hfind, j, hfree, hmade⟩
  · rw [hrefused]
    exact Effect.refused
  · rw [hfound]
    exact semWait_effect hop t m
  · rw [hmade]
    exact made_effect hop hfind hfree true m

theorem post_effect (hop : insn.op = .unlock ∨ insn.op = .semPost) (t : SemTable) (m : ℤ) :
    Effect m pid insn (semOf t m) (decide ((syncPost t insn.arg0 pid).1 = .ok))
      (semOf (syncPost t insn.arg0 pid).2.2 m) := by
  cases hfind : findSem t insn.arg0 with
  | none =>
    rw [syncPost, hfind]
    exact Effect.refused
  | some i =>
    rw [syncPost_of_find hfind]
    dsimp only
    rw [semOf_update hfind (semPost_name _ _).1 (semPost_name _ _).2.1]
    split_ifs with hm
    · rw [hm]
      exact .releases (t i) (decide_eq_true ⟨rfl, hop⟩) (semOf_of_find hfind)
    · exact Effect.elsewhere (fun h => hm h.symm) _

theorem syncOp_effect (h : insn.syncOp pid = some op) (t : SemTable) (m : ℤ) :
    Effect m pid insn (semOf t m) (decide ((op.call t).1 = .ok)) (semOf (op.exec t) m) := by
  rw [WorkloadInsn.syncOp] at h
  cases hop : insn.op with
  | semWait =>
    rw [hop] at h
    obtain rfl := Option.some.inj h
    exact semWait_effect (.inr hop) t m
  | lock =>
    rw [hop] at h
    obtain rfl := Option.some.inj h
    exact lock_effect (.inl hop) t m
  | semPost =>
    rw [hop] at h
    obtain rfl := Option.some.inj h
    exact post_effect (.inr hop) t m
  | unlock =>
    rw [hop] at h
    obtain rfl := Option.some.inj h
    exact post_effect (.inl hop) t m
  | _ =>
    rw [hop] at h
    cases h

/-- An instruction that makes no call. -/
theorem not_acquires_of_none (h : insn.syncOp pid = none) (m : ℤ) :
    insn.acquires m = false ∧ insn.releases m = false := by
  rw [WorkloadInsn.syncOp] at h
  refine ⟨decide_eq_false ?_, decide_eq_false ?_⟩ <;>
  · rintro ⟨-, hop | hop⟩ <;>
    · rw [hop] at h
      cases h

theorem Desk.Acts.effect {x x' : Desk} (h : x.Acts pid insn b x') (m : ℤ) :
    Effect m pid insn (semOf x.sems m) b (semOf x'.sems m) := by
  cases h with
  | stays | ticks => exact .away false fun h => by cases h
  | finishes j j' hj hinsns hpc hnone => exact .away true fun _ => not_acquires_of_none hnone m
  | succeeds j op hj hop hok =>
    have heffect := syncOp_effect hop x.sems m
    rw [hok] at heffect
    exact heffect
  | fails op hop hok =>
    have heffect := syncOp_effect hop x.sems m
    rw [decide_eq_false hok] at heffect
    exact heffect

/-! ### Objects keep their invariants -/

theorem newSem_locks (id : ℤ) (mutex : Bool) : (newSem id 1 mutex).Ok ∧ (newSem id 1 mutex).Locks :=
  ⟨Sem.Ok.of_nil rfl, fun _ => .inl ⟨rfl, rfl⟩, fun _ => rfl, fun _ h => by cases h⟩

/-- What is waited for keeps its invariants, whether it was there or is new. -/
theorem locks_of_or (h : ∀ s, o = some s → s.Ok ∧ s.Locks)
    (ho : o = some s ∨ o = none ∧ ∃ mutex, s = newSem m 1 mutex) : s.Ok ∧ s.Locks := by
  rcases ho with ho | ⟨-, mutex, rfl⟩
  · exact h s ho
  · exact newSem_locks m mutex

/-- Who waits is not given the object. -/
theorem Sem.Ok.wait_of_mem (h : s.Ok) (hw : w ∈ s.waiters) : (semWait s w).1 ≠ .ok := by
  have hcount := h.no_token (List.ne_nil_of_mem hw)
  have hcase := semWait_case s w
  generalize semWait s w = r at hcase ⊢
  cases hcase with
  | granted hg => exact absurd hg (h.not_granted w hw)
  | owner | waiting | entered | full => exact fun h => by cases h
  | taken _ _ hc => omega

namespace Effect

theorem locks (h : Effect m pid insn o b o') (hpos : 0 < pid)
    (ho : ∀ s, o = some s → s.Ok ∧ s.Locks) : ∀ s, o' = some s → s.Ok ∧ s.Locks := by
  cases h with
  | away => exact ho
  | acquires s _ hs =>
    have hlocks := locks_of_or ho hs
    rintro _ ⟨⟩
    exact ⟨semWait_ok hlocks.1 hpos, hlocks.2.wait hlocks.1 hpos⟩
  | releases s _ hs =>
    have hlocks := ho s hs
    rintro _ ⟨⟩
    exact ⟨semPost_ok hlocks.1, hlocks.2.post hlocks.1⟩

/-- Who has acquired a mutex is its owner. -/
theorem owner_of_acquires (h : Effect m pid insn o b o') (hb : b = true)
    (hacq : insn.acquires m = true) (ho : ∀ s, o = some s → s.Ok ∧ s.Locks) :
    ∃ s, o' = some s ∧ (s.mutex = true → s.ownerPid = pid) := by
  cases h with
  | away _ hnot =>
    rw [(hnot hb).1] at hacq
    cases hacq
  | acquires s _ hs =>
    refine ⟨_, rfl, fun hm => ?_⟩
    exact (locks_of_or ho hs).2.owner_of_ok (semWait_name.2.2.symm.trans hm)
      (of_decide_eq_true hb)
  | releases s hrel =>
    rw [not_releases_of_acquires hacq] at hrel
    cases hrel

/-- What becomes of an object that exists: nothing, a wait or a post. -/
theorem some_cases (h : Effect m pid insn (some s) b o') :
    o' = some s ∧ (b = true → insn.acquires m = false ∧ insn.releases m = false) ∨
    insn.acquires m = true ∧ b = decide ((semWait s pid).1 = .ok) ∧ o' = some (semWait s pid).2 ∨
    insn.releases m = true ∧ insn.acquires m = false ∧
      b = decide ((semPost s pid).1 = .ok) ∧ o' = some (semPost s pid).2.2 := by
  cases h with
  | away _ hnot => exact .inl ⟨rfl, hnot⟩
  | acquires s₀ hacq hs =>
    rcases hs with hs | ⟨hs, -⟩
    · obtain rfl := Option.some.inj hs
      exact .inr (.inl ⟨hacq, rfl, rfl⟩)
    · cases hs
  | releases s₀ hrel hs =>
    obtain rfl := Option.some.inj hs
    refine .inr (.inr ⟨hrel, ?_, rfl, rfl⟩)
    by_contra hacq
    rw [not_releases_of_acquires ((Bool.not_eq_false _).mp hacq)] at hrel
    cases hrel

/-- An object is not removed and does not change its kind. -/
theorem exists_some (h : Effect m pid insn (some s) b o') :
    ∃ s', o' = some s' ∧ s'.mutex = s.mutex := by
  rcases h.some_cases with ⟨rfl, -⟩ | ⟨-, -, rfl⟩ | ⟨-, -, -, rfl⟩
  · exact ⟨s, rfl, rfl⟩
  · exact ⟨_, rfl, semWait_name.2.2⟩
  · exact ⟨_, rfl, (semPost_name s pid).2.2⟩

/-- A mutex that is held stays with its owner, or the owner releases it; it is free then, or passes
to one who waits. -/
theorem owner_of_held (h : Effect m pid insn (some s) b (some s')) (hl : s.Locks)
    (hm : s.mutex = true) (hown : 0 < s.ownerPid) :
    s'.ownerPid = s.ownerPid ∨ (pid = s.ownerPid ∧ insn.releases m = true ∧ b = true) ∧
      (s'.ownerPid = -1 ∨ s'.ownerPid ∈ s.waiters) := by
  rcases h.some_cases with ⟨hs, -⟩ | ⟨-, -, hs⟩ | ⟨hrel, -, rfl, hs⟩ <;> rw [Option.some.inj hs]
  · exact .inl rfl
  · exact .inl (hl.owner_wait hm hown)
  · have hcase := semPost_case s pid
    generalize semPost s pid = r at hcase ⊢
    cases hcase with
    | refused | posted => exact .inl rfl
    | unlocked _ hpid => exact .inr ⟨⟨hpid.symm, hrel, rfl⟩, .inl rfl⟩
    | handedOver w rest _ hpid hws =>
      refine .inr ⟨⟨hpid.symm, hrel, rfl⟩, .inr ?_⟩
      rw [hws]
      exact List.mem_cons_self
    | granted _ _ hsem =>
      rw [hm] at hsem
      cases hsem

/-- While a mutex is held nobody acquires it, and nobody but the owner releases it. -/
theorem of_held (h : Effect m pid insn (some s) b o') (hb : b = true) (hl : s.Locks)
    (hm : s.mutex = true) (hown : 0 < s.ownerPid) :
    insn.acquires m = false ∧ (insn.releases m = true → pid = s.ownerPid) := by
  rcases h.some_cases with ⟨-, hnot⟩ | ⟨-, hok, -⟩ | ⟨-, hacq, hok, -⟩
  · refine ⟨(hnot hb).1, fun hrel => ?_⟩
    rw [(hnot hb).2] at hrel
    cases hrel
  · exact absurd (of_decide_eq_true (hok.symm.trans hb)) (hl.wait_held hm hown)
  · refine ⟨hacq, fun _ => ?_⟩
    by_contra hne
    have hok := of_decide_eq_true (hok.symm.trans hb)
    rw [semPost, if_pos ⟨hm, Ne.symm hne⟩] at hok
    cases hok

/-- Who is not given the object is not done with the instruction. -/
theorem not_done (h : Effect m pid insn (some s) b o') (hacq : insn.acquires m = true)
    (hno : (semWait s pid).1 ≠ .ok) : b = false := by
  rcases h.some_cases with ⟨-, hnot⟩ | ⟨-, rfl, -⟩ | ⟨-, hacq', -⟩
  · by_contra hb
    rw [(hnot ((Bool.not_eq_false _).mp hb)).1] at hacq
    cases hacq
  · exact decide_eq_false hno
  · rw [hacq] at hacq'
    cases hacq'

/-- The owner of a mutex keeps it through whatever is not its release. -/
theorem keeps (h : Effect m pid insn o b o') (ho : ∀ s, o = some s → s.Ok ∧ s.Locks) (hq : 0 < q)
    (hin : ∃ s, o = some s ∧ (s.mutex = true → s.ownerPid = q))
    (hnot : ¬ (pid = q ∧ insn.releases m = true ∧ b = true)) :
    ∃ s, o' = some s ∧ (s.mutex = true → s.ownerPid = q) := by
  obtain ⟨s, rfl, hown⟩ := hin
  obtain ⟨s', rfl, hkind⟩ := h.exists_some
  refine ⟨s', rfl, fun hm => ?_⟩
  have hm' := hkind.symm.trans hm
  obtain rfl := hown hm'
  rcases h.owner_of_held (ho s rfl).2 hm' hq with hsame | ⟨hrel, -⟩
  · exact hsame
  · exact absurd hrel hnot

/-- Who waits after an instruction has waited before it, or has just been told to. -/
theorem waiters (h : Effect m pid insn o b (some s')) (hw : w ∈ s'.waiters) :
    (∃ s, o = some s ∧ w ∈ s.waiters) ∨ w = pid ∧ insn.acquires m = true ∧ b = false := by
  generalize ho' : some s' = o' at h
  cases h with
  | away => exact .inl ⟨s', ho'.symm, hw⟩
  | acquires s₀ hacq hs =>
    have hold : w ∈ s₀.waiters → ∃ s, o = some s ∧ w ∈ s.waiters := by
      intro hmem
      rcases hs with hs | ⟨-, mutex, rfl⟩
      · exact ⟨s₀, hs, hmem⟩
      · cases hmem
    rw [Option.some.inj ho', semWait_waiters] at hw
    split_ifs at hw with hblock
    · rcases List.mem_append.mp hw with hw | hw
      · exact .inl (hold hw)
      · refine .inr ⟨List.mem_singleton.mp hw, hacq, ?_⟩
        rw [hblock.1]
        rfl
    · exact .inl (hold hw)
  | releases s₀ _ hs =>
    rw [Option.some.inj ho'] at hw
    refine .inl ⟨s₀, hs, ?_⟩
    rcases semPost_waiters s₀ pid with ⟨-, heq⟩ | ⟨-, -, heq⟩
    · rwa [heq] at hw
    · rw [heq] at hw
      exact List.mem_of_mem_tail hw

end Effect

end Mosrt
