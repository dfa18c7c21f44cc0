/-
How long an `IO` blocks its process.

The wakeup tick of `IO N` at tick `t` is `t + N` in 64 bits, and `0` stands for none.  Up to
`2^64` the sum is what it should be: nothing but the timer wakes the process, as it is in no
wait list.  Beyond, it wraps to a tick that has passed already, and the next pass wakes the
process.

* `Roster.Asleep` — BLOCKED with a wakeup tick; what precedes an instruction keeps this up to
  that tick, and ends it then;
* `Sleeping.exec` — nothing else ends it, except a kill;
* `io_blocks_until` — an `IO` ends in the first pass at tick `t + N` or later, and not before,
  exactly if `t + N ≤ 2^64`.
-/
import Mosrt.RosterSpec
import Mosrt.WaitLists
import Mosrt.StepTicks
import Mosrt.WorkloadLoad

namespace Mosrt

namespace Roster

variable {r r' d : Roster} {b : Bool} {op : RtOp} {pid q : ℤ} {e : RosterEntry} {w : ℕ}

/-! ### Asleep -/

/-- BLOCKED, with a wakeup tick. -/
def Asleep (r : Roster) (pid : ℤ) (w : ℕ) : Prop :=
  ∃ e, r.proc pid = some e ∧ e.state = .blocked ∧ e.wakeup = w

/-- The wakeup tick has come. -/
def DueAt (w tick : ℕ) : Prop := 0 < w ∧ w ≤ tick

theorem Asleep.of_proc (h : r.Asleep pid w) (hproc : r'.proc = r.proc) : r'.Asleep pid w := by
  obtain ⟨e, he, hst⟩ := h
  exact ⟨e, by rw [hproc, he], hst⟩

/-- Something happens to another process. -/
theorem Asleep.setProc (h : r.Asleep pid w) (hq : pid ≠ q) : (r.setProc q e).Asleep pid w := by
  obtain ⟨x, hx, hst⟩ := h
  exact ⟨x, (Function.update_of_ne hq _ _).trans hx, hst⟩

theorem Asleep.mapProc {f : RosterEntry → RosterEntry} (h : r.Asleep pid w)
    (hf : ∀ e, (f e).state = e.state ∧ (f e).wakeup = e.wakeup) : (r.mapProc f).Asleep pid w := by
  obtain ⟨e, he, hst, hw⟩ := h
  refine ⟨f e, ?_, (hf e).1.trans hst, (hf e).2.trans hw⟩
  show (r.proc pid).map f = some (f e)
  rw [he, Option.map_some]

theorem Asleep.entry (h : r.Asleep pid w) (he : r.proc pid = some e) :
    e.state = .blocked ∧ e.wakeup = w := by
  obtain ⟨x, hx, hst⟩ := h
  rw [he] at hx
  cases hx
  exact hst

/-- A process in another state is another process. -/
theorem Asleep.ne {st : ProcState} (h : r.Asleep pid w) (he : r.proc q = some e)
    (hst : e.state = st) (hne : st ≠ .blocked) : pid ≠ q := by
  rintro rfl
  exact hne (hst.symm.trans (h.entry he).1)

theorem Asleep.expireAll (h : r.Asleep pid w) (hdue : ¬ DueAt w r.tick) :
    r.expireAll.Asleep pid w := by
  refine (expireAll_invariant (I := fun s => s.Asleep pid w ∧ s.tick = r.tick) ⟨h, rfl⟩
    fun s q x hs hx hxdue => ⟨?_, hs.2⟩).1
  refine (hs.1.setProc ?_).of_proc rfl
  rintro rfl
  obtain ⟨-, hpos, hle⟩ := hxdue
  rw [(hs.1.entry hx).2] at hpos hle
  rw [hs.2] at hle
  exact hdue ⟨hpos, hle⟩

theorem Asleep.age (h : r.Asleep pid w) : r.age.Asleep pid w := by
  rw [Roster.age]
  split_ifs
  · refine h.mapProc fun e => ?_
    rw [RosterEntry.age]
    split_ifs <;> exact ⟨rfl, rfl⟩
  · exact h

theorem Asleep.rebuildPrio (h : r.Asleep pid w) : r.rebuildPrio.Asleep pid w := by
  rw [Roster.rebuildPrio]
  split_ifs
  · exact h.of_proc rfl
  · exact h

theorem Asleep.boost (h : r.Asleep pid w) (interval : ℕ) : (r.boost interval).Asleep pid w := by
  rw [Roster.boost]
  split_ifs
  · refine (h.mapProc fun e => ?_).of_proc rfl
    rw [RosterEntry.boost]
    split_ifs <;> exact ⟨rfl, rfl⟩
  · exact h

theorem Asleep.dispatches (h : r.Asleep pid w) (hd : r.Dispatches b d) : d.Asleep pid w := by
  cases hd with
  | stays => exact h
  | nobody => exact h.of_proc rfl
  | picks q e l rest hidle hpos he hready =>
    exact (h.setProc (h.ne he hready (by decide))).of_proc rfl

/-- Before its tick a process sleeps on while the next instruction is chosen. -/
theorem Asleep.chosen (h : r.Asleep pid w) (hdue : ¬ DueAt w r.tick)
    (hd : (r.prepare mlfqBoostInterval).Dispatches b d) : d.Asleep pid w :=
  Asleep.dispatches ((h.expireAll hdue).age.rebuildPrio.boost mlfqBoostInterval) hd

/-- Outside a pass only a kill ends a sleep. -/
theorem Moves.asleep (h : r.Moves op r') (hpass : ∀ fuel, op ≠ .pass fuel) (hkill : op ≠ .kill pid)
    (ha : r.Asleep pid w) : r'.Asleep pid w := by
  cases h with
  | pass fuel | hangs fuel => exact absurd rfl (hpass fuel)
  | full | spared | nobody | repaged => exact ha
  | setAlgo | setQuantum | flag => exact ha.of_proc rfl
  | spawn workload priority q hnone =>
    have hq : pid ≠ q := by
      rintro rfl
      obtain ⟨e, he, -⟩ := ha
      rw [hnone] at he
      cases he
    exact (ha.setProc hq).of_proc rfl
  | kill q e =>
    have hq : pid ≠ q := by
      rintro rfl
      exact hkill rfl
    exact (ha.setProc hq).of_proc rfl
  | setPriority _ q priority e _ he =>
    obtain ⟨x, hx, hst, hw⟩ := ha
    by_cases hq : pid = q
    · rw [hq, he] at hx
      cases hx
      refine ⟨{ e with priority := clampPrio priority }, ?_, hst, hw⟩
      rw [hq]
      exact Function.update_self _ _ _
    · exact ⟨x, (Function.update_of_ne hq _ _).trans hx, hst, hw⟩

/-! ### Awake -/

/-- The process is READY. -/
def Awake (r : Roster) (pid : ℤ) : Prop := ∃ e, r.proc pid = some e ∧ e.state = .ready

theorem Awake.expire (h : r.Awake pid) (q : ℤ) : (r.expire q).Awake pid := by
  rw [Roster.expire]
  split
  · exact h
  · next x hx =>
    split_ifs with hdue
    · obtain ⟨e, he, hst⟩ := h
      have hq : pid ≠ q := by
        rintro rfl
        rw [hx] at he
        cases he
        exact absurd (hdue.1.symm.trans hst) (by decide)
      exact ⟨e, (Function.update_of_ne hq _ _).trans he, hst⟩
    · exact h

theorem Asleep.expire_self (h : r.Asleep pid w) (hdue : DueAt w r.tick) :
    (r.expire pid).Awake pid := by
  obtain ⟨e, he, hst, hw⟩ := h
  rw [Roster.expire, he]
  dsimp only
  rw [if_pos ⟨hst, by rw [hw]; exact hdue.1, by rw [hw]; exact hdue.2⟩]
  exact ⟨_, Function.update_self _ _ _, rfl⟩

theorem Asleep.expire (h : r.Asleep pid w) (hq : pid ≠ q) : (r.expire q).Asleep pid w := by
  rw [Roster.expire]
  split
  · exact h
  · split_ifs
    · exact (h.setProc hq).of_proc rfl
    · exact h

/-- The pass over the table wakes a process whose tick has come. -/
theorem Asleep.expireAll_due (h : r.Asleep pid w) (hdue : DueAt w r.tick) (hpid : pid ∈ allPids) :
    r.expireAll.Awake pid := by
  rw [Roster.expireAll]
  -- in front of `pid` it sleeps, behind it is awake
  generalize allPids = pids at hpid
  induction pids generalizing r with
  | nil => exact absurd hpid List.not_mem_nil
  | cons q pids ih =>
    rw [List.foldl_cons]
    by_cases hq : pid = q
    · rw [← hq]
      exact List.foldlRecOn (motive := fun s : Roster => s.Awake pid) pids _ (h.expire_self hdue)
        fun s hs x _ => hs.expire x
    · refine ih (h.expire hq) ?_ ((List.mem_cons.mp hpid).resolve_left hq)
      rw [(same_expire r q).tick]
      exact hdue

end Roster

/-! ### The runtime -/

variable {rt rt' d : Runtime} {op : RtOp} {pid : ℤ} {p : Pcb} {w fuel : ℕ}

theorem asleep_iff : rt.roster.Asleep pid w ↔ rt.abs.proc pid = some (.blocked, w) := by
  constructor
  · rintro ⟨e, he, hst, hw⟩
    obtain ⟨p, hp, rfl⟩ := procGet_of_roster he
    rw [abs_proc hp, ← hst, ← hw]
    rfl
  · intro h
    obtain ⟨p, hp, heq⟩ := Option.map_eq_some_iff.mp h
    obtain ⟨hst, hw⟩ := Prod.mk.inj heq
    exact ⟨p.entry, roster_proc hp, hst, hw⟩

theorem Roster.Awake.stateOf (h : rt.roster.Awake pid) : rt.abs.stateOf pid = some .ready := by
  obtain ⟨e, he, hst⟩ := h
  obtain ⟨p, hp, rfl⟩ := procGet_of_roster he
  rw [abs_stateOf hp, ← hst]
  rfl

/-- An instruction wakes only who is in a wait list. -/
theorem Core.Flow.sleeping {c c' : Core} {safe : Prop} (h : c.Flow safe c')
    (hrun : c.stateOf c.current = some .running) (hp : c.proc pid = some (.blocked, w))
    (hl : ∀ l, pid ∉ c.waiters l) :
    c'.proc pid = some (.blocked, w) ∧ ∀ l, pid ∉ c'.waiters l := by
  have hcur : pid ≠ c.current := by
    rintro rfl
    rw [Core.stateOf_eq hp] at hrun
    cases hrun
  cases h with
  | stay hlists hproc => exact ⟨by rw [hproc, hp], by rwa [hlists]⟩
  | leave st w' hlists hproc =>
    exact ⟨by rw [hproc, Function.update_of_ne hcur, hp], by rwa [hlists]⟩
  | dropped _ hlists hproc =>
    exact ⟨by rw [hproc, Function.update_of_ne hcur, hp], by rwa [hlists]⟩
  | enter l hlists hproc =>
    refine ⟨by rw [hproc, Function.update_of_ne hcur, hp], fun l' => ?_⟩
    rw [hlists, Function.update_apply]
    split_ifs with hl'
    · rw [List.mem_append, List.mem_singleton]
      rintro (hmem | hmem)
      · exact hl l hmem
      · exact hcur hmem
    · exact hl l'
  | pop l q rest hlist hlists hproc =>
    have hq : pid ≠ q := by
      rintro rfl
      exact hl l (by rw [hlist]; exact List.mem_cons_self)
    refine ⟨?_, fun l' => ?_⟩
    · rw [hproc]
      rcases Core.proc_wake c q pid with heq | ⟨heq, -⟩
      · rw [heq, hp]
      · exact absurd heq hq
    · rw [hlists, Function.update_apply]
      split_ifs with hl'
      · exact fun hmem => hl l (by rw [hlist]; exact List.mem_cons_of_mem q hmem)
      · exact hl l'

/-- BLOCKED with a wakeup tick, and waiting for nothing else. -/
structure Sleeping (rt : Runtime) (pid : ℤ) (w : ℕ) : Prop where
  asleep : rt.roster.Asleep pid w
  alone : ∀ l, pid ∉ rt.abs.waiters l

/-- The operation is a pass. -/
def RtOp.isPass : RtOp → Bool
  | .pass _ => true
  | _ => false

/-- Before its tick a process is still asleep when somebody is on the CPU, or nobody. -/
theorem Roster.Asleep.dispatched (ha : rt.roster.Asleep pid w) (h : rt.Sound)
    (hdue : ¬ Roster.DueAt w rt.tick) : (dispatch (passPrepare rt)).2.roster.Asleep pid w := by
  have hd := dispatch_roster (passPrepare_spec h).1
  rw [passPrepare_roster h] at hd
  exact ha.chosen hdue hd

/-- A pass in which nobody is on the CPU. -/
theorem Roster.Asleep.idle (ha : rt.roster.Asleep pid w) (h : Consistent rt)
    (hdue : ¬ Roster.DueAt w rt.tick) (hnone : RtOp.executing rt (.pass fuel) = none) :
    (RtOp.exec rt (.pass fuel)).roster.Asleep pid w := by
  have hchosen := ha.dispatched h.sound hdue
  rw [RtOp.exec]
  rw [RtOp.executing] at hnone
  cases hpass : runtimePass fuel rt with
  | none => exact ha
  | some r =>
    obtain ⟨consumed, rt'⟩ := r
    have hroster := runtimePass_roster h hpass
    rw [runtimePass] at hpass
    show rt'.roster.Asleep pid w
    generalize dispatch (passPrepare rt) = m at hchosen hnone hroster hpass
    cases hm : m.1 with
    | false =>
      rw [hm] at hroster
      generalize rt'.roster = r' at hroster ⊢
      cases hroster with
      | idles => exact hchosen.of_proc rfl
    | true =>
      rw [hm, if_pos rfl] at hpass
      rw [if_pos ⟨hm, by rw [hpass]; rfl⟩] at hnone
      cases hnone

/-- A sleeping process sleeps on until its tick has come, unless it is killed. -/
theorem Sleeping.exec (hs : Sleeping rt pid w) (h : Consistent rt) (hw : rt.abs.Waits)
    (hkill : op ≠ .kill pid) (hdue : op.isPass = true → ¬ Roster.DueAt w rt.tick) :
    Sleeping (RtOp.exec rt op) pid w := by
  have hquiet : ∀ {rt' : Runtime}, Relation.ReflTransGen Core.Quiet rt.abs rt'.abs →
      ∀ l, pid ∉ rt'.abs.waiters l := fun hsteps =>
    Core.Quiet.steps (P := fun c => ∀ l, pid ∉ c.waiters l)
      (fun hstep hl => by rwa [hstep.waiters]) hsteps hs.alone
  have hmoves := (op.moves h).2
  by_cases hpass : op.isPass = true
  · obtain ⟨fuel, rfl⟩ : ∃ fuel, op = .pass fuel := by
      cases op with
      | pass fuel => exact ⟨fuel, rfl⟩
      | _ => cases hpass
    cases hmoves with
    | quiet hnone hsteps => exact ⟨hs.asleep.idle h (hdue rfl) hnone, hquiet hsteps⟩
    | exec d fuel' consumed hexecuting hsteps hd hpos hexec =>
      have hasleep : d.roster.Asleep pid w := by
        rw [(executing_eq hexecuting).2]
        exact hs.asleep.dispatched h.sound (hdue rfl)
      obtain ⟨hrun, hflow⟩ := executed_flow hd hpos hexec
        (Core.Quiet.steps Core.Quiet.waits hsteps hw)
      obtain ⟨hproc, hlists⟩ := hflow.sleeping hrun (asleep_iff.mp hasleep) (hquiet hsteps)
      exact ⟨asleep_iff.mpr hproc, hlists⟩
    | spawn _ _ _ _ _ _ _ hcreates => cases hcreates
    | kill q _ hop => cases hop
  · have hnot : ∀ fuel, op ≠ .pass fuel := by
      rintro fuel rfl
      exact hpass rfl
    refine ⟨(op.rosters h).asleep hnot hkill hs.asleep, ?_⟩
    cases hmoves with
    | quiet _ hsteps => exact hquiet hsteps
    | exec d fuel _ hexecuting =>
      cases op with
      | pass fuel => exact absurd rfl (hnot fuel)
      | _ => cases hexecuting
    | spawn q first _ _ _ _ habs =>
      rw [habs]
      exact hs.alone
    | kill q _ _ _ _ habs =>
      rw [habs]
      exact hs.alone

/-! ### I/O -/

variable {insn : WorkloadInsn} {idx : ℕ}

theorem execIo_waiters (h : AtInsn d p idx insn) :
    (execIo d d.currentPid idx insn).abs.waiters = d.abs.waiters := by
  obtain ⟨hs, next, ha⟩ := completeImmediate_spec _ h.sound h.slot
  have hcpu : OnCpu (completeImmediate d idx) p := ⟨h.cpu.pos, h.cpu.get, h.cpu.running⟩
  have hsleep := (sleep_spec hs hcpu ((d.tick + insn.ticks) % 2 ^ 64)
    (makeDetail "until" (toInt32 ((d.tick + insn.ticks) % 2 ^ 64 : ℕ)))).2
  rw [execIo, if_neg (by simp [h.cpu.get])]
  refine (congrArg Core.waiters hsleep).trans ?_
  rw [ha]
  funext l
  cases l <;> rfl

/-- The state behind an `IO`. -/
theorem sleeping_of_io (h : Consistent rt) (hw : rt.abs.Waits)
    (hexec : RtOp.executing rt (.pass fuel) = some d)
    (hinsn : currentInsn d d.currentPid = some (idx, some insn)) (hop : insn.op = .io) :
    Sleeping (RtOp.exec rt (.pass fuel)) d.currentPid ((rt.tick + insn.ticks) % 2 ^ 64) ∧
      (RtOp.exec rt (.pass fuel)).tick = rt.tick := by
  have htick : d.tick = rt.tick := by
    rw [(executing_eq hexec).2]
    exact (dispatch_stirs _).clock.1.trans (passPrepare_stirs rt).clock.1
  cases ((RtOp.pass fuel).moves h).2 with
  | quiet hnone => exact absurd (hnone.symm.trans hexec) nofun
  | spawn _ _ hnone => exact absurd (hnone.symm.trans hexec) nofun
  | kill q _ hop => cases hop
  | exec d' fuel' consumed hexecuting hsteps hd hpos hrun =>
    have hsame := Option.some.inj (hexecuting.symm.trans hexec)
    subst hsame
    obtain ⟨p, hat⟩ : ∃ p, AtInsn d' p idx insn := by
      have hof : d'.insnOf d'.currentPid = some insn := by
        rw [Runtime.insnOf, hinsn]
        rfl
      obtain ⟨p, idx', hat⟩ := atInsn hd.sound hd.placed hpos hof
      have hidx := hat.current.symm.trans hinsn
      cases hidx
      exact ⟨p, hat⟩
    generalize RtOp.exec rt (.pass fuel) = rt' at hrun ⊢
    rw [executeInstruction, hinsn] at hrun
    dsimp only at hrun
    rw [hop] at hrun
    obtain ⟨-, rfl⟩ := Prod.mk.inj (Option.some.inj hrun)
    have hroster := execIo_roster hat
    refine ⟨⟨?_, ?_⟩, ?_⟩
    · rw [hroster, htick]
      exact ⟨_, Function.update_self _ _ _, rfl, rfl⟩
    · rw [execIo_waiters hat]
      exact (Core.Quiet.steps Core.Quiet.waits hsteps hw).not_waiting
        (abs_stateOf hat.cpu.get) (by rw [hat.cpu.running]; decide)
        (by rw [hat.cpu.running]; decide)
    · exact (congrArg Roster.tick hroster).trans htick

/-- BLOCKED until the tick `due`, whatever is done short of a kill: no pass wakes the process
before, and the first one at `due` or later does. -/
def BlocksUntil (rt : Runtime) (pid : ℤ) (due : ℕ) : Prop :=
  ∀ ops, Runs.Along RtOp.exec
      (fun rt op => op ≠ .kill pid ∧ (op.isPass = true → rt.tick < due)) rt ops →
    let rt' := Runs.run RtOp.exec rt ops
    rt'.abs.stateOf pid = some .blocked ∧
      (wakeTimers rt').abs.stateOf pid = some (if rt'.tick < due then .blocked else .ready)

theorem Sleeping.timer (hs : Sleeping rt pid w) (h : rt.Sound) :
    (wakeTimers rt).abs.stateOf pid =
      some (if 0 < w ∧ w ≤ rt.tick then .ready else .blocked) := by
  have hroster := wakeTimers_roster h
  generalize wakeTimers rt = rt' at hroster
  split_ifs with hdue
  · have hawake := hs.asleep.expireAll_due hdue
      (by obtain ⟨e, he, -⟩ := hs.asleep; exact mem_allPids he)
    rw [← hroster] at hawake
    exact hawake.stateOf
  · have hasleep := hs.asleep.expireAll hdue
    rw [← hroster] at hasleep
    exact Core.stateOf_eq (asleep_iff.mp hasleep)

/-- What holds of a sleeping process as long as no pass is made at its tick or later. -/
structure Undisturbed (rt : Runtime) (pid : ℤ) (w : ℕ) : Prop where
  consistent : Consistent rt
  waits : rt.abs.Waits
  bound : rt.tick < 2 ^ 64
  sleeping : Sleeping rt pid w

theorem Undisturbed.exec (h : Undisturbed rt pid w) (hkill : op ≠ .kill pid)
    (hdue : op.isPass = true → ¬ Roster.DueAt w rt.tick) : Undisturbed (RtOp.exec rt op) pid w where
  consistent := RtOp.consistent h.consistent op
  waits := (op.moves h.consistent).2.waits h.waits
  bound := (op.rosters h.consistent).tick_lt h.bound
  sleeping := h.sleeping.exec h.consistent h.waits hkill hdue

/-- A wakeup tick that was computed in 64 bits. -/
theorem Undisturbed.blocksUntil_iff {t n : ℕ} (h : Undisturbed rt pid ((t + n) % 2 ^ 64))
    (ht : rt.tick = t) (hn : 0 < n) (hn' : n < 2 ^ 64) :
    BlocksUntil rt pid (t + n) ↔ t + n ≤ 2 ^ 64 := by
  have hbound := h.bound
  constructor
  · -- beyond `2 ^ 64` the wakeup tick has passed already
    intro hblocks
    by_contra hwraps
    have hdue : 0 < (t + n) % 2 ^ 64 ∧ (t + n) % 2 ^ 64 ≤ rt.tick := by omega
    have hblocked := (hblocks [] trivial).2
    rw [Runs.run_nil, h.sleeping.timer h.consistent.sound, if_pos hdue, if_pos (by omega)]
      at hblocked
    cases hblocked
  · intro hfits ops hok rt'
    -- at `2 ^ 64` itself there is no wakeup tick, and no tick is that late
    have hdue : ∀ s : Runtime, s.tick < 2 ^ 64 →
        (0 < (t + n) % 2 ^ 64 ∧ (t + n) % 2 ^ 64 ≤ s.tick ↔ ¬ s.tick < t + n) := by
      intro s hs
      omega
    have hrt' : Undisturbed rt' pid ((t + n) % 2 ^ 64) := by
      refine Runs.run_invariant (I := fun s => Undisturbed s pid ((t + n) % 2 ^ 64))
        (fun s op hs hop => ?_) h hok
      refine hs.exec hop.1 fun hpass hcome => ?_
      exact (hdue s hs.bound).mp hcome (hop.2 hpass)
    refine ⟨Core.stateOf_eq (asleep_iff.mp hrt'.sleeping.asleep), ?_⟩
    rw [hrt'.sleeping.timer hrt'.consistent.sound]
    by_cases hlate : rt'.tick < t + n
    · rw [if_pos hlate, if_neg fun hcome => (hdue rt' hrt'.bound).mp hcome hlate]
    · rw [if_neg hlate, if_pos ((hdue rt' hrt'.bound).mpr hlate)]

/-- **I/O blocks for its duration.**  In every reachable state, an `IO` that the parser accepts
blocks its process until the tick is its own plus its length, exactly if this sum is at most
`2 ^ 64`. -/
theorem io_blocks_until (ops : List RtOp) (fuel : ℕ) (d : Runtime) (idx : ℕ) (insn : WorkloadInsn)
    (path : CString) (lineno : ℕ) (args : List (List UInt8))
    (hparsed : decodeInsn path lineno (asciiBytes "IO") args = .ok insn)
    (hexec : RtOp.executing (Runs.run RtOp.exec runtimeInit ops) (.pass fuel) = some d)
    (hinsn : currentInsn d d.currentPid = some (idx, some insn)) :
    let rt := Runs.run RtOp.exec runtimeInit ops
    BlocksUntil (RtOp.exec rt (.pass fuel)) d.currentPid (rt.tick + insn.ticks) ↔
      rt.tick + insn.ticks ≤ 2 ^ 64 := by
  intro rt
  obtain ⟨hop, hpos, hlt⟩ : insn.op = .io ∧ 0 < insn.ticks ∧ insn.ticks < 2 ^ 64 := by
    have hname : ¬ asciiBytes "IO" = asciiBytes "CPU" := by decide
    rw [decodeInsn, if_neg hname, if_pos rfl] at hparsed
    exact decodeBurst_eq hparsed
  have h := RtOp.run_consistent ops
  have hw := RtOp.run_waits ops
  have hbound := RtOp.run_tick_lt ops
  show BlocksUntil (RtOp.exec (Runs.run RtOp.exec runtimeInit ops) (.pass fuel)) d.currentPid
    ((Runs.run RtOp.exec runtimeInit ops).tick + insn.ticks) ↔
      (Runs.run RtOp.exec runtimeInit ops).tick + insn.ticks ≤ 2 ^ 64
  generalize Runs.run RtOp.exec runtimeInit ops = rt at hexec h hw hbound ⊢
  obtain ⟨hsleep, htick⟩ := sleeping_of_io h hw hexec hinsn hop
  have hs := RtOp.consistent h (.pass fuel)
  have hws := ((RtOp.pass fuel).moves h).2.waits hw
  generalize RtOp.exec rt (.pass fuel) = s at hsleep htick hs hws ⊢
  rw [← htick] at hbound
  exact Undisturbed.blocksUntil_iff ⟨hs, hws, hbound, hsleep⟩ htick hpos hlt

set_option maxRecDepth 100000 in
/-- `IO 3` at tick 0 ends at tick 3. -/
theorem io_blocks_until_three :
    BlocksUntil (Runs.run RtOp.exec runtimeInit
      [.runWorkload ⟨"io", [⟨.io, 0, 0, 3⟩]⟩ 20, .pass 0]) 1 3 := by
  have hmap : ((RtOp.pass 0).executing (Runs.run RtOp.exec runtimeInit
      [.runWorkload ⟨"io", [⟨.io, 0, 0, 3⟩]⟩ 20])).map
        (fun d => (d.currentPid, currentInsn d d.currentPid)) =
      some (1, some (0, some ⟨.io, 0, 0, 3⟩)) := by
    decide +kernel
  have htick : (Runs.run RtOp.exec runtimeInit
      [.runWorkload ⟨"io", [⟨.io, 0, 0, 3⟩]⟩ 20]).tick = 0 := by
    decide +kernel
  obtain ⟨d, hexec, hd⟩ := Option.map_eq_some_iff.mp hmap
  obtain ⟨hpid, hinsn⟩ := Prod.mk.inj hd
  have h := io_blocks_until [.runWorkload ⟨"io", [⟨.io, 0, 0, 3⟩]⟩ 20] 0 d 0 ⟨.io, 0, 0, 3⟩ "io" 1
    [asciiBytes "3"] (by decide +kernel) hexec hinsn
  dsimp only at h
  rw [htick, hpid] at h
  exact h.mpr (by decide)

set_option maxRecDepth 100000 in
/-- After two ticks, an `IO` of `2 ^ 64 - 1` ticks ends in the next pass, at tick 2. -/
theorem io_ends_early :
    let rt := Runs.run RtOp.exec runtimeInit
      [.runWorkload ⟨"io", [⟨.cpu, 0, 0, 2⟩, ⟨.io, 0, 0, 2 ^ 64 - 1⟩]⟩ 20, .pass 0, .pass 0,
        .pass 0]
    (rt.abs.stateOf 1, rt.tick, (wakeTimers rt).abs.stateOf 1) =
        (some .blocked, 2, some .ready) ∧
      ¬ BlocksUntil rt 1 (2 + (2 ^ 64 - 1)) := by
  intro rt
  have hfacts : (rt.abs.stateOf 1, rt.tick, (wakeTimers rt).abs.stateOf 1) =
      (some .blocked, 2, some .ready) := by
    decide +kernel
  refine ⟨hfacts, fun hblocks => ?_⟩
  have hblocked := (hblocks [] trivial).2
  generalize rt = s at hfacts hblocked
  obtain ⟨-, h⟩ := Prod.mk.inj hfacts
  obtain ⟨htick, hready⟩ := Prod.mk.inj h
  rw [Runs.run_nil, htick, hready] at hblocked
  cases hblocked

end Mosrt
