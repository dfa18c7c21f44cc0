/-
Time, and who is charged for it.

A `Ledger` says of every process when it started and ended and how many ticks it ran and waited,
and how far it has come in its workload.  Between two ticks processes change their states
(`Step`); a tick is spent by the one process that runs, or by nobody (`Tick`).

* `Balanced` — every tick is accounted for, and no account exceeds the lifetime of its process;
* `Even` — a process that is READY or RUNNING at every tick is charged for every tick;
* `Worked` — the ticks charged for running are those of the bursts executed.
-/
import Mosrt.Proc
import Mosrt.Workload

namespace Mosrt

/-- What a PCB says about time. -/
structure Account where
  state : ProcState
  start : ℕ
  finish : ℕ
  cpu : ℕ
  wait : ℕ
  response : ℕ

/-- What a slot says about progress. -/
structure Job where
  insns : List WorkloadInsn
  pc : ℕ
  remaining : ℕ

namespace Job

/-- The next instruction. -/
def next (j : Job) : Job := { j with pc := j.pc + 1, remaining := 0 }

/-- A tick of the burst that is going on, with `left` ticks left after it. -/
def burn (j : Job) (left : ℕ) : Job :=
  { j with remaining := left, pc := if left = 0 then j.pc + 1 else j.pc }

end Job

structure Ledger where
  tick : ℕ
  busy : ℕ
  idle : ℕ
  account : ℤ → Option Account
  job : ℤ → Option Job

namespace Account

/-- A change of state at `now`. -/
def turn (a : Account) (st : ProcState) (now : ℕ) : Account :=
  { a with
    response := if st = .running ∧ a.response = uint64Max then sub64 now a.start else a.response
    finish := if st = .exited then now else a.finish
    state := st }

/-- A tick that somebody else runs. -/
def waits (a : Account) : Account :=
  if a.state = .ready then { a with wait := incr64 a.wait } else a

/-- A tick of its own. -/
def runs (a : Account) : Account := { a with cpu := incr64 a.cpu }

/-- The account of a process created at `now`. -/
def opened (now : ℕ) : Account := ⟨.ready, now, 0, 0, 0, uint64Max⟩

/-- The end of the time that an account covers. -/
def endAt (a : Account) (now : ℕ) : ℕ := if a.state = .exited then a.finish else now

end Account

namespace Ledger

variable {fits : Prop} {gone : List ℤ} {l l' : Ledger} {pid : ℤ} {a : Account} {j : Job}

def setAccount (l : Ledger) (pid : ℤ) (a : Account) : Ledger :=
  { l with account := Function.update l.account pid (some a) }

def setJob (l : Ledger) (pid : ℤ) (j : Job) : Ledger :=
  { l with job := Function.update l.job pid (some j) }

/-- A tick of a burst of `pid`, with `left` ticks of the burst left after it. -/
def burst (l : Ledger) (pid : ℤ) (a : Account) (j : Job) (left : ℕ) : Ledger where
  tick := incr64 l.tick
  busy := incr64 l.busy
  idle := l.idle
  account := fun q => if q = pid then some a.runs else (l.account q).map Account.waits
  job := Function.update l.job pid (some (j.burn left))

def idleTick (l : Ledger) : Ledger :=
  { l with
    tick := incr64 l.tick
    idle := incr64 l.idle
    account := fun q => (l.account q).map Account.waits }

/-- A process is woken or put on the CPU. -/
inductive Stir (l : Ledger) : Ledger → Prop
  | turn (pid : ℤ) (a : Account) (st : ProcState) : l.account pid = some a →
      procIsValidTransition a.state st = true → st = .ready ∨ st = .running →
      Stir l (l.setAccount pid (a.turn st l.tick))

/-- What happens between two ticks; `gone` are the processes whose slots may be taken away. -/
inductive Step (gone : List ℤ) (l : Ledger) : Ledger → Prop
  | turn (pid : ℤ) (a : Account) (st : ProcState) : l.account pid = some a →
      procIsValidTransition a.state st = true → Step gone l (l.setAccount pid (a.turn st l.tick))
  | advance (pid : ℤ) (j : Job) (insn : WorkloadInsn) : l.job pid = some j →
      j.insns[j.pc]? = some insn → insn.op ≠ .cpu → insn.op ≠ .exit →
      Step gone l (l.setJob pid j.next)
  | spawn (pid : ℤ) (insns : List WorkloadInsn) : l.account pid = none → 1 ≤ pid →
      pid ≤ mosrtMaxProcs →
      Step gone l ((l.setAccount pid (.opened l.tick)).setJob pid ⟨insns, 0, 0⟩)
  | close (pid : ℤ) : pid ∈ gone →
      Step gone l { l with job := Function.update l.job pid none }

/-- A tick; `fits` says that the clock has room for it. -/
inductive Tick (fits : Prop) (l : Ledger) : Ledger → Prop
  | burst (pid : ℤ) (a : Account) (j : Job) (insn : WorkloadInsn) (left : ℕ) :
      l.account pid = some a → a.state = .running →
      (∀ q b, l.account q = some b → b.state = .running → q = pid) →
      l.job pid = some j → j.insns[j.pc]? = some insn → insn.op = .cpu →
      left + 1 = (if j.remaining = 0 then insn.ticks else j.remaining) →
      (fits → l.tick + 1 < 2 ^ 64) → Tick fits l (l.burst pid a j left)
  | idle : (∀ q b, l.account q = some b → b.state ≠ .running) →
      (fits → l.tick + 1 < 2 ^ 64) → Tick fits l l.idleTick

open Relation

/-- One operation of the runtime. -/
inductive Evolves (fits : Prop) (gone : List ℤ) (l l' : Ledger) : Prop
  | still : ReflTransGen (Step gone) l l' → Evolves fits gone l l'
  | tick (l₁ l₂ : Ledger) : ReflTransGen Stir l l₁ → Tick fits l₁ l₂ → ReflTransGen Stir l₂ l' →
      Evolves fits gone l l'

theorem Stir.step (h : Stir l l') : Step gone l l' := by
  obtain ⟨pid, a, st, ha, hv, -⟩ := h
  exact .turn pid a st ha hv

theorem Stir.steps (h : ReflTransGen Stir l l') : ReflTransGen (Step gone) l l' := by
  induction h with
  | refl => exact .refl
  | tail _ hs ih => exact ih.tail hs.step

/-- No time passes between two ticks. -/
theorem steps_clock (h : ReflTransGen (Step gone) l l') :
    l'.tick = l.tick ∧ l'.busy = l.busy ∧ l'.idle = l.idle := by
  induction h with
  | refl => exact ⟨rfl, rfl, rfl⟩
  | tail _ hs ih => cases hs <;> exact ih

theorem stirs_clock (h : ReflTransGen Stir l l') : l'.tick = l.tick ∧ l'.idle = l.idle :=
  have hsteps : ReflTransGen (Step []) l l' := Stir.steps h
  have hclock := steps_clock hsteps
  ⟨hclock.1, hclock.2.2⟩

theorem Tick.tick (h : Tick fits l l') : l'.tick = incr64 l.tick := by
  cases h <;> rfl

/-- A tick that finds a process RUNNING is not idle. -/
theorem Tick.idle_eq (h : Tick fits l l') (ha : l.account pid = some a)
    (hrun : a.state = .running) :
    l'.idle = l.idle := by
  cases h with
  | burst => rfl
  | idle hnobody _ => exact absurd hrun (hnobody pid a ha)

/-- What steps and ticks preserve, an operation preserves. -/
theorem Evolves.invariant {I : Ledger → Prop} (h : Evolves fits gone l l')
    (hstep : ∀ l l', I l → Step gone l l' → I l') (htick : ∀ l l', I l → Tick fits l l' → I l')
    (hl : I l) : I l' := by
  have hsteps : ∀ {l l'}, I l → ReflTransGen (Step gone) l l' → I l' := by
    intro l l' hl h
    induction h with
    | refl => exact hl
    | tail _ hs ih => exact hstep _ _ ih hs
  cases h with
  | still h => exact hsteps hl h
  | tick l₁ l₂ h₁ h₂ h₃ =>
    exact hsteps (htick _ _ (hsteps hl (Stir.steps h₁)) h₂) (Stir.steps h₃)

/-! ### Every tick is accounted for -/

def cpuOf (l : Ledger) (pid : ℤ) : ℕ := ((l.account pid).map (·.cpu)).getD 0

/-- The account covers a part of the time up to `now`, and charges no more than that. -/
structure Covers (now : ℕ) (a : Account) : Prop where
  known : a.state ≠ .new
  start_le : a.start ≤ a.endAt now
  end_le : a.endAt now ≤ now
  response : a.response ≠ uint64Max → a.start + a.response ≤ a.endAt now
  charged : a.cpu + a.wait ≤ a.endAt now - a.start

structure Balanced (l : Ledger) : Prop where
  clock : l.tick = l.busy + l.idle
  bound : l.tick < 2 ^ 64
  total : ∑ pid ∈ Finset.Icc (1 : ℤ) mosrtMaxProcs, l.cpuOf pid = l.busy
  covers : ∀ pid a, l.account pid = some a → Covers l.tick a
  range : ∀ pid, l.account pid ≠ none → 1 ≤ pid ∧ pid ≤ mosrtMaxProcs

theorem incr64_of_lt {n : ℕ} (h : n + 1 < 2 ^ 64) : incr64 n = n + 1 := Nat.mod_eq_of_lt h

theorem sub64_of_le {m n : ℕ} (h : n ≤ m) (hm : m < 2 ^ 64) : sub64 m n = m - n := by
  have hsum : m + (2 ^ 64 - n) = m - n + 2 ^ 64 := by omega
  rw [sub64, hsum, Nat.add_mod_right, Nat.mod_eq_of_lt (by omega)]

theorem not_new_of_valid {st st' : ProcState} (h : procIsValidTransition st st' = true) :
    st' ≠ .new ∧ st ≠ .exited := by
  constructor
  · rintro rfl
    cases st <;> cases h
  · rintro rfl
    cases h

/-- A change of state neither runs nor waits. -/
theorem Covers.turn {now : ℕ} {st : ProcState} (h : Covers now a) (hnow : now < 2 ^ 64)
    (hv : procIsValidTransition a.state st = true) : Covers now (a.turn st now) := by
  obtain ⟨hnew, hexited⟩ := not_new_of_valid hv
  have hold : a.endAt now = now := if_neg hexited
  have hend : (a.turn st now).endAt now = now := by
    rw [Account.endAt, Account.turn]
    dsimp only
    split_ifs <;> rfl
  have hstart : a.start ≤ now := by
    rw [← hold]
    exact h.start_le
  refine ⟨hnew, by rw [hend]; exact hstart, hend.le, ?_, ?_⟩
  · rw [hend]
    show (if st = .running ∧ a.response = uint64Max then sub64 now a.start else a.response) ≠
      uint64Max → a.start + (if st = .running ∧ a.response = uint64Max then sub64 now a.start
        else a.response) ≤ now
    split_ifs with hset
    · intro _
      rw [sub64_of_le hstart hnow]
      omega
    · have := h.response
      rw [hold] at this
      exact this
  · have := h.charged
    rw [hold] at this
    rw [hend]
    exact this

theorem Covers.opened (now : ℕ) : Covers now (.opened now) :=
  ⟨nofun, le_rfl, le_rfl, fun hne => absurd rfl hne, Nat.zero_le _⟩

/-- A tick lengthens the time of every account that is open. -/
theorem Covers.later {now : ℕ} {b : Account} (h : Covers now a) (hstate : b.state = a.state)
    (hstart : b.start = a.start) (hfinish : b.finish = a.finish) (hresp : b.response = a.response)
    (hcharge : b.cpu + b.wait = a.cpu + a.wait ∨
      a.state ≠ .exited ∧ b.cpu + b.wait = a.cpu + a.wait + 1) : Covers (now + 1) b := by
  obtain ⟨h1, h2, h3, h4, h5⟩ := h
  by_cases hex : a.state = .exited
  · have hold : ∀ t, a.endAt t = a.finish := fun t => if_pos hex
    have hnew : ∀ t, b.endAt t = a.finish :=
      fun t => by rw [Account.endAt, if_pos (hstate.trans hex), hfinish]
    rw [hold] at h2 h3 h4 h5
    refine ⟨by rw [hstate]; exact h1, ?_, ?_, ?_, ?_⟩
    · rw [hnew, hstart]
      exact h2
    · rw [hnew]
      omega
    · rw [hnew, hresp, hstart]
      exact h4
    · rw [hnew, hstart]
      rcases hcharge with hc | ⟨hne, -⟩
      · rw [hc]
        exact h5
      · exact absurd hex hne
  · have hold : ∀ t, a.endAt t = t := fun t => if_neg hex
    have hnew : ∀ t, b.endAt t = t := fun t => if_neg (by rw [hstate]; exact hex)
    rw [hold] at h2 h3 h4 h5
    refine ⟨by rw [hstate]; exact h1, ?_, ?_, ?_, ?_⟩
    · rw [hnew, hstart]
      omega
    · rw [hnew]
    · rw [hnew, hresp, hstart]
      intro hne
      have := h4 hne
      omega
    · rw [hnew, hstart]
      rcases hcharge with hc | ⟨-, hc⟩ <;> omega

theorem Covers.waits {now : ℕ} (h : Covers now a) (hnow : now + 1 < 2 ^ 64) :
    Covers (now + 1) a.waits := by
  rw [Account.waits]
  split_ifs with hready
  · have hend : a.endAt now = now := if_neg (by rw [hready]; exact nofun)
    have hcharged := h.charged
    rw [hend] at hcharged
    refine h.later rfl rfl rfl rfl (.inr ⟨by rw [hready]; exact nofun, ?_⟩)
    show a.cpu + incr64 a.wait = _
    rw [incr64_of_lt (by omega)]
    omega
  · exact h.later rfl rfl rfl rfl (.inl rfl)

theorem Covers.runs {now : ℕ} (h : Covers now a) (hnow : now + 1 < 2 ^ 64)
    (hrun : a.state = .running) : Covers (now + 1) a.runs := by
  have hend : a.endAt now = now := if_neg (by rw [hrun]; exact nofun)
  have hcharged := h.charged
  rw [hend] at hcharged
  refine h.later rfl rfl rfl rfl (.inr ⟨by rw [hrun]; exact nofun, ?_⟩)
  show incr64 a.cpu + a.wait = _
  rw [incr64_of_lt (by omega)]
  omega

theorem account_setAccount {q : ℤ} : (l.setAccount pid a).account q =
    if q = pid then some a else l.account q := Function.update_apply _ _ _ _

/-- Writing an account with the same running time. -/
theorem cpuOf_setAccount (hcpu : a.cpu = l.cpuOf pid) (q : ℤ) :
    (l.setAccount pid a).cpuOf q = l.cpuOf q := by
  rw [cpuOf, account_setAccount]
  split_ifs with hq
  · rw [hq]
    exact hcpu
  · rfl

theorem Balanced.setAccount (h : Balanced l) (hcpu : a.cpu = l.cpuOf pid) (ha : Covers l.tick a)
    (hpid : 1 ≤ pid ∧ pid ≤ mosrtMaxProcs) : Balanced (l.setAccount pid a) := by
  refine ⟨h.clock, h.bound, ?_, ?_, ?_⟩
  · rw [Finset.sum_congr rfl fun q _ => cpuOf_setAccount hcpu q]
    exact h.total
  · intro q b hb
    rw [account_setAccount] at hb
    split_ifs at hb
    · obtain rfl := Option.some.inj hb
      exact ha
    · exact h.covers q b hb
  · intro q hq
    rw [account_setAccount] at hq
    split_ifs at hq with heq
    · rw [heq]
      exact hpid
    · exact h.range q hq

theorem cpuOf_of_account (h : l.account pid = some a) : l.cpuOf pid = a.cpu := by
  rw [cpuOf, h]
  rfl

theorem Balanced.step (h : Balanced l) (hs : Step gone l l') : Balanced l' := by
  cases hs with
  | turn pid a st ha hv =>
    refine h.setAccount (cpuOf_of_account ha).symm ((h.covers pid a ha).turn h.bound hv) ?_
    exact h.range pid (by rw [ha]; exact Option.some_ne_none _)
  | advance | close => exact ⟨h.clock, h.bound, h.total, h.covers, h.range⟩
  | spawn pid insns hnone hpos hmax =>
    have hcpu : (Account.opened l.tick).cpu = l.cpuOf pid := by
      rw [cpuOf, hnone]
      rfl
    have hopen := h.setAccount hcpu (Covers.opened l.tick) ⟨hpos, hmax⟩
    exact ⟨hopen.clock, hopen.bound, hopen.total, hopen.covers, hopen.range⟩

theorem waits_cpu (a : Account) : a.waits.cpu = a.cpu := by
  rw [Account.waits]
  split_ifs <;> rfl

theorem Balanced.tick (h : Balanced l) (hs : Tick True l l') : Balanced l' := by
  have hclock := h.clock
  cases hs with
  | burst pid a j insn left ha hrun _ _ _ _ _ hfits =>
    have hnow := hfits trivial
    have hcover := h.covers pid a ha
    have hmem : pid ∈ Finset.Icc (1 : ℤ) mosrtMaxProcs :=
      Finset.mem_Icc.mpr (h.range pid (by rw [ha]; exact Option.some_ne_none _))
    have hcpu : ∀ q, (l.burst pid a j left).cpuOf q = l.cpuOf q + if q = pid then 1 else 0 := by
      intro q
      show (((if q = pid then some a.runs else (l.account q).map Account.waits)).map _).getD 0 = _
      split_ifs with hq
      · have hend : a.endAt l.tick = l.tick := if_neg (by rw [hrun]; exact nofun)
        have hcharged := hcover.charged
        rw [hend] at hcharged
        rw [hq, cpuOf_of_account ha]
        exact incr64_of_lt (by omega)
      · rw [cpuOf, Option.map_map]
        congr 2
        funext b
        exact waits_cpu b
    have htick : (l.burst pid a j left).tick = l.tick + 1 := incr64_of_lt hnow
    have hbusy : (l.burst pid a j left).busy = l.busy + 1 := incr64_of_lt (by omega)
    refine ⟨?_, by rw [htick]; exact hnow, ?_, ?_, ?_⟩
    · rw [htick, hbusy]
      show l.tick + 1 = l.busy + 1 + l.idle
      omega
    · rw [Finset.sum_congr rfl fun q _ => hcpu q, Finset.sum_add_distrib, h.total,
        Finset.sum_ite_eq' (Finset.Icc (1 : ℤ) mosrtMaxProcs) pid, if_pos hmem, hbusy]
    · intro q b hb
      rw [htick]
      have hb' : (if q = pid then some a.runs else (l.account q).map Account.waits) = some b := hb
      split_ifs at hb'
      · obtain rfl := Option.some.inj hb'
        exact hcover.runs hnow hrun
      · obtain ⟨c, hc, rfl⟩ := Option.map_eq_some_iff.mp hb'
        exact (h.covers q c hc).waits hnow
    · intro q hq
      have hq' : (if q = pid then some a.runs else (l.account q).map Account.waits) ≠ none := hq
      split_ifs at hq' with heq
      · rw [heq]
        exact Finset.mem_Icc.mp hmem
      · exact h.range q fun hnone => hq' (by rw [hnone]; rfl)
  | idle _ hfits =>
    have hnow := hfits trivial
    have hcpu : ∀ q, l.idleTick.cpuOf q = l.cpuOf q := by
      intro q
      show (((l.account q).map Account.waits).map _).getD 0 = _
      rw [cpuOf, Option.map_map]
      congr 2
      funext b
      exact waits_cpu b
    have htick : l.idleTick.tick = l.tick + 1 := incr64_of_lt hnow
    have hidle : l.idleTick.idle = l.idle + 1 := incr64_of_lt (by omega)
    refine ⟨?_, by rw [htick]; exact hnow, ?_, ?_, ?_⟩
    · rw [htick, hidle]
      show l.tick + 1 = l.busy + (l.idle + 1)
      omega
    · rw [Finset.sum_congr rfl fun q _ => hcpu q]
      exact h.total
    · intro q b hb
      obtain ⟨c, hc, rfl⟩ := Option.map_eq_some_iff.mp hb
      rw [htick]
      exact (h.covers q c hc).waits hnow
    · intro q hq
      exact h.range q fun hnone => hq (by
        show (l.account q).map _ = none
        rw [hnone]
        rfl)

theorem Balanced.evolves (h : Balanced l) (he : Evolves True gone l l') : Balanced l' :=
  he.invariant (fun _ _ h hs => h.step hs) (fun _ _ h hs => h.tick hs) h

/-! ### Processes that never block -/

/-- Every tick of the life of `pid` is charged to it. -/
def Even (pid : ℤ) (l : Ledger) : Prop :=
  ∀ a, l.account pid = some a → a.cpu + a.wait = a.endAt l.tick - a.start

/-- `pid` is not BLOCKED. -/
def Free (pid : ℤ) (l : Ledger) : Prop := ∀ a, l.account pid = some a → a.state ≠ .blocked

theorem Even.step (h : Even pid l) (hs : Step gone l l') : Even pid l' := by
  cases hs with
  | turn q b st hb hv =>
    intro a ha
    rw [account_setAccount] at ha
    split_ifs at ha with hq
    · obtain rfl := Option.some.inj ha
      have hold := h b (by rw [hq]; exact hb)
      have hopen : b.endAt l.tick = l.tick := if_neg (not_new_of_valid hv).2
      have hend : (b.turn st l.tick).endAt l.tick = l.tick := by
        rw [Account.endAt, Account.turn]
        dsimp only
        split_ifs <;> rfl
      rw [hopen] at hold
      show b.cpu + b.wait = (b.turn st l.tick).endAt l.tick - b.start
      rw [hend]
      exact hold
    · exact h a ha
  | advance | close => exact h
  | spawn q insns =>
    intro a ha
    have ha' : (l.setAccount q (.opened l.tick)).account pid = some a := ha
    rw [account_setAccount] at ha'
    split_ifs at ha'
    · obtain rfl := Option.some.inj ha'
      exact (Nat.sub_self l.tick).symm
    · exact h a ha'

theorem Free.stir (h : Free pid l) (hs : Stir l l') : Free pid l' := by
  obtain ⟨q, b, st, hb, -, hst⟩ := hs
  intro a ha
  rw [account_setAccount] at ha
  split_ifs at ha
  · obtain rfl := Option.some.inj ha
    show st ≠ .blocked
    rcases hst with rfl | rfl <;> exact nofun
  · exact h a ha

theorem Free.stirs (h : Free pid l) (hs : ReflTransGen Stir l l') : Free pid l' := by
  induction hs with
  | refl => exact h
  | tail _ hs ih => exact ih.stir hs

/-- A tick finds the process RUNNING, READY or gone. -/
theorem Even.tick (h : Even pid l) (hb : Balanced l) (hfree : Free pid l) (hs : Tick True l l') :
    Even pid l' := by
  have hwaits : ∀ a, l.account pid = some a → a.state ≠ .running → l.tick + 1 < 2 ^ 64 →
      a.waits.cpu + a.waits.wait = a.waits.endAt (l.tick + 1) - a.waits.start := by
    intro a ha hrun hnow
    have hcover := hb.covers pid a ha
    have hold := h a ha
    rw [Account.waits]
    split_ifs with hready
    · have hend : a.endAt l.tick = l.tick := if_neg (by rw [hready]; exact nofun)
      have hstart := hcover.start_le
      rw [hend] at hold hstart
      have hend' : ({ a with wait := incr64 a.wait } : Account).endAt (l.tick + 1) = l.tick + 1 :=
        if_neg (by rw [hready]; exact nofun)
      rw [hend']
      show a.cpu + incr64 a.wait = l.tick + 1 - a.start
      rw [incr64_of_lt (by omega)]
      omega
    · -- neither READY nor RUNNING nor BLOCKED: it has exited
      have hex : a.state = .exited := by
        have h1 := hfree a ha
        have h2 := hcover.known
        cases hst : a.state <;> simp_all
      have hend : ∀ t, a.endAt t = a.finish := fun t => if_pos hex
      rw [hend] at hold ⊢
      exact hold
  cases hs with
  | burst q b j insn left hacc hrun honly _ _ _ _ hfits =>
    have hnow := hfits trivial
    have htick : (l.burst q b j left).tick = l.tick + 1 := incr64_of_lt hnow
    intro a ha
    rw [htick]
    have ha' : (if pid = q then some b.runs else (l.account pid).map Account.waits) = some a := ha
    split_ifs at ha' with hq
    · obtain rfl := Option.some.inj ha'
      rw [← hq] at hacc
      have hend : b.endAt l.tick = l.tick := if_neg (by rw [hrun]; exact nofun)
      have hend' : b.runs.endAt (l.tick + 1) = l.tick + 1 := if_neg (by
        show b.state ≠ .exited
        rw [hrun]
        exact nofun)
      have hold := h b hacc
      have hstart := (hb.covers pid b hacc).start_le
      rw [hend] at hold hstart
      rw [hend']
      show incr64 b.cpu + b.wait = l.tick + 1 - b.start
      rw [incr64_of_lt (by omega)]
      omega
    · obtain ⟨c, hc, rfl⟩ := Option.map_eq_some_iff.mp ha'
      exact hwaits c hc (fun hcrun => hq (honly pid c hc hcrun)) hnow
  | idle hnobody hfits =>
    have hnow := hfits trivial
    have htick : l.idleTick.tick = l.tick + 1 := incr64_of_lt hnow
    intro a ha
    rw [htick]
    obtain ⟨c, hc, rfl⟩ := Option.map_eq_some_iff.mp ha
    exact hwaits c hc (hnobody pid c hc) hnow

/-- A process that is not BLOCKED before an operation is charged for the tick it may take. -/
theorem Even.evolves (h : Even pid l) (hb : Balanced l) (hfree : Free pid l)
    (he : Evolves True gone l l') : Even pid l' := by
  have hsteps : ∀ {l l'}, Even pid l → ReflTransGen (Step gone) l l' → Even pid l' := by
    intro l l' hl hs
    induction hs with
    | refl => exact hl
    | tail _ hs ih => exact ih.step hs
  cases he with
  | still hs => exact hsteps h hs
  | tick l₁ l₂ h₁ h₂ h₃ =>
    have hs₁ : ReflTransGen (Step gone) l l₁ := Stir.steps h₁
    have hb₁ : Balanced l₁ := hb.evolves (.still hs₁)
    exact hsteps ((hsteps h hs₁).tick hb₁ (hfree.stirs h₁) h₂) (Stir.steps h₃)

/-! ### When everybody has ended -/

def Ended (l : Ledger) : Prop := ∀ pid a, l.account pid = some a → a.state = .exited

/-- Nobody is woken any more. -/
theorem Ended.stirs (h : Ended l) (hs : ReflTransGen Stir l l') : l' = l := by
  induction hs with
  | refl => rfl
  | tail _ hs ih =>
    subst ih
    obtain ⟨pid, a, st, ha, hv, -⟩ := hs
    exact absurd (h pid a ha) (not_new_of_valid hv).2

theorem Ended.idleTick_account (h : Ended l) : l.idleTick.account = l.account := by
  funext pid
  show (l.account pid).map Account.waits = l.account pid
  cases ha : l.account pid with
  | none => rfl
  | some a =>
    have hwaits : a.waits = a := if_neg (by rw [h pid a ha]; exact nofun)
    rw [Option.map_some, hwaits]

end Ledger

/-! ### Work -/

namespace Job

/-- The ticks of the bursts among `insns`. -/
def burstTicks (insns : List WorkloadInsn) : ℕ :=
  (insns.map fun insn => if insn.op = .cpu then insn.ticks else 0).sum

/-- The ticks spent on the burst that is going on. -/
def spent (j : Job) : ℕ :=
  match j.insns[j.pc]? with
  | none => 0
  | some insn => if insn.op = .cpu ∧ 0 < j.remaining then insn.ticks - j.remaining else 0

/-- The ticks of all bursts executed. -/
def done (j : Job) : ℕ := burstTicks (j.insns.take j.pc) + j.spent

/-- Only a burst that is going on has ticks remaining, and the program counter never passes an
`EXIT`. -/
structure Ok (j : Job) : Prop where
  remaining : 0 < j.remaining → ∃ insn, j.insns[j.pc]? = some insn ∧ insn.op = .cpu ∧
    j.remaining ≤ insn.ticks
  noExit : ∀ insn ∈ j.insns.take j.pc, insn.op ≠ .exit

variable {j : Job} {insn : WorkloadInsn} {left : ℕ}

theorem burstTicks_take (hinsn : j.insns[j.pc]? = some insn) :
    burstTicks (j.insns.take (j.pc + 1)) =
      burstTicks (j.insns.take j.pc) + if insn.op = .cpu then insn.ticks else 0 := by
  rw [burstTicks, burstTicks, List.take_add_one, hinsn, Option.toList_some, List.map_append,
    List.sum_append, List.map_singleton, List.sum_singleton]

theorem mem_take_succ (hinsn : j.insns[j.pc]? = some insn) {insn' : WorkloadInsn}
    (hmem : insn' ∈ j.insns.take (j.pc + 1)) : insn' ∈ j.insns.take j.pc ∨ insn' = insn := by
  rw [List.take_add_one, hinsn, Option.toList_some, List.mem_append, List.mem_singleton] at hmem
  exact hmem

theorem spent_of_zero {insns : List WorkloadInsn} {pc : ℕ} : (⟨insns, pc, 0⟩ : Job).spent = 0 := by
  rw [spent]
  split
  · rfl
  · exact if_neg fun h => absurd h.2 (lt_irrefl 0)

/-- Any other instruction is no work. -/
theorem done_advance (hinsn : j.insns[j.pc]? = some insn) (hop : insn.op ≠ .cpu) :
    j.next.done = j.done := by
  have hspent : j.spent = 0 := by
    rw [spent, hinsn]
    exact if_neg fun h => hop h.1
  have hnext : j.next.spent = 0 := spent_of_zero
  show burstTicks (j.insns.take (j.pc + 1)) + j.next.spent = _
  rw [done, hspent, hnext, burstTicks_take hinsn, if_neg hop]

theorem Ok.advance (h : j.Ok) (hinsn : j.insns[j.pc]? = some insn) (hop : insn.op ≠ .exit) :
    j.next.Ok := by
  refine ⟨fun hpos => absurd hpos (lt_irrefl 0), fun insn' hmem => ?_⟩
  rcases mem_take_succ hinsn hmem with hmem | rfl
  · exact h.noExit insn' hmem
  · exact hop

/-- A tick of a burst is a tick of work. -/
theorem done_burst (h : j.Ok) (hinsn : j.insns[j.pc]? = some insn) (hop : insn.op = .cpu)
    (hleft : left + 1 = if j.remaining = 0 then insn.ticks else j.remaining) :
    (j.burn left).done = j.done + 1 := by
  -- what was spent before, whether or not the burst had been loaded
  have hspent : j.spent + (left + 1) = insn.ticks := by
    rw [spent, hinsn]
    dsimp only
    by_cases h0 : j.remaining = 0
    · rw [if_pos h0] at hleft
      rw [if_neg (by omega)]
      omega
    · rw [if_neg h0] at hleft
      obtain ⟨insn', hinsn', -, hle⟩ := h.remaining (by omega)
      rw [hinsn] at hinsn'
      obtain rfl := Option.some.inj hinsn'
      rw [if_pos ⟨hop, by omega⟩]
      omega
  by_cases h0 : left = 0
  · have hburn : j.burn left = j.next := by
      rw [burn, if_pos h0, h0]
      rfl
    have hnext : j.next.spent = 0 := spent_of_zero
    rw [hburn, done, done, hnext]
    show burstTicks (j.insns.take (j.pc + 1)) + 0 = _
    rw [burstTicks_take hinsn, if_pos hop]
    omega
  · have hburn : j.burn left = ⟨j.insns, j.pc, left⟩ := by rw [burn, if_neg h0]
    have hnew : (⟨j.insns, j.pc, left⟩ : Job).spent = insn.ticks - left := by
      rw [spent]
      dsimp only
      rw [hinsn]
      exact if_pos ⟨hop, Nat.pos_of_ne_zero h0⟩
    rw [hburn, done, done, hnew]
    show burstTicks (j.insns.take j.pc) + _ = _
    omega

theorem Ok.burst (h : j.Ok) (hinsn : j.insns[j.pc]? = some insn) (hop : insn.op = .cpu)
    (hleft : left + 1 = if j.remaining = 0 then insn.ticks else j.remaining) :
    (j.burn left).Ok := by
  rw [burn]
  by_cases h0 : left = 0
  · rw [if_pos h0, h0]
    exact h.advance hinsn (by rw [hop]; exact nofun)
  · rw [if_neg h0]
    refine ⟨fun _ => ⟨insn, hinsn, hop, ?_⟩, h.noExit⟩
    show left ≤ insn.ticks
    by_cases hr : j.remaining = 0
    · rw [if_pos hr] at hleft
      omega
    · rw [if_neg hr] at hleft
      obtain ⟨insn', hinsn', -, hle⟩ := h.remaining (by omega)
      rw [hinsn] at hinsn'
      obtain rfl := Option.some.inj hinsn'
      omega

end Job

namespace Ledger

variable {fits : Prop} {gone : List ℤ} {l l' : Ledger}

/-- Every process has been charged for the work it did. -/
def Worked (l : Ledger) : Prop :=
  ∀ pid a j, l.account pid = some a → l.job pid = some j → j.Ok ∧ a.cpu = j.done % 2 ^ 64

theorem Worked.step (h : Worked l) (hs : Step gone l l') : Worked l' := by
  cases hs with
  | turn q b st hb hv =>
    intro pid a j ha hj
    rw [account_setAccount] at ha
    split_ifs at ha with hq
    · obtain rfl := Option.some.inj ha
      exact h pid b j (by rw [hq]; exact hb) hj
    · exact h pid a j ha hj
  | advance q j' insn hjob hinsn hcpu hexit =>
    intro pid a j ha hj
    have hj' : Function.update l.job q (some j'.next) pid = some j := hj
    rw [Function.update_apply] at hj'
    split_ifs at hj' with hq
    · obtain rfl := Option.some.inj hj'
      obtain ⟨hok, hdone⟩ := h pid a j' ha (by rw [hq]; exact hjob)
      rw [Job.done_advance hinsn hcpu]
      exact ⟨hok.advance hinsn hexit, hdone⟩
    · exact h pid a j ha hj'
  | spawn q insns hnone =>
    intro pid a j ha hj
    have ha' : (l.setAccount q (.opened l.tick)).account pid = some a := ha
    have hj' : Function.update l.job q (some ⟨insns, 0, 0⟩) pid = some j := hj
    rw [account_setAccount] at ha'
    rw [Function.update_apply] at hj'
    split_ifs at ha' hj' with hq
    · obtain rfl := Option.some.inj ha'
      obtain rfl := Option.some.inj hj'
      refine ⟨⟨fun hpos => absurd hpos (lt_irrefl 0), fun insn hmem => nomatch hmem⟩, ?_⟩
      rw [Job.done, Job.spent_of_zero]
      rfl
    · exact h pid a j ha' hj'
  | close q _ =>
    intro pid a j ha hj
    have hj' : Function.update l.job q none pid = some j := hj
    rw [Function.update_apply] at hj'
    split_ifs at hj'
    exact h pid a j ha hj'

theorem Worked.tick (h : Worked l) (hs : Tick fits l l') : Worked l' := by
  cases hs with
  | burst q b j' insn left hacc hrun honly hjob hinsn hcpu hleft _ =>
    intro pid a j ha hj
    have ha' : (if pid = q then some b.runs else (l.account pid).map Account.waits) = some a := ha
    have hj' : Function.update l.job q (some (j'.burn left)) pid = some j := hj
    rw [Function.update_apply] at hj'
    split_ifs at ha' hj' with hq
    · obtain rfl := Option.some.inj ha'
      obtain rfl := Option.some.inj hj'
      obtain ⟨hok, hdone⟩ := h q b j' hacc hjob
      refine ⟨hok.burst hinsn hcpu hleft, ?_⟩
      rw [Job.done_burst hok hinsn hcpu hleft]
      show incr64 b.cpu = _
      rw [hdone, incr64, Nat.mod_add_mod]
    · obtain ⟨c, hc, rfl⟩ := Option.map_eq_some_iff.mp ha'
      rw [waits_cpu]
      exact h pid c j hc hj'
  | idle =>
    intro pid a j ha hj
    obtain ⟨c, hc, rfl⟩ := Option.map_eq_some_iff.mp ha
    rw [waits_cpu]
    exact h pid c j hc hj

theorem Worked.evolves (h : Worked l) (he : Evolves fits gone l l') : Worked l' :=
  he.invariant (fun _ _ h hs => h.step hs) (fun _ _ h hs => h.tick hs) h

/-- Every process but those in `gone` has its slot. -/
def Kept (gone : List ℤ) (l : Ledger) : Prop :=
  ∀ pid, l.account pid ≠ none → pid ∉ gone → l.job pid ≠ none

theorem Kept.evolves {gone' : List ℤ} (h : Kept gone l) (he : Evolves fits gone' l l') :
    Kept (gone ++ gone') l' := by
  have hbefore : Kept (gone ++ gone') l := fun pid ha hpid =>
    h pid ha fun hmem => hpid (List.mem_append_left _ hmem)
  refine he.invariant (I := Kept (gone ++ gone')) ?_ ?_ hbefore
  · intro l l' hl hs pid ha hpid
    cases hs with
    | turn q b st hb _ =>
      rw [account_setAccount] at ha
      refine hl pid ?_ hpid
      split_ifs at ha with hq
      · rw [hq, hb]
        exact Option.some_ne_none _
      · exact ha
    | advance q j insn _ _ _ _ =>
      show Function.update l.job q _ pid ≠ none
      rw [Function.update_apply]
      split_ifs
      · exact Option.some_ne_none _
      · exact hl pid ha hpid
    | spawn q insns _ _ _ =>
      show Function.update l.job q _ pid ≠ none
      have ha' : (l.setAccount q (.opened l.tick)).account pid ≠ none := ha
      rw [account_setAccount] at ha'
      rw [Function.update_apply]
      split_ifs at ha' ⊢
      · exact Option.some_ne_none _
      · exact hl pid ha' hpid
    | close q hq =>
      show Function.update l.job q none pid ≠ none
      rw [Function.update_apply, if_neg]
      · exact hl pid ha hpid
      · rintro rfl
        exact hpid (List.mem_append_right _ hq)
  · intro l l' hl hs pid ha hpid
    cases hs with
    | burst q b j insn left hacc _ _ _ _ _ _ _ =>
      show Function.update l.job q _ pid ≠ none
      have ha' : (if pid = q then some b.runs else (l.account pid).map Account.waits) ≠ none := ha
      rw [Function.update_apply]
      split_ifs at ha' ⊢
      · exact Option.some_ne_none _
      · exact hl pid (fun hnone => ha' (by rw [hnone]; rfl)) hpid
    | idle =>
      refine hl pid (fun hnone => ha ?_) hpid
      show (l.account pid).map _ = none
      rw [hnone]
      rfl

end Ledger

end Mosrt
