/-
Programs around a mutex or a semaphore.

A process is inside the section of an object from the instruction by which it acquires the object
to the one by which it releases it.

* `critical_sections` — nobody is inside the section of a mutex but its owner, in every run;
* `handed_over_is_lost` — a mutex that is passed on to a process that waits is never acquired or
  released again: its new owner repeats its `LOCK`, which is refused, and ends.
-/
import Mosrt.SyncEffect

namespace Mosrt

variable {t : SemTable} {m pid w : ℤ} {s s' : Sem} {b : Bool} {insn : WorkloadInsn}

/-! ### Programs -/

/-- After these instructions the object `m` is acquired and not released. -/
def insideAfter (m : ℤ) (insns : List WorkloadInsn) : Bool :=
  insns.foldl (fun b insn => (b || insn.acquires m) && !insn.releases m) false

theorem insideAfter_concat (m : ℤ) (insns : List WorkloadInsn) (insn : WorkloadInsn) :
    insideAfter m (insns ++ [insn]) =
      ((insideAfter m insns || insn.acquires m) && !insn.releases m) := by
  rw [insideAfter, List.foldl_append]
  rfl

namespace Desk

variable {x x' : Desk} {j j' : Job} {l : List (ℤ × WorkloadInsn)}

/-- The process `pid` is inside the section of `m`, by what it has done of its program. -/
def inside (x : Desk) (m pid : ℤ) : Bool :=
  (x.job pid).elim false fun j => insideAfter m (j.insns.take j.pc)

theorem inside_of_job (h : x.job pid = some j) :
    x.inside m pid = insideAfter m (j.insns.take j.pc) := by
  rw [inside, h, Option.elim_some]

theorem inside_of_none (h : x.job pid = none) : x.inside m pid = false := by
  rw [inside, h, Option.elim_none]

theorem inside_congr (h : x'.job pid = x.job pid) : x'.inside m pid = x.inside m pid := by
  rw [inside, inside, h]

theorem Acts.inside (h : x.Acts pid insn b x') (hj : x.job pid = some j)
    (hinsn : j.insns[j.pc]? = some insn) :
    x'.inside m pid = if b then (x.inside m pid || insn.acquires m) && !insn.releases m
      else x.inside m pid := by
  obtain ⟨j', hj', hinsns, hpc⟩ := (h.job hj).1
  rw [inside_of_job hj', inside_of_job hj, hinsns, hpc]
  cases b with
  | false => rfl
  | true =>
    rw [if_pos rfl, Bool.toNat_true, List.take_add_one, hinsn, Option.toList_some,
      insideAfter_concat]

/-- The process `w` exists, and has no program or is about to acquire `m`. -/
structure Standing (x : Desk) (m w : ℤ) : Prop where
  known : x.known w = true
  insn : ∀ j, x.job w = some j → ∃ insn, j.insns[j.pc]? = some insn ∧ insn.acquires m = true

/-- Who is about to acquire an object that it is not given goes nowhere. -/
theorem Step.standing (h : x.Step l x') (hw : x.Standing m w) (hs : semOf x.sems m = some s)
    (hno : (semWait s w).1 ≠ .ok) : x'.Standing m w := by
  cases h with
  | still => exact hw
  | acts pid j insn hpos hknown hj hinsn hacts =>
    obtain ⟨⟨j', hj', hinsns, hpc⟩, hothers, hk⟩ := hacts.job hj
    refine ⟨by rw [hk]; exact hw.known, fun j₁ hj₁ => ?_⟩
    by_cases hpid : w = pid
    · subst hpid
      obtain rfl := Option.some.inj (hj'.symm.trans hj₁)
      obtain ⟨insn', hat, hacq⟩ := hw.insn j hj
      obtain rfl := Option.some.inj (hinsn.symm.trans hat)
      have heffect := hacts.effect m
      rw [hs] at heffect
      rw [heffect.not_done hacq hno] at hpc
      refine ⟨insn, ?_, hacq⟩
      rw [hinsns, hpc]
      exact hinsn
    · rw [hothers w hpid] at hj₁
      exact hw.insn j₁ hj₁
  | spawn pid insns _ hknown =>
    have hne : w ≠ pid := by
      rintro rfl
      rw [hw.known] at hknown
      cases hknown
    refine ⟨(Function.update_of_ne hne _ _).trans hw.known, fun j hj => hw.insn j ?_⟩
    exact (Function.update_of_ne hne _ _).symm.trans hj
  | close pid =>
    refine ⟨hw.known, fun j hj => hw.insn j ?_⟩
    rw [job_setJob] at hj
    split_ifs at hj
    exact hj

/-! ### Sections -/

/-- What holds of the object `m` and the programs around it in every run. -/
structure Orderly (m : ℤ) (x : Desk) : Prop where
  positive : ∀ pid j, x.job pid = some j → 0 < pid
  objects : ∀ s, semOf x.sems m = some s → s.Ok ∧ s.Locks
  inside : ∀ pid, x.inside m pid = true →
    ∃ s, semOf x.sems m = some s ∧ (s.mutex = true → s.ownerPid = pid)
  queue : ∀ s, semOf x.sems m = some s → ∀ w ∈ s.waiters, x.Standing m w

/-- Changing programs only. -/
theorem Orderly.of_sems (h : Orderly m x) (hstep : x.Step l x') (hsems : x'.sems = x.sems)
    (hjob : ∀ q j, x'.job q = some j → x.job q = some j ∨ 0 < q ∧ j.pc = 0) : Orderly m x' := by
  refine ⟨fun q j hj => ?_, fun s hs => ?_, fun q hin => ?_, fun s hs w hw => ?_⟩
  · rcases hjob q j hj with hold | ⟨hpos, -⟩
    · exact h.positive q j hold
    · exact hpos
  · rw [hsems] at hs
    exact h.objects s hs
  · rw [hsems]
    cases hj : x'.job q with
    | none =>
      rw [inside_of_none hj] at hin
      cases hin
    | some j =>
      rw [inside_of_job hj] at hin
      rcases hjob q j hj with hold | ⟨-, hpc⟩
      · exact h.inside q ((inside_of_job hold).trans hin)
      · rw [hpc] at hin
        cases hin
  · rw [hsems] at hs
    exact hstep.standing (h.queue s hs w hw) hs ((h.objects s hs).1.wait_of_mem hw)

theorem Orderly.acts (h : Orderly m x) (hpos : 0 < pid) (hknown : x.known pid = true)
    (hj : x.job pid = some j) (hinsn : j.insns[j.pc]? = some insn)
    (hacts : x.Acts pid insn b x') : Orderly m x' := by
  have heffect := hacts.effect m
  obtain ⟨⟨j', hj', hinsns, hpc⟩, hothers, hk⟩ := hacts.job hj
  refine ⟨fun q j₁ hj₁ => ?_, heffect.locks hpos h.objects, fun q hin => ?_, fun s hs w hw => ?_⟩
  · by_cases hq : q = pid
    · rw [hq]
      exact hpos
    · exact h.positive q j₁ ((hothers q hq).symm.trans hj₁)
  · by_cases hq : q = pid
    · subst hq
      rw [hacts.inside hj hinsn] at hin
      cases b with
      | false => exact heffect.keeps h.objects hpos (h.inside q hin) fun hrel => by cases hrel.2.2
      | true =>
        rw [if_pos rfl, Bool.and_eq_true, Bool.or_eq_true, Bool.not_eq_true'] at hin
        rcases hin.1 with hold | hacq
        · refine heffect.keeps h.objects hpos (h.inside q hold) fun hrel => ?_
          rw [hin.2] at hrel
          cases hrel.2.1
        · exact heffect.owner_of_acquires rfl hacq h.objects
    · have hold : x.inside m q = true := (inside_congr (hothers q hq)).symm.trans hin
      have hqpos : 0 < q := by
        cases hjq : x.job q with
        | none =>
          rw [inside_of_none hjq] at hold
          cases hold
        | some jq => exact h.positive q jq hjq
      exact heffect.keeps h.objects hqpos (h.inside q hold) fun hrel => hq hrel.1.symm
  · rw [hs] at heffect
    rcases heffect.waiters hw with ⟨s₀, hs₀, hw₀⟩ | ⟨rfl, hacq, rfl⟩
    · exact (Step.acts pid j insn hpos hknown hj hinsn hacts).standing (h.queue s₀ hs₀ w hw₀) hs₀
        ((h.objects s₀ hs₀).1.wait_of_mem hw₀)
    · -- the process was told to wait and stands where it stood
      refine ⟨by rw [hk]; exact hknown, fun j₁ hj₁ => ⟨insn, ?_, hacq⟩⟩
      rw [← Option.some.inj (hj'.symm.trans hj₁), hinsns, hpc]
      exact hinsn

theorem Orderly.step (h : Orderly m x) (hstep : x.Step l x') : Orderly m x' := by
  cases hstep with
  | still => exact h
  | acts pid j insn hpos hknown hj hinsn hacts => exact h.acts hpos hknown hj hinsn hacts
  | spawn pid insns hpos hknown =>
    refine h.of_sems (.spawn pid insns hpos hknown) rfl fun q j hj => ?_
    have hj := (job_setJob x pid _ q).symm.trans hj
    split_ifs at hj with hq
    · rw [← Option.some.inj hj, hq]
      exact .inr ⟨hpos, rfl⟩
    · exact .inl hj
  | close pid =>
    refine h.of_sems (.close pid) rfl fun q j hj => ?_
    rw [job_setJob] at hj
    split_ifs at hj
    exact .inl hj

end Desk

theorem job_init (pid : ℤ) : runtimeInit.ledger.job pid = none := by
  show (slotIndex runtimeInit pid).map _ = none
  rw [slotIndex]
  split_ifs <;> rfl

theorem semOf_init (m : ℤ) : semOf syncInit m = none := by
  refine semOf_of_none ?_
  cases hfind : findSem syncInit m with
  | none => rfl
  | some i => exact absurd (findSem_some hfind).2.1 Bool.false_ne_true

theorem orderly_init (m : ℤ) : runtimeInit.desk.Orderly m := by
  have hjob : ∀ q, runtimeInit.desk.job q = none := job_init
  have hnone : ∀ s, semOf runtimeInit.desk.sems m ≠ some s := by
    intro s hs
    exact absurd ((semOf_init m).symm.trans hs) (by simp)
  refine ⟨fun q j hj => ?_, fun s hs => absurd hs (hnone s), fun q hin => ?_,
    fun s hs => absurd hs (hnone s)⟩
  · exact absurd ((hjob q).symm.trans hj) (by simp)
  · rw [Desk.inside_of_none (hjob q)] at hin
    cases hin

theorem RtOp.run_orderly (ops : List RtOp) (m : ℤ) :
    (Runs.run RtOp.exec runtimeInit ops).desk.Orderly m :=
  RtOp.desk_run (I := fun x _ => x.Orderly m) (fun _ _ _ _ hstep h => h.step hstep)
    runtimeInit_consistent [] (orderly_init m) ops

/-- The owner of `m`, if `m` is a mutex; `-1` if it is free. -/
def mutexOwner (t : SemTable) (m : ℤ) : Option ℤ :=
  (semOf t m).bind fun s => if s.mutex then some s.ownerPid else none

theorem mutexOwner_some (h : mutexOwner t m = some w) :
    ∃ s, semOf t m = some s ∧ s.mutex = true ∧ s.ownerPid = w := by
  obtain ⟨s, hs, hown⟩ := Option.bind_eq_some_iff.mp h
  split_ifs at hown with hm
  exact ⟨s, hs, hm, Option.some.inj hown⟩

/-- **Critical sections.**  In every run, kills and scheduler changes included, a process whose
program has acquired an object and not released it finds the object there; if the object is a
mutex, that process is its owner, so that no other is inside the section. -/
theorem critical_sections (ops : List RtOp) (m pid : ℤ) :
    let rt := Runs.run RtOp.exec runtimeInit ops
    rt.desk.inside m pid = true →
      (semOf rt.sems m).isSome = true ∧ ∀ owner, mutexOwner rt.sems m = some owner →
        owner = pid ∧ ∀ other, rt.desk.inside m other = true → other = pid := by
  have horderly := RtOp.run_orderly ops m
  dsimp only
  generalize Runs.run RtOp.exec runtimeInit ops = rt at horderly ⊢
  intro hin
  obtain ⟨s, hs, hown⟩ := horderly.inside pid hin
  have hs : semOf rt.sems m = some s := hs
  refine ⟨by rw [hs]; rfl, fun owner howner => ?_⟩
  obtain ⟨s', hs', hm, rfl⟩ := mutexOwner_some howner
  obtain rfl := Option.some.inj (hs.symm.trans hs')
  refine ⟨hown hm, fun other hother => ?_⟩
  obtain ⟨s', hs', hown'⟩ := horderly.inside other hother
  obtain rfl := Option.some.inj (hs.symm.trans hs')
  exact (hown' hm).symm.trans (hown hm)

/-- Two processes that need the mutex 7; the first waits for a device inside its section. -/
def contention : List RtOp :=
  [.runWorkload ⟨"first", [⟨.lock, 7, 0, 0⟩, ⟨.io, 0, 0, 1⟩, ⟨.unlock, 7, 0, 0⟩]⟩ 10,
    .runWorkload ⟨"second", [⟨.lock, 7, 0, 0⟩, ⟨.unlock, 7, 0, 0⟩]⟩ 10,
    .pass 0, .pass 0, .pass 0]

set_option maxRecDepth 100000 in
theorem critical_sections_contention :
    let rt := Runs.run RtOp.exec runtimeInit contention
    rt.desk.inside 7 1 = true ∧ mutexOwner rt.sems 7 = some 1 ∧
      ∀ other, rt.desk.inside 7 other = true → other = 1 := by
  have hin : (Runs.run RtOp.exec runtimeInit contention).desk.inside 7 1 = true := by
    decide +kernel
  have howner : mutexOwner (Runs.run RtOp.exec runtimeInit contention).sems 7 = some 1 := by
    decide +kernel
  exact ⟨hin, howner, ((critical_sections contention 7 1 hin).2 1 howner).2⟩

/-! ### A mutex that is handed over -/

namespace Desk

variable {x x' : Desk} {l : List (ℤ × WorkloadInsn)}

/-- The mutex `m` has an owner that is still to acquire it. -/
structure Lost (m w : ℤ) (x : Desk) : Prop where
  orderly : x.Orderly m
  positive : 0 < w
  owner : ∃ s, semOf x.sems m = some s ∧ s.mutex = true ∧ s.ownerPid = w
  standing : x.Standing m w

/-- The owner goes nowhere, and the others are turned away. -/
theorem Lost.step (h : Lost m w x) (hstep : x.Step l x') :
    Lost m w x' ∧ ∀ e ∈ l, e.2.acquires m = false ∧ e.2.releases m = false := by
  obtain ⟨s, hs, hm, hown⟩ := h.owner
  have hlocks := (h.orderly.objects s hs).2
  have hpos : 0 < s.ownerPid := by
    rw [hown]
    exact h.positive
  have hstanding := hstep.standing h.standing hs (hlocks.wait_held hm hpos)
  have horderly := h.orderly.step hstep
  cases hstep with
  | still => exact ⟨h, fun e he => by cases he⟩
  | spawn | close =>
    exact ⟨⟨horderly, h.positive, ⟨s, hs, hm, hown⟩, hstanding⟩, fun e he => by cases he⟩
  | @acts b x' pid j insn _ _ hj hinsn hacts =>
    -- the owner's instruction is not a release
    have hrel : pid = s.ownerPid → insn.releases m = false := by
      rintro rfl
      rw [hown] at hj
      obtain ⟨insn', hat, hacq⟩ := h.standing.insn j hj
      rw [← Option.some.inj (hat.symm.trans hinsn)]
      exact not_releases_of_acquires hacq
    have heffect := hacts.effect m
    rw [hs] at heffect
    obtain ⟨s', hs', hkind⟩ := heffect.exists_some
    refine ⟨⟨horderly, h.positive, ⟨s', hs', hkind.trans hm, ?_⟩, hstanding⟩, fun e he => ?_⟩
    · rw [hs'] at heffect
      rcases heffect.owner_of_held hlocks hm hpos with hsame | ⟨hpid, -⟩
      · exact hsame.trans hown
      · rw [hrel hpid.1] at hpid
        cases hpid.2.1
    · split_ifs at he with hb
      · obtain ⟨hacq, howner⟩ := heffect.of_held hb hlocks hm hpos
        rw [List.mem_singleton.mp he]
        refine ⟨hacq, ?_⟩
        by_contra hnot
        have hreleases := (Bool.not_eq_false _).mp hnot
        exact hnot (hrel (howner hreleases))
      · cases he

/-- Only a release that finds somebody waiting makes another process the owner. -/
theorem Orderly.lost (h : Orderly m x) (hstep : x.Step l x') (hs : semOf x.sems m = some s)
    (hs' : semOf x'.sems m = some s') (hm : s.mutex = true) (hown : 0 < s.ownerPid)
    (hnew : 0 < s'.ownerPid) (hne : s'.ownerPid ≠ s.ownerPid) : Lost m s'.ownerPid x' := by
  have hlocks := h.objects s hs
  have horderly := h.step hstep
  have hhanded : s'.ownerPid ∈ s.waiters ∧ s'.mutex = true := by
    cases hstep with
    | still | spawn | close =>
      rw [Option.some.inj (hs.symm.trans hs')] at hne
      exact absurd rfl hne
    | acts pid j insn _ _ _ _ hacts =>
      have heffect := hacts.effect m
      rw [hs] at heffect
      obtain ⟨u, hu, hkind⟩ := heffect.exists_some
      rw [hs'] at heffect hu
      rw [Option.some.inj hu]
      refine ⟨?_, hkind.trans hm⟩
      rw [← Option.some.inj hu]
      rcases heffect.owner_of_held hlocks.2 hm hown with hsame | ⟨-, hfree | hwaits⟩
      · exact absurd hsame hne
      · rw [hfree] at hnew
        exact absurd hnew (by decide)
      · exact hwaits
  exact ⟨horderly, hnew, ⟨s', hs', hhanded.2, rfl⟩,
    hstep.standing (h.queue s hs _ hhanded.1) hs (hlocks.1.wait_of_mem hhanded.1)⟩

end Desk

/-- **A mutex that is handed over is lost.**  If in any run an operation makes the mutex `m` of the
process `p` the property of another process `w`, then `w` is its owner for ever, and no process
ever again gets past an instruction that acquires or releases `m`: the process that was woken
executes its `LOCK` once more, as the owner, and is refused. -/
theorem handed_over_is_lost (ops : List RtOp) (op : RtOp) (more : List RtOp) (m p w : ℤ) :
    let rt := Runs.run RtOp.exec runtimeInit ops
    let rt' := RtOp.exec rt op
    0 < p → 0 < w → w ≠ p → mutexOwner rt.sems m = some p → mutexOwner rt'.sems m = some w →
      mutexOwner (Runs.run RtOp.exec rt' more).sems m = some w ∧
        ∀ e ∈ Runs.history RtOp.exec (fun rt op => op.completes rt) rt' more,
          e.2.acquires m = false ∧ e.2.releases m = false := by
  have horderly := RtOp.run_orderly ops m
  have hconsistent := RtOp.run_consistent ops
  dsimp only
  generalize Runs.run RtOp.exec runtimeInit ops = rt at horderly hconsistent ⊢
  intro hp hw hne hold hnew
  obtain ⟨s, hs, hm, rfl⟩ := mutexOwner_some hold
  obtain ⟨s', hs', hm', rfl⟩ := mutexOwner_some hnew
  have hlost := horderly.lost (op.desk_step hconsistent) hs hs' hm hp hw hne
  have hrun := RtOp.desk_run (I := fun x done => x.Lost m s'.ownerPid ∧
      ∀ e ∈ done, e.2.acquires m = false ∧ e.2.releases m = false)
    (fun x x' l done hstep h => ?_) (op.consistent hconsistent) []
    ⟨hlost, fun e he => by cases he⟩ more
  · generalize Runs.run RtOp.exec (RtOp.exec rt op) more = r at hrun ⊢
    obtain ⟨u, hu, hmu, hown⟩ := hrun.1.owner
    have hu : semOf r.sems m = some u := hu
    refine ⟨?_, hrun.2⟩
    rw [mutexOwner, hu, Option.bind_some, if_pos hmu, hown]
  · obtain ⟨hlost', hl⟩ := h.1.step hstep
    refine ⟨hlost', fun e he => ?_⟩
    rcases List.mem_append.mp he with he | he
    · exact h.2 e he
    · exact hl e he

/-- The first process is about to leave its section. -/
def leaving : List RtOp := contention ++ [.pass 0]

set_option maxRecDepth 100000 in
/-- The second process is the owner, and stays so when it is killed. -/
theorem handed_over_is_lost_contention :
    let rt := Runs.run RtOp.exec runtimeInit leaving
    let rt' := RtOp.exec rt (.pass 0)
    mutexOwner rt.sems 7 = some 1 ∧ mutexOwner rt'.sems 7 = some 2 ∧
      mutexOwner (Runs.run RtOp.exec rt' [.kill 2, .pass 0]).sems 7 = some 2 := by
  have hold : mutexOwner (Runs.run RtOp.exec runtimeInit leaving).sems 7 = some 1 := by
    decide +kernel
  have hnew : mutexOwner (RtOp.exec (Runs.run RtOp.exec runtimeInit leaving) (.pass 0)).sems 7 =
      some 2 := by
    decide +kernel
  exact ⟨hold, hnew, (handed_over_is_lost leaving (.pass 0) [.kill 2, .pass 0] 7 1 2
    (by decide) (by decide) (by decide) hold hnew).1⟩

end Mosrt
