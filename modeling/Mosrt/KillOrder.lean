/-
What a kill does to the order of the others.

`runtime_kill` clears the ready queues and fills them again from the process table, so that each
ring comes out in the order of the table, which is the order of the pids.

* `Roster.kill_ring_mem` — a ring loses the killed process and nobody else;
* `kill_keeps_order` — the order of the others is unchanged exactly if it was that of their pids.
-/
import Mosrt.RosterSpec

namespace Mosrt

namespace Roster

variable {r : Roster} {pid q : ℤ} {e : RosterEntry} {l : ℕ}

theorem rebuilt_pairwise (r : Roster) (l : ℕ) : (r.rebuilt l).Pairwise (· < ·) := by
  rw [rebuilt]
  split_ifs
  · exact .nil
  · exact pairwise_allPids.filter _

theorem readyIn_kill : (r.kill pid e).readyIn q l = true ↔ q ≠ pid ∧ r.readyIn q l = true := by
  have hproc : (r.kill pid e).proc q =
    Function.update r.proc pid (some { e with state := .exited, wakeup := 0 }) q := rfl
  rw [readyIn_iff, readyIn_iff, hproc, Function.update_apply]
  by_cases hqp : q = pid
  · simp [hqp]
  · simp only [hqp, if_false, ne_eq, not_false_eq_true, true_and]
    exact Iff.rfl

theorem kill_ring_mem (hq : r.Queued) (ha : r.algo ≠ .prio)
    (hrange : ∀ q l, r.readyIn q l = true → q ∈ allPids) (l : ℕ) :
    q ∈ (r.kill pid e).ring l ↔ q ∈ (r.ring l).erase pid := by
  obtain ⟨hnodup, hmem⟩ := hq ha l
  have hring : (r.kill pid e).ring l =
      allPids.filter fun q => (r.kill pid e).readyIn q l := if_neg ha
  rw [hring, List.mem_filter, readyIn_kill, hnodup.mem_erase_iff, hmem]
  exact ⟨fun h => h.2, fun h => ⟨hrange q l h.2, h⟩⟩

theorem kill_ring (hq : r.Queued) (ha : r.algo ≠ .prio)
    (hrange : ∀ q l, r.readyIn q l = true → q ∈ allPids) (l : ℕ) :
    (r.kill pid e).ring l = (r.ring l).erase pid ↔ ((r.ring l).erase pid).Pairwise (· < ·) := by
  have hsorted : ((r.kill pid e).ring l).Pairwise (· < ·) := rebuilt_pairwise _ l
  constructor
  · intro heq
    rw [← heq]
    exact hsorted
  · intro hsorted'
    have hmem : ∀ q, q ∈ (r.kill pid e).ring l ↔ q ∈ (r.ring l).erase pid :=
      fun _ => kill_ring_mem hq ha hrange l
    have hperm := (List.perm_ext_iff_of_nodup (hsorted.imp ne_of_lt) (hsorted'.imp ne_of_lt)).mpr
      hmem
    exact hperm.eq_of_pairwise (fun a b _ _ hab hba => absurd hab (lt_asymm hba)) hsorted hsorted'

end Roster

variable {rt : Runtime} {pid : ℤ}

theorem readyIn_allPids {l : ℕ} (h : rt.roster.readyIn pid l = true) : pid ∈ allPids := by
  obtain ⟨e, he, -⟩ := Roster.readyIn_iff.mp h
  exact mem_allPids he

/-- **Kill and the order of the others.**  In every reachable state under a policy with ready
queues, a kill removes the pid from its queue and leaves the order of the others alone exactly if
there was nobody to kill, or each queue without the pid holds its pids in ascending order. -/
theorem kill_keeps_order (ops : List RtOp) (pid : ℤ) :
    let rt := Runs.run RtOp.exec runtimeInit ops
    rt.scheduler.algo ≠ .prio →
      ((∀ l, (runtimeKill rt pid).2.scheduler.rings l = (rt.scheduler.rings l).erase pid) ↔
        (∀ p, procGet rt.procs pid = some p → p.state = .exited) ∨
          ∀ l, ((rt.scheduler.rings l).erase pid).Pairwise (· < ·)) := by
  intro rt ha
  have hrt : Consistent rt := RtOp.run_consistent ops
  have hq := hrt.sound.queued
  rcases runtimeKill_roster hrt pid with ⟨hgone, heq⟩ | ⟨e, he, hst, heq⟩
  · -- nobody is killed, and nobody leaves a queue
    have hrings : (runtimeKill rt pid).2.scheduler.rings = rt.scheduler.rings :=
      congrArg Roster.ring heq
    refine iff_of_true (fun l => ?_) (.inl fun p hp => hgone p.entry (roster_proc hp))
    rw [hrings, List.erase_of_not_mem]
    intro hmem
    obtain ⟨e, he, hready, -⟩ := Roster.readyIn_iff.mp (((hq ha l).2 pid).mp hmem)
    exact absurd ((hgone e he).symm.trans hready) nofun
  · have hrings : (runtimeKill rt pid).2.scheduler.rings = (rt.roster.kill pid e).ring :=
      congrArg Roster.ring heq
    have halive : ¬ ∀ p, procGet rt.procs pid = some p → p.state = .exited := by
      intro hall
      obtain ⟨p, hp, rfl⟩ := procGet_of_roster he
      exact hst (hall p hp)
    rw [hrings, or_iff_right halive]
    exact forall_congr' fun l => Roster.kill_ring hq ha (fun _ _ => readyIn_allPids) l

/-- Three processes under round robin with a quantum of one tick. -/
def threeInTurn : List RtOp :=
  [.setQuantum 1, .runWorkload ⟨"a", [⟨.cpu, 0, 0, 3⟩]⟩ 20,
    .runWorkload ⟨"b", [⟨.cpu, 0, 0, 3⟩]⟩ 20,
    .runWorkload ⟨"c", [⟨.cpu, 0, 0, 3⟩]⟩ 20]

set_option maxRecDepth 100000 in
/-- Before anyone has run, the queue is in the order of the pids. -/
theorem kill_keeps_order_created :
    let rt := Runs.run RtOp.exec runtimeInit threeInTurn
    rt.scheduler.algo ≠ .prio ∧ (runtimeKill rt 2).2.scheduler.rings 0 = [1, 3] := by
  have hfacts : (Runs.run RtOp.exec runtimeInit threeInTurn).scheduler.algo = .rr ∧
      (Runs.run RtOp.exec runtimeInit threeInTurn).scheduler.rings 0 = [1, 2, 3] := by
    decide +kernel
  obtain ⟨ha, hring⟩ := hfacts
  have hne : (Runs.run RtOp.exec runtimeInit threeInTurn).scheduler.algo ≠ .prio := by
    rw [ha]
    exact nofun
  have horder := (kill_keeps_order threeInTurn 2 hne).mpr (.inr fun l => ?_)
  · refine ⟨hne, ?_⟩
    rw [horder 0, hring]
    decide
  · by_cases hl : l = 0
    · rw [hl, hring]
      decide
    · simp [Scheduler.rings, ha, hl]

set_option maxRecDepth 100000 in
/-- The first process has used up its quantum and stands behind the third; killing the second puts
it in front again. -/
theorem kill_reorders :
    let rt := Runs.run RtOp.exec runtimeInit (threeInTurn ++ [.pass 0])
    rt.scheduler.algo = .rr ∧ rt.scheduler.rings 0 = [2, 3, 1] ∧
      (runtimeKill rt 2).2.scheduler.rings 0 = [1, 3] := by
  decide +kernel

end Mosrt
