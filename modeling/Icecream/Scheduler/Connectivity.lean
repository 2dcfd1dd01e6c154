import Mathlib.Data.List.DropRight
import Icecream.Scheduler.Blacklist

/-!
# Checks of incoming connections

A server that does not accept connections is tried again after a time that doubles with each
failure. The table of these times has 12 entries; the counter that points into it is bounded by
the number of its bytes.
-/

namespace Icecream.IceccScheduler

open Icecream.Comm (str)

namespace Scheduler

variable {s : Scheduler} {cid : ℕ} {checks : List Bool}

/-- The checks of `cid` end in this order, each with whether it has succeeded. -/
def checked (s : Scheduler) (cid : ℕ) (checks : List Bool) : Scheduler :=
  checks.foldl (fun s acceptingIn => s.updateInConnectivity cid acceptingIn) s

/-- How many checks have failed since the last one that succeeded -/
def failedLast (checks : List Bool) : ℕ := (checks.rtakeWhile fun acceptingIn => !acceptingIn).length

/-- A check that fails after these finds the time until the next one in the table; it is 2 seconds
at first, then twice that of the failure before, and 4096 at most. -/
def BacksOff (s : Scheduler) (cid : ℕ) (checks : List Bool) : Prop :=
  ((s.checked cid checks).conn cid).inConnAttempt < timeOffsetTable.length ∧
    ((s.checked cid (checks ++ [false])).conn cid).nextConnTime =
      (s.checked cid checks).now + min (2 ^ (failedLast checks + 1)) 4096

theorem checked_concat (s : Scheduler) (cid : ℕ) (checks : List Bool) (acceptingIn : Bool) :
    s.checked cid (checks ++ [acceptingIn]) =
      (s.checked cid checks).updateInConnectivity cid acceptingIn := by
  simp [checked]

@[simp] theorem failedLast_nil : failedLast [] = 0 := rfl

@[simp] theorem failedLast_true (checks : List Bool) : failedLast (checks ++ [true]) = 0 := by
  simp [failedLast]

@[simp] theorem failedLast_false (checks : List Bool) :
    failedLast (checks ++ [false]) = failedLast checks + 1 := by
  simp [failedLast]

/-! ## One check -/

theorem updateInConnectivity_live (s : Scheduler) (cid : ℕ) (acceptingIn : Bool) :
    (s.updateInConnectivity cid acceptingIn).live cid = s.live cid := by
  cases acceptingIn with
  | true => exact put_live s.asked _ cid
  | false => exact put_live s.asked _ cid

theorem updateInConnectivity_conn (hlive : s.live cid = true) (acceptingIn : Bool) :
    (s.updateInConnectivity cid acceptingIn).conn cid =
      if acceptingIn then
        { s.conn cid with
          acceptingInConnection := true
          inConnAttempt := if (s.conn cid).acceptingInConnection then (s.conn cid).inConnAttempt else 0
          nextConnTime := s.now + 60
          connecting := false }
      else
        { s.conn cid with
          acceptingInConnection := false
          nextConnTime := s.now + timeOffsetTable.getD (s.conn cid).inConnAttempt s.ask
          inConnAttempt := if (s.conn cid).inConnAttempt < 95 then (s.conn cid).inConnAttempt + 1
            else (s.conn cid).inConnAttempt
          connecting := false } := by
  have hput : ∀ c : CompileServer, c.cid = cid → (s.asked.put c).conn cid = c := by
    rintro c rfl
    exact put_conn_live (s := s.asked) hlive
  cases acceptingIn with
  | true => exact hput _ (conn_cid s cid)
  | false => exact hput _ (conn_cid s cid)

/-! ## The counter -/

/-- A connection as it is before its first check -/
structure Unchecked (s : Scheduler) (cid : ℕ) : Prop where
  live : s.live cid = true
  accepting : (s.conn cid).acceptingInConnection = true
  attempt : (s.conn cid).inConnAttempt = 0

theorem Unchecked.checked_live (h : s.Unchecked cid) (checks : List Bool) :
    (s.checked cid checks).live cid = true := by
  induction checks using List.reverseRecOn with
  | nil => exact h.live
  | append_singleton checks acceptingIn ih =>
    rw [checked_concat, updateInConnectivity_live]
    exact ih

/-- The counter counts the failures, up to the number of bytes of the table. -/
theorem Unchecked.counts (h : s.Unchecked cid) (checks : List Bool) :
    ((s.checked cid checks).conn cid).inConnAttempt = min (failedLast checks) 95 ∧
      (((s.checked cid checks).conn cid).acceptingInConnection = true ↔ failedLast checks = 0) := by
  induction checks using List.reverseRecOn with
  | nil => exact ⟨h.attempt, by simp [checked, h.accepting]⟩
  | append_singleton checks acceptingIn ih =>
    obtain ⟨hattempt, haccepting⟩ := ih
    rw [checked_concat, updateInConnectivity_conn (h.checked_live checks)]
    cases acceptingIn with
    | true =>
      simp only [if_true, failedLast_true, and_true]
      split
      · rename_i hyes
        rw [hattempt, haccepting.mp hyes]
      · rfl
    | false =>
      simp only [Bool.false_eq_true, if_false, failedLast_false, hattempt, false_iff]
      refine ⟨?_, Nat.succ_ne_zero _⟩
      split <;> omega

/-! ## The table -/

theorem timeOffsetTable_eq : timeOffsetTable = (List.range 12).map fun n => 2 ^ (n + 1) := by decide

theorem timeOffsetTable_getD {n : ℕ} (hn : n < 12) (behind : ℤ) :
    timeOffsetTable.getD n behind = min (2 ^ (n + 1)) 4096 := by
  have hcap : (2 : ℤ) ^ (n + 1) ≤ 4096 := pow_le_pow_right₀ (a := (2 : ℤ)) (by decide) hn
  rw [timeOffsetTable_eq, List.getD_eq_getElem?_getD, min_eq_left hcap]
  simp [hn]

/-- The delays are right as long as the counter points into the table. -/
theorem Unchecked.backsOff_iff (h : s.Unchecked cid) (checks : List Bool) :
    s.BacksOff cid checks ↔ failedLast checks < 12 := by
  obtain ⟨hattempt, -⟩ := h.counts checks
  have hlength : timeOffsetTable.length = 12 := rfl
  rw [BacksOff, hattempt, hlength]
  constructor
  · rintro ⟨hlt, -⟩
    omega
  · intro hlt
    have hmin : min (failedLast checks) 95 = failedLast checks := by omega
    refine ⟨by omega, ?_⟩
    rw [checked_concat, updateInConnectivity_conn (h.checked_live checks), if_neg (by decide)]
    simp only [hattempt, hmin, timeOffsetTable_getD hlt]

/-! ## Sequences of checks -/

theorem failedLast_append_replicate (checks : List Bool) (n : ℕ) :
    failedLast (checks ++ List.replicate n false) = failedLast checks + n := by
  induction n with
  | zero => simp
  | succ n ih => rw [List.replicate_succ', ← List.append_assoc, failedLast_false, ih, Nat.add_assoc]

/-- The failures at the end -/
theorem exists_failedLast (checks : List Bool) :
    ∃ before, checks = before ++ List.replicate (failedLast checks) false := by
  induction checks using List.reverseRecOn with
  | nil => exact ⟨[], rfl⟩
  | append_singleton checks acceptingIn ih =>
    cases acceptingIn with
    | true => exact ⟨checks ++ [true], by simp⟩
    | false =>
      obtain ⟨before, hbefore⟩ := ih
      refine ⟨before, ?_⟩
      rw [failedLast_false, List.replicate_succ', ← List.append_assoc, ← hbefore]

theorem failedLast_lt_iff (n : ℕ) (checks : List Bool) :
    (∀ before after, checks = before ++ false :: after → failedLast before < n) ↔
      ¬ List.replicate (n + 1) false <:+: checks := by
  constructor
  · rintro h ⟨before, after, rfl⟩
    have hlt := h (before ++ List.replicate n false) after (by
      rw [List.replicate_succ', List.append_assoc, List.append_assoc, List.append_assoc]
      rfl)
    rw [failedLast_append_replicate] at hlt
    omega
  · rintro h before after rfl
    by_contra hle
    obtain ⟨first, hfirst⟩ := exists_failedLast before
    obtain ⟨m, hm⟩ := Nat.exists_eq_add_of_le (not_lt.mp hle)
    refine h ⟨first ++ List.replicate m false, after, ?_⟩
    have hfailed : List.replicate m false ++ List.replicate n false =
        List.replicate (failedLast before) false := by rw [hm, Nat.add_comm, List.replicate_add]
    rw [hfirst, ← hfailed, List.replicate_succ']
    simp only [List.append_assoc, List.singleton_append]

/-- In every sequence of checks, every failure finds its delay in the table and gets the right one
just when no 13 failures follow each other. -/
theorem updateInConnectivity_backsOff_iff (h : s.Unchecked cid) (checks : List Bool) :
    (∀ before after, checks = before ++ false :: after → s.BacksOff cid before) ↔
      ¬ List.replicate 13 false <:+: checks := by
  simp only [h.backsOff_iff]
  exact failedLast_lt_iff 12 checks

/-- The connection that has come first -/
theorem accept_unchecked : ((Loop.started fun _ => 1).scheduler.accept 5 1 (str "n") 45 45).Unchecked 0 :=
  ⟨rfl, rfl, rfl⟩

theorem updateInConnectivity_backsOff_iff_again :
    ((Loop.started fun _ => 1).scheduler.accept 5 1 (str "n") 45 45).BacksOff 0 [false, true, false] :=
  (updateInConnectivity_backsOff_iff accept_unchecked [false, true, false, false]).mpr (by decide)
    [false, true, false] [] rfl

/-- The delay after the thirteenth failure comes from behind the table. -/
theorem updateInConnectivity_overruns : ∃ s cid, Unchecked s cid ∧
    ((s.checked cid (List.replicate 12 false)).conn cid).inConnAttempt = timeOffsetTable.length ∧
    ¬ s.BacksOff cid (List.replicate 12 false) := by
  refine ⟨_, 0, accept_unchecked, rfl, fun hbacks => ?_⟩
  exact absurd hbacks.1 (by decide)

end Scheduler

end Icecream.IceccScheduler
