import Mathlib.Tactic.Positivity
import Icecream.Library.Selection
import Icecream.Scheduler.Servers

/-!
# The servers that an algorithm prefers

`pick_server_round_robin` takes the server whose last job is the oldest, and
`pick_server_least_busy` does so among the servers whose load is the smallest. The loads are
exact.
-/

namespace Icecream.IceccScheduler

namespace Scheduler

theorem pickServerRoundRobin_argmin (eligible : List CompileServer) :
    pickServerRoundRobin eligible = eligible.argmin fun c => c.lastPickedId.toNat := by
  rw [pickServerRoundRobin, List.argmin]
  congr 1
  funext best c
  cases best <;> rfl

variable {weight : ℕ} {eligible : List CompileServer} {c : CompileServer}

/-- No server that may compile is less busy, but for the tolerance. -/
structure LeastBusy (weight : ℕ) (eligible : List CompileServer) (c : CompileServer) : Prop where
  capacity : 0 < c.maxJobs
  least : ∀ d ∈ eligible, 0 < d.maxJobs →
    serverLoad weight c ≤ serverLoad weight d + 1 / 1000000

theorem serverLoad_nonneg (h : 0 ≤ c.maxJobs) : 0 ≤ serverLoad weight c := by
  have hmax : (0 : ℚ) ≤ c.maxJobs := by exact_mod_cast h
  rw [serverLoad]
  split
  · positivity
  · positivity

/-- What the first pass ends with: the load of a server that no other one is below -/
theorem minLoad_cases (weight : ℕ) (hmax : ∀ c ∈ eligible, 0 ≤ c.maxJobs) :
    Selection.Lowers (fun c : CompileServer => c.maxJobs ≠ 0) (serverLoad weight) eligible (-1)
      (eligible.foldl (fun minLoad c => if c.maxJobs ≠ 0 ∧ (minLoad < 0 ∨
        serverLoad weight c < minLoad) then serverLoad weight c else minLoad) (-1)) :=
  Selection.foldl_lower (-1) fun c hc _ => serverLoad_nonneg (hmax c hc)

/-- The second pass chooses among the least busy ones. -/
theorem pickServerLeastBusy_eq (weight : ℕ) (hmax : ∀ c ∈ eligible, 0 ≤ c.maxJobs) :
    ∃ near : CompileServer → Bool,
      (∀ c ∈ eligible, near c = true ↔ LeastBusy weight eligible c) ∧
      ((∃ c ∈ eligible, 0 < c.maxJobs) → ∃ c ∈ eligible, near c = true) ∧
      pickServerLeastBusy weight eligible = pickServerRoundRobin (eligible.filter near) := by
  have hlowers := minLoad_cases weight hmax
  have hpos : ∀ c ∈ eligible, c.maxJobs ≠ 0 → 0 < c.maxJobs := fun c hc hne =>
    lt_of_le_of_ne (hmax c hc) (Ne.symm hne)
  simp only [pickServerLeastBusy]
  generalize eligible.foldl (fun minLoad c => if c.maxJobs ≠ 0 ∧ (minLoad < 0 ∨
    serverLoad weight c < minLoad) then serverLoad weight c else minLoad) (-1) = minLoad at hlowers ⊢
  refine ⟨_, fun c hc => ?_, ?_, rfl⟩
  · rw [decide_eq_true_eq]
    cases hlowers with
    | keep hall =>
      have hnone : ¬ c.maxJobs ≠ 0 := fun hne => absurd (hall c hc hne).1 (by norm_num)
      exact ⟨fun h => absurd h.1 hnone, fun h => absurd h.capacity.ne' hnone⟩
    | @take x hx hne _ hall =>
      have hzero : 0 ≤ serverLoad weight x := serverLoad_nonneg (hmax x hx)
      rw [if_neg (not_lt.mpr hzero)]
      constructor
      · rintro ⟨hc0, hle⟩
        refine ⟨hpos c hc hc0, fun d hd hd0 => hle.trans ?_⟩
        have hmin := hall d hd hd0.ne'
        linarith
      · exact fun h => ⟨h.capacity.ne', h.least x hx (hpos x hx hne)⟩
  · rintro ⟨c, hc, hcapacity⟩
    cases hlowers with
    | keep hall => exact absurd (hall c hc hcapacity.ne').1 (by norm_num)
    | @take x hx hne _ hall =>
      have hzero : 0 ≤ serverLoad weight x := serverLoad_nonneg (hmax x hx)
      refine ⟨x, hx, ?_⟩
      rw [decide_eq_true_eq, if_neg (not_lt.mpr hzero)]
      exact ⟨hne, by linarith⟩

/-- The first of the servers picked longest ago among the least busy ones -/
theorem pickServerLeastBusy_spec (weight : ℕ) (eligible : List CompileServer)
    (hmax : ∀ c ∈ eligible, 0 ≤ c.maxJobs) :
    (pickServerLeastBusy weight eligible = none ↔ ¬ ∃ c ∈ eligible, 0 < c.maxJobs) ∧
    ∀ c, pickServerLeastBusy weight eligible = some c ↔
      ∃ before after, eligible = before ++ c :: after ∧ LeastBusy weight eligible c ∧
        (∀ d ∈ before, LeastBusy weight eligible d → c.lastPickedId < d.lastPickedId) ∧
        ∀ d ∈ after, LeastBusy weight eligible d → c.lastPickedId ≤ d.lastPickedId := by
  obtain ⟨near, hnear, hsome, hpick⟩ := pickServerLeastBusy_eq weight hmax
  rw [hpick, pickServerRoundRobin_argmin]
  constructor
  · rw [List.argmin_eq_none, List.filter_eq_nil_iff]
    constructor
    · intro hnone hexists
      obtain ⟨c, hc, hcnear⟩ := hsome hexists
      exact hnone c hc hcnear
    · intro hnone c hc hcnear
      exact hnone ⟨c, hc, ((hnear c hc).mp hcnear).capacity⟩
  · intro c
    rw [Selection.argmin_filter_iff]
    constructor
    · rintro ⟨before, after, rfl, hc, hbefore, hafter⟩
      refine ⟨before, after, rfl, (hnear c (by simp)).mp hc, fun d hd hleast => ?_, fun d hd hleast => ?_⟩
      · exact UInt32.lt_iff_toNat_lt.mpr (hbefore d hd ((hnear d (by simp [hd])).mpr hleast))
      · exact UInt32.le_iff_toNat_le.mpr (hafter d hd ((hnear d (by simp [hd])).mpr hleast))
    · rintro ⟨before, after, rfl, hc, hbefore, hafter⟩
      refine ⟨before, after, rfl, (hnear c (by simp)).mpr hc, fun d hd hleast => ?_, fun d hd hleast => ?_⟩
      · exact UInt32.lt_iff_toNat_lt.mp (hbefore d hd ((hnear d (by simp [hd])).mp hleast))
      · exact UInt32.le_iff_toNat_le.mp (hafter d hd ((hnear d (by simp [hd])).mp hleast))

/-- A server with `n` of 8 jobs, that was given job `last` most recently -/
def loaded (cid n : ℕ) (last : UInt32) : CompileServer where
  cid := cid
  fd := cid
  name := []
  address := cid
  protocol := 45
  maximumRemoteProtocol := 45
  maxJobs := 8
  jobList := List.range n
  lastPickedId := last

/-- One that may not compile, and three that differ in their jobs -/
def fourServers : List CompileServer :=
  [{ loaded 1 0 1 with maxJobs := 0 }, loaded 2 1 9, loaded 3 7 2, loaded 4 1 5]

/-- Of the two with fewer jobs, the one that was picked longer ago -/
theorem pickServerLeastBusy_spec_four : ∃ c before after, c.cid = 4 ∧
    pickServerLeastBusy 4 fourServers = some c ∧ fourServers = before ++ c :: after ∧
    LeastBusy 4 fourServers c := by
  have hpick : (pickServerLeastBusy 4 fourServers).map (fun c => c.cid) = some 4 := by
    decide +kernel
  obtain ⟨c, hc, hcid⟩ := Option.map_eq_some_iff.mp hpick
  obtain ⟨before, after, hsplit, hleast, -⟩ :=
    ((pickServerLeastBusy_spec 4 fourServers (by decide)).2 c).mp hc
  exact ⟨c, before, after, hcid, hc, hsplit, hleast⟩

end Scheduler

end Icecream.IceccScheduler
