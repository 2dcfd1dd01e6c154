import Mathlib.Tactic.Linarith
import Icecream.Scheduler.Rotations

/-!
# Servers that have not been picked for long

The fastest server is not picked when another one's figures are to be refreshed, which is so when
the job's id is far enough above that of the job the server had last. The ids are subtracted
as unsigned numbers. A job that leaves the queue after a later one may find the server of the
later one overdue.
-/

namespace Icecream.IceccScheduler

open Icecream.Comm

namespace Scheduler

variable {s : Scheduler} {job : Job} {count weight : ℕ} {l : List CompileServer} {c : CompileServer}
  {jobId lastPickedId : UInt32}

/-- What the ids have to differ by -/
def refreshGap (weight count : ℕ) : ℚ := ((255 - weight : ℚ) / 255) * count

theorem refreshGap_nonneg (hweight : weight < 255) (count : ℕ) : 0 ≤ refreshGap weight count := by
  have hle : (weight : ℚ) ≤ 255 := by exact_mod_cast hweight.le
  have hfactor : (0 : ℚ) ≤ (255 - weight) / 255 := by linarith
  exact mul_nonneg hfactor (Nat.cast_nonneg count)

theorem toNat_sub_cases (a b : UInt32) : (¬ a < b ∧ ((a - b).toNat : ℚ) = a.toNat - b.toNat) ∨
    (a < b ∧ ((a - b).toNat : ℚ) = 2 ^ 32 + a.toNat - b.toNat) := by
  have ha := a.toNat_lt
  have hb := b.toNat_lt
  rw [UInt32.lt_iff_toNat_lt]
  by_cases hlt : a.toNat < b.toNat
  · have hsub : (a - b).toNat + b.toNat = 2 ^ 32 + a.toNat := by
      rw [UInt32.toNat_sub]
      omega
    have hcast : ((a - b).toNat : ℚ) + b.toNat = 2 ^ 32 + a.toNat := by exact_mod_cast hsub
    exact .inr ⟨hlt, by linarith⟩
  · have hsub : (a - b).toNat + b.toNat = a.toNat := by
      rw [UInt32.toNat_sub]
      omega
    have hcast : ((a - b).toNat : ℚ) + b.toNat = a.toNat := by exact_mod_cast hsub
    exact .inl ⟨hlt, by linarith⟩

/-- The server was never picked, or the ids differ by enough. -/
def Overdue (jobId lastPickedId : UInt32) (gap : ℚ) : Prop :=
  lastPickedId = 0 ∨ gap < (jobId.toNat : ℚ) - lastPickedId.toNat

/-- The job is before the server's last one, and the difference is large after all. -/
def Wraps (jobId lastPickedId : UInt32) (gap : ℚ) : Prop :=
  jobId < lastPickedId ∧ gap < 2 ^ 32 + (jobId.toNat : ℚ) - lastPickedId.toNat

theorem shouldRefreshStats_iff (hweight : weight < 255) :
    shouldRefreshStats jobId lastPickedId count weight = true ↔
      Overdue jobId lastPickedId (refreshGap weight count) ∨
        Wraps jobId lastPickedId (refreshGap weight count) := by
  have hgap := refreshGap_nonneg hweight count
  rw [shouldRefreshStats, if_neg hweight.ne, decide_eq_true_eq, Overdue, Wraps, ← refreshGap]
  rcases toNat_sub_cases jobId lastPickedId with ⟨hlt, hsub⟩ | ⟨hlt, hsub⟩
  · rw [hsub]
    exact ⟨.inl, fun h => h.resolve_right fun hwraps => hlt hwraps.1⟩
  · rw [hsub]
    have hnat : (jobId.toNat : ℚ) < lastPickedId.toNat := by
      exact_mod_cast UInt32.lt_iff_toNat_lt.mp hlt
    constructor
    · exact fun h => h.elim (fun hzero => .inl (.inl hzero)) fun hfar => .inr ⟨hlt, hfar⟩
    · rintro ((hzero | hfar) | ⟨-, hfar⟩)
      · exact .inl hzero
      · linarith
      · exact .inr hfar

theorem Overdue.not_lt (hweight : weight < 255)
    (h : Overdue jobId lastPickedId (refreshGap weight count)) : ¬ jobId < lastPickedId := by
  have hgap := refreshGap_nonneg hweight count
  intro hlt
  have hnat := UInt32.lt_iff_toNat_lt.mp hlt
  rcases h with hzero | hfar
  · rw [hzero] at hnat
    exact Nat.not_lt_zero _ hnat
  · have hcast : (jobId.toNat : ℚ) < lastPickedId.toNat := by exact_mod_cast hnat
    linarith

/-! ## The servers that are looked at -/

/-- The servers up to the first one whose figures are refreshed -/
def examined (job : Job) (count : ℕ) : List CompileServer → List CompileServer
  | [] => []
  | c :: rest =>
    if shouldRefreshStats job.id c.lastPickedId count statsUpdateWeight then [c]
    else c :: examined job count rest

theorem examined_sublist (job : Job) (count : ℕ) (l : List CompileServer) :
    (examined job count l).Sublist l := by
  induction l with
  | nil => exact .refl []
  | cons c rest ih =>
    rw [examined]
    split
    · exact (List.nil_sublist rest).cons_cons c
    · exact ih.cons_cons c

/-- The scan depends on no other servers. -/
theorem scanFastest_examined (found : Candidates) :
    s.scanFastest job count found (examined job count l) = s.scanFastest job count found l := by
  induction l generalizing found with
  | nil => rfl
  | cons c rest ih =>
    rw [examined]
    by_cases hforced : shouldRefreshStats job.id c.lastPickedId count statsUpdateWeight = true
    · rw [if_pos hforced, scanFastest, if_pos hforced, scanFastest, if_pos hforced]
    · rw [if_neg hforced, scanFastest, if_neg hforced, scanFastest, if_neg hforced]
      exact ih _

theorem scanFastest_forced (found : Candidates) (hc : c ∈ examined job count l)
    (hforced : shouldRefreshStats job.id c.lastPickedId count statsUpdateWeight = true) :
    (s.scanFastest job count found l).best = some c := by
  induction l generalizing found with
  | nil => exact absurd hc List.not_mem_nil
  | cons d rest ih =>
    rw [examined] at hc
    rw [scanFastest]
    by_cases hd : shouldRefreshStats job.id d.lastPickedId count statsUpdateWeight = true
    · rw [if_pos hd] at hc ⊢
      rw [List.mem_singleton.mp hc]
    · rw [if_neg hd] at hc ⊢
      rcases List.mem_cons.mp hc with rfl | hc
      · exact absurd hforced hd
      · exact ih _ hc

/-- `pick_server_fastest` looks at `c` when the first job of the queue is at `ptr`. -/
structure Examines (s : Scheduler) (ptr : ℕ) (c : CompileServer) : Prop where
  first : s.firstRequest = some ptr
  preferredHost : (s.job ptr).preferredHost = []
  several : 2 ≤ (s.filterIneligibleServers (s.job ptr)).length
  algorithm : s.settings.algorithm = .fastest
  stats : s.allJobStats ≠ []
  old : pickServerNew (s.job ptr) (s.filterIneligibleServers (s.job ptr)) = none
  examined : c ∈ examined (s.job ptr) (s.filterIneligibleServers (s.job ptr)).length
    (s.filterIneligibleServers (s.job ptr))

/-- The figures of `c` are refreshed by the job at `ptr`. -/
def forced (s : Scheduler) (ptr : ℕ) (c : CompileServer) : Bool :=
  shouldRefreshStats (s.job ptr).id c.lastPickedId (s.filterIneligibleServers (s.job ptr)).length
    statsUpdateWeight

def gap (s : Scheduler) (ptr : ℕ) : ℚ :=
  refreshGap statsUpdateWeight (s.filterIneligibleServers (s.job ptr)).length

theorem Examines.mem {ptr : ℕ} (h : s.Examines ptr c) :
    c ∈ s.filterIneligibleServers (s.job ptr) := (examined_sublist _ _ _).subset h.examined

/-- It gets the job then. -/
theorem Examines.picked {ptr : ℕ} (h : s.Examines ptr c) (hforced : s.forced ptr c = true) :
    s.pickServer (s.job ptr) = some c := by
  have hfastest : s.pickServer (s.job ptr) =
      s.pickServerFastest (s.job ptr) (s.filterIneligibleServers (s.job ptr)) := by
    have hseveral := h.several
    rw [pickServer, if_neg (not_not.mpr h.preferredHost), h.algorithm]
    generalize s.filterIneligibleServers (s.job ptr) = eligible at hseveral
    rcases eligible with _ | ⟨d, _ | ⟨d', rest⟩⟩
    · exact absurd hseveral (Nat.not_succ_le_zero 1)
    · exact absurd hseveral (Nat.lt_irrefl 1)
    · rfl
  have hbest := scanFastest_forced (s := s) {} h.examined hforced
  rw [hfastest, pickServerFastest, if_neg h.stats, h.old]
  simp only [hbest, Option.orElse_some]

end Scheduler

namespace Placements

open Scheduler

variable {p : Placements} {ptr : ℕ} {c : CompileServer}

/-- The figures of `c` are refreshed only if it was never picked, or if the job's id is far enough
above the id of the job it has been given last; never if the job's id is below that. -/
def Justified (p : Placements) (ptr : ℕ) (c : CompileServer) : Prop :=
  (p.loop.scheduler.forced ptr c = true → Overdue (p.loop.scheduler.job ptr).id
    (latest p.placed c.cid) (p.loop.scheduler.gap ptr)) ∧
  ((p.loop.scheduler.job ptr).id < latest p.placed c.cid → p.loop.scheduler.forced ptr c = false)

theorem lastPickedId_examined (h : system.Reachable p) (hc : p.loop.scheduler.Examines ptr c) :
    c.lastPickedId = latest p.placed c.cid := by
  obtain ⟨hcss, hconn⟩ := filterIneligibleServers_conn hc.mem
  have hdaemon := (reaches_sound h).between.facts.peers.css c.cid hcss
  rw [← lastPickedId_latest h hdaemon.live, hconn]

/-- In every state of every run, that is so of a server that is looked at, just when the id of the
job is not below that of the server's last job or the difference of the two is small. -/
theorem justified_iff (h : system.Reachable p) (hc : p.loop.scheduler.Examines ptr c) :
    p.Justified ptr c ↔ ¬ Wraps (p.loop.scheduler.job ptr).id (latest p.placed c.cid)
      (p.loop.scheduler.gap ptr) := by
  have hforced : p.loop.scheduler.forced ptr c = true ↔ _ :=
    shouldRefreshStats_iff (by decide : statsUpdateWeight < 255)
  rw [lastPickedId_examined h hc] at hforced
  constructor
  · intro hjustified hwraps
    have hnever := hjustified.2 hwraps.1
    rw [hforced.mpr (.inr hwraps)] at hnever
    exact absurd hnever (by decide)
  · intro hwraps
    have honly : p.loop.scheduler.forced ptr c = true → Overdue (p.loop.scheduler.job ptr).id
        (latest p.placed c.cid) (p.loop.scheduler.gap ptr) :=
      fun hyes => (hforced.mp hyes).resolve_right hwraps
    refine ⟨honly, fun hlt => ?_⟩
    rw [← Bool.not_eq_true]
    exact fun hyes => (honly hyes).not_lt (by decide) hlt

/-! ## Runs -/

/-- The first daemon's job goes to the second, which compiles it. Meanwhile the first has a nice job
and one that it does not want to wait for. The latter, with the id 3, is served. -/
def overtaken : List Event :=
  Loop.twoDaemons Loop.listed ++
    [.activity (some (.stats { loadAvg1 := 0, loadAvg5 := 0, loadAvg10 := 0, freeMem := 0 })),
      wants 1 0, .idle, .advance, .idle, .visited, .tested true, .prune, .emptyQueue, .emptyQueue] ++
    (Loop.polling 2).drop 2 ++
    [.accepted, .controlled, .noDatagram, .advance, wants 1 5, wants 1 0, .idle, .advance,
      .activity (some (.jobBegin { jobId := 1, stime := 0 })),
      .activity (some (.jobDone { jobId := 1, exitcode := 0, outUncompressed := 4096 })),
      .idle, .visited, .tested true, .prune, .emptyQueue]

/-- The nice job, with the id 2, then finds the server of the other one overdue. -/
theorem overtaken_examines : ∃ p c, system.Reachable p ∧ p.loop.scheduler.Examines 1 c ∧
    (p.loop.scheduler.job 1).id = 2 ∧ latest p.placed c.cid = 3 ∧
    p.loop.scheduler.forced 1 c = true := by
  have hrun : (system.exec ⟨Loop.started fun _ => 1, []⟩ overtaken).map (fun p =>
      (decide (p.loop.scheduler.firstRequest = some 1 ∧
          (p.loop.scheduler.job 1).preferredHost = [] ∧
          2 ≤ (p.loop.scheduler.filterIneligibleServers (p.loop.scheduler.job 1)).length ∧
          p.loop.scheduler.settings.algorithm = .fastest ∧
          0 < p.loop.scheduler.allJobStats.length ∧ (p.loop.scheduler.job 1).id = 2 ∧
          latest p.placed 0 = 3),
        (pickServerNew (p.loop.scheduler.job 1)
          (p.loop.scheduler.filterIneligibleServers (p.loop.scheduler.job 1))).isNone,
        (examined (p.loop.scheduler.job 1)
          (p.loop.scheduler.filterIneligibleServers (p.loop.scheduler.job 1)).length
          (p.loop.scheduler.filterIneligibleServers (p.loop.scheduler.job 1))).map
          fun c => (c.cid, p.loop.scheduler.forced 1 c))) = some (true, true, [(0, true)]) := by
    decide +kernel
  obtain ⟨p, hp, hstate⟩ := Option.map_eq_some_iff.mp hrun
  obtain ⟨hfacts, hold, hexamined⟩ : _ ∧ _ ∧ _ := by simpa only [Prod.mk.injEq] using hstate
  obtain ⟨hfirst, hpreferred, hseveral, halgorithm, hstats, hid, hlatest⟩ := of_decide_eq_true hfacts
  obtain ⟨c, hone, hc⟩ := List.map_eq_singleton_iff.mp hexamined
  obtain ⟨hcid, hforced⟩ := Prod.mk.inj hc
  have hinit : Init ⟨Loop.started fun _ => 1, []⟩ := ⟨Loop.started_init _, rfl⟩
  have hreach := (Transition.System.Reaches.init hinit).exec (fun _ _ _ => trivial) hp
  refine ⟨p, c, hreach, ⟨hfirst, hpreferred, hseveral, halgorithm, List.ne_nil_of_length_pos hstats,
    Option.isNone_iff_eq_none.mp hold, ?_⟩, hid, hcid ▸ hlatest, hforced⟩
  rw [hone]
  exact List.mem_singleton_self c

theorem justified_iff_overtaken : ∃ p c, system.Reachable p ∧ p.loop.scheduler.Examines 1 c ∧
    Wraps (p.loop.scheduler.job 1).id (latest p.placed c.cid) (p.loop.scheduler.gap 1) := by
  obtain ⟨p, c, hreach, hc, hid, hlatest, hforced⟩ := overtaken_examines
  have hlt : (p.loop.scheduler.job 1).id < latest p.placed c.cid := by
    rw [hid, hlatest]
    decide
  refine ⟨p, c, hreach, hc, by_contra fun hno => ?_⟩
  have hnever := ((justified_iff hreach hc).mpr hno).2 hlt
  exact absurd (hforced.symm.trans hnever) (by decide)

/-- The server that has just been given the later job gets the earlier one too. -/
theorem forced_again : ∃ p ptr c, system.Reachable p ∧ p.loop.scheduler.Examines ptr c ∧
    (p.loop.scheduler.job ptr).id < latest p.placed c.cid ∧
    p.loop.scheduler.forced ptr c = true ∧ ¬ p.Justified ptr c ∧
    p.loop.scheduler.pickServer (p.loop.scheduler.job ptr) = some c := by
  obtain ⟨p, c, hreach, hc, hid, hlatest, hforced⟩ := overtaken_examines
  have hlt : (p.loop.scheduler.job 1).id < latest p.placed c.cid := by
    rw [hid, hlatest]
    decide
  refine ⟨p, 1, c, hreach, hc, hlt, hforced, fun hjustified => ?_, hc.picked hforced⟩
  exact absurd (hforced.symm.trans (hjustified.2 hlt)) (by decide)

end Placements

end Icecream.IceccScheduler
