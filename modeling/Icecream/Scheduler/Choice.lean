import Icecream.Scheduler.Peers

/-!
# What the choice of a server says

Every algorithm picks one of the servers it is given. Which question the host answers
decides which server it is but not whether there is one, so that the search through the
queue never gets past its first request.
-/

namespace Icecream.IceccScheduler

open Icecream.Comm (Str str)

namespace Scheduler

variable {s : Scheduler} {job : Job} {c : CompileServer} {eligible : List CompileServer}

theorem pickServerRandom_mem (h : s.pickServerRandom eligible = some c) : c ∈ eligible :=
  List.mem_of_getElem? h

/-- A choice that at each element keeps what it has or takes the element -/
theorem mem_of_foldl {f : Option CompileServer → CompileServer → Option CompileServer}
    (hf : ∀ best d, f best d = best ∨ f best d = some d) {l : List CompileServer}
    {best : Option CompileServer} (h : l.foldl f best = some c) : best = some c ∨ c ∈ l := by
  induction l generalizing best with
  | nil => exact .inl h
  | cons d rest ih =>
    rcases ih h with hnext | hmem
    · rcases hf best d with hkeep | htake
      · exact .inl (hkeep ▸ hnext)
      · rw [htake, Option.some.injEq] at hnext
        exact .inr (hnext ▸ List.mem_cons_self)
    · exact .inr (List.mem_cons_of_mem _ hmem)

theorem pickServerRoundRobin_mem (h : pickServerRoundRobin eligible = some c) : c ∈ eligible := by
  refine (mem_of_foldl (fun best d => ?_) h).resolve_left (by simp)
  cases best with
  | none => exact .inr rfl
  | some b =>
    simp only
    split
    · exact .inr rfl
    · exact .inl rfl

theorem pickServerLeastBusy_mem {weight : ℕ} (h : pickServerLeastBusy weight eligible = some c) :
    c ∈ eligible := List.mem_of_mem_filter (pickServerRoundRobin_mem h)

theorem pickServerNew_mem (h : pickServerNew job eligible = some c) : c ∈ eligible := by
  refine (mem_of_foldl (fun selected d => ?_) h).resolve_left (by simp)
  split
  · exact .inr rfl
  · exact .inl rfl

/-- The candidates are servers seen so far. -/
def Candidates.Among (l : List CompileServer) (found : Candidates) : Prop :=
  (∀ c, found.best = some c → c ∈ l) ∧ (∀ c, found.bestui = some c → c ∈ l) ∧
    ∀ c, found.bestpre = some c → c ∈ l

theorem challenge_mem {l : List CompileServer} {best : Option CompileServer} {d : CompileServer}
    (hbest : ∀ c, best = some c → c ∈ l) (hd : d ∈ l) :
    ∀ c, (s.challenge job best d).1 = some c → c ∈ l := by
  intro c hc
  unfold challenge at hc
  split at hc
  · simp only [Option.some.injEq] at hc
    rwa [← hc]
  · split at hc
    · split at hc
      · simp only [Option.some.injEq] at hc
        rwa [← hc]
      · exact hbest c hc
    · exact hbest c hc

theorem scanFastest_among {l rest : List CompileServer} {count : ℕ} {found : Candidates}
    (hfound : found.Among l) (hrest : rest ⊆ l) :
    (s.scanFastest job count found rest).Among l := by
  induction rest generalizing found with
  | nil => exact hfound
  | cons d rest ih =>
    have hd : d ∈ l := hrest List.mem_cons_self
    have htail : rest ⊆ l := fun x hx => hrest (List.mem_cons_of_mem _ hx)
    obtain ⟨hbest, hbestui, hbestpre⟩ := hfound
    simp only [scanFastest]
    split
    · refine ⟨fun c hc => ?_, hbestui, hbestpre⟩
      simp only [Option.some.injEq] at hc
      rwa [← hc]
    · have hpre : ∀ b c, (if b = true then some d else found.bestpre) = some c → c ∈ l := by
        intro b c hc
        split at hc
        · simp only [Option.some.injEq] at hc
          rwa [← hc]
        · exact hbestpre c hc
      generalize decide (envsMatch d job ≠ []) = installed
      cases installed with
      | true => exact ih ⟨challenge_mem hbest hd, hbestui, hpre _⟩ htail
      | false => exact ih ⟨hbest, challenge_mem hbestui hd, hpre _⟩ htail

theorem pickServerFastest_mem (h : s.pickServerFastest job eligible = some c) : c ∈ eligible := by
  unfold pickServerFastest at h
  split at h
  · exact pickServerRandom_mem h
  · split at h
    · rename_i d hnew
      rw [Option.some.injEq] at h
      exact pickServerNew_mem (h ▸ hnew)
    · have hfound : (s.scanFastest job eligible.length {} eligible).Among eligible :=
        scanFastest_among ⟨by simp, by simp, by simp⟩ fun _ hx => hx
      obtain ⟨hbest, hbestui, hbestpre⟩ := hfound
      simp only [Option.orElse_eq_or, Option.or_eq_some_iff] at h
      rcases h with (hb | hb) | hb
      · exact hbest c hb
      · exact hbestui c hb.2
      · exact hbestpre c hb.2

/-- The server `x` is one for the job now, and the one the job asks for if it names one. -/
def Suits (s : Scheduler) (job : Job) (x : ℕ) : Prop :=
  x ∈ s.css ∧ s.isEligibleNow (s.conn x) job = true ∧
    (job.preferredHost = [] ∨ (s.conn x).matchesName job.preferredHost = true)

theorem Suits.canInstall {x : ℕ} (h : s.Suits job x) : s.canInstall (s.conn x) job false ≠ [] :=
  (of_decide_eq_true h.2.1).2.2.2

theorem filterIneligibleServers_mem (h : c ∈ s.filterIneligibleServers job) :
    ∃ x ∈ s.css, c = s.conn x ∧ s.isEligibleNow c job = true := by
  obtain ⟨hmem, heligible⟩ := List.mem_filter.mp h
  obtain ⟨x, hx, rfl⟩ := List.mem_map.mp hmem
  exact ⟨x, hx, rfl, (of_decide_eq_true heligible).1⟩

/-- Whatever way the server is picked, it suits the job. -/
theorem pickServer_suits (h : s.pickServer job = some c) :
    ∃ x, c = s.conn x ∧ s.Suits job x := by
  unfold pickServer at h
  split at h
  · obtain ⟨x, hx, rfl⟩ := List.mem_map.mp (List.mem_of_find?_eq_some h)
    have heligible := List.find?_some h
    rw [decide_eq_true_eq] at heligible
    exact ⟨x, rfl, hx, heligible.2, .inr heligible.1⟩
  · rename_i hpreferred
    have hmem : c ∈ s.filterIneligibleServers job := by
      split at h
      · cases h
      · rename_i d hd
        rw [hd]
        simp only [Option.some.injEq] at h
        simp [h]
      · split at h
        · exact pickServerRoundRobin_mem h
        · exact pickServerLeastBusy_mem h
        · exact pickServerFastest_mem h
        · exact pickServerRandom_mem h
    obtain ⟨x, hx, rfl, heligible⟩ := filterIneligibleServers_mem hmem
    exact ⟨x, rfl, hx, heligible, .inl (not_not.mp hpreferred)⟩

/-! ## The search -/

theorem pickServerRandom_isSome (s : Scheduler) (eligible : List CompileServer) :
    (s.pickServerRandom eligible).isSome = decide (eligible ≠ []) := by
  unfold pickServerRandom
  cases eligible with
  | nil => simp
  | cons d rest =>
    have hlt : s.ask % (d :: rest).length < (d :: rest).length := Nat.mod_lt _ (by simp)
    rw [List.getElem?_eq_getElem hlt]
    simp

theorem scanFastest_congr {s t : Scheduler} (h : t.host = s.host) (job : Job) (count : ℕ)
    (found : Candidates) (l : List CompileServer) :
    t.scanFastest job count found l = s.scanFastest job count found l := by
  have hchallenge : ∀ best d, t.challenge job best d = s.challenge job best d := by
    intro best d
    cases best with
    | none => rfl
    | some b => simp only [challenge, h]
  induction l generalizing found with
  | nil => rfl
  | cons d rest ih => simp only [scanFastest, hchallenge, ih]

theorem scanFastest_asked (s : Scheduler) (job : Job) (count : ℕ) (found : Candidates)
    (l : List CompileServer) :
    s.asked.scanFastest job count found l = s.scanFastest job count found l :=
  scanFastest_congr (s := s) (t := s.asked) rfl job count found l

/-- The log does not bear on the choice. -/
theorem pickServer_log (s : Scheduler) (job : Job) (log : List Obs) :
    Scheduler.pickServer { s with log := log } job = s.pickServer job := by
  have hfilter : Scheduler.filterIneligibleServers { s with log := log } job =
      s.filterIneligibleServers job := rfl
  have hscan := scanFastest_congr (t := { s with log := log }) (s := s) rfl
  have hfastest : ∀ eligible, Scheduler.pickServerFastest { s with log := log } job eligible =
      s.pickServerFastest job eligible := by
    intro eligible
    simp only [pickServerFastest, hscan]
    rfl
  unfold pickServer
  simp only [hfilter, hfastest]
  rfl

theorem pickServerFastest_asked_isSome (s : Scheduler) (job : Job) (eligible : List CompileServer) :
    (s.asked.pickServerFastest job eligible).isSome =
      (s.pickServerFastest job eligible).isSome := by
  have hstats : s.asked.allJobStats = s.allJobStats := rfl
  unfold pickServerFastest
  rw [hstats]
  by_cases hempty : s.allJobStats = []
  · rw [if_pos hempty, if_pos hempty, pickServerRandom_isSome, pickServerRandom_isSome]
  · rw [if_neg hempty, if_neg hempty]
    simp only [scanFastest_asked]

theorem pickServer_asked_isSome (s : Scheduler) (job : Job) :
    (s.asked.pickServer job).isSome = (s.pickServer job).isSome := by
  have hfilter : s.asked.filterIneligibleServers job = s.filterIneligibleServers job := rfl
  have hsettings : s.asked.settings = s.settings := rfl
  unfold pickServer
  by_cases hpreferred : job.preferredHost ≠ []
  · rw [if_pos hpreferred, if_pos hpreferred]
    rfl
  · rw [if_neg hpreferred, if_neg hpreferred, hfilter, hsettings]
    cases s.filterIneligibleServers job with
    | nil => rfl
    | cons d rest =>
      cases rest with
      | nil => rfl
      | cons d' rest =>
        cases s.settings.algorithm with
        | roundRobin => rfl
        | leastBusy => rfl
        | fastest => exact pickServerFastest_asked_isSome s job _
        | none => simp only [pickServerRandom_isSome]
        | undefined => simp only [pickServerRandom_isSome]
        | random => simp only [pickServerRandom_isSome]

theorem search_none {l : List JobRequestPosition} (hpick : (s.pickServer job).isSome = false)
    (hfree : s.submitterFree job = false) : (search job l s).2 = none := by
  induction l generalizing s with
  | nil => rfl
  | cons pos rest ih =>
    rw [Option.isSome_eq_false_iff, Option.isNone_iff_eq_none] at hpick
    simp only [search, hpick, hfree, Bool.false_eq_true, if_false]
    refine ih ?_ hfree
    rw [pickServer_asked_isSome, hpick]
    rfl

/-- The request found is the first one, for a server that suits it or for its submitter. -/
theorem search_first {first pos : JobRequestPosition} {rest : List JobRequestPosition} {x : ℕ}
    (h : (search job (first :: rest) s).2 = some (pos, x)) :
    pos = first ∧ (s.Suits job x ∨ x = job.submitter) := by
  simp only [search] at h
  cases hpick : s.pickServer job with
  | some d =>
    obtain ⟨y, rfl, hsuits⟩ := pickServer_suits hpick
    simp only [hpick, Option.some.injEq, Prod.mk.injEq, conn_cid] at h
    obtain ⟨rfl, rfl⟩ := h
    exact ⟨rfl, .inl hsuits⟩
  | none =>
    simp only [hpick] at h
    by_cases hfree : s.submitterFree job = true
    · simp only [hfree, if_true, Option.some.injEq, Prod.mk.injEq] at h
      exact ⟨h.1.symm, .inr h.2.symm⟩
    · rw [Bool.not_eq_true] at hfree
      have hnone : (search job rest s.asked).2 = none := by
        refine search_none ?_ hfree
        rw [pickServer_asked_isSome, hpick]
        rfl
      simp [hfree, hnone] at h

/-- Only questions have been asked. -/
theorem search_asked (job : Job) (l : List JobRequestPosition) (s : Scheduler) :
    ∃ n, s.calls ≤ n ∧ (search job l s).1 = { s with calls := n } := by
  induction l generalizing s with
  | nil => exact ⟨s.calls, le_rfl, rfl⟩
  | cons pos rest ih =>
    simp only [search]
    split
    · exact ⟨s.calls + 1, Nat.le_succ _, rfl⟩
    · split
      · exact ⟨s.calls + 1, Nat.le_succ _, rfl⟩
      · obtain ⟨n, hn, hs⟩ := ih s.asked
        exact ⟨n, (Nat.le_succ _).trans hn, hs⟩

end Scheduler

end Icecream.IceccScheduler
