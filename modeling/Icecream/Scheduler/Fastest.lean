import Icecream.Library.Selection
import Icecream.Scheduler.Loop

/-!
# The fastest server

The scan keeps the first server with the environment whether it has a free slot or not, and
gives it up only for one that is faster and has a free slot. The same holds of the servers
without the environment, of which one is taken when no server has it.
-/

namespace Icecream.IceccScheduler

open Icecream.Comm (str)

namespace CompileServer

/-- There is a slot for one more job that does not have to wait. -/
def hasFreeSlot (c : CompileServer) : Bool := c.currentJobCount < c.maxJobs

/-- `server_speed`, in exact numbers -/
def serverSpeed (c : CompileServer) (job : Option Job) : ℚ :=
  if c.lastCompiledJobs = [] ∨ c.cumCompiled.compileTimeUser = 0 then 0
  else
    let f : ℚ := c.cumCompiled.outputSize.toNat / c.cumCompiled.compileTimeUser.toNat
    let f := match job with
      | none => f
      | some job =>
        let f :=
          if job.submitter = c.cid then
            -- an older daemon tells no number of clients
            let clientCount := if c.clientCount = 0 then c.submittedJobsCount else c.clientCount
            if c.maxJobs < clientCount then f * (1 / 10)
            else if clientCount = c.maxJobs then f * (8 / 10)
            else if clientCount ≤ c.maxJobs.tdiv 2 then f * (11 / 10)
            else f
          else f * ((1000 - c.load).toNat / 1000)
        f * (1 - 1 / 2 * c.currentJobCount / c.maxJobs)
    if c.lastCompiledJobs.length < 7 then f * (-(1 / 2) * c.lastCompiledJobs.length + 9 / 2) else f

end CompileServer

namespace Scheduler

variable {s : Scheduler} {job : Job} {count : ℕ} {eligible : List CompileServer}
  {c d : CompileServer}

/-- `c` takes the place of `b`. -/
def Outpaces (s : Scheduler) (job : Job) (c b : CompileServer) : Prop :=
  b.lastCompiledJobs ≠ [] ∧ s.host.speed b (some job) < s.host.speed c (some job) ∧
    c.hasFreeSlot = true

instance (s : Scheduler) (job : Job) : DecidableRel (s.Outpaces job) := fun _ _ =>
  inferInstanceAs (Decidable (_ ∧ _ ∧ _))

/-- The servers that one is taken of: those with the environment, or all when there are none -/
def contenders (job : Job) (eligible : List CompileServer) : List CompileServer :=
  if eligible.filter (fun c => envsMatch c job ≠ []) ≠ [] then
    eligible.filter fun c => envsMatch c job ≠ []
  else eligible

theorem challenge_fst (best : Option CompileServer) (c : CompileServer) :
    (s.challenge job best c).1 = Selection.keep (s.Outpaces job) best c := by
  cases best with
  | none => rfl
  | some b =>
    unfold challenge Selection.keep
    simp only [Outpaces, CompileServer.hasFreeSlot, decide_eq_true_eq, ← and_assoc]
    split_ifs <;> simp_all

/-- The two candidates do not bear on each other. -/
theorem scanFastest_kept (found : Candidates) {l : List CompileServer}
    (hfresh : ∀ c ∈ l, shouldRefreshStats job.id c.lastPickedId count statsUpdateWeight = false) :
    (s.scanFastest job count found l).best =
        (l.filter fun c => envsMatch c job ≠ []).foldl (Selection.keep (s.Outpaces job)) found.best ∧
      (s.scanFastest job count found l).bestui =
        (l.filter fun c => envsMatch c job = []).foldl (Selection.keep (s.Outpaces job))
          found.bestui := by
  induction l generalizing found with
  | nil => exact ⟨rfl, rfl⟩
  | cons c l ih =>
    have hc := hfresh c List.mem_cons_self
    have htail := fun found => ih found fun d hd => hfresh d (List.mem_cons_of_mem c hd)
    rw [scanFastest, if_neg (by simp [hc])]
    by_cases hinstalled : envsMatch c job = []
    · simp [htail, hinstalled, challenge_fst]
    · simp [htail, hinstalled, challenge_fst]

theorem pickServerNew_seasoned (hseasoned : ∀ c ∈ eligible, c.lastCompiledJobs ≠ []) :
    pickServerNew job eligible = none := by
  unfold pickServerNew
  induction eligible with
  | nil => rfl
  | cons c rest ih =>
    have hc := hseasoned c List.mem_cons_self
    rw [List.foldl_cons, if_neg (by simp [hc])]
    exact ih fun d hd => hseasoned d (List.mem_cons_of_mem c hd)

theorem pickServerFastest_winner (hstats : s.allJobStats ≠ [])
    (hseasoned : ∀ c ∈ eligible, c.lastCompiledJobs ≠ [])
    (hfresh : ∀ c ∈ eligible, shouldRefreshStats job.id c.lastPickedId eligible.length
      statsUpdateWeight = false) :
    s.pickServerFastest job eligible =
      Selection.winner (s.Outpaces job) (contenders job eligible) := by
  obtain ⟨hbest, hbestui⟩ := scanFastest_kept (s := s) {} hfresh
  rw [pickServerFastest, if_neg hstats, pickServerNew_seasoned hseasoned]
  simp only [hbest, hbestui, contenders]
  by_cases hinstalled : eligible.filter (fun c => envsMatch c job ≠ []) = []
  · have hall : eligible.filter (fun c => envsMatch c job = []) = eligible := by
      rw [List.filter_eq_self]
      simpa using hinstalled
    rw [if_neg (not_not.mpr hinstalled), hinstalled, hall]
    by_cases hempty : eligible = []
    · subst hempty
      rfl
    · obtain ⟨w, hw⟩ : ∃ w, Selection.winner (s.Outpaces job) eligible = some w :=
        Selection.winner_isSome hempty
      rw [Selection.winner] at hw
      simp [hw, Selection.winner]
  · rw [if_pos hinstalled]
    obtain ⟨w, hw⟩ : ∃ w, Selection.winner (s.Outpaces job)
        (eligible.filter fun c => envsMatch c job ≠ []) = some w :=
      Selection.winner_isSome hinstalled
    rw [Selection.winner] at hw
    simp only [hw, Option.orElse_some, Selection.winner]

/-! ## Free slots -/

/-- No server without a free slot is picked. -/
def PicksFree (s : Scheduler) (job : Job) (eligible : List CompileServer) : Prop :=
  ∀ c ∈ s.pickServerFastest job eligible, c.hasFreeSlot = true

instance (s : Scheduler) (job : Job) (eligible : List CompileServer) :
    Decidable (s.PicksFree job eligible) := inferInstanceAs (Decidable (∀ c ∈ _, _))

/-- The first of the servers has a free slot, or a faster one has. -/
def FreeLeads (s : Scheduler) (job : Job) (l : List CompileServer) : Prop :=
  ∀ c ∈ l.head?, c.hasFreeSlot = true ∨
    ∃ d ∈ l, d.hasFreeSlot = true ∧ s.host.speed c (some job) < s.host.speed d (some job)

instance (s : Scheduler) (job : Job) (l : List CompileServer) : Decidable (s.FreeLeads job l) :=
  inferInstanceAs (Decidable (∀ c ∈ _, _ ∨ ∃ d ∈ l, _))

theorem winner_free_iff {l : List CompileServer} (hseasoned : ∀ c ∈ l, c.lastCompiledJobs ≠ []) :
    (∀ c ∈ Selection.winner (s.Outpaces job) l, c.hasFreeSlot = true) ↔
      s.FreeLeads job l := by
  cases l with
  | nil => simp [Selection.winner, FreeLeads]
  | cons c rest =>
    obtain ⟨w, hw⟩ : ∃ w, Selection.winner (s.Outpaces job) (c :: rest) = some w :=
      Selection.winner_isSome (List.cons_ne_nil c rest)
    have hfit : ∀ x b : CompileServer, s.Outpaces job x b → x.hasFreeSlot = true :=
      fun x b hx => hx.2.2
    have hiff := Selection.winner_fit_iff hfit hw
    have houtpaces : ∀ d, s.Outpaces job d c ↔
        d.hasFreeSlot = true ∧ s.host.speed c (some job) < s.host.speed d (some job) := by
      intro d
      have hc := hseasoned c List.mem_cons_self
      simp [Outpaces, hc, and_comm]
    simp [hw, hiff, houtpaces, FreeLeads]

theorem contenders_subset (job : Job) (eligible : List CompileServer) :
    contenders job eligible ⊆ eligible := by
  unfold contenders
  split
  · exact List.filter_subset_self _
  · exact List.Subset.refl _

theorem contenders_installed (h : ∃ c ∈ eligible, envsMatch c job ≠ []) :
    contenders job eligible = eligible.filter fun c => envsMatch c job ≠ [] := by
  obtain ⟨c, hc, hinstalled⟩ := h
  refine if_pos fun hnone => ?_
  exact absurd (decide_eq_true hinstalled) (List.filter_eq_nil_iff.mp hnone c hc)

/-- Among servers with statistics that are not to be refreshed, one without a free slot is not
picked just when the first server with the environment has one, or a faster one with it; and where
no server has the environment, just when this is so of all servers. -/
theorem pickServerFastest_free_iff (hstats : s.allJobStats ≠ [])
    (hseasoned : ∀ c ∈ eligible, c.lastCompiledJobs ≠ [])
    (hfresh : ∀ c ∈ eligible, shouldRefreshStats job.id c.lastPickedId eligible.length
      statsUpdateWeight = false) :
    ((∃ c ∈ eligible, envsMatch c job ≠ [] ∧ c.hasFreeSlot = true) →
      (s.PicksFree job eligible ↔
        s.FreeLeads job (eligible.filter fun c => envsMatch c job ≠ []))) ∧
    ((∃ c ∈ eligible, c.hasFreeSlot = true) →
      (s.PicksFree job eligible ↔ s.FreeLeads job (contenders job eligible))) := by
  have hall : s.PicksFree job eligible ↔ s.FreeLeads job (contenders job eligible) := by
    unfold PicksFree
    rw [pickServerFastest_winner hstats hseasoned hfresh]
    exact winner_free_iff fun c hc => hseasoned c (contenders_subset job eligible hc)
  refine ⟨fun ⟨c, hc, hinstalled, _⟩ => ?_, fun _ => hall⟩
  rw [hall, contenders_installed ⟨c, hc, hinstalled⟩]

/-- A server with one slot that has compiled `rate` bytes in a millisecond -/
def seasoned (cid : ℕ) (rate : UInt64) (jobList : List ℕ) : CompileServer where
  cid := cid
  fd := cid
  name := []
  address := cid
  protocol := 45
  maximumRemoteProtocol := 45
  hostPlatform := str "x86_64"
  load := 0
  maxJobs := 1
  jobList := jobList
  state := .loggedIn
  type := .daemon
  chrootPossible := true
  lastPickedId := 9
  compilerVersions := [(str "x86_64", str "e")]
  lastCompiledJobs := [{ outputSize := 1000 * rate, compileTimeUser := 1000 }]
  cumCompiled := { outputSize := 1000 * rate, compileTimeUser := 1000 }

/-- A job of somebody else, for which both servers have the environment -/
def wanted : Job where
  ptr := 1
  id := 10
  submitter := 0
  environments := [(str "x86_64", str "e")]
  targetPlatform := str "x86_64"

/-- Of the two servers that accept connections only the slower one has a free slot. -/
def preloading : Scheduler where
  settings := Loop.plainSettings
  host := { Loop.plainHost fun _ => 1 with speed := CompileServer.serverSpeed }
  conns := [{ seasoned 0 1 [] with acceptingInConnection := false }, seasoned 1 9 [0],
    seasoned 2 3 []]
  css := [0, 1, 2]
  newJobId := 10
  heap := [wanted, { wanted with ptr := 0, id := 9, state := .compiling, server := some 1 }]
  jobs := [(9, 0), (10, 1)]
  jobRequests := [⟨[1], 0, 0⟩]
  allJobStats := [{ outputSize := 3000, compileTimeUser := 1000 }]

/-- The faster one is picked although it could only preload the job. -/
theorem pickServerFastest_preloads :
    (preloading.filterIneligibleServers wanted).map (fun c => c.cid) = [1, 2] ∧
    (∀ c ∈ preloading.filterIneligibleServers wanted, c.lastCompiledJobs ≠ [] ∧
      shouldRefreshStats wanted.id c.lastPickedId
        (preloading.filterIneligibleServers wanted).length statsUpdateWeight = false) ∧
    (∃ c ∈ preloading.filterIneligibleServers wanted,
      envsMatch c wanted ≠ [] ∧ c.hasFreeSlot = true) ∧
    ¬ preloading.PicksFree wanted (preloading.filterIneligibleServers wanted) := by
  decide +kernel

/-- It is not when the other one is first. -/
theorem pickServerFastest_free_iff_reversed :
    preloading.PicksFree wanted (preloading.filterIneligibleServers wanted).reverse := by
  refine ((pickServerFastest_free_iff ?_ ?_ ?_).1 ?_).mpr ?_
  · decide +kernel
  · decide +kernel
  · decide +kernel
  · decide +kernel
  · decide +kernel

end Scheduler

end Icecream.IceccScheduler
