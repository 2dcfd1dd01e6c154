import Icecream.Scheduler.State

/-!
# Choosing a compile server

The questions of `scheduler/compileserver.cpp` about a server and a job, and the
algorithms that pick one of the eligible servers. The loads and speeds that the code
computes in floats are rationals, and the counts that it keeps in an `int`, whose overflow
is undefined, are integers.
-/

namespace Icecream.IceccScheduler

open Icecream.Comm (Str str Environments)

namespace CompileServer

/-- `matches`, by node name or address. -/
def matchesName (c : CompileServer) (nm : Str) : Bool := c.nodeName = nm ∨ c.name = nm

def checkRemote (c : CompileServer) (job : Job) : Bool := job.submitter = c.cid ∨ ¬ c.noRemote

/-- The platforms that also run what was made for another one. -/
def platformMap : List (Str × Str) :=
  [(str "i386", str "i486"), (str "i386", str "i586"), (str "i386", str "i686"),
    (str "i386", str "x86_64"), (str "i486", str "i586"), (str "i486", str "i686"),
    (str "i486", str "x86_64"), (str "i586", str "i686"), (str "i586", str "x86_64"),
    (str "i686", str "x86_64"), (str "ppc", str "ppc64"), (str "s390", str "s390x")]

def platformsCompatible (c : CompileServer) (target : Str) : Bool :=
  target = c.hostPlatform ∨ (target, c.hostPlatform) ∈ platformMap

def maxPreloadCount (c : CompileServer) : ℤ := 1 + c.maxJobs.tdiv 4

def featuresSupportedBy (c : CompileServer) (features : UInt32) : Bool :=
  c.supportedFeatures &&& features = features

def currentJobCountRemote (c : CompileServer) : ℤ := c.jobList.length

def currentJobCountLocal (c : CompileServer) : ℤ :=
  (c.clientLocalMap.entries.map fun e => if e.2.fulljob then c.maxJobs else 1).sum

def currentJobCount (c : CompileServer) : ℤ := c.currentJobCountRemote + c.currentJobCountLocal

def eqIp (c other : CompileServer) : Bool := c.address = other.address

end CompileServer

namespace Scheduler

/-- What the job's submitter has against environments on this server. -/
def blacklisted (s : Scheduler) (c : CompileServer) (job : Job) (environment : Str × Str) : Bool :=
  environment ∈ ((s.conn job.submitter).blacklist.lookup c.cid).getD []

/-- The platform of the first environment that `c` can install; empty when there is none. -/
def canInstall (s : Scheduler) (c : CompileServer) (job : Job) (ignoreInstalling : Bool) : Str :=
  if ¬ ignoreInstalling ∧ c.busyInstalling ≠ 0 then []
  else ((job.environments.find? fun e =>
    c.platformsCompatible e.1 ∧ ¬ s.blacklisted c job e).map Prod.fst).getD []

def isEligibleEver (s : Scheduler) (c : CompileServer) (job : Job) : Bool :=
  0 < c.maxJobs ∧ (c.chrootPossible ∨ job.submitter = c.cid) ∧
    job.minimalHostVersion ≤ c.maximumRemoteProtocol ∧
    c.featuresSupportedBy job.requiredFeatures ∧ c.acceptingInConnection ∧
    s.canInstall c job true ≠ [] ∧ c.checkRemote job

def isEligibleNow (s : Scheduler) (c : CompileServer) (job : Job) : Bool :=
  s.isEligibleEver c job ∧
    (c.currentJobCount < c.maxJobs ∨ (0 < c.maxJobs ∧
      c.currentJobCount < c.maxJobs + c.maxPreloadCount ∧ c.currentJobCountLocal < c.maxJobs)) ∧
    c.load < 1000 ∧ s.canInstall c job false ≠ []

/-- The first environment of the job that runs on `c` and is the installed `env`. -/
def matching (c : CompileServer) (job : Job) (env : Str × Str) : Option Str :=
  if env.1 = job.targetPlatform then
    (job.environments.find? fun e => env.2 = e.2 ∧ c.platformsCompatible e.1).map Prod.fst
  else none

def envsMatch (c : CompileServer) (job : Job) : Str :=
  if job.submitter = c.cid then c.hostPlatform
  else (c.compilerVersions.findSome? fun env => matching c job env).getD []

def filterIneligibleServers (s : Scheduler) (job : Job) : List CompileServer :=
  (s.css.map s.conn).filter fun c =>
    s.isEligibleNow c job ∧ s.canInstall c job false ≠ [] ∧
      (c.chrootPossible ∨ c.cid = job.submitter) ∧ c.checkRemote job

/-! ## The algorithms -/

def pickServerRandom (s : Scheduler) (eligible : List CompileServer) : Option CompileServer :=
  eligible[s.ask % eligible.length]?

/-- The server whose last job is the oldest; `best` is the first of those seen so far. -/
def pickServerRoundRobin (eligible : List CompileServer) : Option CompileServer :=
  eligible.foldl (fun best c => match best with
    | none => some c
    | some b => if c.lastPickedId < b.lastPickedId then some c else best) none

def serverLoad (submissionWeight : ℕ) (c : CompileServer) : ℚ :=
  let jobs : ℚ := max 0 c.currentJobCount
  (if 0 < submissionWeight then jobs + max 0 c.submittedJobsCount / submissionWeight else jobs)
    / c.maxJobs

/-- Loads within `epsilon` of the smallest count as equal. -/
def pickServerLeastBusy (submissionWeight : ℕ) (eligible : List CompileServer) :
    Option CompileServer :=
  let load := serverLoad submissionWeight
  let minLoad : ℚ := eligible.foldl (fun minLoad c =>
    if c.maxJobs ≠ 0 ∧ (minLoad < 0 ∨ load c < minLoad) then load c else minLoad) (-1)
  let minLoad := if minLoad < 0 then 0 else minLoad
  pickServerRoundRobin (eligible.filter fun c =>
    c.maxJobs ≠ 0 ∧ load c ≤ minLoad + 1 / 1000000)

/-- `STATS_UPDATE_WEIGHT` -/
def statsUpdateWeight : ℕ := 120

def shouldRefreshStats (jobId lastPickedId : UInt32) (eligibleCount weight : ℕ) : Bool :=
  if weight = 255 then false
  else lastPickedId = 0 ∨
    ((255 - weight : ℚ) / 255) * eligibleCount < ((jobId - lastPickedId).toNat : ℚ)

def pickServerNew (job : Job) (eligible : List CompileServer) : Option CompileServer :=
  eligible.foldl (fun selected c =>
    if c.lastCompiledJobs = [] ∧ c.currentJobCount = 0 ∧ c.maxJobs ≠ 0 ∧
        (selected.isNone ∨ envsMatch c job ≠ []) then some c
    else selected) none

/-- The three candidates of the scan: with the environment, without it, and one that
would only preload. -/
structure Candidates where
  best : Option CompileServer := none
  bestui : Option CompileServer := none
  bestpre : Option CompileServer := none

/-- One of the two candidates against `c`, and whether `c` would only preload. -/
def challenge (s : Scheduler) (job : Job) (best : Option CompileServer) (c : CompileServer) :
    Option CompileServer × Bool :=
  match best with
  | none => (some c, false)
  | some b =>
    if b.lastCompiledJobs ≠ [] ∧ s.host.speed b (some job) < s.host.speed c (some job) then
      if c.currentJobCount < c.maxJobs then (some c, false) else (best, true)
    else (best, false)

def scanFastest (s : Scheduler) (job : Job) (count : ℕ) :
    Candidates → List CompileServer → Candidates
  | found, [] => found
  | found, c :: rest =>
    if shouldRefreshStats job.id c.lastPickedId count statsUpdateWeight then
      { found with best := some c }
    else
      let installed : Bool := envsMatch c job ≠ []
      let r := s.challenge job (if installed then found.best else found.bestui) c
      let found := { found with bestpre := if r.2 then some c else found.bestpre }
      scanFastest s job count
        (if installed then { found with best := r.1 } else { found with bestui := r.1 }) rest

def pickServerFastest (s : Scheduler) (job : Job) (eligible : List CompileServer) :
    Option CompileServer :=
  if s.allJobStats = [] then s.pickServerRandom eligible
  else match pickServerNew job eligible with
    | some c => some c
    | none =>
      let found := s.scanFastest job eligible.length {} eligible
      (found.best.orElse fun _ => found.bestui).orElse fun _ => found.bestpre

def pickServer (s : Scheduler) (job : Job) : Option CompileServer :=
  if job.preferredHost ≠ [] then
    (s.css.map s.conn).find? fun c => c.matchesName job.preferredHost ∧ s.isEligibleNow c job
  else match s.filterIneligibleServers job with
    | [] => none
    | [c] => some c
    | eligible => match s.settings.algorithm with
      | .roundRobin => pickServerRoundRobin eligible
      | .leastBusy => pickServerLeastBusy s.settings.submissionWeight eligible
      | .fastest => s.pickServerFastest job eligible
      | _ => s.pickServerRandom eligible

end Scheduler

end Icecream.IceccScheduler
