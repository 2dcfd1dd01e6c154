import Icecream.Scheduler.Ending

/-!
# The queue of requests

`enqueue_job_request`, `remove_job_request` and `empty_queue`. A position is the index
of a group and a job in it.
-/

namespace Icecream.IceccScheduler

open Icecream.Comm (Str str Msg UseCSMsg NoCSMsg)

/-! ## Groups -/

/-- A new request, at the end of its group or as a group of its own. -/
def enqueueJobRequest (ptr submitter : ℕ) (niceness : ℤ) :
    List JobRequestsGroup → List JobRequestsGroup
  | [] => [⟨[ptr], submitter, niceness⟩]
  | g :: rest =>
    if g.submitter = submitter ∧ g.niceness = niceness then { g with l := g.l ++ [ptr] } :: rest
    -- lower priority starts here
    else if niceness < g.niceness then ⟨[ptr], submitter, niceness⟩ :: g :: rest
    else g :: enqueueJobRequest ptr submitter niceness rest

def enqueueJobRequestsGroup (group : JobRequestsGroup) :
    List JobRequestsGroup → List JobRequestsGroup
  | [] => [group]
  | g :: rest =>
    if group.niceness < g.niceness then group :: g :: rest
    else g :: enqueueJobRequestsGroup group rest

abbrev JobRequestPosition := ℕ × ℕ

/-- The positions from `get_first_job_request` on, in the order of `get_next_job_request`. -/
def jobRequestPositions (groups : List JobRequestsGroup) : List JobRequestPosition :=
  groups.zipIdx.flatMap fun e => e.1.l.map fun ptr => (e.2, ptr)

/-- The group goes behind those of its niceness, if there is anything left of it. -/
def removeJobRequest (groups : List JobRequestsGroup) (pos : JobRequestPosition) :
    List JobRequestsGroup :=
  match groups[pos.1]? with
  | none => groups
  | some group =>
    let rest := groups.eraseIdx pos.1
    let l := group.l.erase pos.2
    if l = [] then rest else enqueueJobRequestsGroup { group with l := l } rest

namespace Scheduler

/-! ## Serving the first request -/

/-- The submitter itself, whose load does not count. -/
def submitterFree (s : Scheduler) (job : Job) : Bool :=
  let c := s.conn job.submitter
  c.currentJobCount < c.maxJobs ∧ job.preferredHost = [] ∧ s.canInstall c job false ≠ []

/-- The search through the queue. The position moves on, the job stays the first one. -/
def search (job : Job) : List JobRequestPosition → Scheduler →
    Scheduler × Option (JobRequestPosition × ℕ)
  | [], s => (s, none)
  | pos :: rest, s =>
    match s.pickServer job with
    | some c => (s.asked, some (pos, c.cid))
    | none =>
      if s.submitterFree job then (s.asked, some (pos, job.submitter))
      else search job rest s.asked

/-- Whether some server could take the job at another time. -/
def anyEligibleEver (s : Scheduler) (job : Job) : Bool :=
  (s.css.map s.conn).any fun c =>
    (job.preferredHost = [] ∨ c.matchesName job.preferredHost) ∧ s.isEligibleEver c job

/-- The id of a job among the last ones of the submitter and of the server. -/
def matchedJobId (submitter server : CompileServer) : UInt32 :=
  ((submitter.lastRequestedJobs.take 17).map fun l =>
    if (server.lastCompiledJobs.take 17).any fun r => r.jobId = l.jobId then l.jobId else 0).find?
      (· ≠ 0) |>.getD 0

/-- The answer to the submitter. -/
def placement (s : Scheduler) (job : Job) (useCs : ℕ) (platform : Str) (gotit : Bool) : Msg :=
  let submitter := s.conn job.submitter
  if 37 ≤ submitter.protocol ∧ useCs = job.submitter then .noCS ⟨job.id, job.localClientId⟩
  else .useCS
    { hostPlatform := platform, hostname := (s.conn useCs).name, port := (s.conn useCs).remotePort
      jobId := job.id, gotEnv := if gotit then 1 else 0, clientId := job.localClientId
      matchedJobId := matchedJobId submitter (s.conn useCs) }

/-- The other jobs of the request get the environment this one was given. -/
def shareEnvironment (platform env : Str) (s : Scheduler) (ptr : ℕ) : Except Fault Scheduler := do
  s.touchJob ptr
  return s.putJob { s.job ptr with environments := [(platform, env)] }

/-- `use_cs->appendJob(job)` -/
def appendJob (s : Scheduler) (cid : ℕ) (j : Job) : Except Fault Scheduler := do
  s.touch cid
  return s.put { s.conn cid with lastPickedId := j.id, jobList := (s.conn cid).jobList ++ [j.ptr] }

/-- What follows once the submitter has been told. -/
def settle (s : Scheduler) (j : Job) (useCs : ℕ) (gotit : Bool) : Except Fault Scheduler := do
  let s ← s.appendJob useCs j
  let s ← (if gotit then pure s else s.asked.setBusyInstalling useCs s.now)
  let hostPlatform := (s.conn useCs).hostPlatform
  let env := ((j.environments.find? fun e => e.1 = hostPlatform).map Prod.snd).getD []
  if env = [] then return s
  else j.masterJobFor.foldlM (shareEnvironment hostPlatform env) s

/-- The job at `ptr` goes to `useCs`; the position taken out of the queue is `pos`. -/
def assign (s : Scheduler) (ptr useCs : ℕ) (pos : JobRequestPosition) :
    Except Fault Scheduler := do
  let s := { s with jobRequests := removeJobRequest s.jobRequests pos }
  s.touchJob ptr
  let j := { s.job ptr with state := .waitingForCS, server := some useCs }
  let s := s.putJob j
  s.touch useCs
  s.touch j.submitter
  let installed := envsMatch (s.conn useCs) j
  let platform := if installed = [] then s.canInstall (s.conn useCs) j false else installed
  let r ← s.send j.submitter (s.placement j useCs platform (installed ≠ []))
  if r.2 then r.1.settle j useCs (installed ≠ []) else r.1.handleEnd j.submitter

/-- The result says whether to call it again. -/
def emptyQueue (s : Scheduler) : Except Fault (Scheduler × Bool) :=
  match jobRequestPositions s.jobRequests with
  | [] => pure (s, false)
  | first :: rest => do
    let s := s.require .emptyQueue (s.css ≠ [])
    s.touchJob first.2
    let job := s.job first.2
    s.css.forM s.touch
    s.touch job.submitter
    let r := search job (first :: rest) s
    match r.2 with
    | some (pos, useCs) => return (← r.1.assign first.2 useCs pos, true)
    | none =>
      if r.1.anyEligibleEver job then return (r.1, false)
      else return (← r.1.assign first.2 job.submitter first, true)

end Scheduler

end Icecream.IceccScheduler
