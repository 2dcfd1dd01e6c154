import Icecream.Scheduler.Queue

/-!
# The scheduler's message handlers

The handlers of `scheduler/scheduler.cpp` and `handle_activity`. The `Bool` is the
source's result, false when the caller must not read on from the connection.
-/

namespace Icecream.IceccScheduler

open Icecream.Comm

/-- The record with what the login tells. -/
def CompileServer.loggedIn (c : CompileServer) (m : LoginMsg) (hostId : UInt32) :
    CompileServer :=
  { c with
    remotePort := m.port
    compilerVersions := m.envs
    maxJobs := m.maxKids.toInt32.toInt
    noRemote := m.noremote
    nodeName := if m.nodename = [] then c.name else m.nodename
    hostPlatform := m.hostPlatform
    chrootPossible := m.chrootPossible
    supportedFeatures := m.supportedFeatures
    hostId := hostId }

namespace Scheduler

/-! ## Requests -/

def insertJob (id : UInt32) (ptr : ℕ) (jobs : List (UInt32 × ℕ)) : List (UInt32 × ℕ) :=
  (jobs.filter fun e => e.1 < id) ++ (id, ptr) :: jobs.filter fun e => id < e.1

/-- `create_new_job` -/
def createNewJob (s : Scheduler) (j : Job) : Except Fault Scheduler := do
  let s := s.require .newJobId (s.findJob j.id).isNone
  s.touch j.submitter
  let c := s.conn j.submitter
  return { s.put { c with submittedJobsCount := c.submittedJobsCount + 1 } with
    newJobId := j.id
    newPtr := j.ptr + 1
    heap := j :: s.heap
    jobs := insertJob j.id j.ptr s.jobs }

/-- The job of a request, with the next id. -/
def requestedJob (s : Scheduler) (cid : ℕ) (m : GetCSMsg) : Job where
  ptr := s.newPtr
  id := s.newJobId + 1
  submitter := cid
  localClientId := m.clientId
  environments := m.versions
  targetPlatform := m.target
  argFlags := m.argFlags
  preferredHost := m.preferredHost
  minimalHostVersion := m.minimalHostVersion.toInt
  requiredFeatures := m.requiredFeatures
  niceness := max 0 (min 20 m.niceness.toInt32.toInt)

/-- `master_job->appendJob(job)` -/
def appendMaster (s : Scheduler) (master ptr : ℕ) : Except Fault Scheduler := do
  s.touchJob master
  return s.putJob { s.job master with masterJobFor := (s.job master).masterJobFor ++ [ptr] }

/-- `MonGetCSMsg(job_id, host_id, m)`, whose client count stands where the features do. -/
def monGetCSMsg (jobId hostId : UInt32) (m : GetCSMsg) : MonGetCSMsg where
  filename := m.filename
  lang := m.lang
  target := m.target
  requiredFeatures := m.clientCount
  minimalHostVersion :=
    if m.clientCount &&& (nodeFeatureEnvXz ||| nodeFeatureEnvZstd) ≠ 0 then 42 else 0
  niceness := m.niceness
  jobId := jobId
  clientid := hostId

/-- One job of a request -/
def requestJob (s : Scheduler) (cid : ℕ) (m : GetCSMsg) (j : Job) : Except Fault Scheduler := do
  let s ← s.createNewJob j
  let s := { s with jobRequests := enqueueJobRequest j.ptr cid j.niceness s.jobRequests }
  s.touch cid
  let s := s.require .niceness (m.niceness ≤ 20)
  s.notifyMonitors (.monGetCS (monGetCSMsg j.id (s.conn cid).hostId m))

/-- The loop of `handle_cs_request`; the first job becomes the master of the others. -/
def requestJobs (cid : ℕ) (m : GetCSMsg) :
    ℕ → Option ℕ → Scheduler → Except Fault Scheduler
  | 0, _, s => pure s
  | n + 1, master, s => do
    let j := s.requestedJob cid m
    let s ← s.requestJob cid m j
    match master with
    | none => requestJobs cid m n (some j.ptr) s
    | some master => requestJobs cid m n (some master) (← s.appendMaster master j.ptr)

def handleCsRequest (s : Scheduler) (cid : ℕ) (m : GetCSMsg) :
    Except Fault (Scheduler × Bool) := do
  let s ← s.setClientCount cid m.clientCount
  return (← requestJobs cid m m.count.toNat none s, true)

def handleLocalJob (s : Scheduler) (cid : ℕ) (m : JobLocalBeginMsg) :
    Except Fault (Scheduler × Bool) := do
  s.touch cid
  let c := s.conn cid
  let id := s.newJobId + 1
  let s := { s.put { c with clientLocalMap := c.clientLocalMap.insert m.id ⟨id, m.fulljob⟩ } with
    newJobId := id }
  return (← s.notifyMonitors (.monLocalJobBegin ⟨id, m.stime, c.hostId, m.outfile⟩), true)

/-- The id of a local job that nobody knows is 0. -/
def handleLocalJobDone (s : Scheduler) (cid : ℕ) (id : UInt32) :
    Except Fault (Scheduler × Bool) := do
  s.touch cid
  let info := ((s.conn cid).clientLocalMap.lookup id).getD {}
  let s ← s.notifyMonitors (.jobLocalDone info.id)
  s.touch cid
  let c := s.conn cid
  return (s.put { c with clientLocalMap := c.clientLocalMap.erase id }, true)

/-! ## Logins -/

/-- One of the servers, which is stale when it has the address and the name of `cid`. -/
def removeStale (cid : ℕ) (s : Scheduler) (other : ℕ) : Except Fault Scheduler := do
  s.touch cid
  s.touch other
  let c := s.conn cid
  if c.eqIp (s.conn other) ∧ c.nodeName = (s.conn other).nodeName then s.handleEnd other
  else return s

/-- `ConfCSMsg()` -/
def confCSMsg : ConfCSMsg := ⟨3, 12 * 3⟩

def configure (s : Scheduler) (cid : ℕ) : Except Fault Scheduler := do
  s.touch cid
  if 24 ≤ (s.conn cid).protocol then return (← s.send cid (.csConf confCSMsg)).1 else return s

def handleLogin (s : Scheduler) (cid : ℕ) (m : LoginMsg) : Except Fault (Scheduler × Bool) := do
  let s := s.require .hostId ((s.conn cid).hostId = 0)
  let id := s.hostIdCounter + 1
  let s := { s.put ((s.conn cid).loggedIn m id) with hostIdCounter := id }
  if s.blockCss.any (s.conn cid).matchesName then return (s, false)
  else
    let s ← s.handleMonitorStats cid
    let s ← s.css.foldlM (removeStale cid) s
    return (← { s with css := s.css ++ [cid] }.configure cid, true)

def handleRelogin (s : Scheduler) (cid : ℕ) (m : LoginMsg) : Except Fault (Scheduler × Bool) := do
  s.touch cid
  let s := s.put { s.conn cid with compilerVersions := m.envs, busyInstalling := 0 }
  return (← s.configure cid, false)

def handleMonLogin (s : Scheduler) (cid : ℕ) : Except Fault (Scheduler × Bool) := do
  s.touch cid
  let s := { s with monitors := s.monitors ++ [cid] }
  let s ← s.css.foldlM handleMonitorStats s
  s.touch cid
  return ({ s with fd2cs := s.fd2cs.filter fun e => e.1 ≠ (s.conn cid).fd }, true)

def setType (s : Scheduler) (cid : ℕ) (t : ConnType) : Scheduler :=
  s.put { s.conn cid with type := t }

def tryLogin (s : Scheduler) (cid : ℕ) (m : Msg) : Except Fault (Scheduler × Bool) := do
  let r ← (match m with
    | .login m => (s.setType cid .daemon).handleLogin cid m
    | .monLogin => (s.setType cid .monitor).handleMonLogin cid
    | _ => pure (s, false))
  if r.2 then
    r.1.touch cid
    return (r.1.put { r.1.conn cid with state := .loggedIn }, true)
  else return (← r.1.handleEnd cid, false)

/-! ## Jobs -/

def handleJobBegin (s : Scheduler) (cid : ℕ) (m : JobBeginMsg) :
    Except Fault (Scheduler × Bool) :=
  match s.findJob m.jobId with
  | none => pure (s, false)
  | some ptr => do
    s.touchJob ptr
    if (s.job ptr).server ≠ some cid then return (s, false)
    else
      let s ← s.setClientCount cid m.clientCount
      let s := s.putJob { s.job ptr with state := .compiling }
      let s ← s.notifyMonitors (.monJobBegin ⟨m.jobId, m.stime, (s.conn cid).hostId⟩)
      s.touch (s.job ptr).submitter
      s.touch cid
      return (s, true)

/-- The job is taken out of the first groups of `cid`, up to one that it leaves empty. -/
def dequeue (cid ptr : ℕ) : List JobRequestsGroup → List JobRequestsGroup
  | [] => []
  | g :: rest =>
    if g.submitter = cid then
      if g.l.erase ptr = [] then rest else { g with l := g.l.erase ptr } :: dequeue cid ptr rest
    else g :: dequeue cid ptr rest

/-- One entry of `jobs` while a request of client `clientId` of `cid` is looked for. -/
def cancelQueued (cid : ℕ) (clientId : UInt32) (r : Scheduler × Option ℕ) (e : UInt32 × ℕ) :
    Except Fault (Scheduler × Option ℕ) := do
  r.1.touchJob e.2
  let j := r.1.job e.2
  if j.server = none ∧ j.submitter = cid ∧ j.localClientId = clientId then
    return ({ r.1 with jobRequests := dequeue cid e.2 r.1.jobRequests }, some e.2)
  else return r

/-- The job that the message is about and the message with its id. -/
def jobOfDone (s : Scheduler) (cid : ℕ) (m : JobDoneMsg) :
    Except Fault ((Scheduler × Option ℕ) × JobDoneMsg) :=
  if m.unknownJobClientId ≠ 0 then do
    let r ← s.jobs.foldlM (cancelQueued cid m.unknownJobClientId) (s, none)
    match r.2 with
    | some ptr => return (r, m.setJobId (r.1.job ptr).id)
    | none => return (r, m)
  else return ((s, s.findJob m.jobId), m)

/-- Flags of `CompileJob` -/
def flagG : UInt32 := 1
def flagG3 : UInt32 := 2
def flagO : UInt32 := 4
def flagO2 : UInt32 := 8
def flagOl2 : UInt32 := 16

/-- The size of a job's output in the unit that all jobs share. -/
def adjustedSize (argFlags outUncompressed : UInt32) : UInt64 :=
  let size := outUncompressed.toUInt64
  let size := if argFlags &&& flagG ≠ 0 then size * 10 / 36
    else if argFlags &&& flagG3 ≠ 0 then size * 10 / 45 else size
  if argFlags &&& flagO ≠ 0 ∨ argFlags &&& flagO2 ≠ 0 ∨ argFlags &&& flagOl2 ≠ 0 then
    size * 58 / 35
  else size

def jobStat (s : Scheduler) (server : ℕ) (j : Job) (m : JobDoneMsg) : JobStat :=
  let st : JobStat :=
    { outputSize := adjustedSize j.argFlags m.outUncompressed
      compileTimeReal := m.realMsec.toUInt64, compileTimeUser := m.userMsec.toUInt64
      compileTimeSys := m.sysMsec.toUInt64, jobId := j.id }
  if 7 ≤ (s.conn server).lastCompiledJobs.length then
    { st with outputSize := s.host.smoothed (s.conn server) st }
  else st

/-- A window of the last `size` values and their sum, with one more value. -/
def pushStat (size : ℕ) (st : JobStat) (w : List JobStat × JobStat) : List JobStat × JobStat :=
  let l := w.1 ++ [st]
  let cum := w.2.add st
  if size < l.length then (l.tail, cum.sub (l.headD {})) else (l, cum)

/-- The server's window gets a value. -/
def countCompiled (s : Scheduler) (cid : ℕ) (st : JobStat) : Except Fault Scheduler := do
  s.touch cid
  let c := s.conn cid
  let w := pushStat 200 st (c.lastCompiledJobs, c.cumCompiled)
  return s.put { c with lastCompiledJobs := w.1, cumCompiled := w.2 }

/-- The submitter's window gets a value. -/
def countRequested (s : Scheduler) (cid : ℕ) (st : JobStat) : Except Fault Scheduler := do
  s.touch cid
  let c := s.conn cid
  let w := pushStat 200 st (c.lastRequestedJobs, c.cumRequested)
  return s.put { c with lastRequestedJobs := w.1, cumRequested := w.2 }

/-- The statistics of a job that the code bases its timings on. -/
def addJobStats (s : Scheduler) (j : Job) (m : JobDoneMsg) : Except Fault Scheduler :=
  if m.outUncompressed < 4096 ∨ m.exitcode ≠ 0 then pure s
  else match j.server with
    | none => throw .nullPointer
    | some server => do
      let st := s.jobStat server j m
      let s ← s.countCompiled server st
      let s ← s.countRequested j.submitter st
      let w := pushStat 2000 st (s.allJobStats, s.cumJobStats)
      return { s with allJobStats := w.1, cumJobStats := w.2 }

/-- The name of the job's server is read. -/
def touchServer (s : Scheduler) (j : Job) : Except Fault Unit :=
  match j.server with
  | some server => s.touch server
  | none => throw .nullPointer

/-- The job is over, wherever it was. -/
def finishJob (s : Scheduler) (cid ptr : ℕ) (m : JobDoneMsg) : Except Fault Scheduler := do
  let s ← s.setClientCount cid m.clientCount
  let j := s.job ptr
  (if m.exitcode = 0 then s.touchServer j else pure ())
  let s ← (match j.server with
    | some server => s.removeJob server ptr
    | none => pure s)
  let s ← s.addJobStats j m
  let s ← s.notifyMonitors (.monJobDone m)
  (s.eraseJob m.jobId).freeJob ptr

def handleJobDone (s : Scheduler) (cid : ℕ) (m : JobDoneMsg) :
    Except Fault (Scheduler × Bool) := do
  let ((s, found), m) ← s.jobOfDone cid m
  match found with
  | none => return (s, false)
  | some ptr =>
    s.touchJob ptr
    let j := s.job ptr
    -- the names of both are logged before the daemon is kicked
    if m.isFromServer ∧ j.server ≠ some cid then
      s.touchServer j
      return (← s.handleEnd cid, false)
    else if ¬ m.isFromServer ∧ j.submitter ≠ cid then
      s.touch j.submitter
      return (← s.handleEnd cid, false)
    else return (← s.finishJob cid ptr m, true)

/-! ## Other messages of a daemon -/

def handlePing (s : Scheduler) (cid : ℕ) : Except Fault (Scheduler × Bool) := do
  s.touch cid
  let c := s.conn cid
  return (s.asked.put { c with
    lastTalk := s.now, maxJobs := if c.maxJobs < 0 then -c.maxJobs else c.maxJobs }, true)

def handleStats (s : Scheduler) (cid : ℕ) (m : StatsMsg) : Except Fault (Scheduler × Bool) := do
  let s ← (if (s.conn cid).protocol < 25 then Prod.fst <$> s.handlePing cid else pure s)
  if cid ∈ s.css then
    s.touch cid
    let s := s.put { s.conn cid with load := m.load, clientCount := m.clientCount.toInt32.toInt }
    return (← s.handleMonitorStats cid, true)
  else return (s, false)

/-- One of the servers, when it has the host name of the message. -/
def blacklistCompileServer (cid : ℕ) (m : BlacklistHostEnvMsg) (s : Scheduler) (other : ℕ) :
    Except Fault Scheduler := do
  s.touch other
  s.touch cid
  if (s.conn other).name = m.hostname then
    let c := s.conn cid
    let envs := (c.blacklist.lookup other).getD [] ++ [(m.target, m.environment)]
    return s.put { c with blacklist := c.blacklist.insert other envs }
  else return s

def handleBlacklistHostEnv (s : Scheduler) (cid : ℕ) (m : BlacklistHostEnvMsg) :
    Except Fault (Scheduler × Bool) :=
  return (← s.css.foldlM (blacklistCompileServer cid m) s, true)

/-! ## The control connection -/

def isSeparator (c : UInt8) : Bool := c = 32 ∨ c = 9 ∨ c = 10

/-- `split_string(s, " \t\n", l)` -/
def splitString (s : Str) : List Str :=
  (s.splitOnP isSeparator).filter (· ≠ [])

/-- `::tolower` in the C locale -/
def tolower (c : UInt8) : UInt8 := if 65 ≤ c ∧ c ≤ 90 then c + 32 else c

def sendText (s : Scheduler) (cid : ℕ) : Except Fault (Scheduler × Bool) :=
  s.asked.send cid (.text s.text)

/-- What `dump_job` looks at -/
def dumpJob (s : Scheduler) (ptr : ℕ) : Except Fault Unit := do
  s.touchJob ptr
  s.touch (s.job ptr).submitter
  match (s.job ptr).server with
  | some server => s.touch server
  | none => pure ()

/-- A line for each element of a list, until one cannot be sent. -/
def sendEach {α : Type} (cid : ℕ) (used : Scheduler → α → Except Fault Unit) :
    List α → Scheduler → Except Fault (Scheduler × Bool)
  | [], s => pure (s, true)
  | x :: rest, s => do
    used s x
    let r ← s.sendText cid
    if r.2 then sendEach cid used rest r.1 else return (r.1, false)

def listServers (cid : ℕ) : List ℕ → Scheduler → Except Fault (Scheduler × Bool)
  | [], s => pure (s, true)
  | other :: rest, s => do
    s.touch other
    let r ← s.sendText cid
    if r.2 then
      let r ← sendEach cid dumpJob (r.1.conn other).jobList r.1
      if r.2 then listServers cid rest r.1 else return (r.1, false)
    else return (r.1, false)

/-- One host of `removecs` or `blockcs` -/
def removeServer (cid : ℕ) (block : Bool) (s : Scheduler) (nm : Str) :
    Except Fault Scheduler := do
  let s := if block then { s with blockCss := s.blockCss ++ [nm] } else s
  s.css.forM s.touch
  match s.css.find? fun other => (s.conn other).matchesName nm with
  | none => return s
  | some other =>
    let r ← s.sendText cid
    if r.2 then r.1.handleEnd other else return r.1

/-- `internals`: each server is asked and one message of it is read, whatever it is. -/
def askInternals (cid : ℕ) (names : List Str) :
    List ℕ → Scheduler → Except Fault (Scheduler × Bool)
  | [], s => pure (s, true)
  | other :: rest, s => do
    s.touch other
    if names = [] ∨ names.any (s.conn other).matchesName then
      let asked ← s.send other .getInternals
      let r ← asked.1.sendText cid
      if r.2 then askInternals cid names rest r.1 else return (r.1, false)
    else askInternals cid names rest s

/-- The commands that answer in lines. -/
def handleCommand (s : Scheduler) (cid : ℕ) (cmd : Str) (l : List Str) :
    Except Fault (Scheduler × Bool) :=
  if cmd = str "listcs" then listServers cid s.css s
  else if cmd = str "listblocks" then sendEach cid (fun _ _ => pure ()) s.blockCss s
  else if cmd = str "listjobs" then sendEach cid (fun s e => s.dumpJob e.2) s.jobs s
  else if cmd = str "removecs" ∨ cmd = str "blockcs" then
    if l = [] then s.sendText cid
    else return (← l.foldlM (removeServer cid (cmd = str "blockcs")) s, true)
  else if cmd = str "unblockcs" then
    if l = [] then s.sendText cid else return ({ s with blockCss := s.blockCss.diff l }, true)
  else if cmd = str "internals" then askInternals cid l s.css s
  else s.sendText cid

def command (text : Str) : Str := ((splitString text).headD []).map tolower

def handleLine (s : Scheduler) (cid : ℕ) (text : Str) : Except Fault (Scheduler × Bool) := do
  s.touch cid
  let s := s.asked.put { s.conn cid with lastTalk := s.now }
  if command text = str "quit" ∨ command text = str "exit" then
    return (← s.handleEnd cid, false)
  else
    let r ← s.handleCommand cid (command text) (splitString text).tail
    if r.2 then r.1.sendText cid else return (r.1, false)

/-! ## `handle_activity` -/

/-- A message of a connection that is logged in. -/
def dispatch (s : Scheduler) (cid : ℕ) : Msg → Except Fault (Scheduler × Bool)
  | .jobBegin m => s.handleJobBegin cid m
  | .jobDone m => s.handleJobDone cid m
  | .ping => s.handlePing cid
  | .stats m => s.handleStats cid m
  | .jobLocalBegin m => s.handleLocalJob cid m
  | .jobLocalDone id => s.handleLocalJobDone cid id
  | .login m => s.handleRelogin cid m
  | .text t => s.handleLine cid t
  | .getCS m => s.handleCsRequest cid m
  | .blacklistHostEnv m => s.handleBlacklistHostEnv cid m
  -- the end, and what has no business here
  | _ => return (← s.handleEnd cid, false)

def handleActivity (s : Scheduler) (cid : ℕ) (msg : Option Msg) :
    Except Fault (Scheduler × Bool) := do
  s.touch cid
  let s := s.note (.received cid msg)
  match msg with
  | none => return (← s.handleEnd cid, false)
  | some m => if (s.conn cid).state = .connected then s.tryLogin cid m else s.dispatch cid m

end Scheduler

end Icecream.IceccScheduler
