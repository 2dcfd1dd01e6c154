import Icecream.Daemon.Cache
import Icecream.Services.Compiler

/-!
# The daemon's message handlers

The handlers of `daemon/main.cpp`. A handler gets the client's record as it stands in
`clients` and puts back the record it leaves; its `Bool` is the source's result, false
when the caller must not go on with the client.
-/

namespace Icecream.Iceccd

open Icecream.Comm

/-- `JobDoneMsg(id, exit, flags, clients.size())` -/
def jobDoneMsg (jobId : UInt32) (exitcode : Int32) (flags clientCount : UInt32) : JobDoneMsg :=
  { jobId, exitcode, flags, clientCount }

/-- The record that `finish_transfer_env` leaves. -/
def Client.transferOver (c : Client) : Client :=
  { c with
    pipeFromChild := false, pipeToChild := false, childPid := false,
    status := .unknown, outfile := [] }

/-- The job id in the report of the client's end. -/
def Client.endJobId (c : Client) : UInt32 :=
  if c.status = .toCompile then (c.job.map CompileJob.id).getD 0 else c.jobId

def Client.endFlag (c : Client) : UInt32 :=
  if c.status = .toCompile then JobDoneMsg.fromServer else JobDoneMsg.fromSubmitter

/-- The record as `handle_end` reports it; a real good bye makes it forget the scheduler. -/
def Client.closed (c : Client) (exitcode : Int32) : Client :=
  { c with
    fulljob := false
    jobId := if c.status = .waitCompile ∧ exitcode = 119 then 0 else c.jobId }

/-- The statuses that `handle_end` takes to have a job id. -/
def Status.hasJob : Status → Bool
  | .toCompile | .waitCompile | .pendingUseCS | .clientWork | .waitForCS => true
  | _ => false

/-- What a compile child writes into its pipe before it exits. -/
structure JobStat where
  inCompressed : UInt32
  inUncompressed : UInt32
  outUncompressed : UInt32
  exitCode : UInt32
  realMsec : UInt32
  userMsec : UInt32
  sysMsec : UInt32
  sysPfaults : UInt32
  deriving DecidableEq

def compileDoneMsg (jobId clientCount : UInt32) : Option JobStat → JobDoneMsg
  | none => jobDoneMsg jobId (-1) JobDoneMsg.fromServer clientCount
  | some s =>
    { jobDoneMsg jobId s.exitCode.toInt32 JobDoneMsg.fromServer clientCount with
      inUncompressed := s.inUncompressed, inCompressed := s.inCompressed,
      outCompressed := s.outUncompressed, outUncompressed := s.outUncompressed,
      realMsec := s.realMsec, userMsec := s.userMsec, sysMsec := s.sysMsec,
      pfaults := s.sysPfaults }

namespace Daemon

def killChild (d : Daemon) : Daemon := (d.require .finishKids (d.currentKids > 0)).dropKid

/-- What `finish_transfer_env` asserts, and the end of an unpacking child. -/
def stopTransfer (d : Daemon) (c : Client) (cancel : Bool) : Daemon :=
  let d := d.require .finishOutfile (c.outfile ≠ [])
  let d := d.require .finishStatus (c.status = .toInstall ∨ c.status = .waitInstall)
  let d := d.require .finishCancelFrom (c.pipeFromChild → cancel)
  let d := d.require .finishCancelTo (c.pipeToChild → cancel)
  let d := d.require .finishCancelPid (c.childPid → cancel)
  if c.childPid then d.killChild else d

/-- The size of what was installed; nothing is left of an environment without one. -/
def settleFiles (d : Daemon) (outfile : Str) (cancel : Bool) : Daemon × UInt64 :=
  let r := if cancel then (d, 0) else d.finalizeInstallEnvironment outfile
  if r.2 = 0 then (r.1.removeEnvironmentFiles outfile, 0) else r

def addReceived (d : Daemon) (key : Str) (size : UInt64) : Daemon :=
  if size ≠ 0 then
    { d with
      cacheSize := d.cacheSize + size
      receivedEnvironments :=
        d.receivedEnvironments.insert key { lastUse := d.now, size := size } }
  else d

/-- The cache is cut to its limit and the scheduler told. -/
def announceCache (d : Daemon) (key : Str) : Daemon × Bool :=
  let announced := (d.checkCacheSize key).reannounceEnvironments
  let reported := announced.1.maybeStats true
  (reported.1, announced.2 && reported.2)

def finishTransferEnv (d : Daemon) (c : Client) (cancel : Bool) : Daemon × Bool :=
  let r := (d.stopTransfer c cancel).settleFiles c.outfile cancel
  ((r.1.put c.transferOver).addReceived c.outfile r.2).announceCache c.outfile

/-- The message that tells the scheduler how the client ended; `none` when there is
nothing to tell. -/
def goodbye (d : Daemon) (c : Client) (exitcode : Int32) : Option Msg :=
  if 0 < c.endJobId.toInt32 ∨ c.status = .waitForCS then
    some (.jobDone (if c.status = .waitForCS then
      (jobDoneMsg c.endJobId exitcode c.endFlag d.clients.size).setUnknownJobClientId
        (UInt32.ofNat c.clientId)
      else jobDoneMsg c.endJobId exitcode c.endFlag d.clients.size))
  else if c.status = .clientWork then some (.jobLocalDone (UInt32.ofNat c.clientId))
  else none

/-- Records a job id with a status that should not have one. -/
def requireEndStatus (d : Daemon) (c : Client) : Daemon :=
  d.require .endStatus (0 < c.jobId.toInt32 → c.status.hasJob)

/-- The last part of `handle_end`: the client is no longer in `clients`. -/
def reportEnd (d : Daemon) (c : Client) (exitcode : Int32) : Daemon :=
  if d.scheduler.isSome ∧ c.status ≠ .waitForChild then
    let d := if c.status = .toCompile ∧ c.job.isNone then d.crash else d
    let d := if c.status = .waitForCS then d.require .endClientId (0 < c.clientId) else d
    let d := d.requireEndStatus c
    match d.goodbye c exitcode with
    | some m => (d.sendScheduler m).1
    | none => d
  else d

def dropFd (d : Daemon) (fd : ℕ) : Daemon :=
  { d with fd2client := d.fd2client.filter fun e => e.1 ≠ fd }

def handleEnd (d : Daemon) (c : Client) (exitcode : Int32) : Daemon :=
  let d := (d.note (.ended c.status c.jobId)).dropFd c.fd
  let installing := c.status = .toInstall ∨ c.status = .waitInstall
  let d := if installing then (d.finishTransferEnv c true).1 else d
  let c := if installing then c.transferOver else c
  let d := if c.status = .clientWork then d.release (d.weight c) else d
  let c := c.closed exitcode
  (d.erase c).reportEnd c exitcode

/-! ## Messages of the scheduler -/

/-- A client that is gone, or whose record is to get the compile server. -/
def schedulerUseCS (d : Daemon) (m : UseCSMsg) : Daemon × Bool :=
  match d.clients.findByClientId m.clientId with
  | none => d.sendScheduler (.jobDone
      (jobDoneMsg m.jobId 107 JobDoneMsg.fromSubmitter d.clients.size))
  | some c =>
    if m.hostname = d.remoteName ∧ m.port = d.daemonPort then
      (d.put { c with
        usecsmsg := some ⟨m.jobId, str "127.0.0.1", d.daemonPort, m.hostPlatform, 1, 1,
          m.matchedJobId⟩
        status := .pendingUseCS
        jobId := m.jobId }, true)
    else
      let c := { c with
        usecsmsg := some ⟨m.jobId, m.hostname, m.port, m.hostPlatform, 1, 1, m.matchedJobId⟩ }
      let r := (d.put c).sendClient c (.useCS m)
      if r.2 then (r.1.put { c with status := .waitCompile, jobId := m.jobId }, true)
      else (r.1.handleEnd c 143, true)

def schedulerNoCS (d : Daemon) (m : NoCSMsg) : Daemon × Bool :=
  match d.clients.findByClientId m.clientId with
  | none => d.sendScheduler (.jobDone
      (jobDoneMsg m.jobId 107 JobDoneMsg.fromSubmitter d.clients.size))
  | some c =>
    (d.put { c with
      usecsmsg := some ⟨m.jobId, str "127.0.0.1", d.daemonPort, [], 1, 1, 0⟩
      status := .pendingUseCS
      jobId := m.jobId }, true)

def schedulerGetInternals (d : Daemon) : Daemon × Bool :=
  d.asked.sendScheduler (.statusText (d.host.report d.calls))

def handleCsConf (d : Daemon) (m : ConfCSMsg) : Daemon :=
  { d with maxSchedulerPong := m.maxSchedulerPong, maxSchedulerPing := m.maxSchedulerPing }

/-! ## Environment transfers -/

def requireChunk (d : Daemon) (c : Client) : Daemon :=
  let d := d.require .fileChunkStatus (c.status = .toInstall ∨ c.status = .waitInstall)
  d.require .fileChunkPipe c.pipeToChild

def handleFileChunkEnv (d : Daemon) (c : Client) (m : Msg) : Daemon × Bool :=
  let d := d.requireChunk c
  match m with
  | .fileChunk chunk =>
    -- written, or the pipe is broken, which the child's end will explain
    if chunk.len = 0 ∨ d.ask ≠ 0 then (d.asked, true) else (d.asked.handleEnd c 137, false)
  | .endMsg =>
    if c.childPid then
      (d.put { c with pipeToChild := false, status := .waitInstall }, true)
    else
      let c := { c with pipeToChild := false }
      (d.put c).finishTransferEnv c false
  | _ => (d.handleEnd c 138, false)

def requireIdle (d : Daemon) (c : Client) : Daemon :=
  let d := d.require .transferEnvStatus (c.status ≠ .toInstall ∧ c.status ≠ .waitInstall ∧
    c.status ≠ .toCompile ∧ c.status ≠ .waitCompile)
  d.require .transferEnvPipes (¬ c.pipeFromChild ∧ ¬ c.pipeToChild)

def transferTarget (d : Daemon) (m : EnvTransferMsg) : Str :=
  if m.target = [] then d.machineName else m.target

def handleTransferEnv (d : Daemon) (c : Client) (m : EnvTransferMsg) (next : Option Msg) :
    Daemon × Bool :=
  let key := envKey (d.transferTarget m) m.name
  let r := (d.requireIdle c).startInstallEnvironment (d.transferTarget m) m.name next
  if r.2 = false then ((r.1.removeEnvironmentFiles key).handleEnd c 144, false)
  else
    let c := { c with
      status := .toInstall, outfile := key,
      pipeToChild := true, pipeFromChild := true, childPid := true }
    (r.1.addKid.put c).handleFileChunkEnv c (next.getD .endMsg)

def requireInstalling (d : Daemon) (c : Client) : Daemon :=
  let d := d.require .installDoneStatus (c.status = .toInstall ∨ c.status = .waitInstall)
  let d := d.require .installDonePid c.childPid
  let d := d.require .installDonePipe c.pipeFromChild
  d.require .installDoneKids (d.currentKids > 0)

def handleEnvInstallChildDone (d : Daemon) (c : Client) (success : Bool) : Daemon × Bool :=
  let d := (d.requireInstalling c).dropKid
  let c := { c with childPid := false, pipeFromChild := false }
  let d := d.put c
  if success = false then d.finishTransferEnv c true
  else if c.pipeToChild then (d.require .installDoneOpen (c.status = .toInstall), true)
  else d.finishTransferEnv c false

/-! ## Native environments -/

def native (d : Daemon) (key : Str) : NativeEnvironment := (d.nativeEnvironments.lookup key).getD {}

def setNative (d : Daemon) (key : Str) (env : NativeEnvironment) : Daemon :=
  { d with nativeEnvironments := d.nativeEnvironments.insert key env }

def requireCreating (d : Daemon) (c : Client) (key : Str) : Daemon :=
  let d := d.require .finishNativeStatus (c.status = .waitCreateEnv)
  d.require .finishNativeKey (c.pendingCreateEnv = key)

def finishGetNativeEnv (d : Daemon) (c : Client) (key : Str) : Daemon × Bool :=
  let env := d.native key
  let r := ((d.requireCreating c key).setNative key env).sendClient c (.useNativeEnv env.name)
  if r.2 = false then (r.1.handleEnd c 138, false)
  else
    ((r.1.setNative key { env with lastUse := r.1.now }).put
      { c with status := .gotNative, pendingCreateEnv := [] }, true)

/-- The compilers and extra files with their times, as a map holds them; `none` when one is
missing. -/
def filetimes (d : Daemon) (ccompiler cppcompiler : Str) (extrafiles : List Str) :
    Option (List (Str × ℤ)) := do
  let cc ← d.host.mtime d.calls ccompiler
  let cpp := ((d.host.mtime d.calls cppcompiler).map fun t => (cppcompiler, t)).toList
  let extra ← extrafiles.mapM fun f => (d.host.mtime d.calls f).map fun t => (f, t)
  return byKey (((ccompiler, cc) :: cpp ++ extra).foldl (fun m e => m.insert e.1 e.2) ∅)

def nativeKey (m : GetNativeEnvMsg) (ccompiler : Str) : Str :=
  m.compression ++ str ":" ++ ccompiler ++ m.extrafiles.flatMap fun f => str ":" ++ f

/-- Older clients passed simply "gcc" or "clang" and not a binary. -/
def nativeCompiler (c : Client) (compiler : Str) : Str :=
  if c.protocol < 41 ∧ ¬ Services.contains compiler (str "/") then str "/usr/bin/" ++ compiler
  else compiler

def refuseNativeEnv (d : Daemon) (c : Client) : Daemon × Bool :=
  ((d.sendClient c .endMsg).1.handleEnd c 122, false)

def needsRebuild (d : Daemon) (env : NativeEnvironment) (times : List (Str × ℤ)) : Bool :=
  env.name ≠ [] ∧ (env.filetimes ≠ times ∨ ¬ d.host.readable d.calls env.name)

/-- The creation is started only if it is not already in progress. -/
def startCreateEnv (d : Daemon) (key : Str) (times : List (Str × ℤ)) : Daemon :=
  let env := d.native key
  d.asked.setNative key
    (if env.createEnvPipe then env
      else { env with filetimes := times, createEnvPipe := d.ask ≠ 0 })

/-- The entry that needs a rebuild is not dropped: the key given is its tarball's name. -/
def dropStale (d : Daemon) (key : Str) (times : List (Str × ℤ)) : Daemon :=
  if d.needsRebuild (d.native key) times then
    d.asked.removeNativeEnvironment (d.native key).name
  else d

def handleGetNativeEnv (d : Daemon) (c : Client) (m : GetNativeEnvMsg) : Daemon × Bool :=
  let compiler := nativeCompiler c m.compiler
  let cc := Services.getCCompiler compiler
  let cpp := Services.getCppCompiler compiler
  let d := d.require .getNativeEnvCompiler (cc.isSome ∧ cpp.isSome)
  match d.filetimes (cc.getD []) (cpp.getD []) m.extrafiles with
  | none => d.asked.refuseNativeEnv c
  | some times =>
    let key := nativeKey m (cc.getD [])
    let d := d.asked.dropStale key times
    let c := { c with status := .waitCreateEnv, pendingCreateEnv := key }
    if (d.native key).name ≠ [] then (d.put c).finishGetNativeEnv c key
    else ((d.put c).startCreateEnv key times, true)

/-- The clients waiting for `key` get their end one after the other. -/
def refuseWaiting (key : Str) : ℕ → Daemon → Daemon
  | 0, d => d
  | fuel + 1, d =>
    match d.clients.list.find? fun c => c.pendingCreateEnv = key with
    | none => d
    | some c => refuseWaiting key fuel ((d.sendClient c .endMsg).1.handleEnd c 121)

/-- The scan that answers them; one whose record is erased leaves the iterator dangling. -/
def answerWaiting (key : Str) : List Client → Daemon → Daemon
  | [], d => d
  | c :: rest, d =>
    if c.pendingCreateEnv = key then
      let r := d.finishGetNativeEnv c key
      answerWaiting key rest (if r.2 then r.1 else (r.1.note .readAfterFree).crash)
    else answerWaiting key rest d

/-- `finish_create_env`: the name of the tarball and its size, 0 when there is none.
`output` is what `icecc-create-env` wrote, up to its first newline. -/
def finishCreateEnv (d : Daemon) (name output : Str) : Str × UInt64 :=
  if output = [] then (name, 0)
  else (d.envbasedir ++ str "/native/" ++ output, UInt64.ofNat d.ask)

def addNative (d : Daemon) (key : Str) (env : NativeEnvironment) (size : UInt64) : Daemon :=
  { d.asked with
    cacheSize := d.cacheSize + size
    nativeEnvironments := d.nativeEnvironments.insert key env }

def requireNative (d : Daemon) (key : Str) : Daemon :=
  let d := d.require .createEnvEntry (d.nativeEnvironments.lookup key).isSome
  d.require .createEnvPipe (d.native key).createEnvPipe

/-- The entry gets its size and the cache is cut; the caller's iterator is at the entry. -/
def keepNative (d : Daemon) (key : Str) (env : NativeEnvironment) (size : UInt64) : Daemon :=
  let d := (d.setNative key { env with lastUse := d.now, size := size }).checkCacheSize env.name
  if (d.nativeEnvironments.lookup key).isSome then d else d.crash

def createEnvFinished (d : Daemon) (key output : Str) : Daemon × Bool :=
  let r := d.finishCreateEnv (d.native key).name output
  let env := { d.native key with name := r.1, createEnvPipe := false }
  let d := (d.requireNative key).addNative key env r.2
  if r.2 = 0 then (refuseWaiting key d.clients.list.length d, false)
  else
    let d := d.keepNative key env r.2
    (answerWaiting key d.clients.list d, true)

/-! ## Jobs -/

def handleJobDone (d : Daemon) (c : Client) (m : JobDoneMsg) : Daemon × Bool :=
  let d := if c.status = .clientWork then d.release (d.weight c) else d
  let d := d.require .jobDoneId (m.jobId = c.jobId)
  let d := d.put { c with status := .jobDone, fulljob := false, jobId := 0 }
  d.sendScheduler (.jobDone { m with clientCount := d.clients.size })

def handleCompileFile (d : Daemon) (c : Client) (job : CompileJob) : Daemon × Bool :=
  let c := { c with job := some job }
  if c.status = .clientWork then
    let d := d.require .compileFileClient (job.environmentVersion = str "__client")
    (d.put c).sendScheduler (.jobBegin
      { jobId := job.id, stime := d.stime, clientCount := d.clients.size })
  else (d.put { c with status := .toCompile }, true)

def handleGetCS (d : Daemon) (c : Client) (m : GetCSMsg) : Daemon × Bool :=
  let id := UInt32.ofNat c.clientId
  let c := { c with status := .waitForCS, niceness := m.niceness }
  if d.scheduler.isNone then
    (d.put { c with
      usecsmsg := some ⟨id, str "127.0.0.1", d.daemonPort, m.target, 1, 1, 0⟩
      status := .pendingUseCS
      jobId := id }, true)
  else (d.put c).sendScheduler (.getCS { m with clientId := id, clientCount := d.clients.size })

def handleLocalJob (d : Daemon) (c : Client) (m : JobLocalBeginMsg) : Daemon × Bool :=
  (d.put { c with
    status := .linkJob, niceness := m.niceness, outfile := m.outfile, fulljob := m.fulljob }, true)

def handleVerifyEnv (d : Daemon) (c : Client) (m : VerifyEnvMsg) : Daemon × Bool :=
  let r := d.verifyEnv c m.target m.environment
  r.1.sendClient c (.verifyEnvResult r.2)

def handleBlacklistHostEnv (d : Daemon) (m : BlacklistHostEnvMsg) : Daemon × Bool :=
  d.sendScheduler (.blacklistHostEnv m)

def useReceived (d : Daemon) (key : Str) : Daemon :=
  let env := (d.receivedEnvironments.lookup key).getD {}
  { d with
    receivedEnvironments := d.receivedEnvironments.insert key { env with lastUse := d.now } }

def requireCompiling (d : Daemon) (c : Client) : Daemon :=
  let d := d.require .compileDoneStatus (c.status = .waitForChild)
  let d := d.require .compileDonePid c.childPid
  let d := d.require .compileDonePipe c.pipeFromChild
  d.require .compileDoneKids (d.currentKids > 0)

/-- The environment of a job whose child found no compiler in it is damaged. -/
def dropDamaged (d : Daemon) (endStatus : Int32) (key : Str) : Daemon :=
  if endStatus = 110 then (d.removeEnvironment key).reannounceEnvironments.1 else d

/-- The compile child is gone; a false result always, and the client with it. -/
def handleCompileDone (d : Daemon) (c : Client) (stat : Option JobStat) : Daemon × Bool :=
  let d := d.requireCompiling c
  match c.job with
  | none => (d.crash, false)
  | some job =>
    let msg := compileDoneMsg job.id d.clients.size stat
    let endStatus : Int32 := (stat.map fun s => s.exitCode.toInt32).getD 151
    let c := { c with pipeFromChild := false }
    let d := d.dropKid.put c
    let d := (d.useReceived (jobKey job)).dropDamaged endStatus (jobKey job)
    let d := (d.sendScheduler (.jobDone msg)).1
    (d.handleEnd c endStatus, false)

/-! ## `handle_old_request` -/

def startLocalJob (d : Daemon) (c : Client) : Daemon × Bool :=
  let r := d.sendClient c (.jobLocalBegin { stime := d.stime })
  if r.2 = false then (r.1.handleEnd c 112, true)
  else
    let d := (r.1.put { c with status := .clientWork }).reserve (d.weight c)
    d.sendScheduler (.jobLocalBegin
      { id := UInt32.ofNat c.clientId, outfile := c.outfile, fulljob := c.fulljob,
        stime := d.stime })

def startPending (d : Daemon) (c : Client) : Daemon :=
  match c.usecsmsg with
  | none => d.crash
  | some m =>
    let r := d.sendClient c (.useCS m)
    if r.2 then (r.1.put { c with status := .clientWork }).reserve 1 else r.1.handleEnd c 129

def startCompile (d : Daemon) (c : Client) : Daemon :=
  match c.job with
  | none => d.crash
  | some job =>
    let r := (d.useReceived (jobKey job)).handleConnection job
    if r.2 then
      let d := r.1.addKid.put
        { c with status := .waitForChild, pipeFromChild := true, childPid := true }
      (d.sendScheduler (.jobBegin
        { jobId := job.id, stime := d.stime, clientCount := d.clients.size })).1
    else r.1.handleEnd c 117

/-- One turn of the loop, and whether there is another. -/
def handleOldRequest (d : Daemon) : Daemon × Bool :=
  if ¬ d.currentKids + d.clients.activeProcesses < d.slots then (d, false)
  else match d.clients.getEarliestClient .linkJob with
    | some c => d.startLocalJob c
    | none => match d.clients.getEarliestClient .pendingUseCS with
      | some c => (d.startPending c, true)
      | none =>
        if 1000 ≤ d.currentLoad then (d, false)
        else match d.clients.getEarliestClient .toCompile with
          | some c => (d.startCompile c, true)
          | none => (d, false)

/-! ## `handle_activity` -/

/-- `msg` is what `get_msg` returns, `next` what a handler that reads on gets. -/
def handleActivity (d : Daemon) (c : Client) (msg next : Option Msg) : Daemon × Bool :=
  let d := d.require .activityStatus (c.status ≠ .toCompile ∧ c.status ≠ .waitInstall)
  match msg with
  | none => (d.handleEnd c 118, false)
  | some m =>
    if c.status = .toInstall then d.handleFileChunkEnv c m
    else match m with
      | .getNativeEnv m => d.handleGetNativeEnv c m
      | .compileFile job => d.handleCompileFile c job
      | .transferEnv m => d.handleTransferEnv c m next
      | .getCS m => d.handleGetCS c m
      | .endMsg => (d.handleEnd c 119, false)
      | .jobLocalBegin m => d.handleLocalJob c m
      | .jobDone m => d.handleJobDone c m
      | .verifyEnv m => d.handleVerifyEnv c m
      | .blacklistHostEnv m => d.handleBlacklistHostEnv m
      | _ => ((d.sendClient c .endMsg).1.handleEnd c 120, false)

/-- `c.first()` while there is one. -/
def endAll : ℕ → Daemon → Daemon
  | 0, d => d
  | fuel + 1, d =>
    match d.clients.list with
    | [] => d
    | c :: _ => endAll fuel (d.handleEnd c 116)

def clearChildren (d : Daemon) : Daemon :=
  let d := endAll d.clients.list.length d
  let d := d.require .clearedFds (d.fd2client = [])
  { d with currentKids := 0, fd2client := [], newClientId := 0 }

end Daemon

end Icecream.Iceccd
