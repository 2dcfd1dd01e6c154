import Icecream.Client.Main
import Icecream.Client.Md5
import Icecream.Client.Remote
import Icecream.Client.Versions

/-!
# The client

`main` from the analysis of the arguments on, with `build_remote` and `build_local`: a procedure
whose operations are those of a remote build and more. After a `fork` a run goes on as that of the
parent or as that of the child.
-/

namespace Icecream.Client

open Icecream.Comm (Bytes Str str Msg UseCSMsg GetCSMsg JobDoneMsg ReadResult Environments langCustom
  chunk)
open Icecream.Services (WaitStatus shellExitStatus rfind cString)

/-- What `main` finds beside what a remote build needs. `stack` is what an uninitialised buffer
holds. -/
structure Invocation where
  v : Surroundings
  turns : ℕ
  disk : Versions.Disk := {}
  /-- Whether `stat` finds the file -/
  present : Str → Bool := fun _ => false
  icecc : Option Str := none
  iceccVersion : Option Str := none
  extraFiles : Option Str := none
  envCompression : Option Str := none
  preferredHost : Option Str := none
  testRemotebuild : Bool := false
  repeatRate : ℤ := 0
  niceness : ℤ := 0
  stack : Fin 64 → UInt8 := fun _ => 0

structure Timeval where
  sec : ℤ
  usec : ℤ

/-- What is used of a `struct rusage` -/
structure Usage where
  utime : Timeval
  stime : Timeval
  majflt : ℤ
  minflt : ℤ
  nswap : ℤ

namespace Build

/-! ## Operations -/

/-- What `wait4` says of the compiler -/
inductive Waited where
  | interrupted
  | failed
  | ended (w : WaitStatus) (used : Usage)

inductive Op
  | remote (o : Remote.Op)
  /-- `get_local_daemon`, with the version of its protocol -/
  | findDaemon
  /-- `delete local_daemon` -/
  | dropDaemon
  /-- A message of the local daemon -/
  | hear (timeout : ℕ)
  | clock
  | rand
  /-- `stat`, for the size of a file -/
  | size (path : Str)
  | tmpnam (suffix : Str)
  | fork
  | childPid
  | setChildPid (pid : ℤ)
  /-- It returns whether the file is missing, unless the process becomes another program. -/
  | exec (argv : List Str)
  | wait4
  | wait
  /-- What the compiler writes to its standard error -/
  | readErr (room : ℕ)
  /-- What `fread` returns of a file, piece by piece -/
  | fread (path : Str)

abbrev Op.Res : Op → Type
  | .remote o => o.Res
  | .findDaemon => Option ℕ
  | .hear _ => Option Msg
  | .clock => Timeval
  | .rand => ℕ
  | .size _ => Option ℕ
  | .tmpnam _ => Option Str
  | .fork | .childPid => ℤ
  | .exec _ => Option Bool
  | .wait4 => Waited
  | .wait => Option (ℤ × WaitStatus)
  | .readErr _ => ReadResult
  | .fread _ => Option (List Bytes)
  | .dropDaemon | .setChildPid _ => Unit

/-- `told` of the remote build is what the local daemon has been sent over the connection there is,
`heard` what it has answered, and `sessions` are the connections before, with what was told over them.
`children` are those that have not been waited for, `waited` is what was learned of the others.
`unnamed` says that a temporary file could not be made. -/
structure State where
  remote : Remote.State
  daemon : Option ℕ := none
  unnamed : Bool := false
  heard : List Msg := []
  sessions : List (List Msg) := []
  childPid : ℤ := 0
  children : List ℤ := []
  waited : List (ℤ × WaitStatus) := []
  reads : List (Str × Option (List Bytes)) := []

inductive Choice where
  | remote (c : Remote.Choice)
  | does
  | daemon (protocol : Option ℕ)
  | msg (m : Option Msg)
  | clock (t : Timeval)
  | number (n : ℕ)
  | size (n : Option ℕ)
  | name (path : Option Str)
  | pid (pid : ℤ)
  | exec (missing : Option Bool)
  | waited (w : Waited)
  | child (pid : ℤ) (w : WaitStatus)
  | noChild
  | read (r : ReadResult)
  | file (reads : Option (List Bytes))

def State.forked (s : State) (pid : ℤ) : State :=
  if pid = 0 then { s with children := [], waited := [] }
  else if 0 < pid then { s with children := s.children ++ [pid] }
  else s

def State.reaped (s : State) (pid : ℤ) (w : WaitStatus) : State :=
  { s with children := s.children.erase pid, waited := s.waited ++ [(pid, w)] }

def act : (o : Op) → Choice → State → Option (o.Res × State)
  | .remote o, .remote c, s => (Remote.act o c s.remote).map fun r => (r.1, { s with remote := r.2 })
  | .findDaemon, .daemon protocol, s =>
    some (protocol, { s with daemon := protocol, remote := { s.remote with told := [] }, heard := [] })
  | .dropDaemon, .does, s =>
    some ((), { s with
      daemon := none
      sessions := s.sessions ++ [s.remote.told]
      remote := { s.remote with told := [] } })
  | .hear _, .msg m, s => some (m, { s with heard := s.heard ++ m.toList })
  | .clock, .clock t, s => some (t, s)
  | .rand, .number n, s => some (n, s)
  | .size _, .size n, s => some (n, s)
  | .tmpnam _, .name none, s => some (none, { s with unnamed := true })
  | .tmpnam suffix, .name (some path), s => if suffix <:+ path then some (some path, s) else none
  -- In the child it is 0, and no two children have the same number.
  | .fork, .pid pid, s => if pid ∉ s.children ∧ -1 ≤ pid then some (pid, s.forked pid) else none
  | .childPid, .does, s => some (s.childPid, s)
  | .setChildPid pid, .does, s => some ((), { s with childPid := pid })
  | .exec _, .exec missing, s => some (missing, s)
  | .wait4, .waited .interrupted, s => some (.interrupted, s)
  | .wait4, .waited .failed, s => some (.failed, s)
  | .wait4, .waited (.ended w used), s =>
    if s.childPid ∈ s.children then some (.ended w used, s.reaped s.childPid w)
    -- Any child is waited for when there is none of this name, also one that was forgotten.
    else if s.childPid = -1 then some (.ended w used, s)
    else none
  | .wait, .child pid w, s => if pid ∈ s.children then some (some (pid, w), s.reaped pid w) else none
  | .wait, .noChild, s => some (none, s)
  | .readErr room, .read (.bytes bs), s => if bs.length ≤ room then some (.bytes bs, s) else none
  | .readErr _, .read r, s => some (r, s)
  | .fread path, .file none, s => some (none, { s with reads := s.reads ++ [(path, none)] })
  | .fread path, .file (some reads), s =>
    if ∀ bs ∈ reads, bs.length ≤ 40000 then
      some (some reads, { s with reads := s.reads ++ [(path, some reads)] })
    else none
  | _, _, _ => none

/-- How the process ends otherwise than by the end of `main`, and what ends a function -/
inductive Thrown
  | error (e : ClientError)
  | exits (status : ℤ)
  /-- Another program takes its place. -/
  | executes (argv : List Str)
  | killed

end Build

open Build

abbrev Build := Procedure Op Op.Res Thrown

namespace Build

def op (o : Op) : Build o.Res := Procedure.perform o

/-- What is done as in a remote build -/
def remotely {α : Type} (p : Remote α) : Build α := Procedure.embed Op.remote (fun _ r => r) Thrown.error p

def job : Build Job := op (.remote .job)

def setJob (job : Job) : Build Unit := op (.remote (.setJob job))

def tell (m : Msg) : Build Bool := op (.remote (.tell m))

def call (c : Remote.Call) : Build Bool := op (.remote (.call c))

def unlock : Build Unit := op (.remote .unlock)

def unlink (path : Str) : Build Bool := op (.remote (.unlink path))

def rename (path path' : Str) : Build Bool := op (.remote (.rename path path'))

def checked {α : Type} (x : Except Fault α) : Build α := remotely (Remote.checked x)

def fail {α : Type} (errorCode : ℕ) (what : Str) : Build α :=
  Procedure.raise (.error ⟨false, errorCode, what⟩)

def outOfTurns {α : Type} : Build α := remotely Remote.outOfTurns

/-- `catch` for the exceptions of the client -/
def handling {α : Type} (p : Build α) (handler : ClientError → Build α) : Build α :=
  p.rescue fun
    | .error e => handler e
    | t => Procedure.raise t

/-- An object whose destructor runs at the end of its scope, unless the process has ended -/
def leavingScope {α : Type} (p : Build α) (last : Build Unit) : Build α := do
  let a ← handling p fun e => do
    last
    Procedure.raise (.error e)
  last
  return a

/-! ## `build_local` -/

def exitNoSuchFile : ℤ := 115

/-- What the child does: it becomes the compiler. -/
def becomeCompiler (argv : List Str) : Build Unit := do
  match ← op (.exec argv) with
  | none => Procedure.raise (.executes argv)
  | some missing =>
    unlock
    Procedure.raise (.exits (if missing then 127 else 126))

/-- What the compiler has written, read by strings that end with a 0 -/
def readOutput : ℕ → Str → Build Str
  | 0, _ => outOfTurns
  | n + 1, text => do
    match ← op (.readErr 249) with
    | .interrupted => readOutput n text
    | .failed => return text
    | .bytes bs => if bs = [] then return text else readOutput n (text ++ cString bs)

/-- The compiler's status. It is 1 if there is no such child. -/
def waitCompiler : ℕ → Build (WaitStatus × Option Usage)
  | 0 => outOfTurns
  | n + 1 => do
    match ← op .wait4 with
    | .interrupted => waitCompiler n
    | .failed => return (.signaled 1, none)
    | .ended w used => return (w, some used)

def wantsColour (v : Invocation) (job : Job) : Except Fault Bool :=
  if job.language ≠ langCustom then Remote.colorifyWanted v.v job else return false

def forkCompiler : Build Unit := do op (.setChildPid (← op .fork))

def printOutput (v : Invocation) : Build Unit := do
  op (.remote (.print .err (Remote.colorifyOutput (← readOutput v.turns []))))

/-- From the fork on -/
def compile (v : Invocation) (argv : List Str) (used colour : Bool) : Build (ℤ × Option Usage) := do
  if used || colour then
    forkCompiler
  if (← op .childPid) = 0 then
    becomeCompiler argv
  if colour then
    printOutput v
  let (status, usage) ← waitCompiler v.turns
  unlock
  return (shellExitStatus status, usage)

def lockFor (localDaemon : Bool) : Build Bool :=
  if localDaemon then return true else op (.remote .lockHost)

/-- With a daemon there is no lock. `used` says whether the caller wants to know what was used. -/
def buildLocal (v : Invocation) (localDaemon used : Bool) : Build (ℤ × Option Usage) := do
  let job ← job
  match localArguments v.v.host job with
  | none => return (exitNoSuchFile, none)
  | some argv =>
    if ← lockFor localDaemon then
      if ← checked (wantsColour v job) then
        compile v argv used (← call .createPipe)
      else compile v argv used false
    else return (Remote.exitDistccFailed, none)

/-! ## What the scheduler is asked for -/

/-- `CompileJob::argumentFlags` for one argument; `at` throws for an empty one. -/
def argumentFlag (result : UInt32) (arg : Str) : Except Fault UInt32 :=
  match arg with
  | [] => throw .outOfRange
  | 45 :: 103 :: rest =>
    return if rest.head? = some 51 then (result &&& ~~~1) ||| 2 else (result &&& ~~~2) ||| 1
  | 45 :: 79 :: rest =>
    let result := result &&& ~~~(4 ||| 8 ||| 16)
    return match rest.head? with
      | none => result ||| 4
      | some c => if c = 50 then result ||| 8 else if c = 49 then result ||| 4
        else if c ≠ 48 then result ||| 16 else result
  | _ => return result

def argumentFlags (job : Job) : Except Fault UInt32 := job.flags.foldlM (fun r f => argumentFlag r f.1) 0

/-- `minimalRemoteVersion` -/
def minimalRemoteVersion (v : Invocation) (job : Job) : Int32 :=
  let version : Int32 := 21
  let version := if v.v.ignoreUnverified then max version 31 else version
  if job.dwarfFission then max version 35 else version

/-- `requiredRemoteFeatures`: `NODE_FEATURE_ENV_XZ` and `NODE_FEATURE_ENV_ZSTD` -/
def requiredRemoteFeatures (v : Invocation) : UInt32 :=
  match v.envCompression with
  | none => 0
  | some compression =>
    if compression = str "xz" then 1 else if compression = str "zstd" then 2 else 0

/-- The constructor of `GetCSMsg`. The version that it computes from the features is that of its
argument. -/
def getCS (v : Invocation) (job : Job) (envs : Environments) (filename : Str) (count : UInt32)
    (features : UInt32) : Except Fault GetCSMsg := do
  let argFlags ← argumentFlags job
  if 0 ≤ v.niceness ∧ v.niceness ≤ 20 then
    return {
      versions := envs, filename := filename, lang := job.language, count := count
      target := job.targetPlatform, argFlags := argFlags, preferredHost := v.preferredHost.getD []
      minimalHostVersion := minimalRemoteVersion v job, requiredFeatures := features
      niceness := UInt32.ofInt v.niceness }
  else throw .assertion

def absFilename (v : Invocation) (file : Str) : Except Fault Str :=
  match getAbsfilename v.v.host.cwd file with
  | none => throw .outOfRange
  | some file => return file

/-- The name that a job is known by: its flags and its file -/
def fakeFilename (v : Invocation) (job : Job) : Except Fault Str := do
  let file ← absFilename v job.inputFile
  return (job.remoteFlags ++ job.restFlags).flatMap (fun a => str "/" ++ a) ++ file

/-- `get_server` -/
def getServer (v : Invocation) : Build UseCSMsg := do
  match ← op (.hear (if 0 < v.niceness then 3600 else 240)) with
  | some (.useCS m) => return m
  | some m =>
    fail 1 (str "Error 1 - expected use_cs reply, but got " ++ [m.type.code.toUInt8] ++ str " instead")
  | none => fail 1 (str "Error 1 - reply timeout " ++ if 0 < v.niceness then str "3600" else str "240")

/-! ## `build_remote` -/

def Timeval.msec (t : Timeval) : ℤ := t.sec * 1000 + Int.tdiv t.usec 1000

def jobDone (jobId : UInt32) (status : ℤ) (begintv endtv : Timeval) (outUncompressed : ℕ) (ru : Usage) :
    JobDoneMsg where
  realMsec := UInt32.ofInt ((endtv.sec - begintv.sec) * 1000 + Int.tdiv (endtv.usec - begintv.usec) 1000)
  userMsec := UInt32.ofInt (Timeval.msec ru.utime)
  sysMsec := UInt32.ofInt (Timeval.msec ru.stime)
  pfaults := UInt32.ofInt (ru.majflt + ru.minflt + ru.nswap)
  exitcode := Int32.ofInt status
  flags := JobDoneMsg.fromSubmitter
  outUncompressed := UInt32.ofNat outUncompressed
  jobId := jobId

/-- `maybe_build_local`: what was returned by the compiler here, if the daemon was told of it. `junk`
is what the usage holds that has not been filled in. -/
def maybeBuildLocal (v : Invocation) (junk : Usage) (usecs : UseCSMsg) : Build (Option ℤ) := do
  if usecs.hostname = str "127.0.0.1" ∧ ¬ (v.testRemotebuild = true ∧ usecs.port ≠ 0) then
    let old ← job
    setJob { old with id := usecs.jobId, environmentVersion := str "__client" }
    unless ← tell (.compileFile (← job).toCompileJob) do
      fail 29 (str "Error 29 - write of job failed")
    let begintv ← op .clock
    let (ret, usage) ← buildLocal v true true
    let endtv ← op .clock
    let outputFile := (← job).outputFile
    let out ← op (.size outputFile)
    let dwo ← op (.size (Remote.dwoName outputFile))
    let msg := jobDone usecs.jobId ret begintv endtv (out.getD 0 + dwo.getD 0) (usage.getD junk)
    if ← tell (.jobDone msg) then return some ret else return none
  else return none

/-- The server's job, here or there -/
def buildOnServer (v : Invocation) (junk : Usage) (envs : Versions.Ripped) (usecs : UseCSMsg)
    (preprocFile : Option Str) (output : Bool) : Build ℤ := do
  match ← maybeBuildLocal v junk usecs with
  | some ret => return ret
  | none =>
    remotely (Remote.buildRemoteInt v.v v.turns usecs (envs.version usecs.hostPlatform)
      (envs.versionfile usecs.hostPlatform) preprocFile output)

def askForServer (v : Invocation) (job : Job) (envs : Versions.Ripped) (filename : Except Fault Str)
    (count features : UInt32) (errorCode : ℕ) (what : Str) : Build Unit := do
  let filename ← checked filename
  unless ← tell (.getCS (← checked (getCS v job envs.envs filename count features))) do
    fail errorCode what

def buildOnce (v : Invocation) (junk : Usage) (envs : Versions.Ripped) : Build ℤ := do
  let job ← job
  askForServer v job envs (fakeFilename v job) 1 (requiredRemoteFeatures v) 24
    (str "Error 24 - asked for CS")
  let usecs ← getServer v
  buildOnServer v junk envs usecs none true

/-! ### Several times -/

def torepeat : ℕ := 3

/-- A server of those that were asked for, with the job that it is given -/
structure Copy where
  job : Job
  usecs : UseCSMsg

/-- A path that there may be none of, for want of a temporary file; a string cannot be made of it. -/
def named {α : Type} (path : Option α) : Build α :=
  match path with
  | some path => return path
  | none => checked (.error .nullString)

def unlinkSome : Option Str → Build Unit
  | none => return
  | some path => do
    let _ ← unlink path

/-- The child that builds a copy. It does not come back. -/
def buildCopy (v : Invocation) (junk : Usage) (envs : Versions.Ripped) (preproc : Option Str)
    (first : Bool) (copy : Copy) : Build Empty := do
  setJob copy.job
  let ret ← handling (buildOnServer v junk envs copy.usecs preproc first) fun _ =>
    Procedure.raise .killed
  Procedure.raise (.exits ret)

/-- The first copy makes the object file, and the others temporary ones. -/
def copyJob (original : Job) (i : ℕ) : Build Job := do
  if i = 0 then return original
  else return { original with outputFile := ← named (← op (.tmpnam (str ".o"))) }

/-- The copies from the `i`th on, and `jobmap` -/
def startCopies (v : Invocation) (junk : Usage) (envs : Versions.Ripped) (preproc : Option Str)
    (original : Job) : ℕ → ℕ → List Copy → (ℤ → ℕ) → Build (List Copy × (ℤ → ℕ))
  | 0, _, copies, jobmap => return (copies, jobmap)
  | n + 1, i, copies, jobmap => do
    let job ← copyJob original i
    let usecs ← getServer v
    let copy : Copy := ⟨job, usecs⟩
    let pid ← op .fork
    if pid = 0 then
      nomatch ← buildCopy v junk envs preproc (i = 0) copy
    startCopies v junk envs preproc original n (i + 1) (copies ++ [copy]) (Function.update jobmap pid i)

/-- The exit codes, unless a child was killed -/
def waitCopies (jobmap : ℤ → ℕ) : ℕ → (ℕ → ℤ) → Build (Option (ℕ → ℤ))
  | 0, exitCodes => return some exitCodes
  | n + 1, exitCodes => do
    match ← op .wait with
    | none => waitCopies jobmap n exitCodes
    | some (pid, .exited code) => waitCopies jobmap n (Function.update exitCodes (jobmap pid) code.toNat)
    | some (_, .signaled _) => return none

/-- The object file, and the file with the split debug information -/
def removeOutput (fission : Bool) (output : Str) : Build Unit := do
  let _ ← unlink output
  if fission then
    let _ ← unlink (Remote.dwoName output)

def md5ForFile (v : Invocation) (path : Str) : Build Str := do
  return Md5.md5ForFile v.stack (← op (.fread path))

def caught (path : Str) : Str := path ++ str ".caught"

/-- The result that is not as the first one is kept with the source. -/
def keepEvidence (fission : Bool) (preproc : Option Str) (output : Str) : Build Unit := do
  let _ ← rename output (caught output)
  let preproc ← named preproc
  let _ ← rename preproc (caught preproc)
  if fission then
    let _ ← rename (Remote.dwoName output) (caught (Remote.dwoName output))

/-- The results after the first one are compared with it. What is returned is that of the first, or -1. -/
def compareCopies (v : Invocation) (fission : Bool) (preproc : Option Str) (output firstMd5 : Str)
    (first : ℤ) : List (Copy × ℤ) → Build ℤ
  | [] => return first
  | (copy, code) :: rest => do
    if first = 0 then
      if code = 42 then compareCopies v fission preproc output firstMd5 first rest
      else if code ≠ 0 then
        removeOutput fission output
        return -1
      else if (← md5ForFile v copy.job.outputFile) ≠ firstMd5 then
        keepEvidence fission preproc output
        return -1
      else
        removeOutput fission copy.job.outputFile
        compareCopies v fission preproc output firstMd5 first rest
    else
      removeOutput fission copy.job.outputFile
      compareCopies v fission preproc output firstMd5 first rest

/-- What is left when a child was killed -/
def removeCopies (fission : Bool) : List Copy → Build Unit
  | [] => return
  | copy :: rest => do
    removeOutput fission copy.job.outputFile
    removeCopies fission rest

/-- The verdict on the copies -/
def judgeCopies (v : Invocation) (fission : Bool) (preproc : Option Str) (copies : List Copy)
    (exitCodes : Option (ℕ → ℤ)) : Build ℤ := do
  let output := (copies.head?.map fun copy => copy.job.outputFile).getD []
  match exitCodes with
  | some exitCodes =>
    let firstMd5 ← md5ForFile v output
    let ret ← compareCopies v fission preproc output firstMd5 (exitCodes 0)
      ((copies.zipIdx.map fun c => (c.1, exitCodes c.2)).drop 1)
    unlinkSome preproc
    return ret
  | none =>
    removeCopies fission copies
    unlinkSome preproc
    fail 27 (str "Error 27 - misc error")

/-- The part of `build_remote` that holds the lock -/
def preprocessed (preproc : Option Str) : Build (Option ℤ) := do
  unless ← call (.callCpp (← job)) do
    unlinkSome preproc
    fail 10 (str "Error 10 - (unable to fork process?)")
  let status ← op (.remote .waitCpp)
  if shellExitStatus status ≠ 0 then
    unlinkSome preproc
    return some (shellExitStatus status)
  else
    unlock
    return none

/-- `rand_seed` -/
def randSeed (n : ℕ) : Str := str "-frandom-seed=" ++ str (toString n)

def buildCopies (v : Invocation) (junk : Usage) (envs : Versions.Ripped) (preproc : Option Str) :
    Build ℤ := do
  let fission := (← job).dwarfFission
  match ← preprocessed preproc with
  | some status => return status
  | none =>
    setJob (Remote.appendFlag (← job) (randSeed (← op .rand)) .argRemote)
    let original ← job
    askForServer v original envs (absFilename v original.inputFile) 3 0 0 (str "Error 0 - asked for CS")
    let (copies, jobmap) ← startCopies v junk envs preproc original torepeat 0 [] fun _ => 0
    judgeCopies v fission preproc copies (← waitCopies jobmap torepeat fun _ => 42)

/-- Everything is built three times, and must be the same. -/
def buildRepeatedly (v : Invocation) (junk : Usage) (envs : Versions.Ripped) : Build ℤ := do
  let preproc ← op (.tmpnam (str ".ix"))
  if ← op (.remote .lockHost) then
    leavingScope (buildCopies v junk envs preproc) unlock
  else return Remote.exitDistccFailed

/-- Whether a job is to be built once. Compilers that are like clang are not compared. -/
def onlyOnce (v : Invocation) : Build Bool := do
  if ← checked (compilerIsClang (← job)) then return true
  else return decide (v.repeatRate ≤ ((← op .rand) % 1000 : ℕ))

def buildRemote (v : Invocation) (junk : Usage) (envs : Environments) : Build ℤ := do
  let once ← onlyOnce v
  let envs := Versions.ripOutPaths envs
  if envs.envs = [] then
    fail 22 (str "Error 22 - $ICECC_VERSION needs to point to .tar files")
  if once then buildOnce v junk envs
  else buildRepeatedly v junk envs

/-! ## `main` -/

/-- `tolower`, as `strcasecmp` compares -/
def lower (s : Str) : Str := s.map fun c => if 65 ≤ c ∧ c ≤ 90 then c + 32 else c

/-- The files of `ICECC_EXTRAFILES`, and whether all of them are found -/
def listExtraFiles (v : Invocation) : List Str → List Str → Except Fault (List Str × Bool)
  | [], extrafiles => return (extrafiles, true)
  | file :: rest, extrafiles => do
    let file ← absFilename v file
    if v.present file then listExtraFiles v rest (extrafiles ++ [file])
    else return (extrafiles, false)

def extraFiles (v : Invocation) (extrafiles : List Str) : Except Fault (List Str × Bool) :=
  match v.extraFiles with
  | none => return (extrafiles, true)
  | some value => listExtraFiles v (value.splitOn 58) extrafiles

/-- `find_prefix` -/
def findPrefix (basename : Str) : Str :=
  match rfind basename (str "-") with
  | none => []
  | some index => basename.take index

/-- What the daemon is to make an environment of. Older ones know two compilers. -/
def nativeCompiler (v : Invocation) (protocol : ℕ) (job : Job) : Except Fault Str := do
  if 41 ≤ protocol then absFilename v (findCompiler v.v.host job)
  else if ← compilerIsClang job then return str "clang"
  else return str "gcc"

/-- The environment that the daemon makes; `none` if it cannot be asked. -/
def nativeEnvironment (v : Invocation) (protocol : ℕ) (extrafiles : List Str) :
    Build (Option Environments) := do
  let job ← job
  let compiler ← checked (nativeCompiler v protocol job)
  if ← tell (.getNativeEnv ⟨compiler, extrafiles, v.envCompression.getD []⟩) then
    match ← op (.hear 240) with
    | some (.useNativeEnv native) =>
      if native = [] ∨ v.disk.readable native = false then return some []
      else return some [(job.targetPlatform, native)]
    | _ => return some []
  else return none

def listedEnvironments (v : Invocation) (value : Str) : Build (Option Environments) := do
  let job ← job
  if value = [] then checked (.error .assertion)
  else return some (Versions.parseIceccVersion v.disk value job.targetPlatform
    (findPrefix job.compilerName))

def findEnvironments (v : Invocation) (protocol : ℕ) (extrafiles : List Str) :
    Build (Option Environments) :=
  match v.iceccVersion with
  | some value => listedEnvironments v value
  | none =>
    if extrafiles ≠ [] ∧ protocol < 32 then return none
    else nativeEnvironment v protocol extrafiles

/-- The environments for the job, if it can be built elsewhere -/
def environments (v : Invocation) (protocol : ℕ) (extrafiles : List Str) :
    Build (Option Environments) := do
  match ← findEnvironments v protocol extrafiles with
  | none => return none
  | some envs =>
    if envs = [] ∨ ∃ e ∈ envs, v.disk.readable e.2 = false then return none
    else return some envs

/-- A build on another host; `none` after an exception. -/
def tryRemote (v : Invocation) (junk : Usage) (envs : Environments) : Build (Option ℤ) :=
  handling (do
    let ret ← buildRemote v junk envs
    if ret = 0 then
      let _ ← tell .endMsg
    return some ret) fun _ => return none

/-- The status of a compiler that is run here without a daemon -/
def buildAlone (v : Invocation) : Build ℤ := do
  let (ret, _) ← buildLocal v false false
  return ret

/-- The job is told to the daemon, which says when it may start. -/
def requestStart (v : Invocation) (fulljob : Bool) : Build (Option Msg) := do
  let outfile ← checked (absFilename v (← job).outputFile)
  let now ← op .clock
  if ← tell (.jobLocalBegin {
      outfile := outfile, stime := UInt32.ofInt now.sec, fulljob := fulljob,
      niceness := UInt32.ofInt v.niceness }) then
    op (.hear (if fulljob then 7200 else 2400))
  else return none

def buildHere (v : Invocation) (fulljob : Bool) : Build ℤ := do
  match ← requestStart v fulljob with
  | some (.jobLocalBegin _) =>
    let (ret, _) ← buildLocal v true true
    op .dropDaemon
    return ret
  | _ =>
    op .dropDaemon
    buildAlone v

/-- The connection is a new one for the build after a failure. -/
def buildInstead (v : Invocation) (fulljob : Bool) : Build ℤ := do
  op .dropDaemon
  match ← op .findDaemon with
  | none => buildAlone v
  | some _ => buildHere v fulljob

def buildThere (v : Invocation) (junk : Usage) (fulljob : Bool) (envs : Environments) : Build ℤ := do
  match ← tryRemote v junk envs with
  | some ret =>
    op .dropDaemon
    return ret
  | none => buildInstead v fulljob

/-- With a daemon -/
def buildWith (v : Invocation) (junk : Usage) (protocol : ℕ) (isLocal fulljob : Bool)
    (extrafiles : List Str) : Build ℤ := do
  let (extrafiles, found) ← checked (extraFiles v extrafiles)
  if isLocal || !found then buildHere v fulljob
  else
    match ← environments v protocol extrafiles with
    | none => buildHere v fulljob
    | some envs => buildThere v junk fulljob envs

/-- From the analysis on, with the daemon that there is -/
def analysed (v : Invocation) (junk : Usage) (argv : List Str) (job : Job) (icerun : Bool)
    (daemon : Option ℕ) : Build ℤ := do
  let (scan, result) ← checked (analyseArgv v.v.host argv job icerun [])
  setJob scan.job
  let (isLocal, fulljob) := judged (argvResult result)
  match daemon with
  | none => buildAlone v
  | some protocol =>
    buildWith v junk protocol (isLocal || v.icecc.map lower = some (str "no")) fulljob scan.extrafiles

def main (v : Invocation) (junk : Usage) (argv : List Str) (job : Job) (icerun : Bool) : Build ℤ := do
  if v.icecc.map lower = some (str "disable") then analysed v junk argv job icerun none
  else analysed v junk argv job icerun (← op .findDaemon)

end Build

end Icecream.Client
