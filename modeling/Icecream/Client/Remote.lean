import Icecream.Client.LocalBuild
import Icecream.Client.Lock
import Icecream.Comm.Files
import Icecream.Library.Procedure
import Icecream.Services.Broadcast
import Icecream.Services.Output

/-!
# Building on another host

`build_remote_int` of `client/remote.cpp` with what it calls: a procedure whose operations are the
calls of the system and of the channel. Each of them may fail, the other side may send anything,
and what a file or a pipe holds is read in pieces of any size.
-/

namespace Icecream.Client

open Icecream.Comm (Bytes Str str Msg UseCSMsg CompileJob ArgumentType Content ReadResult chunk
  langOBJC langOBJCXX)
open Icecream.Services (WaitStatus shellExitStatus rfind contains cString)

/-- What the client learns from its environment, from its command line and from the way it was
built, beside what the analysis of the arguments needs -/
structure Surroundings where
  host : Host
  buildRoot : Option Str := none
  realpath : Str → Option Str := fun _ => none
  ignoreUnverified : Bool := false
  explicitNoShowCaret : Bool := false
  explicitColorDiagnostics : Bool := false
  caretWorkaround : Option Str := none
  gccShowCaret : Bool := false
  emacs : Bool := false

/-- `client_error`, and `remote_error`, which is derived from it -/
structure ClientError where
  remote : Bool
  errorCode : ℕ
  what : Str

/-- A channel to a server, by its name and its protocol version -/
structure Peer where
  name : Str
  protocol : ℕ

/-- What the client sends the contents of -/
inductive Input where
  | environment | source
  deriving DecidableEq

inductive Stream where
  | out | err

namespace Remote

/-! ## Operations -/

/-- Calls that succeed or fail and change nothing that is looked at -/
inductive Call where
  | stat (path : Str)
  | openInput (i : Input) (path : Str)
  | closeInput (i : Input)
  | createPipe
  | callCpp (job : Job)
  | killCpp
  | close (path : Str)

inductive Op where
  | createChannel (hostname : Str) (port : UInt32)
  | connected
  | deleteChannel
  | send (m : Msg)
  | get
  /-- A message to the local daemon -/
  | tell (m : Msg)
  | job
  | setJob (job : Job)
  | call (c : Call)
  | read (i : Input) (room : ℕ)
  | lockHost
  | unlock
  | waitCpp
  | create (path : Str)
  | write (path : Str) (content : Content)
  | unlink (path : Str)
  | rename (path path' : Str)
  | print (s : Stream) (text : Str)
  /-- A check of the code does not hold. -/
  | fault (f : Fault)
  /-- The loop goes on for more turns than are looked at. -/
  | turns

abbrev Op.Res : Op → Type
  | .createChannel _ _ => Option Peer
  | .get => Option Msg
  | .job => Job
  | .read _ _ => ReadResult
  | .waitCpp => WaitStatus
  | .deleteChannel | .setJob _ | .unlock | .print _ _ => Unit
  | .fault _ | .turns => Empty
  | _ => Bool

/-- `sent` is what the channel to the server has taken, `received` what has come over it, and
`told` what the local daemon has been sent. `environment` and `source` are what has been read. -/
structure State where
  job : Job
  lock : HostLock.Process
  connected : Bool := false
  sent : List Msg := []
  received : List Msg := []
  told : List Msg := []
  environment : Bytes := []
  source : Bytes := []
  sourceEnded : Bool := false
  cpp : Option WaitStatus := none
  files : Str → Option Content := fun _ => none
  out : Str := []
  err : Str := []

/-- What becomes of an operation -/
inductive Choice where
  | does (ok : Bool)
  | peer (p : Option Peer)
  | msg (m : Option Msg)
  | read (r : ReadResult)
  | lock (a : HostLock.Answers)
  | status (w : WaitStatus)
  /-- A write that fails, with what has been written -/
  | wrote (n : ℕ)

def State.put (s : State) (path : Str) (content : Option Content) : State :=
  { s with files := Function.update s.files path content }

def State.readFrom (s : State) : Input → Bytes → State
  | .environment, bs => { s with environment := s.environment ++ bs }
  | .source, bs => { s with source := s.source ++ bs }

/-- Nothing is left to read. -/
def State.endOf (s : State) : Input → State
  | .environment => s
  | .source => { s with sourceEnded := true }

def act : (o : Op) → Choice → State → Option (o.Res × State)
  | .createChannel _ _, .peer p, s => some (p, { s with connected := p.isSome })
  | .connected, .does _, s => some (s.connected, s)
  | .deleteChannel, .does _, s => some ((), { s with connected := false })
  | .send m, .does ok, s => some (ok, if ok then { s with sent := s.sent ++ [m] } else s)
  | .get, .msg m, s => some (m, { s with received := s.received ++ m.toList })
  | .tell m, .does ok, s => some (ok, if ok then { s with told := s.told ++ [m] } else s)
  | .job, .does _, s => some (s.job, s)
  | .setJob job, .does _, s => some ((), { s with job := job })
  | .call _, .does ok, s => some (ok, s)
  | .read i room, .read (.bytes bs), s =>
    if bs.length ≤ room then some (.bytes bs, if bs = [] then s.endOf i else s.readFrom i bs)
    else none
  | .read _ _, .read r, s => some (r, s)
  | .lockHost, .lock a, s => (HostLock.dccLockHost a s.lock).map fun r => (r.2, { s with lock := r.1 })
  | .unlock, .does _, s => some ((), { s with lock := HostLock.dccUnlock s.lock })
  | .waitCpp, .status w, s => some (w, { s with cpp := some w })
  | .create path, .does ok, s => some (ok, if ok then s.put path (some []) else s)
  | .write path content, .does _, s => some (true, s.put path ((s.files path).map (· ++ content)))
  | .write path content, .wrote n, s =>
    if n < content.length then some (false, s.put path ((s.files path).map (· ++ content.take n)))
    else none
  | .unlink path, .does ok, s => some (ok, if ok then s.put path none else s)
  | .rename path path', .does ok, s =>
    some (ok, if ok then (s.put path' (s.files path)).put path none else s)
  | .print .out text, .does _, s => some ((), { s with out := s.out ++ text })
  | .print .err text, .does _, s => some ((), { s with err := s.err ++ text })
  | _, _, _ => none

end Remote

open Remote

abbrev Remote := Procedure Op Op.Res ClientError

namespace Remote

def op (o : Op) : Remote o.Res := Procedure.perform o

def call (c : Call) : Remote Bool := op (.call c)

def fail {α : Type} (errorCode : ℕ) (what : Str) : Remote α :=
  Procedure.raise ⟨false, errorCode, what⟩

/-- A `remote_error` -/
def refuse {α : Type} (errorCode : ℕ) (what : Str) : Remote α :=
  Procedure.raise ⟨true, errorCode, what⟩

def outOfTurns {α : Type} : Remote α := do
  nomatch ← op .turns

def checked {α : Type} : Except Fault α → Remote α
  | .ok a => pure a
  | .error f => do
    nomatch ← op (.fault f)

/-! ## Flags for the other side -/

def fileFlagPrefixes : List Str :=
  [str "--warning-suppression-mappings=", str "-fprofile-sample-use=", str "-fprofile-use=",
    str "-fsanitize-blacklist=", str "-fsanitize-coverage-allowlist=",
    str "-fsanitize-ignorelist="]

def remoteRoot : Str := str "/icecc-extrafiles/"

/-- The constructor of `RebasePathFlagsUpdater` -/
def rebaseRoot (v : Surroundings) : Str :=
  match v.buildRoot.bind v.realpath with
  | some path => path ++ str "/"
  | none => []

/-- A file below the build root is named by the place that it has in the environment. -/
def rebased (v : Surroundings) (arg : Str) (type : ArgumentType) : Str :=
  if rebaseRoot v = [] ∨ type = .argLocal then arg
  else match fileFlagPrefixes.find? fun p => p <+: arg with
    | none => arg
    | some p =>
      let file := arg.drop p.length
      match (v.host.regular file).bind fun _ => v.realpath file with
      | none => arg
      | some path =>
        if rebaseRoot v <+: path then p ++ remoteRoot ++ path.drop (rebaseRoot v).length else arg

def updateFlags (job : CompileJob) (updater : Str → ArgumentType → Str) : CompileJob :=
  { job with flags := job.flags.map fun f => (updater f.1 f.2, f.2) }

def appendFlag (job : Job) (arg : Str) (type : ArgumentType) : Job :=
  { job with flags := job.flags ++ [(arg, type)] }

/-! ## Files over the channel -/

def checkForFailure (peer : Peer) : Option Msg → Remote Unit
  | some (.statusText text) =>
    fail 23 (str "Error 23 - Remote status (compiled on " ++ peer.name ++ str ")\n" ++ text)
  | _ => pure ()

/-- The size of the buffer -/
def bufferSize : ℕ := 100000

/-- What is in the buffer goes off as one chunk. The lock is let go in the meantime. -/
def sendChunk (peer : Peer) (i : Input) (unlockSending : Bool) (buffer : Bytes) : Remote Unit := do
  if unlockSending then
    op .unlock
  unless ← op (.send (.fileChunk (chunk buffer))) do
    checkForFailure peer (← op .get)
    let _ ← call (.closeInput i)
    fail 15 (str "Error 15 - write to host failed")
  if unlockSending then
    unless ← op .lockHost do
      let _ ← call (.closeInput i)
      fail 32 (str "Error 32 - lock failed")

/-- The loop of `write_fd_to_server`, with what is in the buffer -/
def writeFd (peer : Peer) (i : Input) (unlockSending : Bool) : ℕ → Bytes → Remote Unit
  | 0, _ => outOfTurns
  | n + 1, buffer => do
    match ← op (.read i (bufferSize - buffer.length)) with
    | .interrupted => writeFd peer i unlockSending n buffer
    | .failed =>
      let _ ← call (.closeInput i)
      fail 16 (str "Error 16 - error reading local file")
    | .bytes bs =>
      let buffer := buffer ++ bs
      if bs = [] then
        if buffer ≠ [] then
          sendChunk peer i unlockSending buffer
        let _ ← call (.closeInput i)
      else if buffer.length = bufferSize then
        sendChunk peer i unlockSending buffer
        writeFd peer i unlockSending n []
      else writeFd peer i unlockSending n buffer

def writeFdToServer (turns : ℕ) (peer : Peer) (i : Input) (unlockSending : Bool) : Remote Unit :=
  writeFd peer i unlockSending turns []

/-- The loop of `receive_file` -/
def receiveChunks (peer : Peer) (tmpFile : Str) : ℕ → Remote Unit
  | 0 => outOfTurns
  | n + 1 => do
    let msg ← op .get
    if msg.isNone then
      let _ ← op (.unlink tmpFile)
      fail 19 (str "Error 19 - (network failure?)")
    checkForFailure peer msg
    match msg with
    | some .endMsg => pure ()
    | some (.fileChunk m) =>
      unless ← op (.write tmpFile m.content) do
        let _ ← op (.unlink tmpFile)
        fail 21 (str "Error 21 - error writing file")
      receiveChunks peer tmpFile n
    | _ =>
      let _ ← op (.unlink tmpFile)
      fail 20 (str "Error 20 - unexpected message")

def icetmp (outputFile : Str) : Str := outputFile ++ str "_icetmp"

def receiveFile (turns : ℕ) (peer : Peer) (outputFile : Str) : Remote Unit := do
  unless ← op (.create (icetmp outputFile)) do
    fail 31 (str "Error 31 - can't create " ++ icetmp outputFile ++ str ":")
  receiveChunks peer (icetmp outputFile) turns
  unless ← call (.close (icetmp outputFile)) do
    let _ ← op (.unlink (icetmp outputFile))
    fail 30 (str "Error 30 - error closing temp file")
  unless ← op (.rename (icetmp outputFile) outputFile) do
    let _ ← op (.unlink (icetmp outputFile))
    fail 30 (str "Error 30 - error closing temp file")

/-! ## The environment -/

def verifyEnvironment (usecs : UseCSMsg) (job : Job) : Remote Unit := do
  unless ← op (.send (.verifyEnv ⟨job.environmentVersion, job.targetPlatform⟩)) do
    fail 22 (str "Error 22 - error sending environment")
  match ← op .get with
  | some (.verifyEnvResult ok) =>
    unless ok do
      let _ ← op (.tell (.blacklistHostEnv
        ⟨job.environmentVersion, job.targetPlatform, usecs.hostname⟩))
      fail 24 (str "Error 24 - remote " ++ usecs.hostname ++ str " unable to handle environment")
  | _ => fail 25 (str "Error 25 - other error verifying environment on remote")

def transferEnvironment (turns : ℕ) (peer : Peer) (usecs : UseCSMsg) (versionFile : Str) :
    Remote Unit := do
  unless ← call (.stat versionFile) do
    fail 4 (str "Error 4 - unable to stat version file")
  let job ← op .job
  unless ← op (.send (.transferEnv ⟨job.environmentVersion, job.targetPlatform⟩)) do
    fail 6 (str "Error 6 - send environment to remote failed")
  unless ← call (.openInput .environment versionFile) do
    fail 5 (str "Error 5 - unable to open version file:\n\t" ++ versionFile)
  writeFdToServer turns peer .environment false
  unless ← op (.send .endMsg) do
    fail 8 (str "Error 8 - write environment to remote failed")
  if 31 ≤ peer.protocol then
    verifyEnvironment usecs job

/-! ## The source -/

/-- `EXIT_DISTCC_FAILED` -/
def exitDistccFailed : ℕ := 100

/-- The preprocessor's output on its way; what is returned is what `build_remote_int` returns at
once. -/
def sendPreprocessed (v : Surroundings) (turns : ℕ) (peer : Peer) : Remote (Option ℤ) := do
  unless ← call (.callCpp (← op .job)) do
    fail 18 (str "Error 18 - (fork error?)")
  (writeFdToServer turns peer .source true).rescue fun e => do
    let _ ← call .killCpp
    Procedure.raise e
  let status ← op .waitCpp
  if shellExitStatus status ≠ 0 then
    op .deleteChannel
    let job ← op .job
    if (¬ (← checked (compilerIsClang job))) &&
        (← checked (compilerOnlyRewriteIncludes v.host job)) then
      refuse 103 (str "Error 103 - local cpp invocation failed, trying to recompile locally")
    else return some (shellExitStatus status)
  else return none

def sendSource (v : Surroundings) (turns : ℕ) (peer : Peer) : Option Str → Remote (Option ℤ)
  | none => do
    unless ← call .createPipe do
      fail 32 (str "Error 18 - (fork error?)")
    if ← op .lockHost then
      (sendPreprocessed v turns peer).leaving (op .unlock)
    else return some exitDistccFailed
  | some preprocFile => do
    unless ← call (.openInput .source preprocFile) do
      fail 11 (str "Error 11 - unable to open preprocessed file")
    writeFdToServer turns peer .source false
    return none

/-! ## The result -/

def outputNeedsWorkaround (v : Surroundings) (job : Job) : Except Fault Bool := do
  if ← compilerIsClang job then return false
  else if v.explicitNoShowCaret then return false
  else match v.caretWorkaround with
    | some value => return value.head? = some 49
    | none => return v.gccShowCaret

def colorifyWanted (v : Surroundings) (job : Job) : Except Fault Bool := do
  if ← compilerHasColorOutput v.host job then return false
  else return ¬ (v.explicitColorDiagnostics ∨ v.host.colorDiagnostics.isSome ∨ v.emacs) ∧
    v.host.colorOutputPossible

/-- One line of `colorify_output` -/
def colorifyLine (line : Str) : Str :=
  let text := cString line
  if contains line (str ": error:") then
    [27] ++ str "[1;31m" ++ text ++ [27] ++ str "[0m\n"
  else if contains line (str ": warning:") then
    [27] ++ str "[36m" ++ text ++ [27] ++ str "[0m\n"
  else text ++ str "\n"

/-- `colorify_output`; `line` is what has been read of the line. -/
def colorify (line : Str) : Str → Str
  | [] => cString line
  | c :: rest => if c = 10 then colorifyLine line ++ colorify [] rest else colorify (line ++ [c]) rest

def colorifyOutput (text : Str) : Str := colorify [] text

/-- What is printed of the result, unless it is refused -/
def report (v : Surroundings) (m : Comm.CompileResultMsg) : Remote Unit := do
  let job ← op .job
  if (m.out ≠ [] ∨ m.err ≠ []) && (← checked (outputNeedsWorkaround v job)) then
    refuse 102 (str "Error 102 - command needs stdout/stderr workaround, recompiling locally")
  if contains m.err (str "file not found") then
    refuse 104 (str "Error 104 - remote is missing file, recompiling locally")
  op (.print .out m.out)
  if ← checked (colorifyWanted v job) then op (.print .err (colorifyOutput m.err))
  else op (.print .err m.err)

def dwoName (outputFile : Str) : Str :=
  outputFile.take ((rfind outputFile (str ".")).getD outputFile.length) ++ str ".dwo"

/-- The object file, and the file with the split debug information -/
def receiveFiles (turns : ℕ) (peer : Peer) (m : Comm.CompileResultMsg) : Remote ℤ := do
  let outputFile := (← op .job).outputFile
  if outputFile = [] then
    checked (.error .assertion)
  if m.status = 0 then
    receiveFile turns peer outputFile
    if m.haveDwoFile then
      receiveFile turns peer (dwoName outputFile)
  return m.status.toInt

def receiveResult (v : Surroundings) (turns : ℕ) (peer : Peer) (output : Bool) : Remote ℤ := do
  let msg ← op .get
  if msg.isNone then
    fail 14 (str "Error 14 - error reading message from remote")
  checkForFailure peer msg
  match msg with
  | some (.compileResult m) =>
    if m.status ≠ 0 && m.wasOutOfMemory then
      refuse 101 (str "Error 101 - the server ran out of memory, recompiling locally")
    if output then
      report v m
    receiveFiles turns peer m
  | _ => fail 13 (str "Error 13 - did not get compile response message")

/-! ## The whole -/

/-- The messages that are left, after an exception -/
def drain : ℕ → Remote Unit
  | 0 => outOfTurns
  | n + 1 => do
    if (← op .get).isSome then drain n
    else op .deleteChannel

/-- The compiler is told the language by a server that does not do so itself. -/
def tellLanguage (peer : Peer) : Remote Unit := do
  let job ← op .job
  if (job.language = langOBJC ∨ job.language = langOBJCXX) ∧ peer.protocol < 38 then
    op (.setJob (appendFlag (appendFlag job (str "-x") .argRemote)
      (if job.language = langOBJC then str "objective-c" else str "objective-c++") .argRemote))

def buildOn (v : Surroundings) (turns : ℕ) (usecs : UseCSMsg) (versionFile : Str)
    (preprocFile : Option Str) (output : Bool) : Remote ℤ := do
  match ← op (.createChannel usecs.hostname usecs.port) with
  | none => fail 2 (str "Error 2 - no server found at " ++ usecs.hostname)
  | some peer =>
    if usecs.gotEnv = 0 then
      transferEnvironment turns peer usecs versionFile
    if peer.protocol < 31 ∧ v.ignoreUnverified then
      fail 26 (str "Error 26 - environment on " ++ usecs.hostname ++ str " cannot be verified")
    tellLanguage peer
    unless ← op (.send (.compileFile (updateFlags (← op .job).toCompileJob (rebased v)))) do
      fail 9 (str "Error 9 - error sending file to remote")
    match ← sendSource v turns peer preprocFile with
    | some status => return status
    | none =>
      unless ← op (.send .endMsg) do
        fail 12 (str "Error 12 - failed to send file to remote")
      let status ← receiveResult v turns peer output
      op .deleteChannel
      return status

def buildRemoteInt (v : Surroundings) (turns : ℕ) (usecs : UseCSMsg) (environment versionFile : Str)
    (preprocFile : Option Str) (output : Bool) : Remote ℤ := do
  let job ← op .job
  op (.setJob { job with id := usecs.jobId, environmentVersion := environment })
  (buildOn v turns usecs versionFile preprocFile output).rescue fun e => do
    if ← op .connected then
      drain turns
    Procedure.raise e

end Remote

end Icecream.Client
