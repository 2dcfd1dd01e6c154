import Mathlib.Data.List.Infix

/-!
# Messages

The message classes of `services/comm.h` with the fields that travel on the wire or
that a handler reads, and the job description of `services/job.h`. Unsigned fields
are `UInt32`, `int` fields are `Int32`, and a `std::string` is its bytes. A value
cast to an enumeration without a check stays a number (`lang`).
-/

namespace Icecream.Comm

abbrev Bytes := List UInt8
abbrev Str := List UInt8

/-- The bytes of an ASCII literal. -/
def str (s : String) : Str := s.toList.map fun c => UInt8.ofNat c.toNat

def protocolVersion : ℕ := 45
def minProtocolVersion : ℕ := 21
def maxMsgSize : ℕ := 1 * 1024 * 1024

def nodeFeatureEnvXz : UInt32 := 1
def nodeFeatureEnvZstd : UInt32 := 2

/-- Pairs of host platform and environment name. -/
abbrev Environments := List (Str × Str)

inductive MsgType
  | unknown | ping | endMsg | timeout | getNativeEnv | nativeEnv | getCS | useCS
  | compileFile | fileChunk | compileResult | jobBegin | jobDone | jobLocalBegin
  | jobLocalDone | login | stats | monLogin | monGetCS | monJobBegin | monJobDone
  | monLocalJobBegin | monStats | transferEnv | text | statusText | getInternals
  | csConf | verifyEnv | verifyEnvResult | blacklistHostEnv | noCS
  deriving DecidableEq, Repr

namespace MsgType

/-- The enumeration starts at `'A'` and counts up. -/
def code : MsgType → UInt32
  | unknown => 65 | ping => 66 | endMsg => 67 | timeout => 68 | getNativeEnv => 69
  | nativeEnv => 70 | getCS => 71 | useCS => 72 | compileFile => 73 | fileChunk => 74
  | compileResult => 75 | jobBegin => 76 | jobDone => 77 | jobLocalBegin => 78
  | jobLocalDone => 79 | login => 80 | stats => 81 | monLogin => 82 | monGetCS => 83
  | monJobBegin => 84 | monJobDone => 85 | monLocalJobBegin => 86 | monStats => 87
  | transferEnv => 88 | text => 89 | statusText => 90 | getInternals => 91 | csConf => 92
  | verifyEnv => 93 | verifyEnvResult => 94 | blacklistHostEnv => 95 | noCS => 96

def all : List MsgType :=
  [unknown, ping, endMsg, timeout, getNativeEnv, nativeEnv, getCS, useCS, compileFile, fileChunk,
    compileResult, jobBegin, jobDone, jobLocalBegin, jobLocalDone, login, stats, monLogin,
    monGetCS, monJobBegin, monJobDone, monLocalJobBegin, monStats, transferEnv, text, statusText,
    getInternals, csConf, verifyEnv, verifyEnvResult, blacklistHostEnv, noCS]

def ofCode (n : UInt32) : Option MsgType := all.find? fun t => t.code = n

@[simp] theorem ofCode_code (t : MsgType) : ofCode t.code = some t := by
  cases t <;> rfl

end MsgType

inductive ArgumentType
  | argLocal | argRemote | argRest
  deriving DecidableEq, Repr

abbrev ArgumentsList := List (Str × ArgumentType)

def langC : UInt32 := 0
def langCXX : UInt32 := 1
def langOBJC : UInt32 := 2
def langOBJCXX : UInt32 := 3
def langCustom : UInt32 := 4

structure CompileJob where
  id : UInt32 := 0
  language : UInt32
  compilerName : Str := []
  environmentVersion : Str := []
  flags : ArgumentsList := []
  inputFile : Str := []
  outputFile : Str := []
  workingDirectory : Str := []
  targetPlatform : Str := []
  dwarfFission : Bool := false
  deriving DecidableEq, Repr

namespace CompileJob

def flagsOf (job : CompileJob) (t : ArgumentType) : List Str :=
  (job.flags.filter fun f => f.2 = t).map Prod.fst

def remoteFlags (job : CompileJob) : List Str := job.flagsOf .argRemote
def restFlags (job : CompileJob) : List Str := job.flagsOf .argRest

def nonLocalFlags (job : CompileJob) : List Str :=
  (job.flags.filter fun f => f.2 ≠ .argLocal).map Prod.fst

end CompileJob

structure GetCSMsg where
  versions : Environments := []
  filename : Str := []
  lang : UInt32
  count : UInt32 := 1
  target : Str := []
  argFlags : UInt32 := 0
  clientId : UInt32 := 0
  preferredHost : Str := []
  minimalHostVersion : Int32 := 0
  requiredFeatures : UInt32 := 0
  clientCount : UInt32 := 0
  niceness : UInt32 := 0
  deriving DecidableEq, Repr

structure UseCSMsg where
  jobId : UInt32
  hostname : Str
  port : UInt32
  hostPlatform : Str
  gotEnv : UInt32
  clientId : UInt32
  matchedJobId : UInt32
  deriving DecidableEq, Repr

structure NoCSMsg where
  jobId : UInt32
  clientId : UInt32
  deriving DecidableEq, Repr

structure GetNativeEnvMsg where
  compiler : Str := []
  extrafiles : List Str := []
  compression : Str := []
  deriving DecidableEq, Repr

/-- `buffer` holds the bytes there are, `len` is the length the message claims. -/
structure FileChunkMsg where
  buffer : Bytes
  len : ℕ
  compressed : ℕ := 0
  deriving DecidableEq, Repr

structure CompileResultMsg where
  status : Int32 := 0
  out : Str := []
  err : Str := []
  wasOutOfMemory : Bool := false
  haveDwoFile : Bool := false
  deriving DecidableEq, Repr

structure JobBeginMsg where
  jobId : UInt32
  stime : UInt32
  clientCount : UInt32 := 0
  deriving DecidableEq, Repr

structure JobDoneMsg where
  realMsec : UInt32 := 0
  userMsec : UInt32 := 0
  sysMsec : UInt32 := 0
  pfaults : UInt32 := 0
  exitcode : Int32 := -1
  flags : UInt32 := 0
  inCompressed : UInt32 := 0
  inUncompressed : UInt32 := 0
  outCompressed : UInt32 := 0
  outUncompressed : UInt32 := 0
  jobId : UInt32 := 0
  clientCount : UInt32 := 0
  deriving DecidableEq, Repr

namespace JobDoneMsg

def fromServer : UInt32 := 0
def fromSubmitter : UInt32 := 1
def flagUnknownJobId : UInt32 := 2

def isFromServer (m : JobDoneMsg) : Bool := m.flags &&& fromSubmitter = 0

/-- The client id when the sender did not know the job's id, and 0 otherwise. -/
def unknownJobClientId (m : JobDoneMsg) : UInt32 :=
  if m.flags &&& flagUnknownJobId ≠ 0 then m.jobId else 0

def setUnknownJobClientId (m : JobDoneMsg) (clientId : UInt32) : JobDoneMsg :=
  { m with flags := m.flags ||| flagUnknownJobId, jobId := clientId }

def setJobId (m : JobDoneMsg) (jobId : UInt32) : JobDoneMsg :=
  { m with jobId := jobId, flags := m.flags &&& ~~~flagUnknownJobId }

end JobDoneMsg

structure JobLocalBeginMsg where
  outfile : Str := []
  stime : UInt32 := 0
  id : UInt32 := 0
  fulljob : Bool := false
  niceness : UInt32 := 0
  deriving DecidableEq, Repr

structure LoginMsg where
  port : UInt32
  envs : Environments := []
  maxKids : UInt32 := 0
  noremote : Bool := false
  chrootPossible : Bool := false
  nodename : Str := []
  hostPlatform : Str := []
  supportedFeatures : UInt32 := 0
  deriving DecidableEq, Repr

structure ConfCSMsg where
  maxSchedulerPong : UInt32
  maxSchedulerPing : UInt32
  deriving DecidableEq, Repr

structure StatsMsg where
  load : UInt32 := 0
  loadAvg1 : UInt32
  loadAvg5 : UInt32
  loadAvg10 : UInt32
  freeMem : UInt32
  clientCount : UInt32 := 0
  deriving DecidableEq, Repr

structure EnvTransferMsg where
  name : Str
  target : Str
  deriving DecidableEq, Repr

structure MonGetCSMsg extends GetCSMsg where
  jobId : UInt32 := 0
  clientid : UInt32 := 0
  deriving DecidableEq, Repr

structure MonJobBeginMsg where
  jobId : UInt32
  stime : UInt32
  hostid : UInt32
  deriving DecidableEq, Repr

structure MonLocalJobBeginMsg where
  jobId : UInt32
  stime : UInt32
  hostid : UInt32
  file : Str
  deriving DecidableEq, Repr

structure MonStatsMsg where
  hostid : UInt32
  statmsg : Str
  deriving DecidableEq, Repr

structure VerifyEnvMsg where
  environment : Str
  target : Str
  deriving DecidableEq, Repr

structure BlacklistHostEnvMsg where
  environment : Str
  target : Str
  hostname : Str
  deriving DecidableEq, Repr

inductive Msg
  | ping
  | endMsg
  | getCS (m : GetCSMsg)
  | useCS (m : UseCSMsg)
  | noCS (m : NoCSMsg)
  | getNativeEnv (m : GetNativeEnvMsg)
  | useNativeEnv (nativeVersion : Str)
  | compileFile (job : CompileJob)
  | fileChunk (m : FileChunkMsg)
  | compileResult (m : CompileResultMsg)
  | jobBegin (m : JobBeginMsg)
  | jobDone (m : JobDoneMsg)
  | jobLocalBegin (m : JobLocalBeginMsg)
  | jobLocalDone (jobId : UInt32)
  | login (m : LoginMsg)
  | csConf (m : ConfCSMsg)
  | stats (m : StatsMsg)
  | transferEnv (m : EnvTransferMsg)
  | getInternals
  | monLogin
  | monGetCS (m : MonGetCSMsg)
  | monJobBegin (m : MonJobBeginMsg)
  | monJobDone (m : JobDoneMsg)
  | monLocalJobBegin (m : MonLocalJobBeginMsg)
  | monStats (m : MonStatsMsg)
  | text (text : Str)
  | statusText (text : Str)
  | verifyEnv (m : VerifyEnvMsg)
  | verifyEnvResult (ok : Bool)
  | blacklistHostEnv (m : BlacklistHostEnvMsg)
  deriving DecidableEq, Repr

def Msg.type : Msg → MsgType
  | .ping => .ping
  | .endMsg => .endMsg
  | .getCS _ => .getCS
  | .useCS _ => .useCS
  | .noCS _ => .noCS
  | .getNativeEnv _ => .getNativeEnv
  | .useNativeEnv _ => .nativeEnv
  | .compileFile _ => .compileFile
  | .fileChunk _ => .fileChunk
  | .compileResult _ => .compileResult
  | .jobBegin _ => .jobBegin
  | .jobDone _ => .jobDone
  | .jobLocalBegin _ => .jobLocalBegin
  | .jobLocalDone _ => .jobLocalDone
  | .login _ => .login
  | .csConf _ => .csConf
  | .stats _ => .stats
  | .transferEnv _ => .transferEnv
  | .getInternals => .getInternals
  | .monLogin => .monLogin
  | .monGetCS _ => .monGetCS
  | .monJobBegin _ => .monJobBegin
  | .monJobDone _ => .monJobDone
  | .monLocalJobBegin _ => .monLocalJobBegin
  | .monStats _ => .monStats
  | .text _ => .text
  | .statusText _ => .statusText
  | .verifyEnv _ => .verifyEnv
  | .verifyEnvResult _ => .verifyEnvResult
  | .blacklistHostEnv _ => .blacklistHostEnv

end Icecream.Comm
