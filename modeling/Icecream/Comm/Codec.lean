import Icecream.Comm.Field

/-!
# Encoding and decoding of every message

`send_to_channel` and `fill_from_channel` of each message class at a protocol
version. The word for the type is written by the base class and read by `get_msg`;
here it belongs to `Msg.sendToChannel` and `readMsg`. A field that the peer's version
does not send keeps the value its constructor gives it.
-/

namespace Icecream.Comm

variable (k : Compression) (protocol : ℕ)

/-- `rfind`: the last `c` at an index up to `pos`, or at any index for `npos`. -/
def rfind (s : Str) (c : UInt8) (pos : Option ℕ) : Option ℕ :=
  ((List.range s.length).filter fun i => s[i]? = some c ∧ pos.all (i ≤ ·)).getLast?

/-- `ofs - 1` in `size_t`, where 0 wraps to `npos`. -/
def before : ℕ → Option ℕ
  | 0 => none
  | n + 1 => some n

def shortenFilename (s : Str) : Str :=
  let slash : UInt8 := 47
  let back : Option ℕ → Option ℕ := fun ofs => ofs.bind fun i => rfind s slash (before i)
  s.drop ((back (back (rfind s slash none))).elim 0 (· + 1))

def isClangLike (name : Str) : Bool :=
  str "clang" <:+: name ∨ str "icx" <:+: name ∨ str "icpx" <:+: name ∨ str "dpcpp" <:+: name

/-! ## Scheduling -/

def GetCSMsg.sendToChannel (m : GetCSMsg) : Bytes :=
  writeEnvironments m.versions ++ (writeString (shortenFilename m.filename) ++
    (writeUInt32 m.lang ++ (writeUInt32 m.count ++ (writeString m.target ++
      (writeUInt32 m.argFlags ++ (writeUInt32 m.clientId ++
        (writeSince protocol 22 (writeString m.preferredHost) ++
          (writeSince protocol 31 (writeBool (31 ≤ m.minimalHostVersion)) ++
            (writeSince protocol 34 (writeUInt32 m.minimalHostVersion.toUInt32) ++
              (writeSince protocol 39 (writeUInt32 m.clientCount) ++
                (writeSince protocol 42 (writeUInt32 m.requiredFeatures) ++
                  writeSince protocol 43 (writeUInt32 m.niceness))))))))))))

/-- The flag of versions 31 to 33, then the version sent from 34 on. -/
def minimalHostVersionOf (ign : Bool) (version : UInt32) : Int32 :=
  max (if ign then 31 else 0) version.toInt32

def GetCSMsg.fillFromChannel : Reader UInt8 GetCSMsg := do
  let versions ← readEnvironments
  let filename ← readString
  let lang ← readUInt32
  let count ← readUInt32
  let target ← readString
  let argFlags ← readUInt32
  let clientId ← readUInt32
  let preferredHost ← readSince protocol 22 readString []
  let ign ← readSince protocol 31 readBool false
  let version ← readSince protocol 34 readUInt32 0
  let clientCount ← readSince protocol 39 readUInt32 0
  let requiredFeatures ← readSince protocol 42 readUInt32 0
  let niceness ← readSince protocol 43 readUInt32 0
  pure { versions, filename, lang, count, target, argFlags, clientId, preferredHost,
         minimalHostVersion := minimalHostVersionOf ign version, requiredFeatures,
         clientCount, niceness }

def UseCSMsg.sendToChannel (m : UseCSMsg) : Bytes :=
  writeUInt32 m.jobId ++ (writeUInt32 m.port ++ (writeString m.hostname ++
    (writeString m.hostPlatform ++ (writeUInt32 m.gotEnv ++ (writeUInt32 m.clientId ++
      writeSince protocol 28 (writeUInt32 m.matchedJobId))))))

def UseCSMsg.fillFromChannel : Reader UInt8 UseCSMsg := do
  let jobId ← readUInt32
  let port ← readUInt32
  let hostname ← readString
  let hostPlatform ← readString
  let gotEnv ← readUInt32
  let clientId ← readUInt32
  let matchedJobId ← readSince protocol 28 readUInt32 0
  pure { jobId, hostname, port, hostPlatform, gotEnv, clientId, matchedJobId }

def NoCSMsg.sendToChannel (m : NoCSMsg) : Bytes :=
  writeUInt32 m.jobId ++ writeUInt32 m.clientId

def NoCSMsg.fillFromChannel : Reader UInt8 NoCSMsg := do
  let jobId ← readUInt32
  let clientId ← readUInt32
  pure { jobId, clientId }

/-! ## Compiling -/

/-- Environments made by icecc-create-env use the same names for the compilers. -/
def remoteCompilerName (job : CompileJob) : Str :=
  if isClangLike job.compilerName then str "clang"
  else if job.language = langCXX then str "g++" else str "gcc"

/-- Peers before version 30 get the name of a clang in front of the flags. -/
def remoteFlagsFor (job : CompileJob) : List Str :=
  if protocol < 30 ∧ isClangLike job.compilerName then str "clang" :: job.remoteFlags
  else job.remoteFlags

def writeFlags (job : CompileJob) : Bytes :=
  if 41 ≤ protocol then writeStrings job.nonLocalFlags
  else writeStrings (remoteFlagsFor protocol job) ++ writeStrings job.restFlags

def remoteAndRest (remote rest : List Str) : ArgumentsList :=
  remote.map (fun f => (f, ArgumentType.argRemote)) ++ rest.map (fun f => (f, ArgumentType.argRest))

def readFlags : Reader UInt8 ArgumentsList :=
  if 41 ≤ protocol then (fun largs => remoteAndRest largs []) <$> readStrings
  else do
    let l1 ← readStrings
    let l2 ← readStrings
    pure (remoteAndRest l1 l2)

def CompileJob.sendToChannel (job : CompileJob) : Bytes :=
  writeUInt32 job.language ++ (writeUInt32 job.id ++ (writeFlags protocol job ++
    (writeString job.environmentVersion ++ (writeString job.targetPlatform ++
      (writeSince protocol 30 (writeString (remoteCompilerName job)) ++
        (writeSince protocol 34 (writeString job.inputFile) ++
          (writeSince protocol 34 (writeString job.workingDirectory) ++
            (writeSince protocol 35 (writeString job.outputFile) ++
              writeSince protocol 35 (writeBool job.dwarfFission)))))))))

def CompileJob.fillFromChannel : Reader UInt8 CompileJob := do
  let language ← readUInt32
  let id ← readUInt32
  let flags ← readFlags protocol
  let environmentVersion ← readString
  let targetPlatform ← readString
  let compilerName ← readSince protocol 30 readString []
  let inputFile ← readSince protocol 34 readString []
  let workingDirectory ← readSince protocol 34 readString []
  let outputFile ← readSince protocol 35 readString []
  let dwarfFission ← readSince protocol 35 readBool false
  pure { id, language, compilerName, environmentVersion, flags, inputFile, outputFile,
         workingDirectory, targetPlatform, dwarfFission }

def CompileResultMsg.sendToChannel (m : CompileResultMsg) : Bytes :=
  writeString m.err ++ (writeString m.out ++ (writeUInt32 m.status.toUInt32 ++
    (writeBool m.wasOutOfMemory ++ writeSince protocol 35 (writeBool m.haveDwoFile))))

def CompileResultMsg.fillFromChannel : Reader UInt8 CompileResultMsg := do
  let err ← readString
  let out ← readString
  let status ← readUInt32
  let wasOutOfMemory ← readBool
  let haveDwoFile ← readSince protocol 35 readBool false
  pure { status := status.toInt32, out, err, wasOutOfMemory, haveDwoFile }

/-! ## Job bookkeeping -/

def JobBeginMsg.sendToChannel (m : JobBeginMsg) : Bytes :=
  writeUInt32 m.jobId ++ (writeUInt32 m.stime ++
    writeSince protocol 39 (writeUInt32 m.clientCount))

def JobBeginMsg.fillFromChannel : Reader UInt8 JobBeginMsg := do
  let jobId ← readUInt32
  let stime ← readUInt32
  let clientCount ← readSince protocol 39 readUInt32 0
  pure { jobId, stime, clientCount }

/-- Before version 39 an unknown job id is told by the exit code 200. -/
def exitcodeSent (m : JobDoneMsg) : UInt32 :=
  if protocol < 39 ∧ m.flags &&& JobDoneMsg.flagUnknownJobId ≠ 0 then 200
  else m.exitcode.toUInt32

def flagsReceived (exitcode : Int32) (flags : UInt32) : UInt32 :=
  if protocol < 39 ∧ exitcode = 200 then flags ||| JobDoneMsg.flagUnknownJobId else flags

def JobDoneMsg.sendToChannel (m : JobDoneMsg) : Bytes :=
  writeUInt32 m.jobId ++ (writeUInt32 (exitcodeSent protocol m) ++ (writeUInt32 m.realMsec ++
    (writeUInt32 m.userMsec ++ (writeUInt32 m.sysMsec ++ (writeUInt32 m.pfaults ++
      (writeUInt32 m.inCompressed ++ (writeUInt32 m.inUncompressed ++
        (writeUInt32 m.outCompressed ++ (writeUInt32 m.outUncompressed ++
          (writeUInt32 m.flags ++ writeSince protocol 39 (writeUInt32 m.clientCount)))))))))))

def JobDoneMsg.fillFromChannel : Reader UInt8 JobDoneMsg := do
  let jobId ← readUInt32
  let exitcode ← readUInt32
  let realMsec ← readUInt32
  let userMsec ← readUInt32
  let sysMsec ← readUInt32
  let pfaults ← readUInt32
  let inCompressed ← readUInt32
  let inUncompressed ← readUInt32
  let outCompressed ← readUInt32
  let outUncompressed ← readUInt32
  let flags ← readUInt32
  let clientCount ← readSince protocol 39 readUInt32 0
  pure { realMsec, userMsec, sysMsec, pfaults, exitcode := exitcode.toInt32,
         flags := flagsReceived protocol exitcode.toInt32 flags, inCompressed, inUncompressed,
         outCompressed, outUncompressed, jobId, clientCount }

def JobLocalBeginMsg.sendToChannel (m : JobLocalBeginMsg) : Bytes :=
  writeUInt32 m.stime ++ (writeString m.outfile ++ (writeUInt32 m.id ++
    (writeSince protocol 44 (writeBool m.fulljob) ++
      writeSince protocol 45 (writeUInt32 m.niceness))))

def JobLocalBeginMsg.fillFromChannel : Reader UInt8 JobLocalBeginMsg := do
  let stime ← readUInt32
  let outfile ← readString
  let id ← readUInt32
  let fulljob ← readSince protocol 44 readBool false
  let niceness ← readSince protocol 45 readUInt32 0
  pure { outfile, stime, id, fulljob, niceness }

/-! ## Daemon and scheduler -/

def LoginMsg.sendToChannel (m : LoginMsg) : Bytes :=
  writeUInt32 m.port ++ (writeUInt32 m.maxKids ++ (writeEnvironments m.envs ++
    (writeString m.nodename ++ (writeString m.hostPlatform ++ (writeBool m.chrootPossible ++
      (writeSince protocol 26 (writeBool m.noremote) ++
        writeSince protocol 42 (writeUInt32 m.supportedFeatures)))))))

def LoginMsg.fillFromChannel : Reader UInt8 LoginMsg := do
  let port ← readUInt32
  let maxKids ← readUInt32
  let envs ← readEnvironments
  let nodename ← readString
  let hostPlatform ← readString
  let chrootPossible ← readBool
  let noremote ← readSince protocol 26 readBool false
  let supportedFeatures ← readSince protocol 42 readUInt32 0
  pure { port, envs, maxKids, noremote, chrootPossible, nodename, hostPlatform,
         supportedFeatures }

/-- The source of a benchmark was sent once; its place is kept by an empty string. -/
def ConfCSMsg.sendToChannel (m : ConfCSMsg) : Bytes :=
  writeUInt32 m.maxSchedulerPong ++ (writeUInt32 m.maxSchedulerPing ++ writeString [])

def ConfCSMsg.fillFromChannel : Reader UInt8 ConfCSMsg := do
  let maxSchedulerPong ← readUInt32
  let maxSchedulerPing ← readUInt32
  let _benchSource ← readString
  pure { maxSchedulerPong, maxSchedulerPing }

def StatsMsg.sendToChannel (m : StatsMsg) : Bytes :=
  writeUInt32 m.load ++ (writeUInt32 m.loadAvg1 ++ (writeUInt32 m.loadAvg5 ++
    (writeUInt32 m.loadAvg10 ++ writeUInt32 m.freeMem)))

def StatsMsg.fillFromChannel : Reader UInt8 StatsMsg := do
  let load ← readUInt32
  let loadAvg1 ← readUInt32
  let loadAvg5 ← readUInt32
  let loadAvg10 ← readUInt32
  let freeMem ← readUInt32
  pure { load, loadAvg1, loadAvg5, loadAvg10, freeMem }

/-! ## Environments -/

def GetNativeEnvMsg.sendToChannel (m : GetNativeEnvMsg) : Bytes :=
  writeSince protocol 32 (writeString m.compiler) ++
    (writeSince protocol 32 (writeStrings m.extrafiles) ++
      writeSince protocol 42 (writeString m.compression))

def GetNativeEnvMsg.fillFromChannel : Reader UInt8 GetNativeEnvMsg := do
  let compiler ← readSince protocol 32 readString []
  let extrafiles ← readSince protocol 32 readStrings []
  let compression ← readSince protocol 42 readString []
  pure { compiler, extrafiles, compression }

def EnvTransferMsg.sendToChannel (m : EnvTransferMsg) : Bytes :=
  writeString m.name ++ writeString m.target

def EnvTransferMsg.fillFromChannel : Reader UInt8 EnvTransferMsg := do
  let name ← readString
  let target ← readString
  pure { name, target }

def VerifyEnvMsg.sendToChannel (m : VerifyEnvMsg) : Bytes :=
  writeString m.environment ++ writeString m.target

def VerifyEnvMsg.fillFromChannel : Reader UInt8 VerifyEnvMsg := do
  let environment ← readString
  let target ← readString
  pure { environment, target }

def BlacklistHostEnvMsg.sendToChannel (m : BlacklistHostEnvMsg) : Bytes :=
  writeString m.environment ++ (writeString m.target ++ writeString m.hostname)

def BlacklistHostEnvMsg.fillFromChannel : Reader UInt8 BlacklistHostEnvMsg := do
  let environment ← readString
  let target ← readString
  let hostname ← readString
  pure { environment, target, hostname }

/-! ## Monitors -/

/-- From version 29 on a monitor gets the two fields it shows, before that the whole
request. -/
def MonGetCSMsg.sendToChannel (m : MonGetCSMsg) : Bytes :=
  (if 29 ≤ protocol then writeString (shortenFilename m.filename) ++ writeUInt32 m.lang
    else m.toGetCSMsg.sendToChannel protocol) ++
    (writeUInt32 m.jobId ++ writeUInt32 m.clientid)

def MonGetCSMsg.fillRequest : Reader UInt8 GetCSMsg :=
  if 29 ≤ protocol then do
    let filename ← readString
    let lang ← readUInt32
    pure { filename, lang }
  else GetCSMsg.fillFromChannel protocol

def MonGetCSMsg.fillFromChannel : Reader UInt8 MonGetCSMsg := do
  let request ← MonGetCSMsg.fillRequest protocol
  let jobId ← readUInt32
  let clientid ← readUInt32
  pure { toGetCSMsg := request, jobId, clientid }

def MonJobBeginMsg.sendToChannel (m : MonJobBeginMsg) : Bytes :=
  writeUInt32 m.jobId ++ (writeUInt32 m.stime ++ writeUInt32 m.hostid)

def MonJobBeginMsg.fillFromChannel : Reader UInt8 MonJobBeginMsg := do
  let jobId ← readUInt32
  let stime ← readUInt32
  let hostid ← readUInt32
  pure { jobId, stime, hostid }

def MonLocalJobBeginMsg.sendToChannel (m : MonLocalJobBeginMsg) : Bytes :=
  writeUInt32 m.hostid ++ (writeUInt32 m.jobId ++ (writeUInt32 m.stime ++
    writeString (shortenFilename m.file)))

def MonLocalJobBeginMsg.fillFromChannel : Reader UInt8 MonLocalJobBeginMsg := do
  let hostid ← readUInt32
  let jobId ← readUInt32
  let stime ← readUInt32
  let file ← readString
  pure { jobId, stime, hostid, file }

def MonStatsMsg.sendToChannel (m : MonStatsMsg) : Bytes :=
  writeUInt32 m.hostid ++ writeString m.statmsg

def MonStatsMsg.fillFromChannel : Reader UInt8 MonStatsMsg := do
  let hostid ← readUInt32
  let statmsg ← readString
  pure { hostid, statmsg }

/-! ## All messages -/

def writeLine (line : Str) : Bytes :=
  if line.getLast? = some 10 then line else line ++ [10]

/-- A text has neither type nor length; it belongs on text channels. -/
def Msg.sendToChannel : Msg → Bytes
  | .text t => writeLine t
  | m => writeUInt32 m.type.code ++ match m with
    | .ping | .endMsg | .getInternals | .monLogin | .text _ => []
    | .getCS m => m.sendToChannel protocol
    | .useCS m => m.sendToChannel protocol
    | .noCS m => m.sendToChannel
    | .getNativeEnv m => m.sendToChannel protocol
    | .useNativeEnv nativeVersion => writeString nativeVersion
    | .compileFile job => job.sendToChannel protocol
    | .fileChunk m => writecompressed k protocol m.buffer m.len
    | .compileResult m => m.sendToChannel protocol
    | .jobBegin m => m.sendToChannel protocol
    | .jobDone m => m.sendToChannel protocol
    | .jobLocalBegin m => m.sendToChannel protocol
    | .jobLocalDone jobId => writeUInt32 jobId
    | .login m => m.sendToChannel protocol
    | .csConf m => m.sendToChannel
    | .stats m => m.sendToChannel
    | .transferEnv m => m.sendToChannel
    | .monGetCS m => m.sendToChannel protocol
    | .monJobBegin m => m.sendToChannel
    | .monJobDone m => m.sendToChannel protocol
    | .monLocalJobBegin m => m.sendToChannel
    | .monStats m => m.sendToChannel
    | .statusText s => writeString s
    | .verifyEnv m => m.sendToChannel
    | .verifyEnvResult ok => writeBool ok
    | .blacklistHostEnv m => m.sendToChannel

/-- What `get_msg` makes of a type, and how it is filled; `none` where it has no
message. On a binary channel `read_line` reads nothing. -/
def fillFromChannel : MsgType → Option (Reader UInt8 Msg)
  | .unknown => none
  | .timeout => none
  | .ping => some (pure .ping)
  | .endMsg => some (pure .endMsg)
  | .getCS => some (.getCS <$> GetCSMsg.fillFromChannel protocol)
  | .useCS => some (.useCS <$> UseCSMsg.fillFromChannel protocol)
  | .noCS => some (.noCS <$> NoCSMsg.fillFromChannel)
  | .getNativeEnv => some (.getNativeEnv <$> GetNativeEnvMsg.fillFromChannel protocol)
  | .nativeEnv => some (.useNativeEnv <$> readString)
  | .compileFile => some (.compileFile <$> CompileJob.fillFromChannel protocol)
  | .fileChunk => some (.fileChunk <$> readcompressed k protocol)
  | .compileResult => some (.compileResult <$> CompileResultMsg.fillFromChannel protocol)
  | .jobBegin => some (.jobBegin <$> JobBeginMsg.fillFromChannel protocol)
  | .jobDone => some (.jobDone <$> JobDoneMsg.fillFromChannel protocol)
  | .jobLocalBegin => some (.jobLocalBegin <$> JobLocalBeginMsg.fillFromChannel protocol)
  | .jobLocalDone => some (.jobLocalDone <$> readUInt32)
  | .login => some (.login <$> LoginMsg.fillFromChannel protocol)
  | .csConf => some (.csConf <$> ConfCSMsg.fillFromChannel)
  | .stats => some (.stats <$> StatsMsg.fillFromChannel)
  | .transferEnv => some (.transferEnv <$> EnvTransferMsg.fillFromChannel)
  | .getInternals => some (pure .getInternals)
  | .monLogin => some (pure .monLogin)
  | .monGetCS => some (.monGetCS <$> MonGetCSMsg.fillFromChannel protocol)
  | .monJobBegin => some (.monJobBegin <$> MonJobBeginMsg.fillFromChannel)
  | .monJobDone => some (.monJobDone <$> JobDoneMsg.fillFromChannel protocol)
  | .monLocalJobBegin => some (.monLocalJobBegin <$> MonLocalJobBeginMsg.fillFromChannel)
  | .monStats => some (.monStats <$> MonStatsMsg.fillFromChannel)
  | .text => some (pure (.text []))
  | .statusText => some (.statusText <$> readString)
  | .verifyEnv => some (.verifyEnv <$> VerifyEnvMsg.fillFromChannel)
  | .verifyEnvResult => some (.verifyEnvResult <$> readBool)
  | .blacklistHostEnv => some (.blacklistHostEnv <$> BlacklistHostEnvMsg.fillFromChannel)

/-- The switch of `get_msg`: the type, then the rest of the message. -/
def readMsg : Reader UInt8 (Option Msg) := do
  let t ← readUInt32
  match (MsgType.ofCode t).bind (fillFromChannel k protocol) with
  | some fill => some <$> fill
  | none => pure none

end Icecream.Comm
