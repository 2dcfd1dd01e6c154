import Icecream.Comm.Codec

/-!
# Decoding what was encoded

`Sendable` says what the fields of a message must satisfy for the encoding to be
faithful: strings without NUL that fit their length field, lists that fit their
counter, a chunk no longer than `MAX_MSG_SIZE`. `normalised` is the message as the
peer sees it at the given version.
-/

namespace Icecream.Comm

variable {k : Compression} (protocol : ℕ)

theorem Plain.drop {s : Str} (hs : Plain s) (n : ℕ) : Plain (s.drop n) where
  nul h := hs.nul (List.mem_of_mem_drop h)
  fits := by
    have := hs.fits
    rw [List.length_drop]
    omega

theorem Plain.shortenFilename {s : Str} (hs : Plain s) : Plain (shortenFilename s) :=
  hs.drop _

theorem plain_clang : Plain (str "clang") := ⟨by decide, by decide⟩

theorem Plain.remoteCompilerName (job : CompileJob) : Plain (remoteCompilerName job) := by
  rw [Comm.remoteCompilerName]
  split
  · exact plain_clang
  · split
    · exact ⟨by decide, by decide⟩
    · exact ⟨by decide, by decide⟩

/-! ## Scheduling -/

structure GetCSMsg.Sendable (m : GetCSMsg) : Prop where
  versions : ∀ env ∈ m.versions, Plain env.1 ∧ Plain env.2
  count : m.versions.length < 2 ^ 32
  filename : Plain m.filename
  target : Plain m.target
  preferredHost : Plain m.preferredHost

/-- Versions 31 to 33 send a flag, and a negative version never arrives. -/
def minimalHostVersionAt (version : Int32) : Int32 :=
  if 34 ≤ protocol then max 0 version
  else if 31 ≤ protocol ∧ 31 ≤ version then 31 else 0

def GetCSMsg.normalised (m : GetCSMsg) : GetCSMsg where
  versions := m.versions
  filename := shortenFilename m.filename
  lang := m.lang
  count := m.count
  target := m.target
  argFlags := m.argFlags
  clientId := m.clientId
  preferredHost := if 22 ≤ protocol then m.preferredHost else []
  minimalHostVersion := minimalHostVersionAt protocol m.minimalHostVersion
  requiredFeatures := if 42 ≤ protocol then m.requiredFeatures else 0
  clientCount := if 39 ≤ protocol then m.clientCount else 0
  niceness := if 43 ≤ protocol then m.niceness else 0

theorem minimalHostVersionOf_sent (version : Int32) :
    minimalHostVersionOf (if 31 ≤ protocol then decide (31 ≤ version) else false)
      (if 34 ≤ protocol then version.toUInt32 else 0) =
      minimalHostVersionAt protocol version := by
  have hzero : max (0 : Int32) 0 = 0 := rfl
  rw [minimalHostVersionOf, minimalHostVersionAt]
  by_cases h34 : 34 ≤ protocol
  · have h31 : 31 ≤ protocol := by omega
    by_cases hv : 31 ≤ version
    · have hv0 : (0 : Int32) ≤ version := Int32.le_trans (by decide) hv
      have hmax : ∀ x y : Int32, max x y = if x ≤ y then y else x := fun _ _ => rfl
      simp [h34, h31, hv, hv0, hmax]
    · simp [h34, h31, hv]
  · by_cases h31 : 31 ≤ protocol
    · by_cases hv : 31 ≤ version
      · simp only [h34, h31, hv]
        rfl
      · simp [h34, h31, hv, hzero]
    · simp [h34, h31, hzero]

theorem GetCSMsg.decodes {m : GetCSMsg} (hm : m.Sendable) :
    Reader.Decodes (GetCSMsg.fillFromChannel protocol) (m.sendToChannel protocol)
      (m.normalised protocol) := by
  rw [GetCSMsg.normalised, ← minimalHostVersionOf_sent]
  refine (readEnvironments_writeEnvironments hm.versions hm.count).bind ?_
  refine (readString_writeString hm.filename.shortenFilename).bind ?_
  refine (readUInt32_writeUInt32 _).bind ?_
  refine (readUInt32_writeUInt32 _).bind ?_
  refine (readString_writeString hm.target).bind ?_
  refine (readUInt32_writeUInt32 _).bind ?_
  refine (readUInt32_writeUInt32 _).bind ?_
  refine (readSince_writeSince fun _ => readString_writeString hm.preferredHost).bind ?_
  refine (readSince_writeSince fun _ => readBool_writeBool _).bind ?_
  refine (readSince_writeSince fun _ => readUInt32_writeUInt32 _).bind ?_
  refine (readSince_writeSince fun _ => readUInt32_writeUInt32 _).bind ?_
  refine (readSince_writeSince fun _ => readUInt32_writeUInt32 _).bind ?_
  exact (readSince_writeSince fun _ => readUInt32_writeUInt32 _).bindPure _

structure UseCSMsg.Sendable (m : UseCSMsg) : Prop where
  hostname : Plain m.hostname
  hostPlatform : Plain m.hostPlatform

def UseCSMsg.normalised (m : UseCSMsg) : UseCSMsg :=
  { m with matchedJobId := if 28 ≤ protocol then m.matchedJobId else 0 }

theorem UseCSMsg.decodes {m : UseCSMsg} (hm : m.Sendable) :
    Reader.Decodes (UseCSMsg.fillFromChannel protocol) (m.sendToChannel protocol)
      (m.normalised protocol) := by
  refine (readUInt32_writeUInt32 _).bind ?_
  refine (readUInt32_writeUInt32 _).bind ?_
  refine (readString_writeString hm.hostname).bind ?_
  refine (readString_writeString hm.hostPlatform).bind ?_
  refine (readUInt32_writeUInt32 _).bind ?_
  refine (readUInt32_writeUInt32 _).bind ?_
  exact (readSince_writeSince fun _ => readUInt32_writeUInt32 _).bindPure _

theorem NoCSMsg.decodes (m : NoCSMsg) :
    Reader.Decodes NoCSMsg.fillFromChannel m.sendToChannel m := by
  refine (readUInt32_writeUInt32 _).bind ?_
  exact (readUInt32_writeUInt32 _).bindPure _

/-! ## Compiling -/

structure CompileJob.Sendable (job : CompileJob) : Prop where
  flags : ∀ f ∈ job.flags, Plain f.1
  count : job.flags.length + 1 < 2 ^ 32
  environmentVersion : Plain job.environmentVersion
  targetPlatform : Plain job.targetPlatform
  inputFile : Plain job.inputFile
  workingDirectory : Plain job.workingDirectory
  outputFile : Plain job.outputFile

/-- One list of remote arguments in their order from 41 on, before that the remote
arguments and then the others. -/
def CompileJob.flagsAt (job : CompileJob) : ArgumentsList :=
  if 41 ≤ protocol then remoteAndRest job.nonLocalFlags []
  else remoteAndRest (remoteFlagsFor protocol job) job.restFlags

def CompileJob.normalised (job : CompileJob) : CompileJob where
  id := job.id
  language := job.language
  compilerName := if 30 ≤ protocol then remoteCompilerName job else []
  environmentVersion := job.environmentVersion
  flags := job.flagsAt protocol
  inputFile := if 34 ≤ protocol then job.inputFile else []
  outputFile := if 35 ≤ protocol then job.outputFile else []
  workingDirectory := if 34 ≤ protocol then job.workingDirectory else []
  targetPlatform := job.targetPlatform
  dwarfFission := if 35 ≤ protocol then job.dwarfFission else false

/-- What holds of all arguments holds of those of one kind, and there are no more. -/
theorem plain_filter {job : CompileJob} (hm : job.Sendable) (p : Str × ArgumentType → Bool) :
    (∀ s ∈ (job.flags.filter p).map Prod.fst, Plain s) ∧
      ((job.flags.filter p).map Prod.fst).length + 1 < 2 ^ 32 := by
  constructor
  · intro s hs
    obtain ⟨f, hf, rfl⟩ := List.mem_map.mp hs
    exact hm.flags f (List.mem_of_mem_filter hf)
  · rw [List.length_map]
    have := List.length_filter_le p job.flags
    have := hm.count
    omega

theorem readFlags_writeFlags {job : CompileJob} (hm : job.Sendable) :
    Reader.Decodes (readFlags protocol) (writeFlags protocol job) (job.flagsAt protocol) := by
  rw [readFlags, writeFlags, CompileJob.flagsAt]
  by_cases h41 : 41 ≤ protocol
  · have hall := plain_filter hm fun f => f.2 ≠ .argLocal
    rw [if_pos h41, if_pos h41, if_pos h41]
    exact (readStrings_writeStrings hall.1 (by omega)).map _
  · have hrest := plain_filter hm fun f => f.2 = .argRest
    have hremote := plain_filter hm fun f => f.2 = .argRemote
    have hflags : (∀ s ∈ remoteFlagsFor protocol job, Plain s) ∧
        (remoteFlagsFor protocol job).length < 2 ^ 32 := by
      rw [remoteFlagsFor]
      split
      · refine ⟨fun s hs => ?_, hremote.2⟩
        rcases List.mem_cons.mp hs with rfl | hs
        · exact plain_clang
        · exact hremote.1 s hs
      · exact ⟨hremote.1, Nat.lt_of_succ_lt hremote.2⟩
    rw [if_neg h41, if_neg h41, if_neg h41]
    refine (readStrings_writeStrings hflags.1 hflags.2).bind ?_
    exact (readStrings_writeStrings hrest.1 (Nat.lt_of_succ_lt hrest.2)).bindPure _

theorem CompileJob.decodes {job : CompileJob} (hm : job.Sendable) :
    Reader.Decodes (CompileJob.fillFromChannel protocol) (job.sendToChannel protocol)
      (job.normalised protocol) := by
  refine (readUInt32_writeUInt32 _).bind ?_
  refine (readUInt32_writeUInt32 _).bind ?_
  refine (readFlags_writeFlags protocol hm).bind ?_
  refine (readString_writeString hm.environmentVersion).bind ?_
  refine (readString_writeString hm.targetPlatform).bind ?_
  refine (readSince_writeSince fun _ =>
    readString_writeString (Plain.remoteCompilerName job)).bind ?_
  refine (readSince_writeSince fun _ => readString_writeString hm.inputFile).bind ?_
  refine (readSince_writeSince fun _ => readString_writeString hm.workingDirectory).bind ?_
  refine (readSince_writeSince fun _ => readString_writeString hm.outputFile).bind ?_
  exact (readSince_writeSince fun _ => readBool_writeBool _).bindPure _

structure FileChunkMsg.Sendable (m : FileChunkMsg) : Prop where
  whole : m.len = m.buffer.length
  fits : m.len ≤ maxMsgSize

def FileChunkMsg.normalised (k : Compression) (m : FileChunkMsg) : FileChunkMsg :=
  { m with compressed := (Comm.compressed k protocol m.buffer).length }

theorem FileChunkMsg.decodes (hk : k.Lawful) {m : FileChunkMsg} (hm : m.Sendable) :
    Reader.Decodes (readcompressed k protocol) (writecompressed k protocol m.buffer m.len)
      (m.normalised protocol k) := by
  rw [FileChunkMsg.normalised, hm.whole]
  exact readcompressed_writecompressed hk protocol (hm.whole ▸ hm.fits)

structure CompileResultMsg.Sendable (m : CompileResultMsg) : Prop where
  out : Plain m.out
  err : Plain m.err

def CompileResultMsg.normalised (m : CompileResultMsg) : CompileResultMsg :=
  { m with haveDwoFile := if 35 ≤ protocol then m.haveDwoFile else false }

theorem CompileResultMsg.decodes {m : CompileResultMsg} (hm : m.Sendable) :
    Reader.Decodes (CompileResultMsg.fillFromChannel protocol) (m.sendToChannel protocol)
      (m.normalised protocol) := by
  have hstatus : m.normalised protocol =
      ⟨m.status.toUInt32.toInt32, m.out, m.err, m.wasOutOfMemory,
        if 35 ≤ protocol then m.haveDwoFile else false⟩ := by
    rw [Int32.toInt32_toUInt32, CompileResultMsg.normalised]
  rw [hstatus]
  refine (readString_writeString hm.err).bind ?_
  refine (readString_writeString hm.out).bind ?_
  refine (readUInt32_writeUInt32 _).bind ?_
  refine (readBool_writeBool _).bind ?_
  exact (readSince_writeSince fun _ => readBool_writeBool _).bindPure _

/-! ## Job bookkeeping -/

def JobBeginMsg.normalised (m : JobBeginMsg) : JobBeginMsg :=
  { m with clientCount := if 39 ≤ protocol then m.clientCount else 0 }

theorem JobBeginMsg.decodes (m : JobBeginMsg) :
    Reader.Decodes (JobBeginMsg.fillFromChannel protocol) (m.sendToChannel protocol)
      (m.normalised protocol) := by
  refine (readUInt32_writeUInt32 _).bind ?_
  refine (readUInt32_writeUInt32 _).bind ?_
  exact (readSince_writeSince fun _ => readUInt32_writeUInt32 _).bindPure _

/-- Before version 39 the exit code 200 and an unknown job id are the same. -/
def JobDoneMsg.normalised (m : JobDoneMsg) : JobDoneMsg :=
  if 39 ≤ protocol then m
  else if m.flags &&& flagUnknownJobId ≠ 0 ∨ m.exitcode = 200 then
    { m with exitcode := 200, flags := m.flags ||| flagUnknownJobId, clientCount := 0 }
  else { m with clientCount := 0 }

theorem JobDoneMsg.normalised_eq (m : JobDoneMsg) :
    m.normalised protocol =
      { m with
        exitcode := (exitcodeSent protocol m).toInt32
        flags := flagsReceived protocol (exitcodeSent protocol m).toInt32 m.flags
        clientCount := if 39 ≤ protocol then m.clientCount else 0 } := by
  rw [JobDoneMsg.normalised, exitcodeSent, flagsReceived]
  by_cases h39 : 39 ≤ protocol
  · have hlt : ¬protocol < 39 := by omega
    simp [h39, hlt]
  · have hlt : protocol < 39 := by omega
    by_cases hflag : m.flags &&& flagUnknownJobId = 0
    · by_cases hexit : m.exitcode = 200
      · simp [h39, hlt, hflag, hexit]
      · simp [h39, hlt, hflag, hexit]
    · simp [h39, hlt, hflag]

theorem JobDoneMsg.decodes (m : JobDoneMsg) :
    Reader.Decodes (JobDoneMsg.fillFromChannel protocol) (m.sendToChannel protocol)
      (m.normalised protocol) := by
  rw [JobDoneMsg.normalised_eq]
  refine (readUInt32_writeUInt32 _).bind ?_
  refine (readUInt32_writeUInt32 _).bind ?_
  refine (readUInt32_writeUInt32 _).bind ?_
  refine (readUInt32_writeUInt32 _).bind ?_
  refine (readUInt32_writeUInt32 _).bind ?_
  refine (readUInt32_writeUInt32 _).bind ?_
  refine (readUInt32_writeUInt32 _).bind ?_
  refine (readUInt32_writeUInt32 _).bind ?_
  refine (readUInt32_writeUInt32 _).bind ?_
  refine (readUInt32_writeUInt32 _).bind ?_
  refine (readUInt32_writeUInt32 _).bind ?_
  exact (readSince_writeSince fun _ => readUInt32_writeUInt32 _).bindPure _

def JobLocalBeginMsg.normalised (m : JobLocalBeginMsg) : JobLocalBeginMsg :=
  { m with
    fulljob := if 44 ≤ protocol then m.fulljob else false
    niceness := if 45 ≤ protocol then m.niceness else 0 }

theorem JobLocalBeginMsg.decodes {m : JobLocalBeginMsg} (hm : Plain m.outfile) :
    Reader.Decodes (JobLocalBeginMsg.fillFromChannel protocol) (m.sendToChannel protocol)
      (m.normalised protocol) := by
  refine (readUInt32_writeUInt32 _).bind ?_
  refine (readString_writeString hm).bind ?_
  refine (readUInt32_writeUInt32 _).bind ?_
  refine (readSince_writeSince fun _ => readBool_writeBool _).bind ?_
  exact (readSince_writeSince fun _ => readUInt32_writeUInt32 _).bindPure _

/-! ## Daemon and scheduler -/

structure LoginMsg.Sendable (m : LoginMsg) : Prop where
  envs : ∀ env ∈ m.envs, Plain env.1 ∧ Plain env.2
  count : m.envs.length < 2 ^ 32
  nodename : Plain m.nodename
  hostPlatform : Plain m.hostPlatform

def LoginMsg.normalised (m : LoginMsg) : LoginMsg :=
  { m with
    noremote := if 26 ≤ protocol then m.noremote else false
    supportedFeatures := if 42 ≤ protocol then m.supportedFeatures else 0 }

theorem LoginMsg.decodes {m : LoginMsg} (hm : m.Sendable) :
    Reader.Decodes (LoginMsg.fillFromChannel protocol) (m.sendToChannel protocol)
      (m.normalised protocol) := by
  refine (readUInt32_writeUInt32 _).bind ?_
  refine (readUInt32_writeUInt32 _).bind ?_
  refine (readEnvironments_writeEnvironments hm.envs hm.count).bind ?_
  refine (readString_writeString hm.nodename).bind ?_
  refine (readString_writeString hm.hostPlatform).bind ?_
  refine (readBool_writeBool _).bind ?_
  refine (readSince_writeSince fun _ => readBool_writeBool _).bind ?_
  exact (readSince_writeSince fun _ => readUInt32_writeUInt32 _).bindPure _

theorem ConfCSMsg.decodes (m : ConfCSMsg) :
    Reader.Decodes ConfCSMsg.fillFromChannel m.sendToChannel m := by
  refine (readUInt32_writeUInt32 _).bind ?_
  refine (readUInt32_writeUInt32 _).bind ?_
  exact (readString_writeString Plain.nil).bindPure fun _ => m

def StatsMsg.normalised (m : StatsMsg) : StatsMsg := { m with clientCount := 0 }

theorem StatsMsg.decodes (m : StatsMsg) :
    Reader.Decodes StatsMsg.fillFromChannel m.sendToChannel m.normalised := by
  refine (readUInt32_writeUInt32 _).bind ?_
  refine (readUInt32_writeUInt32 _).bind ?_
  refine (readUInt32_writeUInt32 _).bind ?_
  refine (readUInt32_writeUInt32 _).bind ?_
  exact (readUInt32_writeUInt32 _).bindPure _

/-! ## Environments -/

structure GetNativeEnvMsg.Sendable (m : GetNativeEnvMsg) : Prop where
  compiler : Plain m.compiler
  extrafiles : ∀ s ∈ m.extrafiles, Plain s
  count : m.extrafiles.length < 2 ^ 32
  compression : Plain m.compression

def GetNativeEnvMsg.normalised (m : GetNativeEnvMsg) : GetNativeEnvMsg where
  compiler := if 32 ≤ protocol then m.compiler else []
  extrafiles := if 32 ≤ protocol then m.extrafiles else []
  compression := if 42 ≤ protocol then m.compression else []

theorem GetNativeEnvMsg.decodes {m : GetNativeEnvMsg} (hm : m.Sendable) :
    Reader.Decodes (GetNativeEnvMsg.fillFromChannel protocol) (m.sendToChannel protocol)
      (m.normalised protocol) := by
  refine (readSince_writeSince fun _ => readString_writeString hm.compiler).bind ?_
  refine (readSince_writeSince fun _ =>
    readStrings_writeStrings hm.extrafiles hm.count).bind ?_
  exact (readSince_writeSince fun _ => readString_writeString hm.compression).bindPure _

theorem EnvTransferMsg.decodes {m : EnvTransferMsg} (hname : Plain m.name)
    (htarget : Plain m.target) :
    Reader.Decodes EnvTransferMsg.fillFromChannel m.sendToChannel m := by
  refine (readString_writeString hname).bind ?_
  exact (readString_writeString htarget).bindPure _

theorem VerifyEnvMsg.decodes {m : VerifyEnvMsg} (henv : Plain m.environment)
    (htarget : Plain m.target) :
    Reader.Decodes VerifyEnvMsg.fillFromChannel m.sendToChannel m := by
  refine (readString_writeString henv).bind ?_
  exact (readString_writeString htarget).bindPure _

theorem BlacklistHostEnvMsg.decodes {m : BlacklistHostEnvMsg} (henv : Plain m.environment)
    (htarget : Plain m.target) (hhost : Plain m.hostname) :
    Reader.Decodes BlacklistHostEnvMsg.fillFromChannel m.sendToChannel m := by
  refine (readString_writeString henv).bind ?_
  refine (readString_writeString htarget).bind ?_
  exact (readString_writeString hhost).bindPure _

/-! ## Monitors -/

/-- From version 29 on only the file name and the language of the request arrive. -/
def MonGetCSMsg.normalised (m : MonGetCSMsg) : MonGetCSMsg where
  toGetCSMsg :=
    if 29 ≤ protocol then { filename := shortenFilename m.filename, lang := m.lang }
    else m.toGetCSMsg.normalised protocol
  jobId := m.jobId
  clientid := m.clientid

theorem MonGetCSMsg.decodes {m : MonGetCSMsg} (hm : m.toGetCSMsg.Sendable) :
    Reader.Decodes (MonGetCSMsg.fillFromChannel protocol) (m.sendToChannel protocol)
      (m.normalised protocol) := by
  have hrequest : Reader.Decodes (MonGetCSMsg.fillRequest protocol)
      (if 29 ≤ protocol then writeString (shortenFilename m.filename) ++ writeUInt32 m.lang
        else m.toGetCSMsg.sendToChannel protocol) (m.normalised protocol).toGetCSMsg := by
    rw [MonGetCSMsg.fillRequest, MonGetCSMsg.normalised]
    by_cases h29 : 29 ≤ protocol
    · rw [if_pos h29, if_pos h29, if_pos h29]
      refine (readString_writeString hm.filename.shortenFilename).bind ?_
      exact (readUInt32_writeUInt32 _).bindPure _
    · rw [if_neg h29, if_neg h29, if_neg h29]
      exact GetCSMsg.decodes protocol hm
  refine hrequest.bind ?_
  refine (readUInt32_writeUInt32 _).bind ?_
  exact (readUInt32_writeUInt32 _).bindPure _

theorem MonJobBeginMsg.decodes (m : MonJobBeginMsg) :
    Reader.Decodes MonJobBeginMsg.fillFromChannel m.sendToChannel m := by
  refine (readUInt32_writeUInt32 _).bind ?_
  refine (readUInt32_writeUInt32 _).bind ?_
  exact (readUInt32_writeUInt32 _).bindPure _

def MonLocalJobBeginMsg.normalised (m : MonLocalJobBeginMsg) : MonLocalJobBeginMsg :=
  { m with file := shortenFilename m.file }

theorem MonLocalJobBeginMsg.decodes {m : MonLocalJobBeginMsg} (hm : Plain m.file) :
    Reader.Decodes MonLocalJobBeginMsg.fillFromChannel m.sendToChannel m.normalised := by
  refine (readUInt32_writeUInt32 _).bind ?_
  refine (readUInt32_writeUInt32 _).bind ?_
  refine (readUInt32_writeUInt32 _).bind ?_
  exact (readString_writeString hm.shortenFilename).bindPure _

theorem MonStatsMsg.decodes {m : MonStatsMsg} (hm : Plain m.statmsg) :
    Reader.Decodes MonStatsMsg.fillFromChannel m.sendToChannel m := by
  refine (readUInt32_writeUInt32 _).bind ?_
  exact (readString_writeString hm).bindPure _

/-! ## All messages -/

def Msg.Sendable : Msg → Prop
  | .getCS m => m.Sendable
  | .useCS m => m.Sendable
  | .getNativeEnv m => m.Sendable
  | .useNativeEnv nativeVersion => Plain nativeVersion
  | .compileFile job => job.Sendable
  | .fileChunk m => m.Sendable
  | .compileResult m => m.Sendable
  | .jobLocalBegin m => Plain m.outfile
  | .login m => m.Sendable
  | .transferEnv m => Plain m.name ∧ Plain m.target
  | .monGetCS m => m.toGetCSMsg.Sendable
  | .monLocalJobBegin m => Plain m.file
  | .monStats m => Plain m.statmsg
  | .text _ => False
  | .statusText s => Plain s
  | .verifyEnv m => Plain m.environment ∧ Plain m.target
  | .blacklistHostEnv m => Plain m.environment ∧ Plain m.target ∧ Plain m.hostname
  | _ => True

def Msg.normalised (k : Compression) : Msg → Msg
  | .getCS m => .getCS (m.normalised protocol)
  | .useCS m => .useCS (m.normalised protocol)
  | .getNativeEnv m => .getNativeEnv (m.normalised protocol)
  | .compileFile job => .compileFile (job.normalised protocol)
  | .fileChunk m => .fileChunk (m.normalised protocol k)
  | .compileResult m => .compileResult (m.normalised protocol)
  | .jobBegin m => .jobBegin (m.normalised protocol)
  | .jobDone m => .jobDone (m.normalised protocol)
  | .jobLocalBegin m => .jobLocalBegin (m.normalised protocol)
  | .login m => .login (m.normalised protocol)
  | .stats m => .stats m.normalised
  | .monGetCS m => .monGetCS (m.normalised protocol)
  | .monJobDone m => .monJobDone (m.normalised protocol)
  | .monLocalJobBegin m => .monLocalJobBegin m.normalised
  | m => m

/-- One type: what is filled from the bytes behind the type word. -/
def Decoding (k : Compression) (m : Msg) : Prop :=
  ∃ fill bs, fillFromChannel k protocol m.type = some fill ∧
    m.sendToChannel k protocol = writeUInt32 m.type.code ++ bs ∧
    Reader.Decodes fill bs (m.normalised protocol k)

theorem Msg.decoding (hk : k.Lawful) {m : Msg} (hm : m.Sendable) : Decoding protocol k m := by
  cases m with
  | ping => exact ⟨_, _, rfl, rfl, .pure _⟩
  | endMsg => exact ⟨_, _, rfl, rfl, .pure _⟩
  | getCS m => exact ⟨_, _, rfl, rfl, (m.decodes protocol hm).map _⟩
  | useCS m => exact ⟨_, _, rfl, rfl, (m.decodes protocol hm).map _⟩
  | noCS m => exact ⟨_, _, rfl, rfl, m.decodes.map _⟩
  | getNativeEnv m => exact ⟨_, _, rfl, rfl, (m.decodes protocol hm).map _⟩
  | useNativeEnv v => exact ⟨_, _, rfl, rfl, (readString_writeString hm).map _⟩
  | compileFile job => exact ⟨_, _, rfl, rfl, (job.decodes protocol hm).map _⟩
  | fileChunk m => exact ⟨_, _, rfl, rfl, (m.decodes protocol hk hm).map _⟩
  | compileResult m => exact ⟨_, _, rfl, rfl, (m.decodes protocol hm).map _⟩
  | jobBegin m => exact ⟨_, _, rfl, rfl, (m.decodes protocol).map _⟩
  | jobDone m => exact ⟨_, _, rfl, rfl, (m.decodes protocol).map _⟩
  | jobLocalBegin m => exact ⟨_, _, rfl, rfl, (m.decodes protocol hm).map _⟩
  | jobLocalDone jobId => exact ⟨_, _, rfl, rfl, (readUInt32_writeUInt32 _).map _⟩
  | login m => exact ⟨_, _, rfl, rfl, (m.decodes protocol hm).map _⟩
  | csConf m => exact ⟨_, _, rfl, rfl, m.decodes.map _⟩
  | stats m => exact ⟨_, _, rfl, rfl, m.decodes.map _⟩
  | transferEnv m => exact ⟨_, _, rfl, rfl, (m.decodes hm.1 hm.2).map _⟩
  | getInternals => exact ⟨_, _, rfl, rfl, .pure _⟩
  | monLogin => exact ⟨_, _, rfl, rfl, .pure _⟩
  | monGetCS m => exact ⟨_, _, rfl, rfl, (m.decodes protocol hm).map _⟩
  | monJobBegin m => exact ⟨_, _, rfl, rfl, m.decodes.map _⟩
  | monJobDone m => exact ⟨_, _, rfl, rfl, (m.decodes protocol).map _⟩
  | monLocalJobBegin m => exact ⟨_, _, rfl, rfl, (m.decodes hm).map _⟩
  | monStats m => exact ⟨_, _, rfl, rfl, (m.decodes hm).map _⟩
  | text t => exact hm.elim
  | statusText s => exact ⟨_, _, rfl, rfl, (readString_writeString hm).map _⟩
  | verifyEnv m => exact ⟨_, _, rfl, rfl, (m.decodes hm.1 hm.2).map _⟩
  | verifyEnvResult ok => exact ⟨_, _, rfl, rfl, (readBool_writeBool _).map _⟩
  | blacklistHostEnv m => exact ⟨_, _, rfl, rfl, (m.decodes hm.1 hm.2.1 hm.2.2).map _⟩

theorem readMsg_decodes (hk : k.Lawful) {m : Msg} (hm : m.Sendable) :
    Reader.Decodes (readMsg k protocol) (m.sendToChannel k protocol)
      (some (m.normalised protocol k)) := by
  obtain ⟨fill, bs, hfill, hbs, hdec⟩ := m.decoding protocol hk hm
  rw [hbs]
  refine (readUInt32_writeUInt32 _).bind ?_
  rw [MsgType.ofCode_code, Option.bind_some, hfill]
  exact hdec.map some

end Icecream.Comm
