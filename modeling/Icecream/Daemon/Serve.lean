import Icecream.Comm.Files
import Icecream.Daemon.Layout
import Icecream.Daemon.Reports
import Icecream.Library.Procedure

/-!
# The child that compiles

What `handle_connection` of `daemon/serve.cpp` does in the process that it forks, with
`chdir_to_environment` of `daemon/environment.cpp` and `work_it` of `daemon/workit.cpp`: a
procedure whose operations are the calls of the system and the messages of the client.
-/

namespace Icecream.Daemon

open Icecream.Comm (Bytes Str str Msg CompileJob CompileResultMsg FileChunkMsg ReadResult chunk
  langC langCXX langOBJC langOBJCXX exitIoError)
open Icecream.Iceccd (JobStat)
open Icecream.Services (rfind contains)

namespace Serve

/-- What the child has of its daemon and of the channel to its client -/
structure Place where
  basedir : Str
  memLimit : UInt32
  hasLibcapNg : Bool
  protocol : ℕ

/-- `myexception`, and `_exit`, which nothing catches -/
inductive Thrown where
  | exception (exitcode : Int32)
  | exit (code : ℕ)

/-- Calls that succeed or fail and change nothing that is looked at -/
inductive Call where
  | access (path : Str)
  | isRoot
  | chdir (path : Str)
  | chroot (path : Str)
  | setgroups | setgid | setuid
  | mkpath (path : Str)
  | pipes
  /-- The compiler could be run. -/
  | ran

def noStat : JobStat := ⟨0, 0, 0, 0, 0, 0, 0, 0⟩

/-- The variables that are looked at after an exception -/
structure Locals where
  tmpPath : Str := []
  objFile : Str := []
  dwoFile : Str := []
  jobStat : JobStat := noStat

inductive Op where
  | call (c : Call)
  | makeTmpdir
  | makeTmpnam (prefixOutput : Str)
  | locals
  | setLocals (l : Locals)
  | send (m : Msg)
  /-- A process for the compiler, which is run in the directory -/
  | fork (directory : Str) (argv : List Str)
  | work
  | stat (path : Str)
  | record (s : JobStat)
  | closePipe
  | openFile (path : Str)
  | read
  | closeFile
  | deleteClient
  | unlink (path : Str)
  | rmpath (path : Str)
  /-- A check of the code does not hold. -/
  | fault
  /-- The loop goes on for more turns than are looked at. -/
  | turns

abbrev Op.Res : Op → Type
  | .call _ | .send _ | .fork _ _ | .openFile _ => Bool
  | .makeTmpdir | .makeTmpnam _ => Except ℕ Str
  | .locals => Locals
  | .work => Option Outcome
  | .stat _ => Option UInt64
  | .read => ReadResult
  | .fault | .turns => Empty
  | _ => Unit

/-- A file on its way to the client -/
structure Copied where
  file : Str
  bytes : Bytes := []
  atEnd : Bool := false
  chunks : List FileChunkMsg := []
  closed : Bool := false

/-- `taken` is what the client has sent that has been read, `sent` what it has been sent. `records`
is what has been written to the daemon, `made` are the temporary files, and `removed` those that
were removed, or were not there. -/
structure State where
  starttv : Timeval
  memLimit : UInt64
  process : Process := {}
  locals : Locals := {}
  taken : List Msg := []
  sent : List Msg := []
  copied : List Copied := []
  records : List JobStat := []
  pipeOpen : Bool := true
  clientOpen : Bool := true
  made : List Str := []
  removed : List Str := []

/-- What becomes of an operation -/
inductive Choice where
  | does (ok : Bool)
  /-- What the name of a temporary file is filled with, or an exit code -/
  | made (filled : Except ℕ Str)
  /-- What the process for the compiler tells the client, if there is one -/
  | forked (texts : Option (List Str))
  | event (e : Event)
  | size (n : Option UInt64)
  | read (r : ReadResult)

def pathTmp : Str := str "/tmp"

/-- The name that `dcc_make_tmpnam` ends up with; the end of it is from the clock. -/
def dccMakeTmpnam (pre random suffix : Str) : Str :=
  pathTmp ++ str "/" ++ pre ++ str "_" ++ random ++ suffix

def Copied.note (c : Copied) : Msg → Copied
  | .fileChunk m => { c with chunks := c.chunks ++ [m] }
  | .endMsg => { c with closed := true }
  | _ => c

def State.onLast (s : State) (f : Copied → Copied) : State :=
  { s with copied := s.copied.dropLast ++ s.copied.getLast?.toList.map f }

def State.say (s : State) (m : Msg) : State :=
  { s.onLast (fun c => c.note m) with sent := s.sent ++ [m] }

def takesOf (w : Worker) : Got → List Msg
  | .msg m => if w.polls then [m] else []
  | _ => []

/-- What `work_it` takes from the client -/
def takes (w : Worker) : Event → List Msg
  | .round got _ => takesOf w got
  | _ => []

/-- What `work_it` returns, once it has dealt with the end of the compiler -/
def outcome (s : State) (p : Process) : Option Outcome :=
  if p.ended then p.died.map fun e => p.worker.finish s.memLimit s.starttv e else none

def act : (o : Op) → Choice → State → Option (o.Res × State)
  | .call _, .does ok, s => some (ok, s)
  | .makeTmpdir, .made (.ok filled), s =>
    some (.ok (dccMakeTmpdir filled), { s with made := s.made ++ [dccMakeTmpdir filled] })
  | .makeTmpnam pre, .made (.ok random), s =>
    some (.ok (dccMakeTmpnam pre random (str ".o")),
      { s with made := s.made ++ [dccMakeTmpnam pre random (str ".o")] })
  | .makeTmpdir, .made (.error ret), s | .makeTmpnam _, .made (.error ret), s =>
    if ret = exitOutOfMemory ∨ ret = exitIoError then some (.error ret, s) else none
  | .locals, .does _, s => some (s.locals, s)
  | .setLocals l, .does _, s => some ((), { s with locals := l })
  | .send m, .does ok, s => some (ok, if ok then s.say m else s)
  | .fork _ _, .forked none, s => some (false, s)
  | .fork _ _, .forked (some texts), s =>
    some (true, { s with sent := s.sent ++ texts.map .statusText })
  | .work, .event e, s => (s.process.next e).map fun p =>
    (outcome s p, { s with process := p, taken := s.taken ++ takes s.process.worker e })
  | .stat _, .size n, s => some (n, s)
  | .record r, .does _, s => some ((), if s.pipeOpen then { s with records := s.records ++ [r] } else s)
  | .closePipe, .does _, s => some ((), { s with pipeOpen := false })
  | .openFile path, .does ok, s =>
    some (ok, if ok then { s with copied := s.copied ++ [{ file := path }] } else s)
  | .read, .read (.bytes bs), s =>
    if bs.length ≤ 100000 then
      some (.bytes bs, s.onLast fun c => { c with bytes := c.bytes ++ bs, atEnd := bs = [] })
    else none
  | .read, .read r, s => some (r, s)
  | .closeFile, .does _, s => some ((), s)
  | .deleteClient, .does _, s => some ((), { s with clientOpen := false })
  | .unlink path, .does _, s | .rmpath path, .does _, s =>
    some ((), { s with removed := s.removed ++ [path] })
  | _, _, _ => none

end Serve

open Serve

abbrev Serve := Procedure Serve.Op Serve.Op.Res Thrown

namespace Serve

def op (o : Op) : Serve o.Res := Procedure.perform o

def call (c : Call) : Serve Bool := op (.call c)

def throw {α : Type} (exitcode : Int32) : Serve α := Procedure.raise (.exception exitcode)

def exit {α : Type} (code : ℕ) : Serve α := Procedure.raise (.exit code)

def outOfTurns {α : Type} : Serve α := do
  nomatch ← op .turns

/-- The functions of this name differ in the version that they ask for. -/
def errorClient (v : Place) (version : ℕ) (error : Str) : Serve Unit := do
  if version ≤ v.protocol then
    let _ ← op (.send (.statusText error))

/-! ## The environment -/

def chdirToEnvironment (v : Place) (dirname : Str) : Serve Unit := do
  if v.hasLibcapNg then
    unless ← call (.chdir dirname) do
      errorClient v 23 (str "chdir to " ++ dirname ++ str "failed")
      exit 145
    unless ← call (.chroot dirname) do
      errorClient v 23 (str "chroot " ++ dirname ++ str "failed")
      exit 144
  else
    if ← call .isRoot then
      unless ← call (.chdir dirname) do
        errorClient v 23 (str "chdir to " ++ dirname ++ str "failed")
        exit 145
      unless ← call (.chroot dirname) do
        errorClient v 23 (str "chroot " ++ dirname ++ str "failed")
        exit 144
      unless ← call .setgroups do
        errorClient v 23 (str "setgroups failed")
        exit 143
      unless ← call .setgid do
        errorClient v 23 (str "setgid failed")
        exit 143
      unless ← call .setuid do
        errorClient v 23 (str "setuid failed")
        exit 142
    else
      errorClient v 23 (str "cannot chroot to environment")
      exit 146

/-! ## The compiler -/

/-- The percentage of `ggc_min_expand_heuristic` -/
def ggcMinExpandHeuristic (memLimit : UInt32) : ℕ := min (memLimit.toNat * 70 / 1024) 70 + 30

def ggcMinHeapsizeHeuristic (memLimit : UInt32) : UInt32 := min (max (memLimit / 8) 4) 128 * 1024

def languageName (language : UInt32) : List Str :=
  if language = langC then [str "c"]
  else if language = langCXX then [str "c++"]
  else if language = langOBJC then [str "objective-c"]
  else if language = langOBJCXX then [str "objective-c++"]
  else []

/-- The arguments that the client's compiler gets of `work_it` -/
def flagList (v : Place) (job : CompileJob) : List Str :=
  job.nonLocalFlags ++ if v.protocol < 41 ∧ job.dwarfFission then [str "-gsplit-dwarf"] else []

def isClang (v : Place) (job : CompileJob) : Bool :=
  30 ≤ v.protocol && contains job.compilerName (str "clang")

def compilerPath (v : Place) (job : CompileJob) : Str :=
  if 30 ≤ v.protocol then str "/usr/bin/" ++ job.compilerName
  else if job.language = langC then str "/usr/bin/gcc"
  else str "/usr/bin/g++"

def workArgv (v : Place) (job : CompileJob) (tmpRoot fileName : Str) : List Str :=
  let clang := isClang v job
  [compilerPath v job, str "-x"] ++ languageName job.language ++
    (if clang && job.inputFile ≠ [] then
      [str "-Xclang", str "-main-file-name", str "-Xclang", job.inputFile] else []) ++
    (if clang && job.workingDirectory ≠ [] then
      [str "-Xclang", str "-fdebug-compilation-dir", str "-Xclang", job.workingDirectory] else []) ++
    flagList v job ++
    (if clang then [] else [str "-fpreprocessed"]) ++
    [str "-", str "-o", fileName] ++
    (if clang then [str "-no-canonical-prefixes"]
    else
      [str "--param", str "ggc-min-expand=" ++ str (toString (ggcMinExpandHeuristic v.memLimit)),
        str "--param", str "ggc-min-heapsize=" ++ str (toString (ggcMinHeapsizeHeuristic v.memLimit))]) ++
    (if !clang && job.dwarfFission then [str "-fdebug-prefix-map=" ++ tmpRoot ++ str "/=/"] else [])

/-- The room that is made for the arguments -/
def workArgc (v : Place) (job : CompileJob) : ℕ := (flagList v job).length + 1 + 6 + 4 + 9

def exitCompilerMissing : ℕ := 110

/-- The loop of `work_it` -/
def workLoop : ℕ → Serve Outcome
  | 0 => outOfTurns
  | n + 1 => do
    match ← op .work with
    | some o => return o
    | none => workLoop n

def workIt (v : Place) (turns : ℕ) (job : CompileJob) (tmpRoot buildPath fileName : Str) :
    Serve Outcome := do
  unless ← call .pipes do
    return ⟨exitDistccFailed, {}, noStat⟩
  if workArgc v job < (workArgv v job tmpRoot fileName).length then
    nomatch ← op .fault
  if ← op (.fork (tmpRoot ++ buildPath) (workArgv v job tmpRoot fileName)) then
    if ← call .ran then workLoop turns
    else
      errorClient v 23 (str "compiler did not start")
      return ⟨exitCompilerMissing, { status := 1 }, noStat⟩
  else return ⟨exitOutOfMemory, {}, noStat⟩

/-! ## The answer -/

/-- The loop of `write_output_file` -/
def writeChunks : ℕ → Serve Unit
  | 0 => outOfTurns
  | n + 1 => do
    match ← op .read with
    | .interrupted => writeChunks n
    | .failed => throw 100
    | .bytes bs =>
      if bs = [] then
        unless ← op (.send .endMsg) do
          throw 100
      else
        unless ← op (.send (.fileChunk (chunk bs))) do
          throw 100
        writeChunks n

def writeOutputFile (v : Place) (turns : ℕ) (file : Str) : Serve Unit := do
  unless ← op (.openFile file) do
    errorClient v 22 (str "open of object file failed")
    throw 100
  (writeChunks turns).rescue fun e => do
    op .closeFile
    Procedure.raise e

/-- The daemon is told of the end. -/
def wake (jobStat : JobStat) : Serve Unit := do
  op (.record jobStat)
  op .closePipe

def writeOutputFiles (v : Place) (turns : ℕ) (l : Locals) (rmsg : CompileResultMsg) : Serve Int32 := do
  if rmsg.status = 0 then
    writeOutputFile v turns l.objFile
    if rmsg.haveDwoFile then
      writeOutputFile v turns l.dwoFile
  return rmsg.status

/-- What is sent when `work_it` has returned -/
def answer (v : Place) (turns : ℕ) (o : Outcome) : Serve Int32 := do
  let l ← op .locals
  op (.setLocals { l with jobStat := o.jobStat })
  if o.returnValue ≠ 0 ∧ o.returnValue ≠ exitOutOfMemory ∧ o.returnValue ≠ exitIoError then
    throw (Int32.ofNat o.returnValue)
  let b : Built := ⟨← op (.stat l.objFile), ← op (.stat l.dwoFile)⟩
  let rmsg := { o.rmsg with
    wasOutOfMemory := o.returnValue ≠ 0 || o.rmsg.wasOutOfMemory, haveDwoFile := b.dwo.isSome }
  let jobStat := { o.jobStat with outUncompressed := o.jobStat.outUncompressed + b.size }
  op (.setLocals { l with jobStat := jobStat })
  unless ← op (.send (.compileResult rmsg)) do
    throw 100
  wake jobStat
  writeOutputFiles v turns l rmsg

/-! ## The whole -/

def prefixOutput (job : CompileJob) : Str := str "icecc-" ++ str (toString job.id)

/-- The place for the output, and the compiler -/
def build (v : Place) (turns : ℕ) (job : CompileJob) : Serve Outcome := do
  if job.dwarfFission then
    match ← op .makeTmpdir with
    | .error ret => return ⟨ret, {}, noStat⟩
    | .ok tmpPath =>
      op (.setLocals { tmpPath := tmpPath })
      let l := layout tmpPath job.outputFile job.workingDirectory
      unless ← call (.mkpath l.outputDir) do
        errorClient v 22 (str "could not create object file location in tmp directory")
        throw 107
      unless ← call (.mkpath (tmpPath ++ job.workingDirectory)) do
        errorClient v 22 (str "could not create compiler working directory in tmp directory")
        throw 107
      op (.setLocals { tmpPath := tmpPath, objFile := l.objFile, dwoFile := l.dwoFile })
      workIt v turns job tmpPath job.workingDirectory l.relativeFilePath
  else
    match ← op (.makeTmpnam (prefixOutput job)) with
    | .error ret => return ⟨ret, {}, noStat⟩
    | .ok objFile =>
      op (.setLocals { objFile := objFile })
      let slash := (rfind objFile (str "/")).getD objFile.length
      workIt v turns job (objFile.take slash) [] (objFile.drop (slash + 1))

/-- What is done in the environment -/
def compileInside (v : Place) (turns : ℕ) (job : CompileJob) : Serve Int32 := do
  unless ← call (.access (str "tmp")) do
    errorClient v 22 (str "can't write to " ++ pathTmp)
    throw (-1)
  answer v turns (← build v turns job)

def compile (v : Place) (turns : ℕ) (job : CompileJob) : Serve Int32 := do
  if job.environmentVersion ≠ [] then
    let dirname := v.basedir ++ str "/target=" ++ job.targetPlatform ++ str "/" ++ job.environmentVersion
    unless ← call (.access (dirname ++ str "/usr/bin/as")) do
      errorClient v 22
        (dirname ++ str "/usr/bin/as is not executable, installed environment removed?")
      throw 110
    chdirToEnvironment v dirname
    compileInside v turns job
  else
    errorClient v 22 (str "empty environment")
    throw 100

/-- The temporary files, whatever has become of them -/
def cleanUp : Serve Unit := do
  let l ← op .locals
  if l.objFile ≠ [] then
    op (.unlink l.objFile)
  if l.dwoFile ≠ [] then
    op (.unlink l.dwoFile)
  if l.tmpPath ≠ [] then
    op (.rmpath l.tmpPath)

/-- What becomes of an exception -/
def caught : Thrown → Serve Int32
  | .exit code => exit code
  | .exception exitcode => do
    if exitcode = 0 then
      nomatch ← op .fault
    let l ← op .locals
    wake { l.jobStat with exitCode := exitcode.toUInt32 }
    return exitcode

def handleConnection (v : Place) (turns : ℕ) (job : CompileJob) : Serve Int32 := do
  let exitCode ← (compile v turns job).rescue caught
  op .deleteClient
  cleanUp
  return exitCode

end Serve

end Icecream.Daemon
