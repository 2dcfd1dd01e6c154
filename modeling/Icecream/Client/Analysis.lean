import Icecream.Client.Arguments

/-!
# `analyse_argv`

The loop over the words, the search for the input file and what is added to the arguments. A
position in `argv` is what is left of it: each step of the loop says how many words behind its own
it has taken.
-/

namespace Icecream.Client

open Icecream.Comm (Str str rfind ArgumentType ArgumentsList langC langCXX langOBJC langOBJCXX
  langCustom)
open Icecream.Services (findBasename)

/-- The variables of `analyse_argv`, and the static variables that it sets -/
structure Scan where
  job : Job
  args : ArgumentsList := []
  ofile : Str := []
  extrafiles : List Str := []
  alwaysLocal : Bool := false
  seenC : Bool := false
  seenS : Bool := false
  seenMf : Bool := false
  seenMd : Bool := false
  seenSplitDwarf : Bool := false
  seenTarget : Bool := false
  wunusedMacros : Bool := false
  seenArch : Bool := false
  seenPedantic : Bool := false
  seenImacros : Bool := false
  seenMarchNative : Bool := false
  seenMcpuNative : Bool := false
  seenMtuneNative : Bool := false
  seenParallelFlto : Str := []
  standard : Option Str := none
  explicitColorDiagnostics : Bool := false
  explicitNoShowCaret : Bool := false
  secondOption : Bool := false
  deriving DecidableEq

/-- What the loop does not change -/
structure Setting where
  host : Host
  /-- `Arg_Cpp` -/
  cpp : ArgumentType

namespace Scan

def append (s : Scan) (a : Str) (t : ArgumentType) : Scan := { s with args := s.args ++ [(a, t)] }

/-- The next word, if there is one -/
def appendNext (s : Scan) (rest : List Str) (t : ArgumentType) : Scan × ℕ :=
  match rest with
  | [] => (s, 0)
  | next :: _ => (s.append next t, 1)

def note (s : Scan) (n : Note) (a : Str) : Scan :=
  match n with
  | .splitDwarf => { s with seenSplitDwarf := true }
  | .marchNative => { s with seenMarchNative := true }
  | .mcpuNative => { s with seenMcpuNative := true }
  | .mtuneNative => { s with seenMtuneNative := true }
  | .colorDiagnostics => { s with explicitColorDiagnostics := true }
  | .noShowCaret => { s with explicitNoShowCaret := true }
  | .showCaret => { s with explicitNoShowCaret := false }
  | .target => { s with seenTarget := true }
  | .standard => { s with standard := some (a.drop 5) }
  | .unusedMacros => { s with wunusedMacros := true }
  | .noUnusedMacros => { s with wunusedMacros := false }
  | .pedantic => { s with seenPedantic := true }

end Scan

def assertArgumentWithSpace (a : Str) : Except Fault Unit :=
  if isArgumentWithSpace a then pure () else throw .assertion

/-- `-a[a-z]*=`, a listing that is written to a file -/
def namesListing (arg : Str) : Bool :=
  ((arg.drop 2).dropWhile fun c => 97 ≤ c && c ≤ 122).head? = some 61

/-- A file that can be read is needed, with its absolute name. -/
def addFile (host : Host) (s : Scan) (file : Str) : Except Fault (Scan × Str) :=
  match getAbsfilename host.cwd file with
  | none => throw .outOfRange
  | some file => pure ({ s with extrafiles := s.extrafiles ++ [file] }, file)

/-- `analyze_assembler_arg`: whether the argument is to be handled locally, and the argument -/
def analyzeAssemblerArg (host : Host) (s : Scan) (arg : Str) : Except Fault (Scan × Bool × Str) :=
  if s.secondOption then return ({ s with secondOption := false }, false, arg)
  else if str "-a" <+: arg then return (s, namesListing arg, arg)
  else if arg = str "--debug-prefix-map" ∨ arg = str "--defsym" then
    return ({ s with secondOption := true }, false, arg)
  else if arg.head? = some 64 then return (s, true, arg)
  else if arg.head? = some 45 then return (s, false, arg)
  else if host.readable arg then do
    let (s, arg) ← addFile host s arg
    return (s, false, arg)
  else return (s, true, arg)

/-- The parts of a `-Wa,` option -/
def assemblerParts (a : Str) : List Str := (a.drop 4).splitOn 44

/-- One pass of the loop over the parts -/
def assemblerPart (host : Host) (r : Scan × Bool × Str) (part : Str) :
    Except Fault (Scan × Bool × Str) := do
  let (s, loc, asArg) ← analyzeAssemblerArg host r.1 part
  return (s, loc, r.2.2 ++ [44] ++ asArg)

def assemblerOption (host : Host) (s : Scan) (a : Str) : Except Fault Scan := do
  let (s, loc, remoteArg) ← (assemblerParts a).foldlM (assemblerPart host) (s, false, str "-Wa")
  if loc then return { s with alwaysLocal := true }.append a .argLocal
  else return s.append remoteArg .argRemote

/-- The language that `-x` names, if it is a supported one -/
def languageOf (opt : Str) : Option UInt32 :=
  if opt = str "c" then some langC
  else if opt = str "c++" then some langCXX
  else if opt = str "objective-c" then some langOBJC
  else if opt = str "objective-c++" then some langOBJCXX
  else none

def languageOption (s : Scan) (a : Str) (rest : List Str) : Scan × ℕ :=
  let s := s.append a .argRest
  match rest with
  | [] => ({ s with alwaysLocal := true }, 0)
  | opt :: _ =>
    let s := s.append opt .argRest
    match languageOf opt with
    | some lang => ({ s with job := { s.job with language := lang } }, 1)
    | none => ({ s with alwaysLocal := true }, 1)

/-- The word behind `-o`, or what follows in the same word -/
def outputOption (s : Scan) (a : Str) (rest : List Str) : Scan × ℕ :=
  let r : Scan × ℕ :=
    if a = str "-o" then
      match rest with
      | [] => (s, 0)
      | next :: _ => ({ s with ofile := next }, 1)
    else ({ s with ofile := a.drop 2 }, 0)
  if r.1.ofile = str "-" then ({ r.1 with alwaysLocal := true }, r.2) else r

def directoryOption (s : Scan) (a : Str) (rest : List Str) : Except Fault (Scan × ℕ) := do
  let s := (if a = str "-imacros" then { s with seenImacros := true } else s).append a .argLocal
  assertArgumentWithSpace a
  match rest with
  | [] => return (s, 0)
  | next :: _ =>
    let s := if str "-O" <+: next then { s with alwaysLocal := true } else s
    return (s.append next .argLocal, 1)

def fileOption (host : Host) (s : Scan) (a : Str) : Except Fault Scan :=
  match prefixes.find? (· <+: a) with
  | none => throw .assertion
  | some head =>
    let file := a.drop head.length
    if host.readable file then do
      let (s, file) ← addFile host s file
      return s.append (head ++ file) .argRest
    else return { s with alwaysLocal := true }.append (head ++ file) .argRest

/-- `-Xclang -load -Xclang file` loads a plugin. -/
def pluginOption (host : Host) (s : Scan) (a p next file : Str) : Except Fault Scan := do
  let s := (s.append a .argRest).append p .argRest
  let (s, file) ← if host.readable file then addFile host s file
    else pure ({ s with alwaysLocal := true }, file)
  return (s.append next .argRest).append file .argRest

def xclangOption (host : Host) (s : Scan) (a : Str) (rest : List Str) :
    Except Fault (Scan × ℕ) :=
  match rest with
  | [] => return (s, 0)
  | p :: rest =>
    if p = str "-load" then
      match rest with
      | next :: file :: _ =>
        if next = str "-Xclang" then do return (← pluginOption host s a p next file, 3)
        else return (s, 1)
      | _ => return (s, 1)
    else
      let s := if p = str "-building-pch-with-obj" then { s with alwaysLocal := true } else s
      return ((s.append a .argRest).append p .argRest, 1)

def fltoOption (s : Scan) (a : Str) : Except Fault Scan := do
  let s := s.append a .argRest
  if ← compilerIsClang s.job then return { s with seenParallelFlto := a }
  else if a ≠ str "-flto" ∧ a ≠ str "-flto=1" then return { s with seenParallelFlto := a }
  else return s

/-- One pass of the loop: what it leaves, and how many of the words behind `a` it takes -/
def argument (g : Setting) (s : Scan) (a : Str) (rest : List Str) : Except Fault (Scan × ℕ) :=
  match kind a with
  | .forceLocal => return ({ s with alwaysLocal := true }.append a .argLocal, 0)
  | .dependencies =>
    let s := { s with seenMd := true }.append a .argLocal
    if startsAny ["-Wp,-MD", "-Wp,-MMD"] a ∧ 44 ∈ a.drop 7 then
      return ({ s with seenMf := true }, 0)
    else return (s, 0)
  | .dependencyOption file =>
    let s := (if file then { s with seenMf := true } else s).append a .argLocal
    match rest with
    | [] => throw .nullString
    | next :: _ => return (s.append next .argLocal, 1)
  | .param => do
    assertArgumentWithSpace a
    return (s.append a .argRemote).appendNext rest .argRemote
  | .path =>
    let s := { s with alwaysLocal := true }.append a .argLocal
    if a = str "-B" then do
      assertArgumentWithSpace a
      return s.appendNext rest .argLocal
    else return (s, 0)
  | .assembler => do return (← assemblerOption g.host s a, 0)
  | .assemble => return ({ s with seenS := true }, 0)
  | .language => return languageOption s a rest
  | .compile => return ({ s with seenC := true }, 0)
  | .output => return outputOption s a rest
  | .define => do
    assertArgumentWithSpace a
    return (s.append a g.cpp).appendNext rest g.cpp
  | .directory => directoryOption s a rest
  | .keepLocal => return (s.append a .argLocal, 0)
  | .keepCpp => return (s.append a g.cpp, 0)
  | .keep n => return ((s.note n a).append a .argRest, 0)
  | .colorAuto => return ({ s with explicitColorDiagnostics := false }, 0)
  | .file => do return (← fileOption g.host s a, 0)
  | .xclang => xclangOption g.host s a rest
  | .target => return ({ s with seenTarget := true }.append a .argRest).appendNext rest .argRest
  | .arch =>
    -- `seen_arch` is never set.
    let s := if s.seenArch then { s with alwaysLocal := true } else s
    return ({ s with seenArch := false }.append a .argRest).appendNext rest .argRest
  | .flto => do return (← fltoOption s a, 0)
  | .other =>
    if isArgumentWithSpace a then return (s.append a .argRest).appendNext rest .argRest
    else return (s.append a .argRest, 0)
  | .plain => return (s.append a .argRest, 0)

/-- The loop, with the number of words that the last pass has taken -/
def scan (g : Setting) : ℕ → List Str → Scan → Except Fault Scan
  | 0, [], s => return s
  | _ + 1, [], _ => throw .pastNull
  | 0, a :: rest, s => do
    let (s, n) ← argument g s a rest
    scan g n rest s
  | n + 1, _ :: rest, s => scan g n rest s

/-! ## The input file -/

/-- `-c` and `-S` come last. -/
def modeOption (s : Scan) : Scan :=
  if ¬ s.seenC ∧ ¬ s.seenS then { s with alwaysLocal := true }
  else if s.seenS then s.append (str "-S") .argRemote
  else
    let s := s.append (str "-c") .argRemote
    if s.seenSplitDwarf then { s with job := { s.job with dwarfFission := true } } else s

/-- What has become of the arguments when the search for the input file ends -/
inductive Found
  | searched (args : ArgumentsList) (ifile : Str)
  -- `-` stands among the arguments
  | stdinout (args : ArgumentsList) (ifile : Str)
  | twoInputs (ifile : Str)

def Found.keep (f : ArgumentsList) : Found → Found
  | .searched args ifile => .searched (f ++ args) ifile
  | .stdinout args ifile => .stdinout (f ++ args) ifile
  | .twoInputs ifile => .twoInputs ifile

/-- Options before which the search for the input file leaves two words -/
def skipsNext (a : Str) : Bool := a = str "-Xclang" ∨ a = str "-x" ∨ isArgumentWithSpace a

/-- The loop over the arguments, where `ifile` is the input file so far -/
def findInput : ArgumentsList → Str → Except Fault Found
  | [], ifile => return .searched [] ifile
  | (a, t) :: rest, ifile =>
    if a = str "-" then return .stdinout ((a, t) :: rest) ifile
    else if skipsNext a then
      match rest with
      | [] => throw .pastEnd
      | next :: rest => return (← findInput rest ifile).keep [(a, t), next]
    else if t ≠ .argRest then return (← findInput rest ifile).keep [(a, t)]
    else match a with
      | [] => throw .outOfRange
      | c :: name =>
        if c = 45 ∨ c = 64 then return (← findInput rest ifile).keep [(c :: name, t)]
        else if ifile = [] then findInput rest (c :: name)
        else return .twoInputs ifile

/-- `should_always_build_locally` -/
def shouldAlwaysBuildLocally (filepath : Str) : Bool :=
  startsAny ["conftest.", "tmp.conftest.", "CheckIncludeFile.", "CheckFunctionExists.",
    "CheckSymbolExists.", "CheckTypeSize.", "CheckPrototypeDefinition."] (findBasename filepath)

/-- The language of a file with the extension, unless it is the one of the compiler; `none` if
such files are built locally -/
def extensionLanguage (ext : Str) : Option (Option UInt32) :=
  if equalsAny ["cc", "cpp", "cxx", "cp", "c++", "C", "ii"] ext then some (some langCXX)
  else if equalsAny ["mi", "m"] ext then some (some langOBJC)
  else if equalsAny ["mii", "mm", "M"] ext then some (some langOBJCXX)
  else if equalsAny ["c", "i"] ext then some none
  else none

/-- What comes of the extension of the input file, which stands behind the dot at `dotIndex` -/
def inputExtension (s : Scan) (ifile : Str) (dotIndex : ℕ) : Scan :=
  match extensionLanguage (ifile.drop (dotIndex + 1)) with
  | none => { s with alwaysLocal := true }
  | some none => s
  | some (some lang) => { s with job := { s.job with language := lang } }

/-- The name of the output file, if there is none -/
def outputName (s : Scan) (ifile : Str) (dotIndex : ℕ) : Scan :=
  if ¬ s.alwaysLocal ∧ s.ofile = [] then
    { s with ofile := findBasename (ifile.take dotIndex ++ if s.seenS then str ".s" else str ".o") }
  else s

/-- `-MF` with a name for the dependencies -/
def dependencyFile (s : Scan) : Scan :=
  if ¬ s.alwaysLocal ∧ s.seenMd ∧ ¬ s.seenMf then
    (s.append (str "-MF") .argLocal).append
      (s.ofile.take ((rfind s.ofile 46 none).getD s.ofile.length) ++ str ".d") .argLocal
  else s

def inputNames (s : Scan) (ifile : Str) : Scan :=
  match rfind ifile 46 none with
  | none => s
  | some dotIndex =>
    dependencyFile (outputName (inputExtension s ifile dotIndex) ifile dotIndex)

/-- The arguments without the input file, if there is one -/
def setInput (s : Scan) (args : ArgumentsList) (ifile : Str) : Scan :=
  if ifile = [] then { s with args := args }
  else { s with args := args, job := { s.job with inputFile := ifile } }

def inputFile (s : Scan) : Except Fault Scan :=
  if s.alwaysLocal then return { s with job := { s.job with inputFile := [] } }
  else do
    match ← findInput s.args [] with
    | .searched args ifile =>
      let s := setInput s args ifile
      return inputNames { s with alwaysLocal := shouldAlwaysBuildLocally ifile } ifile
    | .stdinout args ifile =>
      return inputNames { setInput s args ifile with alwaysLocal := true } ifile
    | .twoInputs ifile =>
      let s := { s with job := { s.job with inputFile := [] } }
      return inputNames { s with alwaysLocal := true } ifile

/-! ## What is added -/

def outputFile (host : Host) (s : Scan) : Scan :=
  if ¬ s.alwaysLocal ∧ (s.ofile = [] ∨ host.regular s.ofile = some false) then
    { s with alwaysLocal := true }
  else s

def colorFlag (host : Host) (icerun : Bool) (s : Scan) : Except Fault Scan := do
  if icerun then return s
  else if (← compilerHasColorOutput host s.job) ∧ ¬ s.explicitColorDiagnostics then
    if ← compilerIsClang s.job then return s.append (str "-fcolor-diagnostics") .argRest
    else return s.append (str "-fdiagnostics-color") .argRest
  else return s

/-- Options with which the includes cannot be rewritten -/
def blockRewriteIncludes (s : Scan) : Except Fault Scan := do
  let clang ← if s.seenPedantic then compilerIsClang s.job else pure true
  if s.wunusedMacros ∨ s.seenImacros ∨ (¬ clang ∧ s.standard.all (str "gnu" <+: ·)) then
    return { s with job := { s.job with blockRewriteIncludes := true } }
  else return s

def directivesOnly (host : Host) (s : Scan) : Except Fault Scan := do
  if s.alwaysLocal then return s
  else if (← compilerOnlyRewriteIncludes host s.job) ∧ ¬ (← compilerIsClang s.job) then
    return s.append (str "-fdirectives-only") .argRemote
  else return s

def clangTarget (host : Host) (s : Scan) : Except Fault Scan := do
  if s.alwaysLocal ∨ s.seenTarget then return s
  else if ← compilerIsClang s.job then
    let defaultTarget := host.defaultTarget (findCompiler host s.job)
    if defaultTarget = [] then return { s with alwaysLocal := true }
    else return (s.append (str "-target") .argRemote).append defaultTarget .argRemote
  else return s

def isNative (a : Str) : Bool :=
  equalsAny ["-march=native", "-mcpu=native", "-mtune=native"] a

/-- The first of them is replaced, the others are removed. -/
def expandNative (archArgs : List Str) : ArgumentsList → ArgumentsList
  | [] => []
  | (a, t) :: rest =>
    if isNative a then
      archArgs.map (fun arg => (arg, .argRest)) ++ rest.filter fun f => ¬ isNative f.1
    else (a, t) :: expandNative archArgs rest

def nativeFlags (host : Host) (s : Scan) : Except Fault Scan := do
  if s.alwaysLocal ∨ ¬ (s.seenMarchNative ∨ s.seenMcpuNative ∨ s.seenMtuneNative) then return s
  else
    match host.archFlags (findCompiler host s.job) (← compilerIsClang s.job) s.seenMarchNative
        s.seenMcpuNative s.seenMtuneNative with
    | none => return { s with alwaysLocal := true }
    | some archArgs =>
      if s.args.any fun f => isNative f.1 then
        return { s with args := expandNative archArgs s.args }
      else throw .assertion

/-! ## The whole analysis -/

/-- `AlwaysLocal` and `FullJob` -/
def alwaysLocalFlag : ℕ := 1

def fullJobFlag : ℕ := 2

/-- `ret` -/
def runFlags (s : Scan) : ℕ :=
  if s.alwaysLocal then
    if s.seenParallelFlto ≠ [] ∧ ¬ s.seenC then alwaysLocalFlag ||| fullJobFlag
    else alwaysLocalFlag
  else 0

/-- From the end of the loop on -/
def finish (host : Host) (icerun : Bool) (s : Scan) : Except Fault Scan := do
  let s ← inputFile (modeOption s)
  let s := outputFile host s
  let s ← colorFlag host icerun s
  let s ← blockRewriteIncludes s
  let s ← directivesOnly host s
  let s ← clangTarget host s
  let s ← nativeFlags host s
  return { s with job := { s.job with flags := s.args, outputFile := s.ofile } }

/-- The name of the compiler, and the words behind it. With a name in the job the loop begins at
`argv[2]`. -/
def program (argv : List Str) (job : Job) : Except Fault (Str × List Str) :=
  if job.compilerName ≠ [] then
    match argv with
    | _ :: _ :: words => return (job.compilerName, words)
    | _ => throw .pastNull
  else
    match argv with
    | name :: words => return (name, words)
    | [] => throw .nullString

/-- `analyse_argv` up to the conversion of its result to `bool` -/
def analyse (host : Host) (argv : List Str) (job : Job) (icerun : Bool)
    (extrafiles : List Str) : Except Fault Scan := do
  let (name, words) ← program argv job
  let (job, alwaysLocal, icerun) := analyzeProgram name job icerun
  let cpp : ArgumentType :=
    if ← compilerOnlyRewriteIncludes host job then .argRest else .argLocal
  let s : Scan := { job := job, extrafiles := extrafiles, alwaysLocal := alwaysLocal }
  let s ← if icerun then pure { s with args := words.map fun a => (a, .argLocal) }
    else scan ⟨host, cpp⟩ 0 words s
  finish host icerun s

/-- `analyse_argv`, whose result is declared as `bool` -/
def analyseArgv (host : Host) (argv : List Str) (job : Job) (icerun : Bool)
    (extrafiles : List Str) : Except Fault (Scan × Bool) := do
  let s ← analyse host argv job icerun extrafiles
  return (s, runFlags s ≠ 0)

end Icecream.Client
