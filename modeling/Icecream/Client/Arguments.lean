import Icecream.Client.Filename
import Icecream.Services.Compiler

/-!
# Arguments of the compiler

The option loop of `analyse_argv`. Each word that is read as an option is one of a few kinds,
in the order in which the code compares; the kind says what is noted, what the word is needed
for and how many of the words behind it belong to it. A word that is left out of the arguments is
put back at their end or is given to the compiler in another way.
-/

namespace Icecream.Client

open Icecream.Comm (Str str CompileJob ArgumentType ArgumentsList langC langCXX langOBJC langOBJCXX
  langCustom)
open Icecream.Services (findBasename isCCompiler isCppCompiler contains)

/-- Why `analyse_argv` does not come to an end: a string is made of the terminating `NULL`, an
assertion fails, `at` or `replace` throws, `argv` is read behind its end, or an iterator is moved
past the end of the list. -/
inductive Fault
  | nullString | assertion | outOfRange | pastNull | pastEnd
  deriving DecidableEq

/-- `CompileJob` with what is not used remotely -/
structure Job extends CompileJob where
  compilerPathname : Str := []
  blockRewriteIncludes : Bool := false
  deriving DecidableEq

/-- What the client learns from the system, from its environment and from the compiler -/
structure Host where
  cwd : Str := []
  absolute : cwd = [] ∨ cwd.head? = some Path.slash
  readable : Str → Bool := fun _ => false
  /-- Whether the file is a regular one, if `stat` finds it -/
  regular : Str → Option Bool := fun _ => none
  remoteCpp : Option Str := none
  clangRemoteCpp : Option Str := none
  colorOutputPossible : Bool := false
  colorDiagnostics : Option Str := none
  gccColorDiagnostics : Bool := false
  gccColors : Option Str := none
  cc : Option Str := none
  cxx : Option Str := none
  /-- `compiler_path_lookup_helper` -/
  pathLookup : Str → Str → Str := fun _ pathname => pathname
  /-- What the compiler says its target is -/
  defaultTarget : Str → Str := fun _ => []
  /-- The flags that the compiler makes of `-march`, `-mcpu` and `-mtune=native` -/
  archFlags : Str → Bool → Bool → Bool → Bool → Option (List Str) := fun _ _ _ _ _ => none

/-! ## The compiler -/

/-- `find_compiler` -/
def findCompiler (host : Host) (job : Job) : Str :=
  let looked := host.pathLookup job.compilerName job.compilerPathname
  if job.language = langC then host.cc.getD looked
  else if job.language = langCXX then host.cxx.getD looked
  else looked

def compilerIsClang (job : Job) : Except Fault Bool :=
  if job.language = langCustom then return false
  else if Path.slash ∈ job.compilerName then throw .assertion
  else return contains job.compilerName (str "clang") || contains job.compilerName (str "icx")
    || contains job.compilerName (str "icpx") || contains job.compilerName (str "dpcpp")

/-- An environment variable that is set to something other than nothing or 0 -/
def switchedOn (value : Str) : Bool := value.head?.any fun c => c ≠ 48

def compilerOnlyRewriteIncludes (host : Host) (job : Job) : Except Fault Bool :=
  if job.blockRewriteIncludes then return false
  else match host.remoteCpp with
    | some value => return switchedOn value
    | none => do
      if ← compilerIsClang job then return host.clangRemoteCpp.all switchedOn
      else return true

def compilerHasColorOutput (host : Host) (job : Job) : Except Fault Bool :=
  if ¬ host.colorOutputPossible then return false
  else do
    if ← compilerIsClang job then return true
    else match host.colorDiagnostics with
      | some value => return value.head? = some 49
      | none => return host.gccColorDiagnostics || host.gccColors.any (· ≠ [])

/-- `analyze_program`: the job, whether it is to be built locally, and whether it is run as by
`icerun` -/
def analyzeProgram (name : Str) (job : Job) (icerun : Bool) : Job × Bool × Bool :=
  let compilerName := findBasename name
  let job := { job with compilerName := compilerName }
  if icerun then ({ job with language := langCustom }, true, true)
  else if isCppCompiler compilerName then
    ({ job with language := langCXX }, contains compilerName (str "dpcpp"), false)
  else if isCCompiler compilerName then
    ({ job with language := langC }, contains compilerName (str "dpcpp"), false)
  else ({ job with language := langCustom }, true, true)

/-! ## Kinds of options -/

/-- The words of `is_argument_with_space`. There is no comma between the last two in the code. -/
def argumentsWithSpace : List Str :=
  ["-dyld-prefix", "-gcc-toolchain", "--param", "--sysroot", "--system-header-prefix", "-target",
    "--assert", "--allowable_client", "-arch", "-arch_only", "-arcmt-migrate-report-output",
    "--prefix", "-bundle_loader", "-dependency-dot", "-dependency-file", "-dylib_file",
    "-exported_symbols_list", "--bootclasspath", "--CLASSPATH", "--classpath", "--resource",
    "--encoding", "--extdirs", "-filelist", "-fmodule-implementation-of", "-fmodule-name",
    "-fmodules-user-build-path", "-fnew-alignment", "-force_load", "--output-class-directory",
    "-framework", "-frewrite-map-file", "-ftrapv-handler", "-image_base", "-init",
    "-install_name", "-lazy_framework", "-lazy_library", "-meabi", "-mhwdiv", "-mllvm",
    "-module-dependency-dir", "-mthread-model", "-multiply_defined", "-multiply_defined_unused",
    "-rpath", "--rtlib", "-seg_addr_table", "-seg_addr_table_filename", "-segs_read_only_addr",
    "-segs_read_write_addr", "-serialize-diagnostics", "--serialize-diagnostics", "-std",
    "--stdlib", "--force-link", "-umbrella", "-unexported_symbols_list", "-weak_library",
    "-weak_reference_mismatches", "-B", "-D", "-U", "-I", "-i", "--include-directory", "-L",
    "-l", "--library-directory", "-MF", "-MT", "-MQ", "-cxx-isystem", "-c-isystem",
    "-idirafter", "--include-directory-after", "-iframework", "-iframeworkwithsysroot",
    "-imacros", "-imultilib", "-iprefix", "--include-prefix", "-iquote", "-include",
    "-include-pch", "-isysroot", "-isystem", "-isystem-after", "-ivfsoverlay", "-iwithprefix",
    "--include-with-prefix", "--include-with-prefix-after", "-iwithprefixbefore",
    "--include-with-prefix-before", "-iwithsysroot-index-store-path"].map str

def isArgumentWithSpace (argument : Str) : Bool := argument ∈ argumentsWithSpace

/-- What is noted about an option that is used locally and remotely -/
inductive Note
  | splitDwarf | marchNative | mcpuNative | mtuneNative | colorDiagnostics | noShowCaret
  | showCaret | target | standard | unusedMacros | noUnusedMacros | pedantic
  deriving DecidableEq

inductive Kind
  | forceLocal
  | dependencies
  -- takes the next word whether there is one or not
  | dependencyOption (file : Bool)
  | param | path | assembler | assemble | language | compile | output
  -- `-D` and `-U`, and the options before a file or a directory
  | define | directory
  | keepLocal | keepCpp
  | keep (note : Note)
  | colorAuto
  -- names a file that is needed
  | file
  | xclang | target | arch | flto
  | other
  -- no option
  | plain
  deriving DecidableEq

/-- The words after which `analyse_argv` takes the next one, with an assertion that
`is_argument_with_space` knows them -/
def directories : List Str :=
  ["-I", "-i", "--include-directory", "-L", "-l", "--library-directory", "-MF", "-MT", "-MQ",
    "-cxx-isystem", "-c-isystem", "-idirafter", "--include-directory-after", "-iframework",
    "-iframeworkwithsysroot", "-imacros", "-imultilib", "-iprefix", "--include-prefix", "-iquote",
    "-include", "-include-pch", "-isysroot", "-isystem", "-isystem-after", "-ivfsoverlay",
    "-iwithprefix", "-serialize-diagnostics", "--serialize-diagnostics",
    "-fmodules-validate-once-per-build-session", "--include-with-prefix",
    "--include-with-prefix-after", "-iwithprefixbefore", "--include-with-prefix-before",
    "-iwithsysroot", "-index-store-path"].map str

/-- The prefixes of options that name a file -/
def prefixes : List Str :=
  ["-fplugin=", "-fsanitize-blacklist=", "-fprofile-sample-use=", "-fprofile-instr-use="].map str

def equalsAny (words : List String) (a : Str) : Bool := a ∈ words.map str

def startsAny (heads : List String) (a : Str) : Bool := heads.any fun head => str head <+: a

/-- The kind of an option, in the order of the comparisons -/
def optionKind (a : Str) : Kind :=
  if a = str "-E" then .forceLocal
  else if startsAny ["-fdump", "-ftime-report"] a
      ∨ equalsAny ["-combine", "-fsyntax-only", "-ftime-trace", "-fsycl"] a then .forceLocal
  else if equalsAny ["-MD", "-MMD"] a ∨ startsAny ["-Wp,-MD", "-Wp,-MMD"] a then .dependencies
  else if equalsAny ["-MG", "-MP"] a then .keepLocal
  else if a = str "-MF" ∨ startsAny ["-Wp,-MF"] a then .dependencyOption true
  else if equalsAny ["-MT", "-MQ"] a ∨ startsAny ["-Wp,-MT", "-Wp,-MQ"] a then
    .dependencyOption false
  else if startsAny ["-M"] a then .forceLocal
  else if a = str "--param" then .param
  else if startsAny ["-B"] a then .path
  else if startsAny ["-Wa,"] a then .assembler
  else if a = str "-S" then .assemble
  else if equalsAny ["-fprofile-arcs", "-ftest-coverage", "--coverage", "-frepo",
        "-fprofile-generate", "-fprofile-use", "-save-temps", "--save-temps",
        "-fbranch-probabilities"] a
      ∨ startsAny ["-save-temps=", "--save-temps="] a then .forceLocal
  else if a = str "-gsplit-dwarf" then .keep .splitDwarf
  else if a = str "-x" then .language
  else if a = str "-march=native" then .keep .marchNative
  else if a = str "-mcpu=native" then .keep .mcpuNative
  else if a = str "-mtune=native" then .keep .mtuneNative
  else if equalsAny ["-fexec-charset", "-fwide-exec-charset", "-finput-charset"] a then .forceLocal
  else if a = str "-c" then .compile
  else if startsAny ["-o"] a then .output
  else if equalsAny ["-D", "-U"] a then .define
  else if a ∈ directories ∨ startsAny ["-fbuild-session-file="] a then .directory
  else if equalsAny ["-fmodules", "-fcxx-modules", "-fmodules-ts"] a
      ∨ startsAny ["-fmodules-cache-path="] a then .keepLocal
  else if startsAny ["-Wp,", "-D", "-U"] a then .keepCpp
  else if startsAny ["-I", "-l", "-L"] a then .keepLocal
  else if a = str "-undef" then .keepCpp
  else if equalsAny ["-nostdinc", "-nostdinc++", "-MD", "-MMD", "-MG", "-MP"] a then .keepLocal
  else if equalsAny ["-Wmissing-include-dirs", "-Werror=missing-include-dirs"] a then .keepLocal
  else if a = str "-fno-color-diagnostics" then .keep .colorDiagnostics
  else if a = str "-fcolor-diagnostics" then .keep .colorDiagnostics
  else if equalsAny ["-fno-diagnostics-color", "-fdiagnostics-color=never"] a then
    .keep .colorDiagnostics
  else if equalsAny ["-fdiagnostics-color", "-fdiagnostics-color=always"] a then
    .keep .colorDiagnostics
  else if a = str "-fdiagnostics-color=auto" then .colorAuto
  else if a = str "-fno-diagnostics-show-caret" then .keep .noShowCaret
  else if a = str "-fdiagnostics-show-caret" then .keep .showCaret
  else if prefixes.any (· <+: a) then .file
  else if a = str "-Xclang" then .xclang
  else if a = str "-target" then .target
  else if startsAny ["--target="] a then .keep .target
  else if startsAny ["-std="] a then .keep .standard
  else if equalsAny ["-Wunused-macros", "-Werror=unused-macros"] a then .keep .unusedMacros
  else if a = str "-Wno-unused-macros" then .keep .noUnusedMacros
  else if equalsAny ["-pedantic", "-Wpedantic", "-pedantic-errors"] a then .keep .pedantic
  else if a = str "-arch" then .arch
  else if startsAny ["-flto"] a then .flto
  else .other

def kind (a : Str) : Kind :=
  if a.head? = some 45 then optionKind a
  else if a.head? = some 64 then .keepLocal
  else .plain

end Icecream.Client
