import Icecream.Client.Options
import Icecream.Client.Inputs

/-!
# Why a command is built locally

The reasons are said of the words of the command, of what its options say and of what the system and
the compiler answer. They are those of `analyse_argv`, each at the place where the code looks.
-/

namespace Icecream.Client

open Icecream.Comm (Str str rfind ArgumentType ArgumentsList)
open Icecream.Services (findBasename contains)

/-- `compiler_only_rewrite_includes`, if the name of the compiler is as it has to be -/
def rewritesIncludes (host : Host) (job : Job) : Bool :=
  !job.blockRewriteIncludes && match host.remoteCpp with
    | some value => switchedOn value
    | none => if clangName job.compilerName then host.clangRemoteCpp.all switchedOn else true

def setting (host : Host) (job : Job) : Setting :=
  ⟨host, if rewritesIncludes host job then .argRest else .argLocal⟩

/-- `-S` or `-c`, which comes last -/
def modeArgument (os : List Opt) : ArgumentsList :=
  if seen .assemble os then [(str "-S", .argRemote)]
  else if seen .compile os then [(str "-c", .argRemote)]
  else []

/-- The arguments in which the input file is searched -/
def collected (host : Host) (job : Job) (words : List Str) : ArgumentsList :=
  gathered (setting host job) false (options 0 words) ++ modeArgument (options 0 words)

/-- The arguments that the search looks at -/
def searched (host : Host) (job : Job) (words : List Str) : ArgumentsList :=
  lookedAt false (collected host job words)

/-- The first input file -/
def source (host : Host) (job : Job) (words : List Str) : Str :=
  (inputs (searched host job words)).headD []

/-- A file that is always built locally or that has no known extension -/
def unfit (file : Str) : Bool :=
  shouldAlwaysBuildLocally file ||
    (rfind file 46 none).any fun dotIndex => extensionLanguage (file.drop (dotIndex + 1)) = none

/-- The language of an input file -/
def languageFor (language : UInt32) (file : Str) : UInt32 :=
  ((rfind file 46 none).bind fun dotIndex =>
    (extensionLanguage (file.drop (dotIndex + 1))).join).getD language

/-- The output file for an input file -/
def outputFor (assembly : Bool) (file : Str) : Str :=
  match rfind file 46 none with
  | none => []
  | some dotIndex => findBasename (file.take dotIndex ++ if assembly then str ".s" else str ".o")

/-- The output file that is named, or that of the input file -/
def output (host : Host) (job : Job) (words : List Str) : Str :=
  let named := (options 0 words).foldl outputOf []
  if named = [] then outputFor (seen .assemble (options 0 words)) (source host job words) else named

/-- The compiler that is asked for its target and for its architecture -/
def compiler (host : Host) (job : Job) (words : List Str) : Str :=
  findCompiler host { job with
    language := languageFor ((options 0 words).foldl languageAfter job.language)
      (source host job words) }

/-- Reasons that are known before the search for the input file -/
inductive Early (host : Host) (job : Job) (words : List Str) : Prop
  | dpcpp (h : contains job.compilerName (str "dpcpp") = true)
  | option (h : forced host false (options 0 words) = true)
  | mode (hc : seen .compile (options 0 words) = false)
      (hs : seen .assemble (options 0 words) = false)

/-- The reasons for which a command of a known compiler is built locally -/
inductive Reason (host : Host) (job : Job) (words : List Str) : Prop
  | early (h : Early host job words)
  | stdinout (h : str "-" ∈ (searched host job words).map Prod.fst)
  | twoInputs (h : 2 ≤ (inputs (searched host job words)).length)
  | input (h : unfit (source host job words) = true)
  | output (h : output host job words = [] ∨ host.regular (output host job words) = some false)
  | target (hclang : clangName job.compilerName = true)
      (htarget : seen .target (options 0 words) = false)
      (hjoined : seen (.keep .target) (options 0 words) = false)
      (h : host.defaultTarget (compiler host job words) = [])
  | native (hseen : (seen (.keep .marchNative) (options 0 words) ||
        seen (.keep .mcpuNative) (options 0 words) ||
        seen (.keep .mtuneNative) (options 0 words)) = true)
      (h : host.archFlags (compiler host job words) (clangName job.compilerName)
        (seen (.keep .marchNative) (options 0 words)) (seen (.keep .mcpuNative) (options 0 words))
        (seen (.keep .mtuneNative) (options 0 words)) = none)

end Icecream.Client
