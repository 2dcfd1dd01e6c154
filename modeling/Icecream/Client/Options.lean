import Icecream.Client.Analysis

/-!
# Options and what comes of them

The words of a command line fall into options, each with the words that belong to it. What an
option adds to the arguments, whether it forces the job to be local and what it says of the
output are functions of the option alone, and of the state that the options for the assembler
leave behind.
-/

namespace Icecream.Client

open Icecream.Comm (Str str ArgumentType ArgumentsList langCustom)
open Icecream.Services (contains)

/-- A word that is read as an option, and the words behind it -/
abbrev Opt := Str × List Str

/-- How many of the words behind an option belong to it -/
def taken (o : Opt) : ℕ :=
  match kind o.1 with
  | .dependencyOption _ => 1
  | .param | .language | .define | .directory | .target | .arch => min 1 o.2.length
  | .path => if o.1 = str "-B" then min 1 o.2.length else 0
  | .output => if o.1 = str "-o" then min 1 o.2.length else 0
  | .xclang =>
    if o.2.head? = some (str "-load") ∧ o.2[1]? = some (str "-Xclang") ∧ 3 ≤ o.2.length then 3
    else min 1 o.2.length
  | .other => if isArgumentWithSpace o.1 then min 1 o.2.length else 0
  | _ => 0

/-- The words that are read as options, when the first `n` words belong to the option before -/
def options : ℕ → List Str → List Opt
  | _, [] => []
  | 0, a :: rest => (a, rest) :: options (taken (a, rest)) rest
  | n + 1, _ :: rest => options n rest

/-- The option and the words that belong to it -/
def Opt.words (o : Opt) : List Str := o.1 :: o.2.take (taken o)

/-- The word that has to follow does, and the assertion about the next word holds. -/
def Opt.Sound (o : Opt) : Prop :=
  match kind o.1 with
  | .dependencyOption _ => o.2 ≠ []
  | .directory => isArgumentWithSpace o.1 = true
  | _ => True

/-! ## Arguments of the assembler -/

/-- An argument that has to be handled locally, if it is not the operand of the one before -/
def assemblerLocal (host : Host) (part : Str) : Bool :=
  if str "-a" <+: part then namesListing part
  else if part = str "--debug-prefix-map" ∨ part = str "--defsym" then false
  else if part.head? = some 64 then true
  else if part.head? = some 45 then false
  else ¬ host.readable part

/-- Whether the next argument is an operand -/
def operandNext (second : Bool) (part : Str) : Bool :=
  !second && (part = str "--debug-prefix-map" ∨ part = str "--defsym" : Bool)

/-- The name the file has on any host -/
def absoluteName (host : Host) (file : Str) : Str := (getAbsfilename host.cwd file).getD file

/-- The argument as the remote assembler gets it -/
def assemblerText (host : Host) (second : Bool) (part : Str) : Str :=
  if second ∨ str "-a" <+: part ∨ part.head? = some 64 ∨ part.head? = some 45
      ∨ ¬ host.readable part then part
  else absoluteName host part

def assemblerTexts (host : Host) : Bool → List Str → List Str
  | _, [] => []
  | second, part :: parts =>
    assemblerText host second part :: assemblerTexts host (operandNext second part) parts

/-- The last argument has to be handled locally. -/
def lastLocal (host : Host) (second : Bool) (parts : List Str) : Bool :=
  parts.getLast?.any fun part =>
    !parts.dropLast.foldl operandNext second && assemblerLocal host part

/-- The static variable of `analyze_assembler_arg` once an option has been read -/
def secondAfter (second : Bool) (o : Opt) : Bool :=
  if kind o.1 = .assembler then (assemblerParts o.1).foldl operandNext second else second

/-! ## What an option says -/

/-- What an argument is needed for, if it is kept as it is -/
def Kind.argumentType (cpp : ArgumentType) : Kind → ArgumentType
  | .forceLocal | .dependencies | .dependencyOption _ | .path | .directory | .keepLocal => .argLocal
  | .param => .argRemote
  | .define | .keepCpp => cpp
  | _ => .argRest

/-- The option with the absolute name of the file -/
def fileArgument (host : Host) (a : Str) : Str :=
  let head := (prefixes.find? (· <+: a)).getD []
  let file := a.drop head.length
  head ++ if host.readable file then absoluteName host file else file

/-- The words behind `-Xclang`, with the absolute name of a plugin; nothing of an incomplete one -/
def xclangArguments (host : Host) (a : Str) (rest : List Str) : List Str :=
  match rest with
  | [] => []
  | p :: rest =>
    if p = str "-load" then
      match rest with
      | next :: file :: _ =>
        if next = str "-Xclang" then
          [a, p, next, if host.readable file then absoluteName host file else file]
        else []
      | _ => []
    else [a, p]

/-- What the option adds to the arguments -/
def contributed (g : Setting) (second : Bool) (o : Opt) : ArgumentsList :=
  match kind o.1 with
  | .assemble | .compile | .output | .colorAuto => []
  | .assembler =>
    if lastLocal g.host second (assemblerParts o.1) then [(o.1, .argLocal)]
    else [(str "-Wa" ++ (assemblerTexts g.host second (assemblerParts o.1)).flatMap (44 :: ·),
      .argRemote)]
  | .file => [(fileArgument g.host o.1, .argRest)]
  | .xclang => (xclangArguments g.host o.1 o.2).map fun w => (w, .argRest)
  | k => o.words.map fun w => (w, k.argumentType g.cpp)

/-- The output file after the option -/
def outputOf (ofile : Str) (o : Opt) : Str :=
  if kind o.1 = .output then
    if o.1 = str "-o" then o.2.head?.getD ofile else o.1.drop 2
  else ofile

/-- A plugin that cannot be read, or a precompiled header that is built with the object -/
def xclangForces (host : Host) (rest : List Str) : Bool :=
  match rest with
  | [] => false
  | p :: rest =>
    if p = str "-load" then
      match rest with
      | next :: file :: _ => next = str "-Xclang" && !host.readable file
      | _ => false
    else p = str "-building-pch-with-obj"

/-- The option forces the job to be local. -/
def forces (host : Host) (second : Bool) (o : Opt) : Bool :=
  match kind o.1 with
  | .forceLocal | .path => true
  | .assembler => lastLocal host second (assemblerParts o.1)
  | .language => (o.2.head?.bind languageOf).isNone
  | .output => outputOf [] o = str "-"
  | .directory => o.2.head?.any fun next => str "-O" <+: next
  | .file => ¬ host.readable (o.1.drop ((prefixes.find? (· <+: o.1)).getD []).length)
  | .xclang => xclangForces host o.2
  | _ => false

/-- The language after the option -/
def languageAfter (language : UInt32) (o : Opt) : UInt32 :=
  if kind o.1 = .language then (o.2.head?.bind languageOf).getD language else language

/-- An `-flto` with which the compiler uses all cores -/
def parallelFlto (clang : Bool) (o : Opt) : Bool :=
  kind o.1 = .flto && (clang || (o.1 ≠ str "-flto" ∧ o.1 ≠ str "-flto=1" : Bool))

/-- A name as `compiler_is_clang` wants it to be -/
def clangName (name : Str) : Bool :=
  contains name (str "clang") || contains name (str "icx") || contains name (str "icpx")
    || contains name (str "dpcpp")

/-! ## What the options leave behind -/

/-- What holds of the variables in the loop -/
structure Scan.Regular (s : Scan) : Prop where
  name : Path.slash ∉ s.job.compilerName
  language : s.job.language ≠ langCustom
  seenArch : s.seenArch = false
  stdout : s.ofile = str "-" → s.alwaysLocal = true

/-- What the options add to the arguments -/
def gathered (g : Setting) : Bool → List Opt → ArgumentsList
  | _, [] => []
  | second, o :: os => contributed g second o ++ gathered g (secondAfter second o) os

/-- One of the options forces the job to be local. -/
def forced (host : Host) : Bool → List Opt → Bool
  | _, [] => false
  | second, o :: os => forces host second o || forced host (secondAfter second o) os

/-- There is an option of the kind. -/
def seen (k : Kind) (os : List Opt) : Bool := os.any fun o => kind o.1 = k

/-- What the options leave behind -/
structure Passed (g : Setting) (os : List Opt) (s t : Scan) : Prop where
  args : t.args = s.args ++ gathered g s.secondOption os
  alwaysLocal : t.alwaysLocal = (s.alwaysLocal || forced g.host s.secondOption os)
  ofile : t.ofile = os.foldl outputOf s.ofile
  secondOption : t.secondOption = os.foldl secondAfter s.secondOption
  seenArch : t.seenArch = false
  job : t.job = { s.job with language := os.foldl languageAfter s.job.language }
  seenC : t.seenC = (s.seenC || seen .compile os)
  seenS : t.seenS = (s.seenS || seen .assemble os)
  seenTarget : t.seenTarget = (s.seenTarget || seen .target os || seen (.keep .target) os)
  march : t.seenMarchNative = (s.seenMarchNative || seen (.keep .marchNative) os)
  mcpu : t.seenMcpuNative = (s.seenMcpuNative || seen (.keep .mcpuNative) os)
  mtune : t.seenMtuneNative = (s.seenMtuneNative || seen (.keep .mtuneNative) os)
  flto : t.seenParallelFlto ≠ [] ↔
    s.seenParallelFlto ≠ [] ∨ os.any (parallelFlto (clangName s.job.compilerName)) = true

end Icecream.Client
