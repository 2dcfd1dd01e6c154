import Icecream.Comm.Message

/-!
# Names of compilers

The functions of `services/util.cpp` on compiler names. A position is an index into
the string; `none` is `string::npos`.
-/

namespace Icecream.Services

open Icecream.Comm (Str str)

def rfind (s needle : Str) : Option ℕ :=
  (List.range (s.length + 1)).reverse.find? fun i => needle <+: s.drop i

def findBasename (sfile : Str) : Str :=
  match rfind sfile (str "/") with
  | none => sfile
  | some index => sfile.drop (index + 1)

def contains (s needle : Str) : Bool := (rfind s needle).isSome

def isCCompiler (compiler : Str) : Bool :=
  let name := findBasename compiler
  if contains name (str "++") then false
  else if contains name (str "icx") ∧ ¬ contains name (str "icpx") then true
  else contains name (str "gcc") || contains name (str "clang") || name = str "cc"

def isCppCompiler (compiler : Str) : Bool :=
  let name := findBasename compiler
  contains name (str "g++") || contains name (str "clang++") || contains name (str "icpx")
    || contains name (str "dpcpp") || name = str "c++"

/-- `slash + 1` as the code computes it: `npos + 1` wraps to 0. -/
def afterSlash (slash : Option ℕ) : ℕ := (slash.map (· + 1)).getD 0

/-- `pos < slash`, which every position is when there is no slash. -/
def beforeSlash (pos : ℕ) (slash : Option ℕ) : Bool := slash.all fun s => pos < s

/-- The last occurrence of `old`, when it lies in the base name, replaced by `new`. -/
def replaceName (compiler : Str) (slash : Option ℕ) (old new : Str) : Option Str :=
  match rfind compiler old with
  | some pos =>
    if afterSlash slash ≤ pos then
      some (compiler.take pos ++ new ++ compiler.drop (pos + old.length))
    else none
  | none => none

/-- The same when the base name begins with `old`. -/
def replaceStart (compiler : Str) (slash : Option ℕ) (old new : Str) : Option Str :=
  match rfind compiler old with
  | some pos =>
    if pos = afterSlash slash then
      some (compiler.take pos ++ new ++ compiler.drop (pos + old.length))
    else none
  | none => none

/-- `none` where the code asserts that the name is one it knows. -/
def getCCompiler (compiler : Str) : Option Str :=
  if compiler = [] then some compiler
  else
    let slash := rfind compiler (str "/")
    let notCpp := match rfind compiler (str "++") with
      | none => true
      | some pos => beforeSlash pos slash
    if notCpp then
      some ((replaceName compiler slash (str "dpcpp") (str "icx")).getD compiler)
    else
      (replaceName compiler slash (str "clang++") (str "clang")).orElse fun _ =>
      (replaceName compiler slash (str "icpx") (str "icx")).orElse fun _ =>
      (replaceName compiler slash (str "g++") (str "gcc")).orElse fun _ =>
      replaceStart compiler slash (str "c++") (str "cc")

def getCppCompiler (compiler : Str) : Option Str :=
  if compiler = [] then some compiler
  else
    let slash := rfind compiler (str "/")
    let isCpp := match rfind compiler (str "++") with
      | none => false
      | some pos => afterSlash slash ≤ pos
    if isCpp then
      some ((replaceName compiler slash (str "dpcpp") (str "icpx")).getD compiler)
    else
      (replaceName compiler slash (str "dpcpp") (str "icpx")).orElse fun _ =>
      (replaceName compiler slash (str "gcc") (str "g++")).orElse fun _ =>
      (if contains compiler (str "icpx") then none
        else replaceName compiler slash (str "icx") (str "icpx")).orElse fun _ =>
      (replaceName compiler slash (str "clang") (str "clang++")).orElse fun _ =>
      replaceStart compiler slash (str "cc") (str "c++")

end Icecream.Services
