import Icecream.Client.Located

/-!
# What is added once the input file is known

Each step adds a few arguments, or it finds a reason to build locally. No step fails: the name of
the compiler has no slash, and a flag that depends on the machine is among the arguments if it has
been seen.
-/

namespace Icecream.Client

open Icecream.Comm (Str str ArgumentType ArgumentsList langCustom)
open Icecream.Fault

variable {host : Host} {icerun : Bool} {s t : Scan}

/-- The compiler is a known one, by its name. -/
structure Job.Known (job : Job) : Prop where
  name : Path.slash ∉ job.compilerName
  language : job.language ≠ langCustom

theorem Job.Known.clang {job : Job} (h : job.Known) :
    compilerIsClang job = .ok (clangName job.compilerName) := compilerIsClang_eq h.name h.language

def IsColour (args : ArgumentsList) : Prop :=
  args = [] ∨ args = [(str "-fcolor-diagnostics", .argRest)] ∨
    args = [(str "-fdiagnostics-color", .argRest)]

def IsDirectivesOnly (args : ArgumentsList) : Prop :=
  args = [] ∨ args = [(str "-fdirectives-only", .argRemote)]

def IsTarget (args : ArgumentsList) : Prop :=
  args = [] ∨ ∃ target, args = [(str "-target", .argRemote), (target, .argRemote)]

/-- There is no output file, or it is not a regular one. -/
def unusable (host : Host) (ofile : Str) : Bool := ofile = [] ∨ host.regular ofile = some false

/-- The compiler would compile for the machine on which it runs, and does not say for which one. -/
def noTarget (host : Host) (s : Scan) : Bool :=
  !s.seenTarget && clangName s.job.compilerName &&
    (host.defaultTarget (findCompiler host s.job) = [] : Bool)

/-- A flag depends on the machine, and the compiler does not say what it stands for. -/
def noNative (host : Host) (s : Scan) : Bool :=
  (s.seenMarchNative || s.seenMcpuNative || s.seenMtuneNative) &&
    (host.archFlags (findCompiler host s.job) (clangName s.job.compilerName) s.seenMarchNative
      s.seenMcpuNative s.seenMtuneNative = none : Bool)

theorem outputFile_eq (host : Host) (s : Scan) :
    outputFile host s = { s with alwaysLocal := s.alwaysLocal || unusable host s.ofile } := by
  unfold outputFile unusable
  split_ifs with h
  · simp [h.2]
  · rw [not_and_or, not_not] at h
    rcases h with h | h
    · rw [h, Bool.true_or, ← h]
    · rw [decide_eq_false h, Bool.or_false]

theorem compilerHasColorOutput_ends (h : s.job.Known) :
    Ends (fun _ => False) (fun _ => True) (compilerHasColorOutput host s.job) := by
  refine .ite (fun _ => .pure trivial) fun _ => ?_
  rw [h.clang]
  refine .ite (fun _ => .pure trivial) fun _ => ?_
  cases host.colorDiagnostics with
  | none => exact .pure trivial
  | some value => exact .pure trivial

theorem colorFlag_ends (h : s.job.Known) :
    Ends (fun _ => False)
      (fun t => ∃ added, t = { s with args := s.args ++ added } ∧ IsColour added)
      (colorFlag host icerun s) := by
  have hnone : ∃ added, s = { s with args := s.args ++ added } ∧ IsColour added :=
    ⟨[], by rw [List.append_nil], .inl rfl⟩
  refine .ite (fun _ => .pure hnone) fun _ => ?_
  refine (compilerHasColorOutput_ends h).bind fun color _ => ?_
  refine .ite (fun _ => ?_) fun _ => .pure hnone
  rw [h.clang]
  refine .ite (fun _ => .pure ?_) fun _ => .pure ?_
  · exact ⟨_, rfl, .inr (.inl rfl)⟩
  · exact ⟨_, rfl, .inr (.inr rfl)⟩

theorem blockRewriteIncludes_ends (h : s.job.Known) :
    Ends (fun _ => False)
      (fun t => ∃ b, t = { s with job := { s.job with blockRewriteIncludes := b } })
      (blockRewriteIncludes s) := by
  unfold blockRewriteIncludes
  refine .ite (fun _ => ?_) fun _ => ?_
  · rw [h.clang]
    exact .ite (fun _ => .pure ⟨true, rfl⟩) fun _ => .pure ⟨s.job.blockRewriteIncludes, rfl⟩
  · exact .ite (fun _ => .pure ⟨true, rfl⟩) fun _ => .pure ⟨s.job.blockRewriteIncludes, rfl⟩

theorem compilerOnlyRewriteIncludes_eq {job : Job} (h : job.Known) :
    compilerOnlyRewriteIncludes host job = .ok (rewritesIncludes host job) := by
  unfold compilerOnlyRewriteIncludes rewritesIncludes
  cases job.blockRewriteIncludes with
  | true => rfl
  | false =>
    cases host.remoteCpp with
    | some value => rfl
    | none =>
      rw [h.clang]
      cases hclang : clangName job.compilerName with
      | true => rfl
      | false => rfl

theorem directivesOnly_ends (h : s.job.Known) :
    Ends (fun _ => False)
      (fun t => ∃ added, t = { s with args := s.args ++ added } ∧ IsDirectivesOnly added)
      (directivesOnly host s) := by
  have hnone : ∃ added, s = { s with args := s.args ++ added } ∧ IsDirectivesOnly added :=
    ⟨[], by rw [List.append_nil], .inl rfl⟩
  refine .ite (fun _ => .pure hnone) fun _ => ?_
  rw [compilerOnlyRewriteIncludes_eq h, h.clang]
  exact .ite (fun _ => .pure ⟨_, rfl, .inr rfl⟩) fun _ => .pure hnone

theorem clangTarget_ends (h : s.job.Known) :
    Ends (fun _ => False) (fun t => ∃ added, t = { s with
        args := s.args ++ added, alwaysLocal := s.alwaysLocal || noTarget host s } ∧ IsTarget added)
      (clangTarget host s) := by
  have hnone (hlocal : (s.alwaysLocal || noTarget host s) = s.alwaysLocal) : ∃ added, s = { s with
      args := s.args ++ added, alwaysLocal := s.alwaysLocal || noTarget host s } ∧ IsTarget added :=
    ⟨[], by rw [List.append_nil, hlocal], .inl rfl⟩
  refine .ite (fun hskip => .pure (hnone ?_)) fun hskip => ?_
  · rcases hskip with hskip | hskip <;> simp [hskip, noTarget]
  rw [not_or, Bool.not_eq_true, Bool.not_eq_true] at hskip
  rw [h.clang]
  refine .ite (fun hclang => ?_) fun hclang => .pure (hnone ?_)
  · by_cases htarget : host.defaultTarget (findCompiler host s.job) = []
    · simp only [if_pos htarget]
      refine .pure ⟨[], ?_, .inl rfl⟩
      simp [noTarget, hskip, hclang, htarget]
    · simp only [if_neg htarget]
      refine .pure ⟨[(str "-target", .argRemote),
        (host.defaultTarget (findCompiler host s.job), .argRemote)], ?_, .inr ⟨_, rfl⟩⟩
      simp [noTarget, hskip, hclang, htarget, Scan.append]
  · simp [noTarget, hclang]

theorem nativeFlags_ends (h : s.job.Known)
    (hnative : (s.seenMarchNative || s.seenMcpuNative || s.seenMtuneNative) = true →
      s.args.any (fun f => isNative f.1) = true) :
    Ends (fun _ => False) (fun t => ∃ args, t = { s with
        args := args, alwaysLocal := s.alwaysLocal || noNative host s } ∧
        (args = s.args ∨ ∃ archArgs, args = expandNative archArgs s.args))
      (nativeFlags host s) := by
  refine .ite (fun hskip => .pure ⟨s.args, ?_, .inl rfl⟩) fun hskip => ?_
  · have hlocal : (s.alwaysLocal || noNative host s) = s.alwaysLocal := by
      rcases hskip with hskip | hskip
      · rw [hskip, Bool.true_or]
      · simp only [not_or, Bool.not_eq_true] at hskip
        simp [noNative, hskip]
    rw [hlocal]
  rw [not_or, not_not, Bool.not_eq_true] at hskip
  have hseen : (s.seenMarchNative || s.seenMcpuNative || s.seenMtuneNative) = true := by
    simpa [or_assoc] using hskip.2
  have hclang : Ends (fun _ : Fault => False) (fun b => b = clangName s.job.compilerName)
      (compilerIsClang s.job) := by
    rw [h.clang]
    exact .ok rfl
  refine hclang.bind fun _ hclang => ?_
  subst hclang
  cases hflags : host.archFlags (findCompiler host s.job) (clangName s.job.compilerName)
      s.seenMarchNative s.seenMcpuNative s.seenMtuneNative with
  | none =>
    refine .pure ⟨s.args, ?_, .inl rfl⟩
    simp [noNative, hseen, hflags]
  | some archArgs =>
    refine .ite (fun _ => .pure ⟨expandNative archArgs s.args, ?_, .inr ⟨archArgs, rfl⟩⟩)
      fun hmissing => absurd (hnative hseen) hmissing
    simp [noNative, hflags]

/-- What comes after the search for the input file -/
structure Finished (host : Host) (s t : Scan) : Prop where
  alwaysLocal : t.alwaysLocal =
    (s.alwaysLocal || unusable host s.ofile || noTarget host s || noNative host s)
  args : ∃ colour directives target, IsColour colour ∧ IsDirectivesOnly directives ∧
    IsTarget target ∧ (t.args = s.args ++ colour ++ directives ++ target ∨
      ∃ archArgs, t.args = expandNative archArgs (s.args ++ colour ++ directives ++ target))
  job : t.job = { s.job with
    blockRewriteIncludes := t.job.blockRewriteIncludes, flags := t.args, outputFile := s.ofile }
  frame : t = { s with job := t.job, args := t.args, alwaysLocal := t.alwaysLocal }

/-- The steps after the search for the input file -/
def complete (host : Host) (icerun : Bool) (s : Scan) : Except Fault Scan := do
  let s := outputFile host s
  let s ← colorFlag host icerun s
  let s ← blockRewriteIncludes s
  let s ← directivesOnly host s
  let s ← clangTarget host s
  let s ← nativeFlags host s
  return { s with job := { s.job with flags := s.args, outputFile := s.ofile } }

theorem finish_eq : finish host icerun s = inputFile (modeOption s) >>= complete host icerun := rfl

theorem complete_ends (h : s.job.Known)
    (hnative : (s.seenMarchNative || s.seenMcpuNative || s.seenMtuneNative) = true →
      s.args.any (fun f => isNative f.1) = true) :
    Ends (fun _ => False) (Finished host s) (complete host icerun s) := by
  unfold complete
  rw [outputFile_eq]
  refine Ends.bind (colorFlag_ends h) ?_
  rintro _ ⟨colour, rfl, hcolour⟩
  refine Ends.bind (blockRewriteIncludes_ends h) ?_
  rintro _ ⟨b, rfl⟩
  refine Ends.bind (directivesOnly_ends ⟨h.name, h.language⟩) ?_
  rintro _ ⟨directives, rfl, hdirectives⟩
  refine Ends.bind (clangTarget_ends ⟨h.name, h.language⟩) ?_
  rintro _ ⟨target, rfl, htarget⟩
  refine Ends.bind (nativeFlags_ends ⟨h.name, h.language⟩ fun hseen => ?_) ?_
  · simp only [List.any_append, hnative hseen, Bool.true_or]
  rintro _ ⟨args, rfl, hargs⟩
  refine .pure ?_
  constructor
  case alwaysLocal => rfl
  case args => exact ⟨colour, directives, target, hcolour, hdirectives, htarget, hargs⟩
  all_goals rfl

end Icecream.Client
