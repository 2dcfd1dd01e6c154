import Icecream.Client.Judgements

/-!
# What `main` tells the daemon

The result of `analyse_argv` goes through the type `bool` before `main` looks at its bits.
-/

namespace Icecream.Client

open Icecream.Comm (Str str JobLocalBeginMsg)
open Icecream.Fault
open Icecream.Services (findBasename)

variable {host : Host} {job : Job} {argv words : List Str} {extrafiles : List Str} {icerun : Bool}
  {s t : Scan}
  {stime niceness : UInt32}

/-- `argv_result`: an `int` that is made of the `bool` -/
def argvResult (result : Bool) : ℕ := if result then 1 else 0

/-- `local` and `fulljob` -/
def judged (argvResult : ℕ) : Bool × Bool :=
  if argvResult &&& alwaysLocalFlag ≠ 0 then (true, argvResult &&& fullJobFlag ≠ 0)
  else (false, false)

/-- From the analysis to the message before a local build, which is not sent for a job that goes to
another host -/
def localRequest (host : Host) (argv : List Str) (job : Job) (icerun : Bool)
    (stime niceness : UInt32) : Except Fault (Option JobLocalBeginMsg) := do
  let (s, result) ← analyseArgv host argv job icerun []
  let (isLocal, fulljob) := judged (argvResult result)
  if isLocal then
    match getAbsfilename host.cwd s.job.outputFile with
    | none => throw .outOfRange
    | some outfile =>
      return some {
        outfile := outfile, stime := stime, id := 0, fulljob := fulljob, niceness := niceness }
  else return none

/-- There is no `-c`, and there is a parallel `-flto` for the compiler in use. -/
def wantsFullJob (argv : List Str) (job : Job) (icerun : Bool) : Bool :=
  let os := options 0 (argv.drop (leading job))
  !seen .compile os && os.any (parallelFlto
    (!isCustom (commandName argv job) icerun && clangName (findBasename (commandName argv job))))

/-- The bit that `analyse_argv` has computed when it converts its result -/
theorem Analysed.fullJob_iff (h : Analysed host job words t) :
    (runFlags t &&& fullJobFlag ≠ 0) ↔ t.alwaysLocal = true ∧
      seen .compile (options 0 words) = false ∧
      (options 0 words).any (parallelFlto (clangName job.compilerName)) = true := by
  obtain ⟨s, l, hs, hl, ht⟩ := h
  have hc : t.seenC = seen .compile (options 0 words) := by
    rw [ht.frame, ← hs.seenC]
    rw [hl.frame]
  have hflto : t.seenParallelFlto = s.seenParallelFlto := by
    rw [ht.frame]
    rw [hl.frame]
  rw [← hs.flto, ← hflto, ← hc, runFlags]
  cases t.alwaysLocal with
  | false => simp
  | true =>
    rw [if_pos rfl]
    split_ifs with hboth
    · exact iff_of_true (by decide) ⟨rfl, by simpa using hboth.2, hboth.1⟩
    · refine iff_of_false (by decide) fun h => hboth ⟨h.2.2, by simp [h.2.1]⟩

/-- A `bool` has one bit. -/
theorem judged_fulljob (result : Bool) : (judged (argvResult result)).2 = false := by
  cases result <;> rfl

theorem localRequest_fulljob :
    Ends (fun _ => True) (fun r => ∀ m, r = some m → m.fulljob = false)
      (localRequest host argv job icerun stime niceness) := by
  refine Ends.bind (P := fun _ => True) (.any fun _ => trivial) ?_
  rintro ⟨s, result⟩ -
  refine .ite (fun _ => ?_) fun _ => .pure (by simp)
  cases getAbsfilename host.cwd s.job.outputFile with
  | none => exact .throw trivial
  | some outfile =>
    refine .pure ?_
    rintro m ⟨⟩
    exact judged_fulljob result

/-- The daemon is asked for a full job as the command wants it if and only if the command does not
want one. -/
theorem localRequest_fulljob_iff (host : Host) (argv : List Str) (job : Job)
    (stime niceness : UInt32) {m : JobLocalBeginMsg}
    (h : localRequest host argv job false stime niceness = .ok (some m)) :
    (m.fulljob = true ↔ wantsFullJob argv job false = true) ↔
      wantsFullJob argv job false = false := by
  have hfalse : m.fulljob = false := localRequest_fulljob.of_ok h m rfl
  rw [hfalse]
  simp

theorem localRequest_fulljob_iff_shared :
    localRequest { absolute := .inl rfl } (["gcc", "-shared", "a.o"].map str) { language := 0 }
      false 0 5 = .ok (some { niceness := 5 }) ∧
    ((({ niceness := 5 } : JobLocalBeginMsg).fulljob = true ↔
        wantsFullJob (["gcc", "-shared", "a.o"].map str) { language := 0 } false = true) ↔
      wantsFullJob (["gcc", "-shared", "a.o"].map str) { language := 0 } false = false) :=
  ⟨by decide +kernel, localRequest_fulljob_iff { absolute := .inl rfl }
    (["gcc", "-shared", "a.o"].map str) { language := 0 } 0 5 (by decide +kernel)⟩

/-- A link with four threads is announced as a job for one slot. -/
theorem localRequest_link :
    localRequest { absolute := .inl rfl } (["gcc", "-flto=4", "a.o"].map str) { language := 0 }
      false 0 5 = .ok (some { niceness := 5 }) ∧
    wantsFullJob (["gcc", "-flto=4", "a.o"].map str) { language := 0 } false = true := by
  refine ⟨?_, ?_⟩ <;> decide +kernel

end Icecream.Client
