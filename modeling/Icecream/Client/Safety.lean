import Icecream.Client.Verdict
import Icecream.Services.Basename

/-!
# Commands on which the analysis comes to its end
-/

namespace Icecream.Client

open Icecream.Comm (Str str ArgumentType ArgumentsList langC langCXX langCustom)
open Icecream.Fault
open Icecream.Services (findBasename contains isCCompiler isCppCompiler slash_not_mem_findBasename)

variable {host : Host} {job : Job} {argv words : List Str} {extrafiles : List Str} {name : Str}
  {icerun : Bool} {s t : Scan}

/-! ## The program -/

/-- The compiler is not a known one, or the command is one for `icerun`. -/
def isCustom (name : Str) (icerun : Bool) : Bool :=
  icerun || !(isCppCompiler (findBasename name) || isCCompiler (findBasename name))

/-- The job for a known compiler -/
def knownJob (name : Str) (job : Job) : Job :=
  { job with
    compilerName := findBasename name
    language := if isCppCompiler (findBasename name) then langCXX else langC }

theorem knownJob_known (name : Str) (job : Job) : (knownJob name job).Known where
  name := slash_not_mem_findBasename name
  language := by
    show (if _ then langCXX else langC) ≠ langCustom
    split_ifs <;> decide

theorem analyzeProgram_known (h : isCustom name icerun = false) :
    analyzeProgram name job icerun =
      (knownJob name job, contains (findBasename name) (str "dpcpp"), false) := by
  rw [isCustom, Bool.or_eq_false_iff, Bool.not_eq_false', Bool.or_eq_true] at h
  unfold analyzeProgram knownJob
  cases hcpp : isCppCompiler (findBasename name) with
  | true => simp [h.1, hcpp]
  | false => simp [h.1, hcpp, h.2.resolve_left (by simp [hcpp])]

theorem analyzeProgram_custom (h : isCustom name icerun = true) :
    analyzeProgram name job icerun =
      ({ job with compilerName := findBasename name, language := langCustom }, true, true) := by
  rw [isCustom, Bool.or_eq_true, Bool.not_eq_true', Bool.or_eq_false_iff] at h
  unfold analyzeProgram
  rcases h with h | ⟨hcpp, hc⟩
  · simp [h]
  · cases icerun <;> simp [hcpp, hc]

/-! ## The words of the command -/

/-- How many words of `argv` name the compiler -/
def leading (job : Job) : ℕ := if job.compilerName = [] then 1 else 2

def commandName (argv : List Str) (job : Job) : Str :=
  if job.compilerName = [] then argv.headD [] else job.compilerName

theorem program_ends : Ends (fun _ => argv.length < leading job)
    (fun r => r = (commandName argv job, argv.drop (leading job)) ∧ leading job ≤ argv.length)
    (program argv job) := by
  unfold program leading commandName
  by_cases hname : job.compilerName = []
  · simp only [hname, ne_eq, not_true_eq_false, if_false, if_true]
    match argv with
    | [] => exact .throw Nat.zero_lt_one
    | name :: words => exact .pure ⟨rfl, Nat.le_add_left 1 _⟩
  · simp only [hname, ne_eq, not_false_eq_true, if_true, if_false]
    match argv with
    | [] => exact .throw Nat.zero_lt_two
    | [_] => exact .throw Nat.one_lt_two
    | _ :: _ :: words => exact .pure ⟨rfl, Nat.le_add_left 2 _⟩

/-- What the analysis leaves behind of a command that is run as it is -/
def verbatim (name : Str) (words : List Str) (job : Job) (extrafiles : List Str) : Scan where
  job := { job with
    compilerName := findBasename name
    language := langCustom
    flags := words.map fun a => (a, .argLocal)
    inputFile := []
    outputFile := [] }
  args := words.map fun a => (a, .argLocal)
  extrafiles := extrafiles
  alwaysLocal := true

theorem compilerOnlyRewriteIncludes_custom (host : Host) {job : Job}
    (h : job.language = langCustom) : ∃ b, compilerOnlyRewriteIncludes host job = .ok b := by
  unfold compilerOnlyRewriteIncludes compilerIsClang
  rw [if_pos h]
  cases job.blockRewriteIncludes with
  | true => exact ⟨_, rfl⟩
  | false =>
    cases host.remoteCpp with
    | some value => exact ⟨_, rfl⟩
    | none => exact ⟨_, rfl⟩

theorem analyse_custom (h : isCustom (commandName argv job) icerun = true) :
    Ends (fun _ => argv.length < leading job)
      (fun t => t = verbatim (commandName argv job) (argv.drop (leading job)) job extrafiles ∧
        leading job ≤ argv.length) (analyse host argv job icerun extrafiles) := by
  refine program_ends.bind ?_
  rintro _ ⟨rfl, hnamed⟩
  simp only [analyzeProgram_custom h]
  have hcustom : ({ job with
    compilerName := findBasename (commandName argv job), language := langCustom } : Job).language =
      langCustom := rfl
  obtain ⟨b, hb⟩ := compilerOnlyRewriteIncludes_custom host hcustom
  rw [hb]
  exact Ends.ok (a := verbatim (commandName argv job) (argv.drop (leading job)) job extrafiles)
    ⟨rfl, hnamed⟩

theorem analyse_known (h : isCustom (commandName argv job) icerun = false) :
    Ends (fun _ => argv.length < leading job ∨
        (∃ o ∈ options 0 (argv.drop (leading job)), ¬ o.Sound) ∨
        Stuck host (knownJob (commandName argv job) job) (argv.drop (leading job)))
      (fun t => Analysed host (knownJob (commandName argv job) job) (argv.drop (leading job)) t ∧
        leading job ≤ argv.length ∧
        (∀ o ∈ options 0 (argv.drop (leading job)), o.Sound) ∧
        ¬ Stuck host (knownJob (commandName argv job) job) (argv.drop (leading job)))
      (analyse host argv job icerun extrafiles) := by
  refine (program_ends.weaken fun _ => .inl).bind ?_
  rintro _ ⟨rfl, hnamed⟩
  simp only [analyzeProgram_known h]
  rw [compilerOnlyRewriteIncludes_eq (knownJob_known _ _)]
  refine ((command_ends (knownJob_known _ _)).weaken fun _ => .inr).mono fun t ht => ?_
  exact ⟨ht.1, hnamed, ht.2⟩

/-- `argv` names a compiler. Unless the command is run as it is, every option has the word that it
needs and is known to both lists of options, and the search for the input file does not come to an
empty argument. -/
structure Safe (host : Host) (argv : List Str) (job : Job) (icerun : Bool) : Prop where
  named : leading job ≤ argv.length
  sound : isCustom (commandName argv job) icerun = false →
    ∀ o ∈ options 0 (argv.drop (leading job)), o.Sound
  found : isCustom (commandName argv job) icerun = false →
    ¬ Stuck host (knownJob (commandName argv job) job) (argv.drop (leading job))

theorem analyse_ends (host : Host) (argv : List Str) (job : Job) (icerun : Bool)
    (extrafiles : List Str) :
    Ends (fun _ => ¬ Safe host argv job icerun) (fun _ => Safe host argv job icerun)
      (analyse host argv job icerun extrafiles) := by
  cases hcustom : isCustom (commandName argv job) icerun with
  | true =>
    refine ((analyse_custom hcustom).weaken ?_).mono ?_
    · exact fun _ hshort h => absurd h.named (Nat.not_le_of_lt hshort)
    · exact fun _ h => ⟨h.2, by simp [hcustom], by simp [hcustom]⟩
  | false =>
    refine ((analyse_known hcustom).weaken ?_).mono ?_
    · rintro _ (hshort | ⟨o, ho, hunsound⟩ | hstuck) h
      · exact absurd h.named (Nat.not_le_of_lt hshort)
      · exact hunsound (h.sound hcustom o ho)
      · exact h.found hcustom hstuck
    · exact fun _ h => ⟨h.2.1, fun _ => h.2.2.1, fun _ => h.2.2.2⟩

end Icecream.Client
