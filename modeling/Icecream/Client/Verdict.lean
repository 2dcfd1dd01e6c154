import Icecream.Client.Finish

/-!
# The whole analysis of a command

`analyse_argv` comes to its end if every option has the word that it needs and if the search for the
input file does not come to an empty argument. It then judges the command to be local for the
reasons that can be read off its words.
-/

namespace Icecream.Client

open Icecream.Comm (Str str ArgumentType ArgumentsList langC langCXX langCustom)
open Icecream.Fault
open Icecream.Services (findBasename contains isCCompiler isCppCompiler)

variable {host : Host} {job : Job} {words : List Str} {extrafiles : List Str} {s t : Scan}

/-! ## Up to the search for the input file -/

/-- The variables before the loop -/
def start (job : Job) (extrafiles : List Str) : Scan :=
  { job := job, extrafiles := extrafiles,
    alwaysLocal := contains job.compilerName (str "dpcpp") }

/-- What is known before the search for the input file -/
structure Gathered (host : Host) (job : Job) (words : List Str) (s : Scan) : Prop where
  args : s.args = collected host job words
  alwaysLocal : s.alwaysLocal = true ↔ Early host job words
  ofile : s.ofile = (options 0 words).foldl outputOf []
  supported : s.job.language ≠ langCustom
  seenC : s.seenC = seen .compile (options 0 words)
  seenS : s.seenS = seen .assemble (options 0 words)
  seenTarget : s.seenTarget =
    (seen .target (options 0 words) || seen (.keep .target) (options 0 words))
  march : s.seenMarchNative = seen (.keep .marchNative) (options 0 words)
  mcpu : s.seenMcpuNative = seen (.keep .mcpuNative) (options 0 words)
  mtune : s.seenMtuneNative = seen (.keep .mtuneNative) (options 0 words)
  flto : s.seenParallelFlto ≠ [] ↔
    (options 0 words).any (parallelFlto (clangName job.compilerName)) = true
  job : s.job = { job with
    language := (options 0 words).foldl languageAfter job.language
    dwarfFission := s.job.dwarfFission }

theorem start_regular (h : job.Known) : (start job extrafiles).Regular where
  name := h.name
  language := h.language
  seenArch := rfl
  stdout := fun h => absurd h (List.cons_ne_nil 45 []).symm

theorem modeOption_eq (s : Scan) : ∃ dwarfFission, modeOption s = { s with
    args := s.args ++ if s.seenS then [(str "-S", .argRemote)]
      else if s.seenC then [(str "-c", .argRemote)] else []
    alwaysLocal := s.alwaysLocal || (!s.seenC && !s.seenS)
    job := { s.job with dwarfFission := dwarfFission } } := by
  unfold modeOption
  cases hc : s.seenC <;> cases hs : s.seenS
  · exact ⟨s.job.dwarfFission, by simp⟩
  · exact ⟨s.job.dwarfFission, by simp [Scan.append, hc, hs]⟩
  · cases hsplit : s.seenSplitDwarf
    · exact ⟨s.job.dwarfFission, by simp [Scan.append, hc, hs, hsplit]⟩
    · exact ⟨true, by simp [Scan.append, hc, hs, hsplit]⟩
  · exact ⟨s.job.dwarfFission, by simp [Scan.append, hc, hs]⟩

theorem early_iff : Early host job words ↔ (contains job.compilerName (str "dpcpp") ||
    forced host false (options 0 words) ||
    (!seen .compile (options 0 words) && !seen .assemble (options 0 words))) = true := by
  constructor
  · intro h
    cases h with
    | dpcpp h => rw [h, Bool.true_or, Bool.true_or]
    | option h => rw [h, Bool.or_true, Bool.true_or]
    | mode hc hs => rw [hc, hs, Bool.not_false, Bool.and_self, Bool.or_true]
  · intro h
    simp only [Bool.or_eq_true, Bool.and_eq_true, Bool.not_eq_true'] at h
    rcases h with (h | h) | h
    · exact .dpcpp h
    · exact .option h
    · exact .mode h.1 h.2

theorem Passed.gathered (h : Passed (setting host job) (options 0 words) (start job extrafiles) s)
    (hlanguage : s.job.language ≠ langCustom) : Gathered host job words (modeOption s) := by
  obtain ⟨dwarfFission, hmode⟩ := modeOption_eq s
  have hc : s.seenC = seen .compile (options 0 words) := by rw [h.seenC]; rfl
  have hs : s.seenS = seen .assemble (options 0 words) := by rw [h.seenS]; rfl
  rw [hmode]
  constructor
  case args =>
    show s.args ++ _ = _
    rw [h.args, hc, hs]
    rfl
  case alwaysLocal =>
    rw [early_iff]
    show (s.alwaysLocal || _) = true ↔ _
    rw [h.alwaysLocal, hc, hs]
    rfl
  case ofile => exact h.ofile
  case supported => exact hlanguage
  case seenC => exact hc
  case seenS => exact hs
  case seenTarget => exact h.seenTarget
  case march => exact h.march
  case mcpu => exact h.mcpu
  case mtune => exact h.mtune
  case flto => exact h.flto.trans (or_iff_right fun hnil => hnil rfl)
  case job =>
    show { s.job with dwarfFission := dwarfFission } = _
    rw [h.job]
    rfl

/-! ## Flags that depend on the machine -/

theorem isNative_iff {a : Str} : isNative a = true ↔
    a = str "-march=native" ∨ a = str "-mcpu=native" ∨ a = str "-mtune=native" := by
  simp [isNative, equalsAny]

theorem isNative_of_kind {a : Str} (h : kind a = .keep .marchNative ∨ kind a = .keep .mcpuNative ∨
    kind a = .keep .mtuneNative) : isNative a = true := by
  by_contra hnative
  rw [isNative_iff, not_or, not_or] at hnative
  obtain ⟨hmarch, hmcpu, hmtune⟩ := hnative
  rcases h with h | h | h
  all_goals
    have h := optionKind_of_kind h (by decide) (by decide)
    rw [optionKind] at h
    repeat replace h := Kind.of_ite h (by decide)
    simp only [if_neg hmarch, if_neg hmcpu, if_neg hmtune] at h
    repeat replace h := Kind.of_ite h (by decide)
    cases h

theorem mem_gathered {g : Setting} {second : Bool} {os : List Opt} {o : Opt} {n : Note}
    (ho : o ∈ os) (hk : kind o.1 = .keep n) : (o.1, .argRest) ∈ gathered g second os := by
  induction os generalizing second with
  | nil => exact absurd ho List.not_mem_nil
  | cons p os ih =>
    rw [gathered, List.mem_append]
    rcases List.mem_cons.mp ho with rfl | ho
    · left
      simp [contributed, hk, Opt.words, Kind.argumentType]
    · exact .inr (ih ho)

theorem Gathered.native (h : Gathered host job words s)
    (hseen : (s.seenMarchNative || s.seenMcpuNative || s.seenMtuneNative) = true) :
    ∃ f ∈ s.args, isNative f.1 = true := by
  rw [h.march, h.mcpu, h.mtune, Bool.or_eq_true, Bool.or_eq_true, seen, seen, seen,
    List.any_eq_true, List.any_eq_true, List.any_eq_true] at hseen
  have hopt : ∃ o ∈ options 0 words, ∃ n, kind o.1 = .keep n ∧ isNative o.1 = true := by
    rcases hseen with (⟨o, ho, hk⟩ | ⟨o, ho, hk⟩) | ⟨o, ho, hk⟩
    · have hk := of_decide_eq_true hk
      exact ⟨o, ho, _, hk, isNative_of_kind (.inl hk)⟩
    · have hk := of_decide_eq_true hk
      exact ⟨o, ho, _, hk, isNative_of_kind (.inr (.inl hk))⟩
    · have hk := of_decide_eq_true hk
      exact ⟨o, ho, _, hk, isNative_of_kind (.inr (.inr hk))⟩
  obtain ⟨o, ho, n, hk, hnative⟩ := hopt
  rw [h.args]
  exact ⟨(o.1, .argRest), List.mem_append_left _ (mem_gathered ho hk), hnative⟩

theorem not_isInput_of_isNative {a : Str} (h : isNative a = true) :
    ¬ isInput (a, .argRest) = true := by
  rcases isNative_iff.mp h with rfl | rfl | rfl <;> decide

/-- A flag that depends on the machine is no input file. -/
theorem Located.native (h : Located s t) (hnative : ∃ f ∈ s.args, isNative f.1 = true) :
    t.args.any (fun f => isNative f.1) = true := by
  obtain ⟨left, added, found, hargs, -, hremoved, -, -⟩ := h.args
  obtain ⟨f, hf, hnative⟩ := hnative
  rw [hargs, List.any_append, Bool.or_eq_true, List.any_eq_true]
  left
  rcases hremoved with ⟨-, rfl⟩ | ⟨-, hinput, before, after, hsplit, rfl⟩
  · exact ⟨f, hf, hnative⟩
  · rw [hsplit, List.mem_append, List.mem_cons] at hf
    rcases hf with hf | rfl | hf
    · exact ⟨f, List.mem_append_left _ hf, hnative⟩
    · exact absurd hinput (not_isInput_of_isNative hnative)
    · exact ⟨f, List.mem_append_right _ hf, hnative⟩

/-! ## The verdict -/

/-- What the analysis of a command of a known compiler leaves behind -/
def Analysed (host : Host) (job : Job) (words : List Str) (t : Scan) : Prop :=
  ∃ s l, Gathered host job words s ∧ Located s l ∧ Finished host l t

/-- The search for the input file comes to an empty argument. -/
def Stuck (host : Host) (job : Job) (words : List Str) : Prop :=
  ¬ Early host job words ∧ Blank 0 (searched host job words)

theorem Gathered.last (h : Gathered host job words s) (hlocal : s.alwaysLocal = false) :
    ∀ f, s.args.getLast? = some f → skipsNext f.1 = false := by
  have hmode : ¬ (seen .compile (options 0 words) = false ∧
      seen .assemble (options 0 words) = false) := fun hboth =>
    absurd (h.alwaysLocal.mpr (.mode hboth.1 hboth.2)) (by simp [hlocal])
  intro f hf
  rw [h.args, collected, modeArgument] at hf
  split_ifs at hf with hs hc
  · rw [List.getLast?_concat] at hf
    cases hf
    decide
  · rw [List.getLast?_concat] at hf
    cases hf
    decide
  · exact absurd ⟨by simpa using hc, by simpa using hs⟩ hmode

theorem Located.known (h : Located s t) (hs : s.job.Known) : t.job.Known where
  name := by
    rw [h.job]
    exact hs.name
  language := h.supported hs.language

theorem Gathered.known (h : Gathered host job words s) (hjob : job.Known) : s.job.Known where
  name := by
    rw [h.job]
    exact hjob.name
  language := h.supported

theorem command_ends (hjob : job.Known) :
    Ends (fun _ => (∃ o ∈ options 0 words, ¬ o.Sound) ∨ Stuck host job words)
      (fun t => Analysed host job words t ∧ (∀ o ∈ options 0 words, o.Sound) ∧
        ¬ Stuck host job words)
      (scan (setting host job) 0 words (start job extrafiles) >>= finish host false) := by
  refine ((scan_ends (Nat.zero_le _) (start_regular hjob)).weaken fun _ => .inl).bind ?_
  rintro s ⟨hpassed, hregular, hsound⟩
  have hgathered := hpassed.gathered hregular.language
  have hstuck : Stuck host job words ↔ (modeOption s).alwaysLocal = false ∧
      Blank 0 (lookedAt false (modeOption s).args) := by
    rw [Stuck, ← hgathered.alwaysLocal, Bool.not_eq_true, searched, hgathered.args]
  rw [finish_eq]
  refine ((inputFile_ends (modeOption s) hgathered.last).weaken fun _ h =>
    .inr (hstuck.mpr h)).bind ?_
  rintro l ⟨hlocated, hfound⟩
  have hknown := hlocated.known (hgathered.known hjob)
  have hframe := hlocated.frame
  have hnative : (l.seenMarchNative || l.seenMcpuNative || l.seenMtuneNative) = true →
      l.args.any (fun f => isNative f.1) = true := by
    intro hseen
    rw [congrArg Scan.seenMarchNative hframe, congrArg Scan.seenMcpuNative hframe,
      congrArg Scan.seenMtuneNative hframe] at hseen
    exact hlocated.native (hgathered.native hseen)
  refine ((complete_ends hknown hnative).weaken fun _ h => h.elim).mono fun t hfinished =>
    ⟨⟨_, l, hgathered, hlocated, hfinished⟩, hsound, ?_⟩
  rw [hstuck]
  rintro ⟨hlocal, hblank⟩
  rcases hfound with hfound | hfound
  · exact absurd hfound (by simp [hlocal])
  · exact hfound hblank

theorem findCompiler_congr {j k : Job} (hname : j.compilerName = k.compilerName)
    (hpath : j.compilerPathname = k.compilerPathname) (hlanguage : j.language = k.language) :
    findCompiler host j = findCompiler host k := by
  rw [findCompiler, findCompiler, hname, hpath, hlanguage]

section

variable {l : Scan} (hs : Gathered host job words s) (hl : Located s l)
include hs hl

theorem Gathered.located_alwaysLocal : l.alwaysLocal = true ↔ Early host job words ∨
    str "-" ∈ (searched host job words).map Prod.fst ∨
    2 ≤ (inputs (searched host job words)).length ∨ unfit (source host job words) = true := by
  rw [hl.alwaysLocal, hs.alwaysLocal, hs.args]
  rfl

theorem Gathered.located_ofile (hlocal : l.alwaysLocal = false) :
    l.ofile = output host job words := by
  rw [hl.ofile, hs.ofile, hs.seenS, hs.args, hlocal]
  simp only [true_and]
  rfl

theorem Gathered.located_name : l.job.compilerName = job.compilerName := by rw [hl.job, hs.job]

theorem Gathered.located_compiler (hlocal : l.alwaysLocal = false) :
    findCompiler host l.job = compiler host job words := by
  refine findCompiler_congr (hs.located_name hl) ?_ ?_
  · rw [hl.job, hs.job]
  · rw [hl.language hlocal, hs.args, hs.job]
    rfl

theorem Gathered.located_noTarget (hlocal : l.alwaysLocal = false) :
    noTarget host l = true ↔ clangName job.compilerName = true ∧
      seen .target (options 0 words) = false ∧ seen (.keep .target) (options 0 words) = false ∧
      host.defaultTarget (compiler host job words) = [] := by
  have htarget : l.seenTarget = s.seenTarget := by rw [hl.frame]
  rw [noTarget, hs.located_compiler hl hlocal, hs.located_name hl, htarget, hs.seenTarget]
  simp only [Bool.and_eq_true, Bool.not_eq_true', Bool.or_eq_false_iff, decide_eq_true_eq]
  tauto

theorem Gathered.located_noNative (hlocal : l.alwaysLocal = false) :
    noNative host l = true ↔ (seen (.keep .marchNative) (options 0 words) ||
        seen (.keep .mcpuNative) (options 0 words) ||
        seen (.keep .mtuneNative) (options 0 words)) = true ∧
      host.archFlags (compiler host job words) (clangName job.compilerName)
        (seen (.keep .marchNative) (options 0 words)) (seen (.keep .mcpuNative) (options 0 words))
        (seen (.keep .mtuneNative) (options 0 words)) = none := by
  have hmarch : l.seenMarchNative = s.seenMarchNative := by rw [hl.frame]
  have hmcpu : l.seenMcpuNative = s.seenMcpuNative := by rw [hl.frame]
  have hmtune : l.seenMtuneNative = s.seenMtuneNative := by rw [hl.frame]
  rw [noNative, hs.located_compiler hl hlocal, hs.located_name hl, hmarch, hmcpu, hmtune, hs.march,
    hs.mcpu, hs.mtune, Bool.and_eq_true, decide_eq_true_eq]

end

/-- A command is built locally for one of the reasons. -/
theorem Analysed.alwaysLocal_iff (h : Analysed host job words t) :
    t.alwaysLocal = true ↔ Reason host job words := by
  obtain ⟨s, l, hs, hl, ht⟩ := h
  have hlocated := hs.located_alwaysLocal hl
  rw [ht.alwaysLocal]
  cases hlocal : l.alwaysLocal with
  | true =>
    simp only [Bool.true_or, true_iff]
    rcases hlocated.mp hlocal with h | h | h | h
    · exact .early h
    · exact .stdinout h
    · exact .twoInputs h
    · exact .input h
  | false =>
    have hnot := hlocated.not.mp (by simp [hlocal])
    rw [hs.located_ofile hl hlocal, Bool.false_or, Bool.or_eq_true, Bool.or_eq_true,
      hs.located_noTarget hl hlocal, hs.located_noNative hl hlocal, unusable, decide_eq_true_eq]
    constructor
    · rintro ((h | h) | h)
      · exact .output h
      · exact .target h.1 h.2.1 h.2.2.1 h.2.2.2
      · exact .native h.1 h.2
    · intro h
      cases h with
      | early h => exact absurd (.inl h) hnot
      | stdinout h => exact absurd (.inr (.inl h)) hnot
      | twoInputs h => exact absurd (.inr (.inr (.inl h))) hnot
      | input h => exact absurd (.inr (.inr (.inr h))) hnot
      | output h => exact .inl (.inl h)
      | target hclang htarget hjoined h => exact .inl (.inr ⟨hclang, htarget, hjoined, h⟩)
      | native hseen h => exact .inr ⟨hseen, h⟩

end Icecream.Client
