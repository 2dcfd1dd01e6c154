import Icecream.Client.Judgements

/-!
# What `build_local` executes

The words of the command in their order, with the mode, the input file and the output file at the
end, and with the few arguments that the analysis adds.
-/

namespace Icecream.Client

open Icecream.Comm (Str str ArgumentType ArgumentsList CompileJob)
open Icecream.Fault

variable {host : Host} {job : Job} {argv words : List Str} {extrafiles : List Str} {icerun : Bool}
  {s t : Scan} {os : List Opt} {second : Bool} {o : Opt} {a : Str}

/-- `CompileJob::allFlags` -/
def allFlags (job : CompileJob) : List Str := job.flags.map Prod.fst

/-- The arguments of `build_local`, if there is a compiler. -/
def localArguments (host : Host) (job : Job) : Option (List Str) :=
  let compilerName := findCompiler host job
  if compilerName = [] then none
  else
    let arguments := compilerName :: allFlags job.toCompileJob
    let arguments := if job.inputFile = [] then arguments else arguments ++ [job.inputFile]
    let arguments :=
      if job.outputFile = [] then arguments else arguments ++ [str "-o", job.outputFile]
    -- It is pointless locally.
    some (arguments.filter (· ≠ str "-fdirectives-only"))

/-! ## What becomes of the words -/

/-- The option for the assembler, with the absolute names of files unless the command is built
locally for its sake -/
def assemblerWord (host : Host) (second : Bool) (a : Str) : Str :=
  if lastLocal host second (assemblerParts a) then a
  else str "-Wa" ++ (assemblerTexts host second (assemblerParts a)).flatMap (44 :: ·)

/-- The words behind `-Xclang`, with the absolute name of a plugin -/
def xclangWords (host : Host) (o : Opt) : List Str :=
  match o.2 with
  | p :: next :: file :: _ =>
    if p = str "-load" then
      [o.1, p, next, if host.readable file then absoluteName host file else file]
    else o.words
  | _ => o.words

/-- The words of an option where they stand. The mode, the output file and
`-fdiagnostics-color=auto` are left out. -/
def keptWords (host : Host) (second : Bool) (o : Opt) : List Str :=
  match kind o.1 with
  | .assemble | .compile | .output | .colorAuto => []
  | .assembler => [assemblerWord host second o.1]
  | .file => [fileArgument host o.1]
  | .xclang => xclangWords host o
  | _ => o.words

def kept (host : Host) : Bool → List Opt → List Str
  | _, [] => []
  | second, o :: os => keptWords host second o ++ kept host (secondAfter second o) os

/-- One `-S` or `-c` -/
def modeWords (os : List Opt) : List Str :=
  if seen .assemble os then [str "-S"] else if seen .compile os then [str "-c"] else []

/-- The first flag that depends on the machine is replaced, the others are removed. -/
def expand (archArgs : List Str) : List Str → List Str
  | [] => []
  | a :: rest =>
    if isNative a then archArgs ++ rest.filter fun a => ¬ isNative a
    else a :: expand archArgs rest

/-- An `-Xclang` has the operand that it needs. -/
def Opt.Complete (o : Opt) : Prop :=
  kind o.1 = .xclang → o.2 ≠ [] ∧
    (o.2.head? = some (str "-load") → o.2[1]? = some (str "-Xclang") ∧ 3 ≤ o.2.length)

/-- A word, unless it is empty -/
def single (a : Str) : List Str := if a = [] then [] else [a]

/-- How the words of the options are rearranged: the input file that is found is taken out, a few
arguments are added, and the flags that depend on the machine may be expanded. -/
structure Rearrangement (host : Host) (os : List Opt) where
  found : Str
  before : List Str
  after : List Str
  dependency : List Str
  colour : List Str
  target : List Str
  flags : List Str
  output : Str
  kept_eq : kept host false os ++ modeWords os = before ++ single found ++ after
  found_input : found = [] ∨ isInput (found, .argRest) = true
  dependency_eq : dependency = [] ∨ ∃ file, dependency = [str "-MF", file]
  colour_eq : colour = [] ∨ colour = [str "-fcolor-diagnostics"] ∨
    colour = [str "-fdiagnostics-color"]
  target_eq : target = [] ∨ ∃ name, target = [str "-target", name]
  flags_eq : flags = before ++ after ++ dependency ++ colour ++ target ∨
    ∃ archArgs, flags = expand archArgs (before ++ after ++ dependency ++ colour ++ target)
  output_eq : output = os.foldl outputOf [] ∨
    os.foldl outputOf [] = [] ∧ output = outputFor (seen .assemble os) found

/-- The words that are executed, without `-fdirectives-only` -/
def Rearrangement.executed (r : Rearrangement host os) (compiler : Str) : List Str :=
  (compiler :: (r.flags ++ single r.found ++
    if r.output = [] then [] else [str "-o", r.output])).filter (· ≠ str "-fdirectives-only")

theorem words_of_not_load {p : Str} {rest : List Str} (hk : kind a = .xclang)
    (hp : p ≠ str "-load") : Opt.words (a, p :: rest) = [a, p] := by
  have htaken : taken (a, p :: rest) = 1 := by simp [taken, hk, hp]
  rw [Opt.words, htaken]
  rfl

theorem xclangArguments_words {rest : List Str} (hk : kind a = .xclang)
    (h : Opt.Complete (a, rest)) : xclangArguments host a rest = xclangWords host (a, rest) := by
  obtain ⟨hnil, hload⟩ := h hk
  match rest with
  | [] => exact absurd rfl hnil
  | p :: rest =>
    by_cases hp : p = str "-load"
    · obtain ⟨hnext, hlength⟩ := hload (congrArg some hp)
      match rest with
      | [] => exact absurd hlength (by simp)
      | [_] => exact absurd hlength (by simp)
      | next :: file :: rest =>
        have hnext : next = str "-Xclang" := Option.some.inj hnext
        simp only [xclangArguments, xclangWords, if_pos hp, if_pos hnext]
    · simp only [xclangArguments, if_neg hp]
      match rest with
      | [] => exact (words_of_not_load hk hp).symm
      | [_] => exact (words_of_not_load hk hp).symm
      | _ :: _ :: _ =>
        simp only [xclangWords, if_neg hp]
        exact (words_of_not_load hk hp).symm

theorem contributed_words (g : Setting) (second : Bool) (h : o.Complete) :
    (contributed g second o).map Prod.fst = keptWords g.host second o := by
  have hwords (t : ArgumentType) : (o.words.map fun w => (w, t)).map Prod.fst = o.words := by
    rw [List.map_map]
    exact List.map_id _
  cases hk : kind o.1
  case xclang =>
    simp only [contributed, keptWords, hk]
    rw [List.map_map, xclangArguments_words hk h]
    exact List.map_id _
  case assembler =>
    simp only [contributed, keptWords, hk, assemblerWord]
    split_ifs <;> rfl
  case file => simp only [contributed, keptWords, hk, List.map_cons, List.map_nil]
  case assemble | compile | output | colorAuto =>
    simp only [contributed, keptWords, hk, List.map_nil]
  all_goals simp only [contributed, keptWords, hk, hwords]

theorem gathered_words (g : Setting) (second : Bool) (h : ∀ o ∈ os, o.Complete) :
    (gathered g second os).map Prod.fst = kept g.host second os := by
  induction os generalizing second with
  | nil => rfl
  | cons o os ih =>
    rw [gathered, kept, List.map_append, contributed_words g second (h o List.mem_cons_self),
      ih _ fun p hp => h p (List.mem_cons_of_mem _ hp)]

theorem modeArgument_words (os : List Opt) : (modeArgument os).map Prod.fst = modeWords os := by
  unfold modeArgument modeWords
  split_ifs <;> rfl

theorem expandNative_words (archArgs : List Str) (args : ArgumentsList) :
    (expandNative archArgs args).map Prod.fst = expand archArgs (args.map Prod.fst) := by
  induction args with
  | nil => rfl
  | cons f rest ih =>
    rw [expandNative, List.map_cons, expand]
    split_ifs
    · simp [List.map_map, List.filter_map, Function.comp_def]
    · rw [List.map_cons, ih]

theorem filter_expand {p : Str → Bool} (hp : ∀ a, isNative a = true → p a = true)
    (archArgs words : List Str) :
    (expand archArgs words).filter p = expand (archArgs.filter p) (words.filter p) := by
  induction words with
  | nil => rfl
  | cons a words ih =>
    rw [expand]
    split_ifs with hnative
    · rw [List.filter_cons_of_pos (hp a hnative), expand, if_pos hnative, List.filter_append,
        List.filter_filter, List.filter_filter]
      simp only [Bool.and_comm]
    · by_cases ha : p a = true
      · rw [List.filter_cons_of_pos ha, List.filter_cons_of_pos ha, expand, if_neg hnative, ih]
      · rw [List.filter_cons_of_neg ha, List.filter_cons_of_neg ha, ih]

theorem not_skip_native {a : Str} (h : isNative a = true) :
    (a ≠ str "-fdirectives-only" : Bool) = true := by
  rcases isNative_iff.mp h with rfl | rfl | rfl <;> decide

theorem localArguments_eq {executed : List Str} (h : localArguments host job = some executed) :
    executed = (findCompiler host job :: (allFlags job.toCompileJob ++ single job.inputFile ++
      if job.outputFile = [] then [] else [str "-o", job.outputFile])).filter
        (· ≠ str "-fdirectives-only") := by
  simp only [localArguments] at h
  by_cases hcompiler : findCompiler host job = []
  · rw [if_pos hcompiler] at h
    cases h
  · rw [if_neg hcompiler, Option.some.injEq] at h
    rw [← h, single]
    split_ifs <;> simp

theorem Removed.texts {found : Str} {args left : ArgumentsList} (h : Removed [] found args left) :
    ∃ before after, args.map Prod.fst = before ++ single found ++ after ∧
      left.map Prod.fst = before ++ after ∧ (found = [] ∨ isInput (found, .argRest) = true) := by
  rcases h with ⟨rfl, rfl⟩ | ⟨-, hinput, before, after, rfl, rfl⟩
  · exact ⟨left.map Prod.fst, [], by simp [single], by simp, .inl rfl⟩
  · have hnil : found ≠ [] := by
      rintro rfl
      exact absurd hinput (by decide)
    exact ⟨before.map Prod.fst, after.map Prod.fst, by simp [single, hnil], by simp, .inr hinput⟩

theorem IsDependency.texts {args : ArgumentsList} (h : IsDependency args) :
    args.map Prod.fst = [] ∨ ∃ file, args.map Prod.fst = [str "-MF", file] := by
  rcases h with rfl | ⟨file, rfl⟩
  · exact .inl rfl
  · exact .inr ⟨file, rfl⟩

theorem IsColour.texts {args : ArgumentsList} (h : IsColour args) :
    args.map Prod.fst = [] ∨ args.map Prod.fst = [str "-fcolor-diagnostics"] ∨
      args.map Prod.fst = [str "-fdiagnostics-color"] := by
  rcases h with rfl | rfl | rfl
  · exact .inl rfl
  · exact .inr (.inl rfl)
  · exact .inr (.inr rfl)

theorem IsTarget.texts {args : ArgumentsList} (h : IsTarget args) :
    args.map Prod.fst = [] ∨ ∃ name, args.map Prod.fst = [str "-target", name] := by
  rcases h with rfl | ⟨name, rfl⟩
  · exact .inl rfl
  · exact .inr ⟨name, rfl⟩

theorem IsDirectivesOnly.texts {args : ArgumentsList} (h : IsDirectivesOnly args) :
    (args.map Prod.fst).filter (· ≠ str "-fdirectives-only") = [] := by
  rcases h with rfl | rfl <;> rfl

/-- What is left of the arguments when `-fdirectives-only` is left out -/
theorem Finished.texts {l : Scan} (h : Finished host l t) {kept : List Str}
    (hkept : l.args.map Prod.fst = kept) : ∃ colour target flags,
    (colour = [] ∨ colour = [str "-fcolor-diagnostics"] ∨ colour = [str "-fdiagnostics-color"]) ∧
    (target = [] ∨ ∃ name, target = [str "-target", name]) ∧
    (flags = kept ++ colour ++ target ∨
      ∃ archArgs, flags = expand archArgs (kept ++ colour ++ target)) ∧
    (t.args.map Prod.fst).filter (· ≠ str "-fdirectives-only") =
      flags.filter (· ≠ str "-fdirectives-only") := by
  obtain ⟨colour, directives, target, hcolour, hdirectives, htarget, hargs⟩ := h.args
  have hdrop := hdirectives.texts
  have hsame : ((l.args ++ colour ++ directives ++ target).map Prod.fst).filter
      (· ≠ str "-fdirectives-only") =
        (kept ++ colour.map Prod.fst ++ target.map Prod.fst).filter
          (· ≠ str "-fdirectives-only") := by
    simp only [List.map_append, List.filter_append, hdrop, hkept, List.append_nil]
  rcases hargs with hargs | ⟨archArgs, hargs⟩
  · exact ⟨_, _, _, hcolour.texts, htarget.texts, .inl rfl, by rw [hargs, hsame]⟩
  · refine ⟨_, _, _, hcolour.texts, htarget.texts, .inr ⟨archArgs, rfl⟩, ?_⟩
    rw [hargs, expandNative_words, filter_expand fun _ => not_skip_native, hsame,
      filter_expand fun _ => not_skip_native]

theorem Analysed.rearranged (h : Analysed host job words t) (hfile : job.inputFile = [])
    (hcomplete : ∀ o ∈ options 0 words, o.Complete) {executed : List Str}
    (hexecuted : localArguments host t.job = some executed) :
    ∃ r : Rearrangement host (options 0 words),
      executed = r.executed (findCompiler host t.job) := by
  obtain ⟨s, l, hs, hl, ht⟩ := h
  obtain ⟨left, added, found, hargs, hdependency, hremoved, hinput, hsource⟩ := hl.args
  obtain ⟨before, after, hwords, hleft, hfound⟩ := hremoved.texts
  have hkept : kept host false (options 0 words) ++ modeWords (options 0 words) =
      before ++ single found ++ after := by
    rw [← hwords, hs.args, collected, List.map_append, modeArgument_words,
      gathered_words _ _ hcomplete]
    rfl
  have hadded : l.args.map Prod.fst = before ++ after ++ added.map Prod.fst := by
    rw [hargs, List.map_append, hleft]
  obtain ⟨colour, target, flags, hcolour, htarget, hflags, hfilter⟩ := ht.texts hadded
  have houtput : l.ofile = (options 0 words).foldl outputOf [] ∨
      (options 0 words).foldl outputOf [] = [] ∧
        l.ofile = outputFor (seen .assemble (options 0 words)) found := by
    rw [hl.ofile, hs.ofile, hs.seenS]
    split_ifs with hboth
    · exact .inr ⟨hboth.2, by rw [hsource hboth.1]⟩
    · exact .inl rfl
  have hinputFile : t.job.inputFile = found := by
    rw [ht.job]
    refine hinput ?_
    rw [hs.job]
    exact hfile
  refine ⟨⟨found, before, after, added.map Prod.fst, colour, target, flags, l.ofile, hkept, hfound,
    hdependency.texts, hcolour, htarget, hflags, houtput⟩, ?_⟩
  have hflags : allFlags t.job.toCompileJob = t.args.map Prod.fst := by
    rw [ht.job]
    rfl
  have houtputFile : t.job.outputFile = l.ofile := by rw [ht.job]
  rw [localArguments_eq hexecuted, hinputFile, hflags, houtputFile, Rearrangement.executed]
  simp only [List.filter_cons, List.filter_append, hfilter]

/-- The options are made of the words of the command. -/
theorem options_words {n : ℕ} (hn : n ≤ words.length) (h : ∀ o ∈ options n words, o.Sound) :
    (options n words).flatMap Opt.words = words.drop n := by
  induction words generalizing n with
  | nil => simp [options]
  | cons a rest ih =>
    cases n with
    | succ n => exact ih (Nat.le_of_succ_le_succ hn) h
    | zero =>
      rw [options, List.forall_mem_cons] at h
      rw [options, List.flatMap_cons, ih (taken_le h.1) h.2, Opt.words, List.drop_zero,
        List.cons_append, List.take_append_drop]

theorem verbatim_flags (name : Str) : allFlags
    (verbatim name words job extrafiles).job.toCompileJob ++
      single (verbatim name words job extrafiles).job.inputFile = words := by
  change (words.map fun a => (a, ArgumentType.argLocal)).map Prod.fst ++ [] = words
  rw [List.append_nil, List.map_map]
  exact List.map_id _

end Icecream.Client
