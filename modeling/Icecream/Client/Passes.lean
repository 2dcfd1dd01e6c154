import Icecream.Client.Options
import Icecream.Library.Fault

/-!
# The loop over the options

One pass of the loop leaves behind what its option says, or it ends with a fault because the word
that has to follow is missing or because the two lists of options do not agree. A whole run of the
loop leaves behind what all the options say.
-/

namespace Icecream.Client

open Icecream.Comm (Str str ArgumentType ArgumentsList langCustom)
open Icecream.Fault

variable {g : Setting} {host : Host} {s : Scan} {a : Str} {rest : List Str}

theorem compilerIsClang_eq {job : Job} (hname : Path.slash ∉ job.compilerName)
    (hlanguage : job.language ≠ langCustom) :
    compilerIsClang job = .ok (clangName job.compilerName) := by
  rw [compilerIsClang, if_neg hlanguage, if_neg hname]
  rfl

theorem assertArgumentWithSpace_ends :
    Ends (fun _ => isArgumentWithSpace a = false) (fun _ => True) (assertArgumentWithSpace a) := by
  unfold assertArgumentWithSpace
  cases isArgumentWithSpace a with
  | true => exact .pure trivial
  | false => exact .throw rfl

theorem addFile_ends (host : Host) (s : Scan) (file : Str) :
    Ends (fun _ => False) (fun r => ∃ files, r = ({ s with extrafiles := files },
      absoluteName host file)) (addFile host s file) := by
  obtain ⟨name, hname⟩ := Option.isSome_iff_exists.mp (getAbsfilename_isSome host.absolute file)
  simp only [addFile, absoluteName, hname, Option.getD_some]
  exact .pure ⟨_, rfl⟩

theorem operandNext_of_dash {part : Str} (h : s.secondOption = false)
    (hpart : part ≠ str "--debug-prefix-map" ∧ part ≠ str "--defsym") :
    operandNext s.secondOption part = s.secondOption := by
  simp [operandNext, hpart, h]

theorem not_operator_of_listing {part : Str} (h : str "-a" <+: part) :
    part ≠ str "--debug-prefix-map" ∧ part ≠ str "--defsym" := by
  constructor <;> (rintro rfl; exact absurd h (by decide))

theorem analyzeAssemblerArg_ends (host : Host) (s : Scan) (part : Str) :
    Ends (fun _ => False) (fun r => ∃ files, r = ({ s with
      extrafiles := files, secondOption := operandNext s.secondOption part },
      !s.secondOption && assemblerLocal host part, assemblerText host s.secondOption part))
      (analyzeAssemblerArg host s part) := by
  unfold analyzeAssemblerArg
  refine .ite (fun h => .pure ⟨s.extrafiles, ?_⟩) fun hsecond => ?_
  · simp [operandNext, assemblerText, h]
  rw [Bool.not_eq_true] at hsecond
  refine .ite (fun h => .pure ⟨s.extrafiles, ?_⟩) fun hlisting => ?_
  · rw [operandNext_of_dash hsecond (not_operator_of_listing h)]
    refine Prod.ext rfl ?_
    simp [assemblerLocal, assemblerText, h, hsecond]
  refine .ite (fun h => .pure ⟨s.extrafiles, ?_⟩) fun hoperator => ?_
  · have hhead : part.head? = some 45 := h.elim (· ▸ rfl) (· ▸ rfl)
    simp only [operandNext, assemblerLocal, assemblerText, h, hsecond, hlisting, hhead]
    simp
  rw [operandNext_of_dash hsecond (not_or.mp hoperator)]
  refine .ite (fun h => .pure ⟨s.extrafiles, Prod.ext rfl ?_⟩) fun hat => ?_
  · simp [assemblerLocal, assemblerText, h, hsecond, hlisting, hoperator]
  refine .ite (fun h => .pure ⟨s.extrafiles, Prod.ext rfl ?_⟩) fun hdash => ?_
  · simp [assemblerLocal, assemblerText, h, hsecond, hlisting, hoperator]
  refine .ite (fun h => ?_) fun hmissing => .pure ⟨s.extrafiles, Prod.ext rfl ?_⟩
  · refine (addFile_ends host s part).bind fun r hr => .pure ?_
    obtain ⟨files, rfl⟩ := hr
    refine ⟨files, Prod.ext rfl ?_⟩
    simp [assemblerLocal, assemblerText, h, hsecond, hlisting, hoperator, hat, hdash]
  · simp [assemblerLocal, assemblerText, hmissing, hsecond, hlisting, hoperator, hat, hdash]

theorem lastLocal_cons (host : Host) (second : Bool) (part : Str) (parts : List Str) :
    lastLocal host second (part :: parts) =
      if parts = [] then !second && assemblerLocal host part
      else lastLocal host (operandNext second part) parts := by
  cases parts with
  | nil => rfl
  | cons next parts => simp [lastLocal]

theorem assemblerParts_ends (host : Host) (parts : List Str) (s : Scan) (loc : Bool) (text : Str) :
    Ends (fun _ => False) (fun r => ∃ files, r = ({ s with
      extrafiles := files, secondOption := parts.foldl operandNext s.secondOption },
      if parts = [] then loc else lastLocal host s.secondOption parts,
      text ++ (assemblerTexts host s.secondOption parts).flatMap (44 :: ·)))
      (parts.foldlM (assemblerPart host) (s, loc, text)) := by
  induction parts generalizing s loc text with
  | nil => exact .pure ⟨s.extrafiles, by simp [assemblerTexts]⟩
  | cons part parts ih =>
    rw [List.foldlM_cons]
    refine .bind (P := fun r => ∃ files, r = ({ s with
      extrafiles := files, secondOption := operandNext s.secondOption part },
      !s.secondOption && assemblerLocal host part,
      text ++ [44] ++ assemblerText host s.secondOption part)) ?_ ?_
    · refine (analyzeAssemblerArg_ends host s part).bind fun r hr => .pure ?_
      obtain ⟨files, rfl⟩ := hr
      exact ⟨files, rfl⟩
    · rintro r ⟨files, rfl⟩
      refine (ih _ _ _).mono fun r hr => ?_
      obtain ⟨files, rfl⟩ := hr
      refine ⟨files, ?_⟩
      simp [lastLocal_cons, assemblerTexts]

theorem assemblerOption_ends (host : Host) (s : Scan) (a : Str) :
    Ends (fun _ => False) (fun t => ∃ files, t = { s with
      extrafiles := files
      secondOption := (assemblerParts a).foldl operandNext s.secondOption
      alwaysLocal := s.alwaysLocal || lastLocal host s.secondOption (assemblerParts a)
      args := s.args ++ if lastLocal host s.secondOption (assemblerParts a) then [(a, .argLocal)]
        else [(str "-Wa" ++ (assemblerTexts host s.secondOption (assemblerParts a)).flatMap
          (44 :: ·), .argRemote)] }) (assemblerOption host s a) := by
  have hparts : assemblerParts a ≠ [] := List.splitOn_ne_nil _ _
  refine (assemblerParts_ends host (assemblerParts a) s false (str "-Wa")).bind ?_
  rintro r ⟨files, rfl⟩
  simp only [if_neg hparts]
  refine .ite (fun h => .pure ⟨files, ?_⟩) fun h => .pure ⟨files, ?_⟩
  · simp [h, Scan.append]
  · simp [h, Scan.append]

theorem Kind.of_ite {c : Prop} [Decidable c] {x y z : Kind} (h : (if c then x else y) = z)
    (hx : x ≠ z) : y = z := by
  rw [ite_eq_iff] at h
  exact h.elim (fun h => absurd h.2 hx) And.right

theorem optionKind_of_kind {k : Kind} (hk : kind a = k) (hlocal : k ≠ .keepLocal)
    (hplain : k ≠ .plain) : optionKind a = k := by
  rw [kind, ite_eq_iff] at hk
  rcases hk with hk | ⟨-, hk⟩
  · exact hk.2
  · exact absurd (Kind.of_ite hk hlocal.symm) hplain.symm

theorem eq_of_param (hk : kind a = .param) : a = str "--param" := by
  have h := optionKind_of_kind hk (by decide) (by decide)
  by_contra ha
  rw [optionKind] at h
  repeat replace h := Kind.of_ite h (by decide)
  rw [if_neg ha] at h
  repeat replace h := Kind.of_ite h (by decide)
  cases h

theorem eq_of_define (hk : kind a = .define) : a = str "-D" ∨ a = str "-U" := by
  have h := optionKind_of_kind hk (by decide) (by decide)
  by_contra ha
  rw [optionKind] at h
  repeat replace h := Kind.of_ite h (by decide)
  rw [if_neg (by simpa [equalsAny] using ha)] at h
  repeat replace h := Kind.of_ite h (by decide)
  cases h

theorem isArgumentWithSpace_of_kind (hk : kind a = .param ∨ kind a = .define) :
    isArgumentWithSpace a = true := by
  rcases hk with hk | hk
  · rw [eq_of_param hk]
    decide
  · rcases eq_of_define hk with rfl | rfl <;> decide

theorem assertArgumentWithSpace_of (h : isArgumentWithSpace a = true) :
    assertArgumentWithSpace a = pure () := by
  rw [assertArgumentWithSpace, if_pos h]

theorem Scan.appendNext_fst (s : Scan) (rest : List Str) (t : ArgumentType) :
    (s.appendNext rest t).1 = { s with args := s.args ++ (rest.take 1).map fun w => (w, t) } := by
  cases rest with
  | nil => simp [Scan.appendNext]
  | cons next rest => rfl

theorem Scan.appendNext_snd (s : Scan) (rest : List Str) (t : ArgumentType) :
    (s.appendNext rest t).2 = min 1 rest.length := by
  cases rest with
  | nil => rfl
  | cons next rest => exact (min_eq_left (Nat.le_add_left 1 _)).symm

theorem take_min (rest : List Str) : rest.take (min 1 rest.length) = rest.take 1 :=
  List.take_eq_take_min.symm

section Pass

attribute [local simp] gathered contributed forced forces seen outputOf secondAfter languageAfter
  parallelFlto Opt.words taken take_min Scan.append Scan.appendNext_fst Scan.appendNext_snd
  Kind.argumentType

theorem languageOption_passed (h : s.Regular) (hk : kind a = .language) :
    Passed g [(a, rest)] s (languageOption s a rest).1 ∧
      (languageOption s a rest).2 = taken (a, rest) := by
  have harch := h.seenArch
  cases rest with
  | nil =>
    refine ⟨?_, by simp [hk, languageOption]⟩
    constructor <;> simp [hk, languageOption, harch]
  | cons opt rest =>
    cases hlang : languageOf opt with
    | none =>
      refine ⟨?_, by simp [hk, languageOption, hlang]⟩
      constructor <;> simp [hk, languageOption, hlang, harch]
    | some lang =>
      refine ⟨?_, by simp [hk, languageOption, hlang]⟩
      constructor <;> simp [hk, languageOption, hlang, harch]

theorem outputOption_eq (h : s.Regular) (hk : kind a = .output) :
    outputOption s a rest = ({ s with
      ofile := outputOf s.ofile (a, rest)
      alwaysLocal := s.alwaysLocal || forces g.host s.secondOption (a, rest) },
      taken (a, rest)) := by
  have hforces : forces g.host s.secondOption (a, rest) =
      (outputOf [] (a, rest) = str "-" : Bool) := by
    rw [forces]
    simp [hk]
  rw [hforces]
  have htaken : taken (a, rest) = if a = str "-o" then min 1 rest.length else 0 := by
    simp only [taken, hk]
  have hstdout := h.stdout
  rw [htaken, outputOf, outputOf, if_pos hk, if_pos hk]
  unfold outputOption
  by_cases ha : a = str "-o"
  · simp only [if_pos ha]
    cases rest with
    | nil =>
      by_cases hofile : s.ofile = str "-"
      · have hlocal :
            (s.alwaysLocal || decide (([] : List Str).head?.getD [] = str "-")) = true := by
          rw [hstdout hofile, Bool.true_or]
        rw [if_pos hofile, hlocal]
        rfl
      · have hlocal : (s.alwaysLocal || decide (([] : List Str).head?.getD [] = str "-"))
            = s.alwaysLocal := Bool.or_false _
        rw [if_neg hofile, hlocal]
        rfl
    | cons next rest =>
      by_cases hnext : next = str "-" <;> simp [hnext]
  · simp only [if_neg ha]
    by_cases hnext : a.drop 2 = str "-" <;> simp [hnext]

theorem outputOption_passed (h : s.Regular) (hk : kind a = .output) :
    Passed g [(a, rest)] s (outputOption s a rest).1 ∧
      (outputOption s a rest).2 = taken (a, rest) := by
  have harch := h.seenArch
  rw [outputOption_eq (g := g) h hk]
  refine ⟨?_, rfl⟩
  constructor <;> simp [hk, harch]

theorem prefix_of_file (hk : kind a = .file) : prefixes.find? (· <+: a) ≠ none := by
  have h := optionKind_of_kind hk (by decide) (by decide)
  intro hnone
  have hany : ¬ prefixes.any (· <+: a) = true := by simpa using hnone
  rw [optionKind] at h
  repeat replace h := Kind.of_ite h (by decide)
  rw [if_neg hany] at h
  repeat replace h := Kind.of_ite h (by decide)
  cases h

theorem fltoOption_eq (rest : List Str) (h : s.Regular) (hk : kind a = .flto) :
    fltoOption s a = pure { s with
      args := s.args ++ [(a, .argRest)]
      seenParallelFlto := if parallelFlto (clangName s.job.compilerName) (a, rest) then a
        else s.seenParallelFlto } := by
  have hclang : compilerIsClang (s.append a .argRest).job = .ok (clangName s.job.compilerName) :=
    compilerIsClang_eq h.name h.language
  cases hname : clangName s.job.compilerName with
  | true =>
    rw [hname] at hclang
    simp only [fltoOption, hclang, parallelFlto, hk]
    rfl
  | false =>
    rw [hname] at hclang
    simp only [fltoOption, hclang, parallelFlto, hk]
    change (if _ then _ else _) = _
    by_cases ha : a ≠ str "-flto" ∧ a ≠ str "-flto=1"
    · rw [if_pos ha, decide_eq_true ha]
      rfl
    · rw [if_neg ha, decide_eq_false ha]
      rfl

theorem fileOption_ends (host : Host) (s : Scan) (a : Str) (hk : kind a = .file) :
    Ends (fun _ => False) (fun t => ∃ files, t = { s with
      extrafiles := files
      alwaysLocal := s.alwaysLocal || forces host s.secondOption (a, [])
      args := s.args ++ [(fileArgument host a, .argRest)] }) (fileOption host s a) := by
  unfold fileOption fileArgument forces
  cases hfind : prefixes.find? (· <+: a) with
  | none => exact absurd hfind (prefix_of_file hk)
  | some head =>
    simp only [hk, Option.getD_some]
    refine .ite (fun hreadable => ?_) fun hreadable => .pure ⟨s.extrafiles, ?_⟩
    · refine (addFile_ends host s _).bind fun r hr => .pure ?_
      obtain ⟨files, rfl⟩ := hr
      exact ⟨files, by simp [hreadable]⟩
    · simp [hreadable]

theorem pluginOption_ends (host : Host) (s : Scan) (a p next file : Str) :
    Ends (fun _ => False) (fun t => ∃ files, t = { s with
      extrafiles := files
      alwaysLocal := s.alwaysLocal || !host.readable file
      args := s.args ++ [(a, .argRest), (p, .argRest), (next, .argRest),
        (if host.readable file then absoluteName host file else file, .argRest)] })
      (pluginOption host s a p next file) := by
  refine .ite (fun hreadable => ?_) fun hreadable => .pure ⟨s.extrafiles, ?_⟩
  · refine (addFile_ends host _ file).bind fun r hr => .pure ?_
    obtain ⟨files, rfl⟩ := hr
    exact ⟨files, by simp [hreadable]⟩
  · simp [hreadable]

theorem xclangOption_ends (host : Host) (s : Scan) (hk : kind a = .xclang) :
    Ends (fun _ => False) (fun r => ∃ files, r = ({ s with
      extrafiles := files
      alwaysLocal := s.alwaysLocal || xclangForces host rest
      args := s.args ++ (xclangArguments host a rest).map fun w => (w, .argRest) },
      taken (a, rest))) (xclangOption host s a rest) := by
  unfold xclangOption xclangForces xclangArguments
  simp only [taken, hk]
  cases rest with
  | nil => exact .pure ⟨s.extrafiles, by simp⟩
  | cons p rest =>
    refine .ite (fun hload => ?_) fun hload => .pure ⟨s.extrafiles, ?_⟩
    · cases rest with
      | nil => exact .pure ⟨s.extrafiles, by simp [hload]⟩
      | cons next rest =>
        cases rest with
        | nil => exact .pure ⟨s.extrafiles, by simp [hload]⟩
        | cons file rest =>
          refine .ite (fun hnext => ?_) fun hnext =>
            .pure ⟨s.extrafiles, by simp [hload, hnext]⟩
          refine (pluginOption_ends host s a p next file).bind fun t ht => .pure ?_
          obtain ⟨files, rfl⟩ := ht
          exact ⟨files, by simp [hload, hnext]⟩
    · by_cases hpch : p = str "-building-pch-with-obj"
      · simp [hload, if_pos hpch, decide_eq_true hpch]
      · simp [hload, hpch]

/-- One pass of the loop -/
theorem argument_ends (g : Setting) (a : Str) (rest : List Str) (h : s.Regular) :
    Ends (fun _ => ¬ Opt.Sound (a, rest))
      (fun r => Passed g [(a, rest)] s r.1 ∧ r.2 = taken (a, rest)) (argument g s a rest) := by
  have harch := h.seenArch
  cases hk : kind a
  all_goals simp only [argument, hk]
  case forceLocal | assemble | compile | keepLocal | keepCpp | colorAuto | plain =>
    refine .pure ⟨?_, by simp [hk]⟩
    constructor <;> simp [hk, harch]
  case keep n =>
    refine .pure ⟨?_, by simp [hk]⟩
    cases n <;> constructor <;> simp [hk, Scan.note, harch]
  case dependencies =>
    refine .ite (fun _ => .pure ⟨?_, by simp [hk]⟩) fun _ => .pure ⟨?_, by simp [hk]⟩
    all_goals constructor <;> simp [hk, harch]
  case dependencyOption file =>
    cases rest with
    | nil => exact .throw (by simp [Opt.Sound, hk])
    | cons next rest =>
      refine .pure ⟨?_, by simp [hk]⟩
      cases file <;> constructor <;> simp [hk, harch]
  case param | define =>
    rw [assertArgumentWithSpace_of (isArgumentWithSpace_of_kind (by simp [hk]))]
    refine .pure ⟨?_, by simp [hk]⟩
    constructor <;> simp [hk, harch]
  case target | arch =>
    refine .pure ⟨?_, by simp [hk]⟩
    constructor <;> simp [hk, harch]
  case path =>
    refine .ite (fun ha => ?_) fun ha => .pure ⟨?_, by simp [hk, ha]⟩
    · rw [assertArgumentWithSpace_of (by rw [ha]; decide)]
      refine .pure ⟨?_, by simp [hk, if_pos ha]⟩
      constructor <;> simp [hk, if_pos ha, harch]
    · constructor <;> simp [hk, ha, harch]
  case other =>
    refine .ite (fun ha => .pure ⟨?_, by simp [hk, ha]⟩) fun ha =>
      .pure ⟨?_, by simp [hk, ha]⟩
    all_goals constructor <;> simp [hk, ha, harch]
  case language => exact .pure (languageOption_passed h hk)
  case output => exact .pure (outputOption_passed h hk)
  case assembler =>
    refine ((assemblerOption_ends g.host s a).weaken fun _ h => h.elim).bind fun t ht => .pure ?_
    obtain ⟨files, rfl⟩ := ht
    refine ⟨?_, by simp [hk]⟩
    constructor <;> simp [hk, harch]
  case directory =>
    refine (assertArgumentWithSpace_ends.weaken fun _ h => ?_).bind fun _ _ => ?_
    · simp [Opt.Sound, hk, h]
    have himacros : ∀ (t : Scan), (if a = str "-imacros" then { t with seenImacros := true } else t)
        = { t with seenImacros := t.seenImacros || a = str "-imacros" } := by
      intro t
      split_ifs with ha <;> simp [ha]
    rw [himacros]
    cases rest with
    | nil =>
      refine .pure ⟨?_, by simp [hk]⟩
      constructor <;> simp [hk, harch]
    | cons next rest =>
      refine .pure ⟨?_, by simp [hk]⟩
      by_cases hnext : str "-O" <+: next
      all_goals constructor <;> simp [hk, hnext, harch]
  case file =>
    refine ((fileOption_ends g.host s a hk).weaken fun _ h => h.elim).bind fun t ht => .pure ?_
    obtain ⟨files, rfl⟩ := ht
    refine ⟨?_, by simp [hk]⟩
    constructor <;> simp [hk, harch]
  case xclang =>
    refine ((xclangOption_ends g.host s hk).weaken fun _ h => h.elim).mono fun t ht => ?_
    obtain ⟨files, rfl⟩ := ht
    refine ⟨?_, rfl⟩
    constructor <;> simp [hk, harch]
  case flto =>
    have hnil : a ≠ [] := by
      rintro rfl
      cases hk
    rw [fltoOption_eq rest h hk]
    refine .pure ⟨?_, by simp [hk]⟩
    constructor <;> simp [hk, harch]
    split_ifs with hflto <;> simp [hflto, hnil]

end Pass

/-- A pass that comes to its end has found the word it needs. -/
theorem argument_sound :
    Ends (fun _ => True) (fun _ => Opt.Sound (a, rest)) (argument g s a rest) := by
  by_cases hsound : Opt.Sound (a, rest)
  · exact .any fun _ => hsound
  simp only [Opt.Sound] at hsound
  cases hk : kind a
  case dependencyOption file =>
    rw [hk] at hsound
    simp only [argument, hk, not_ne_iff.mp hsound]
    exact .throw trivial
  case directory =>
    rw [hk, Bool.not_eq_true] at hsound
    simp only [argument, hk, directoryOption, assertArgumentWithSpace, hsound]
    exact .throw trivial
  all_goals
    rw [hk] at hsound
    exact absurd trivial hsound

theorem taken_le {o : Opt} (h : o.Sound) : taken o ≤ o.2.length := by
  have hmin : min 1 o.2.length ≤ o.2.length := min_le_right _ _
  cases hk : kind o.1
  case dependencyOption file =>
    simp only [Opt.Sound, hk] at h
    simp only [taken, hk]
    exact List.length_pos_iff.mpr h
  case xclang =>
    simp only [taken, hk]
    split_ifs with hplugin
    · exact hplugin.2.2
    · exact hmin
  case path | output | other =>
    simp only [taken, hk]
    split_ifs
    · exact hmin
    · exact Nat.zero_le _
  case param | language | define | directory | target | arch => simpa only [taken, hk] using hmin
  all_goals
    simp only [taken, hk]
    exact Nat.zero_le _

section Run

variable {os ps : List Opt} {t u : Scan} {o : Opt}

theorem Passed.nil (h : s.seenArch = false) : Passed g [] s s := by
  constructor <;> simp [gathered, forced, seen, h]

theorem gathered_append (second : Bool) :
    gathered g second (os ++ ps) =
      gathered g second os ++ gathered g (os.foldl secondAfter second) ps := by
  induction os generalizing second with
  | nil => rfl
  | cons o os ih =>
    rw [List.cons_append, gathered, gathered, ih, List.append_assoc, List.foldl_cons]

theorem forced_append (second : Bool) :
    forced host second (os ++ ps) =
      (forced host second os || forced host (os.foldl secondAfter second) ps) := by
  induction os generalizing second with
  | nil => rfl
  | cons o os ih => rw [List.cons_append, forced, forced, ih, Bool.or_assoc, List.foldl_cons]

theorem seen_append (k : Kind) : seen k (os ++ ps) = (seen k os || seen k ps) := List.any_append

theorem Passed.append (hs : Passed g os s t) (ht : Passed g ps t u) : Passed g (os ++ ps) s u := by
  have hname : t.job.compilerName = s.job.compilerName := by rw [hs.job]
  constructor
  case args => rw [ht.args, hs.args, hs.secondOption, gathered_append, List.append_assoc]
  case alwaysLocal =>
    rw [ht.alwaysLocal, hs.alwaysLocal, hs.secondOption, forced_append, Bool.or_assoc]
  case ofile => rw [ht.ofile, hs.ofile, List.foldl_append]
  case secondOption => rw [ht.secondOption, hs.secondOption, List.foldl_append]
  case seenArch => exact ht.seenArch
  case job => rw [ht.job, hs.job, List.foldl_append]
  case seenC => rw [ht.seenC, hs.seenC, seen_append, Bool.or_assoc]
  case seenS => rw [ht.seenS, hs.seenS, seen_append, Bool.or_assoc]
  case seenTarget =>
    rw [ht.seenTarget, hs.seenTarget, seen_append, seen_append]
    ac_rfl
  case march => rw [ht.march, hs.march, seen_append, Bool.or_assoc]
  case mcpu => rw [ht.mcpu, hs.mcpu, seen_append, Bool.or_assoc]
  case mtune => rw [ht.mtune, hs.mtune, seen_append, Bool.or_assoc]
  case flto => rw [ht.flto, hs.flto, hname, List.any_append, Bool.or_eq_true, or_assoc]

theorem languageOf_supported {opt : Str} {lang : UInt32} (h : languageOf opt = some lang) :
    lang ≠ langCustom := by
  unfold languageOf at h
  split_ifs at h
  all_goals
    cases h
    decide

theorem Scan.Regular.of_passed (h : s.Regular) (hp : Passed g [o] s t) : t.Regular where
  name := by
    rw [hp.job]
    exact h.name
  language := by
    rw [hp.job]
    simp only [List.foldl_cons, List.foldl_nil, languageAfter]
    split_ifs
    · cases hlang : o.2.head?.bind languageOf with
      | none => exact h.language
      | some lang =>
        obtain ⟨opt, -, hopt⟩ := Option.bind_eq_some_iff.mp hlang
        exact languageOf_supported hopt
    · exact h.language
  seenArch := hp.seenArch
  stdout := by
    rw [hp.ofile, hp.alwaysLocal]
    intro hstdout
    by_cases hout : kind o.1 = .output
    · have hforces : forces g.host s.secondOption o = (outputOf [] o = str "-" : Bool) := by
        rw [forces, hout]
      rw [List.foldl_cons, List.foldl_nil, outputOf, if_pos hout] at hstdout
      rw [forced, hforces, outputOf, if_pos hout]
      split_ifs at hstdout ⊢
      · cases hnext : o.2.head? with
        | none =>
          rw [hnext] at hstdout
          rw [h.stdout hstdout, Bool.true_or]
        | some next =>
          rw [hnext, Option.getD_some] at hstdout
          simp [hstdout]
      · simp [hstdout]
    · rw [List.foldl_cons, List.foldl_nil, outputOf, if_neg hout] at hstdout
      rw [h.stdout hstdout, Bool.true_or]

end Run

/-- The loop over the words, the first `n` of which belong to an option before them -/
theorem scan_ends {n : ℕ} {words : List Str} (hn : n ≤ words.length) (h : s.Regular) :
    Ends (fun _ => ∃ o ∈ options n words, ¬ o.Sound)
      (fun t => Passed g (options n words) s t ∧ t.Regular ∧ ∀ o ∈ options n words, o.Sound)
      (scan g n words s) := by
  induction words generalizing n s with
  | nil =>
    rw [List.length_nil, Nat.le_zero] at hn
    subst hn
    exact .pure ⟨.nil h.seenArch, h, fun _ => False.elim ∘ List.not_mem_nil⟩
  | cons a rest ih =>
    cases n with
    | succ n => exact ih (Nat.le_of_succ_le_succ hn) h
    | zero =>
      have hpass := (argument_ends g a rest h).and argument_sound
      refine (hpass.weaken fun _ hunsound => ⟨_, List.mem_cons_self, hunsound⟩).bind ?_
      rintro ⟨t, m⟩ ⟨⟨hpassed, rfl⟩, hsound⟩
      refine ((ih (taken_le hsound) (h.of_passed hpassed)).weaken ?_).mono ?_
      · rintro _ ⟨o, ho, hunsound⟩
        exact ⟨o, List.mem_cons_of_mem _ ho, hunsound⟩
      · rintro u ⟨hrun, hregular, hall⟩
        exact ⟨hpassed.append hrun, hregular, List.forall_mem_cons.mpr ⟨hsound, hall⟩⟩

end Icecream.Client
