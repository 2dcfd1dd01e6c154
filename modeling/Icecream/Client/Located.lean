import Icecream.Client.Reasons
import Icecream.Client.Passes

/-!
# What the search for the input file leaves behind

The input file is taken out of the arguments, and its name gives the language, the output file and
the file for the dependencies. The search is left out for a job that is already local.
-/

namespace Icecream.Client

open Icecream.Comm (Str str rfind ArgumentType ArgumentsList langCustom)
open Icecream.Fault
open Icecream.Services (findBasename)

variable {s t : Scan} {ifile : Str} {dotIndex : ℕ}

/-- `-MF` and a file -/
def IsDependency (args : ArgumentsList) : Prop :=
  args = [] ∨ ∃ file, args = [(str "-MF", .argLocal), (file, .argLocal)]

/-- The file has an extension that is not known. -/
def unknownExtension (file : Str) : Bool :=
  (rfind file 46 none).any fun dotIndex => extensionLanguage (file.drop (dotIndex + 1)) = none

/-- What the name of the input file leads to -/
structure Named (ifile : Str) (s t : Scan) : Prop where
  alwaysLocal : t.alwaysLocal = (s.alwaysLocal || unknownExtension ifile)
  ofile : t.ofile =
    if t.alwaysLocal = false ∧ s.ofile = [] then outputFor s.seenS ifile else s.ofile
  args : ∃ added, t.args = s.args ++ added ∧ IsDependency added
  language : t.alwaysLocal = false → t.job.language = languageFor s.job.language ifile
  supported : s.job.language ≠ langCustom → t.job.language ≠ langCustom
  job : t.job = { s.job with language := t.job.language }
  frame : t = { s with
    job := t.job, args := t.args, ofile := t.ofile, alwaysLocal := t.alwaysLocal }

theorem extensionLanguage_supported {ext : Str} {lang : UInt32}
    (h : extensionLanguage ext = some (some lang)) : lang ≠ langCustom := by
  unfold extensionLanguage at h
  split_ifs at h
  case pos | pos | pos =>
    cases h
    decide
  case pos => cases h

theorem dependencyFile_named (s : Scan) :
    ∃ added, dependencyFile s = { s with args := s.args ++ added } ∧ IsDependency added := by
  unfold dependencyFile
  split_ifs
  · refine ⟨[(str "-MF", .argLocal), (s.ofile.take ((rfind s.ofile 46 none).getD s.ofile.length) ++
      str ".d", .argLocal)], ?_, .inr ⟨_, rfl⟩⟩
    simp only [Scan.append, List.append_assoc, List.cons_append, List.nil_append]
  · exact ⟨[], by rw [List.append_nil], .inl rfl⟩

theorem inputExtension_eq (s : Scan) (ifile : Str) (dotIndex : ℕ) :
    inputExtension s ifile dotIndex = { s with
      alwaysLocal := s.alwaysLocal || extensionLanguage (ifile.drop (dotIndex + 1)) = none
      job := { s.job with language :=
        (extensionLanguage (ifile.drop (dotIndex + 1))).join.getD s.job.language } } := by
  unfold inputExtension
  match extensionLanguage (ifile.drop (dotIndex + 1)) with
  | none => simp
  | some none => simp
  | some (some lang) => simp

theorem outputName_eq (s : Scan) (ifile : Str) (dotIndex : ℕ) :
    outputName s ifile dotIndex = { s with
      ofile := if s.alwaysLocal = false ∧ s.ofile = [] then
        findBasename (ifile.take dotIndex ++ if s.seenS then str ".s" else str ".o")
      else s.ofile } := by
  unfold outputName
  split_ifs <;> simp_all

theorem inputNames_named (s : Scan) (ifile : Str) : Named ifile s (inputNames s ifile) := by
  unfold inputNames
  cases hdot : rfind ifile 46 none with
  | none =>
    have hout : outputFor s.seenS ifile = [] := by rw [outputFor, hdot]
    constructor
    case alwaysLocal => simp [unknownExtension, hdot]
    case ofile =>
      rw [hout]
      split_ifs with hofile
      · exact hofile.2
      · rfl
    case args => exact ⟨[], (List.append_nil _).symm, .inl rfl⟩
    case language => simp [languageFor, hdot]
    case supported => exact id
    all_goals rfl
  | some dotIndex =>
    obtain ⟨added, hadded, hdependency⟩ :=
      dependencyFile_named (outputName (inputExtension s ifile dotIndex) ifile dotIndex)
    simp only [hadded]
    rw [outputName_eq, inputExtension_eq]
    have hunknown : unknownExtension ifile =
        (extensionLanguage (ifile.drop (dotIndex + 1)) = none : Bool) := by
      rw [unknownExtension, hdot, Option.any_some]
    constructor
    case alwaysLocal => rw [hunknown]
    case ofile => simp only [outputFor, hdot]
    case args => exact ⟨added, rfl, hdependency⟩
    case language =>
      intro _
      simp only [languageFor, hdot, Option.bind_some]
    case supported =>
      intro hlanguage
      cases hext : (extensionLanguage (ifile.drop (dotIndex + 1))).join with
      | none => exact hlanguage
      | some lang => exact extensionLanguage_supported (Option.join_eq_some_iff.mp hext)
    all_goals rfl

/-- What the search for the input file leaves behind -/
structure Located (s t : Scan) : Prop where
  alwaysLocal : t.alwaysLocal = true ↔ s.alwaysLocal = true ∨
    str "-" ∈ (lookedAt false s.args).map Prod.fst ∨
    2 ≤ (inputs (lookedAt false s.args)).length ∨
    unfit ((inputs (lookedAt false s.args)).headD []) = true
  ofile : t.ofile = if t.alwaysLocal = false ∧ s.ofile = [] then
    outputFor s.seenS ((inputs (lookedAt false s.args)).headD []) else s.ofile
  args : ∃ left added found, t.args = left ++ added ∧ IsDependency added ∧
    Removed [] found s.args left ∧ (s.job.inputFile = [] → t.job.inputFile = found) ∧
    (t.alwaysLocal = false → (inputs (lookedAt false s.args)).headD [] = found)
  language : t.alwaysLocal = false → t.job.language =
    languageFor s.job.language ((inputs (lookedAt false s.args)).headD [])
  supported : s.job.language ≠ langCustom → t.job.language ≠ langCustom
  job : t.job = { s.job with inputFile := t.job.inputFile, language := t.job.language }
  frame : t = { s with
    job := t.job, args := t.args, ofile := t.ofile, alwaysLocal := t.alwaysLocal }

theorem unfit_eq (file : Str) :
    unfit file = (shouldAlwaysBuildLocally file || unknownExtension file) := rfl

theorem setInput_eq (s : Scan) (args : ArgumentsList) (ifile : Str) :
    setInput s args ifile = { s with
      args := args
      job := { s.job with inputFile := if ifile = [] then s.job.inputFile else ifile } } := by
  unfold setInput
  split_ifs <;> rfl

theorem ite_nil {file : Str} (hfile : file = []) :
    (if ifile = [] then file else ifile) = ifile := by
  split_ifs with hnil
  · rw [hfile, hnil]
  · rfl

theorem Named.located (left : ArgumentsList) (file found : Str) {alwaysLocal : Bool}
    (h : Named ifile { s with
      args := left, job := { s.job with inputFile := file }, alwaysLocal := alwaysLocal } t)
    (hlocal : (alwaysLocal || unknownExtension ifile) = true ↔ s.alwaysLocal = true ∨
      str "-" ∈ (lookedAt false s.args).map Prod.fst ∨
      2 ≤ (inputs (lookedAt false s.args)).length ∨
      unfit ((inputs (lookedAt false s.args)).headD []) = true)
    (hsource : alwaysLocal = false → (inputs (lookedAt false s.args)).headD [] = ifile)
    (hsame : alwaysLocal = false → ifile = found)
    (hremoved : Removed [] found s.args left) (hfound : s.job.inputFile = [] → file = found) :
    Located s t := by
  have hbefore : t.alwaysLocal = false → alwaysLocal = false := by
    intro ht
    rw [h.alwaysLocal, Bool.or_eq_false_iff] at ht
    exact ht.1
  constructor
  case alwaysLocal => rw [h.alwaysLocal, hlocal]
  case ofile =>
    rw [h.ofile]
    by_cases hboth : t.alwaysLocal = false ∧ s.ofile = []
    · rw [if_pos hboth, if_pos hboth, hsource (hbefore hboth.1)]
    · rw [if_neg hboth, if_neg hboth]
  case args =>
    obtain ⟨added, hargs, hdependency⟩ := h.args
    refine ⟨left, added, found, hargs, hdependency, hremoved, ?_, fun ht => ?_⟩
    · rw [h.job]
      exact hfound
    · exact (hsource (hbefore ht)).trans (hsame (hbefore ht))
  case language =>
    intro ht
    rw [h.language ht, hsource (hbefore ht)]
  case supported => exact h.supported
  case job =>
    rw [h.job]
  case frame => exact h.frame

theorem inputFile_ends (s : Scan)
    (hlast : s.alwaysLocal = false → ∀ f, s.args.getLast? = some f → skipsNext f.1 = false) :
    Ends (fun _ => s.alwaysLocal = false ∧ Blank 0 (lookedAt false s.args))
      (fun t => Located s t ∧ (s.alwaysLocal = true ∨ ¬ Blank 0 (lookedAt false s.args)))
      (inputFile s) := by
  refine .ite (fun hlocal => .pure ⟨?_, .inl hlocal⟩) fun hlocal => ?_
  · constructor
    case alwaysLocal => simp [hlocal]
    case ofile => simp [hlocal]
    case args =>
      exact ⟨s.args, [], [], (List.append_nil _).symm, .inl rfl, .inl ⟨rfl, rfl⟩, fun _ => rfl,
        fun h => absurd (hlocal.symm.trans h) (by decide)⟩
    case language => simp [hlocal]
    case supported => exact id
    all_goals rfl
  rw [Bool.not_eq_true] at hlocal
  refine ((findInput_ends s.args [] (hlast hlocal)).weaken fun _ h => ⟨hlocal, h⟩).bind ?_
  rintro (⟨args, ifile⟩ | ⟨args, ifile⟩ | ifile) ⟨hof, hblank⟩
  · obtain ⟨hdash, hremoved, hinputs⟩ := hof
    have hsource : (inputs (lookedAt false s.args)).headD [] = ifile := by
      rw [hinputs]
      split_ifs with hnil
      · exact hnil.symm
      · rfl
    have hone : ¬ 2 ≤ (inputs (lookedAt false s.args)).length := by
      rw [hinputs]
      split_ifs <;> simp
    have hnamed := inputNames_named
      { setInput s args ifile with alwaysLocal := shouldAlwaysBuildLocally ifile } ifile
    rw [setInput_eq] at hnamed
    refine .pure ⟨?_, .inr hblank⟩
    rw [setInput_eq]
    refine hnamed.located _ _ _ ?_ (fun _ => hsource) (fun _ => rfl) hremoved ite_nil
    rw [hsource, ← unfit_eq]
    simp [hlocal, hdash, hone]
  · have hnamed := inputNames_named { setInput s args ifile with alwaysLocal := true } ifile
    rw [setInput_eq] at hnamed
    refine .pure ⟨?_, .inr hblank⟩
    rw [setInput_eq]
    refine hnamed.located _ _ _ ?_ (fun h => absurd h (by simp)) (fun h => absurd h (by simp))
      hof.2 ite_nil
    simp [hof.1]
  · have htwo : 2 ≤ (inputs (lookedAt false s.args)).length := by
      simpa [Found.Of, count] using hof
    have hnamed := inputNames_named { s with
      job := { s.job with inputFile := [] }, alwaysLocal := true } ifile
    refine .pure ⟨?_, .inr hblank⟩
    refine Named.located s.args [] [] hnamed ?_
      (fun h => absurd h (by simp)) (fun h => absurd h (by simp)) (.inl ⟨rfl, rfl⟩) fun _ => rfl
    simp [htwo]

end Icecream.Client
