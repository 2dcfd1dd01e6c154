import Icecream.Client.Analysis
import Icecream.Library.Fault

/-!
# The search for the input file

The second pass looks at some of the arguments and leaves out those that belong to an option. What
it finds depends only on the arguments that it looks at: a `-` among them, and the input files.
-/

namespace Icecream.Client

open Icecream.Comm (Str str ArgumentType ArgumentsList)
open Icecream.Fault

/-- The arguments that the search looks at, when the first one belongs to an option or does not -/
def lookedAt : Bool → ArgumentsList → ArgumentsList
  | _, [] => []
  | true, _ :: rest => lookedAt false rest
  | false, f :: rest => if skipsNext f.1 then lookedAt true rest else f :: lookedAt false rest

/-- An argument that `at` cannot look into -/
def isBlank (f : Str × ArgumentType) : Bool := f.2 = .argRest ∧ f.1 = []

def isInput (f : Str × ArgumentType) : Bool :=
  f.2 = .argRest ∧ f.1 ≠ [] ∧ f.1.head? ≠ some 45 ∧ f.1.head? ≠ some 64

/-- The input files -/
def inputs (args : ArgumentsList) : List Str := (args.filter isInput).map Prod.fst

/-- The search comes to an empty argument before it ends at `-` or at the second input file, when
there are `n` input files before. -/
def Blank (n : ℕ) (seen : ArgumentsList) : Prop :=
  ∃ before after, ∃ f : Str × ArgumentType, seen = before ++ f :: after ∧ isBlank f = true ∧
    str "-" ∉ before.map Prod.fst ∧ n + (inputs before).length < 2

/-- The input file is taken out of the arguments, if there is one. -/
def Removed (ifile found : Str) (args left : ArgumentsList) : Prop :=
  (found = ifile ∧ left = args) ∨
    (ifile = [] ∧ isInput (found, .argRest) = true ∧ ∃ before after,
      args = before ++ (found, .argRest) :: after ∧ left = before ++ after)

/-- How many input files have been found -/
def count (ifile : Str) : ℕ := if ifile = [] then 0 else 1

/-- What the search ends with, said of the arguments that it looks at -/
def Found.Of (seen args : ArgumentsList) (ifile : Str) : Found → Prop
  | .searched left found => str "-" ∉ seen.map Prod.fst ∧ Removed ifile found args left ∧
      inputs seen = if found = ifile then [] else [found]
  | .stdinout left found => str "-" ∈ seen.map Prod.fst ∧ Removed ifile found args left
  | .twoInputs _ => 2 ≤ count ifile + (inputs seen).length

variable {n : ℕ} {f : Str × ArgumentType} {seen args left : ArgumentsList} {ifile found a : Str}
  {t : ArgumentType}

theorem inputs_cons : inputs (f :: args) = inputs [f] ++ inputs args := by
  rw [inputs, ← List.singleton_append, List.filter_append, List.map_append]
  rfl

theorem inputs_singleton (h : isInput f = true) : inputs [f] = [f.1] := by simp [inputs, h]

theorem isInput_cons {c : UInt8} {name : Str} (hc : ¬ (c = 45 ∨ c = 64)) :
    isInput (c :: name, .argRest) = true := by
  simpa [isInput, not_or] using hc

theorem dash_mem_cons (hdash : f.1 ≠ str "-") :
    str "-" ∈ (f :: seen).map Prod.fst ↔ str "-" ∈ seen.map Prod.fst := by
  rw [List.map_cons, List.mem_cons]
  exact or_iff_right (Ne.symm hdash)

theorem not_blank_nil : ¬ Blank n [] := by
  rintro ⟨before, after, f, h, -⟩
  exact absurd h.symm (by simp)

theorem blank_cons_of_blank (hf : isBlank f = true) : Blank n (f :: seen) ↔ n < 2 := by
  constructor
  · rintro ⟨before, after, d, h, -, -, hcount⟩
    exact Nat.lt_of_le_of_lt (Nat.le_add_right n _) hcount
  · exact fun hn => ⟨[], seen, f, rfl, hf, List.not_mem_nil, hn⟩

theorem blank_cons (hf : isBlank f = false) :
    Blank n (f :: seen) ↔ f.1 ≠ str "-" ∧ Blank (n + (inputs [f]).length) seen := by
  constructor
  · rintro ⟨before, after, d, h, hblank, hdash, hcount⟩
    cases before with
    | nil =>
      cases h
      exact absurd hblank (by simp [hf])
    | cons e before =>
      cases h
      rw [List.map_cons, List.mem_cons, not_or] at hdash
      rw [inputs_cons, List.length_append, ← Nat.add_assoc] at hcount
      exact ⟨Ne.symm hdash.1, before, after, d, rfl, hblank, hdash.2, hcount⟩
  · rintro ⟨hdash, before, after, d, rfl, hblank, hnot, hcount⟩
    refine ⟨f :: before, after, d, rfl, hblank, ?_, ?_⟩
    · rw [List.map_cons, List.mem_cons, not_or]
      exact ⟨Ne.symm hdash, hnot⟩
    · rw [inputs_cons, List.length_append, ← Nat.add_assoc]
      exact hcount

theorem Removed.keep (h : Removed ifile found args left) (front : ArgumentsList) :
    Removed ifile found (front ++ args) (front ++ left) := by
  rcases h with ⟨rfl, rfl⟩ | ⟨hnil, hfound, before, after, rfl, rfl⟩
  · exact .inl ⟨rfl, rfl⟩
  · exact .inr ⟨hnil, hfound, front ++ before, after, by simp, by simp⟩

theorem Found.Of.keep {r : Found} (h : r.Of seen args ifile) (front : ArgumentsList) :
    (r.keep front).Of seen (front ++ args) ifile := by
  cases r with
  | searched left found => exact ⟨h.1, h.2.1.keep front, h.2.2⟩
  | stdinout left found => exact ⟨h.1, h.2.keep front⟩
  | twoInputs found => exact h

/-- An argument that is looked at, but is not an input file -/
theorem Found.Of.cons {r : Found} (h : r.Of seen args ifile) (hdash : f.1 ≠ str "-")
    (hf : isInput f = false) : r.Of (f :: seen) args ifile := by
  have hinputs : inputs (f :: seen) = inputs seen := by simp [inputs, hf]
  have hmem : str "-" ∈ (f :: seen).map Prod.fst ↔ str "-" ∈ seen.map Prod.fst :=
    dash_mem_cons hdash
  cases r with
  | searched left found => exact ⟨hmem.not.mpr h.1, h.2.1, hinputs.trans h.2.2⟩
  | stdinout left found => exact ⟨hmem.mpr h.1, h.2⟩
  | twoInputs found =>
    unfold Found.Of
    rw [hinputs]
    exact h

theorem isBlank_of_ne (h : f.1 ≠ []) : isBlank f = false := by simp [isBlank, h]

theorem not_blank_of_two (hn : 2 ≤ n) : ¬ Blank n seen := by
  rintro ⟨before, after, d, -, -, -, hcount⟩
  omega

theorem Removed.eq_of_ne (h : Removed ifile found args left) (hifile : ifile ≠ []) :
    found = ifile ∧ left = args := h.elim id fun h => absurd h.1 hifile

/-- The first input file -/
theorem Found.Of.input {r : Found} (h : r.Of seen args a) (hdash : a ≠ str "-")
    (hinput : isInput (a, .argRest) = true) (hnil : a ≠ []) :
    r.Of ((a, .argRest) :: seen) ((a, .argRest) :: args) [] := by
  have hinputs : inputs ((a, .argRest) :: seen) = a :: inputs seen := by simp [inputs, hinput]
  have hmem : str "-" ∈ ((a, ArgumentType.argRest) :: seen).map Prod.fst ↔
      str "-" ∈ seen.map Prod.fst := dash_mem_cons hdash
  cases r with
  | searched left found =>
    obtain ⟨hnone, hremoved, hseen⟩ := h
    obtain ⟨rfl, rfl⟩ := hremoved.eq_of_ne hnil
    rw [if_pos rfl] at hseen
    refine ⟨hmem.not.mpr hnone, .inr ⟨rfl, hinput, [], left, rfl, rfl⟩, ?_⟩
    rw [hinputs, hseen, if_neg hnil]
  | stdinout left found =>
    obtain ⟨hstdout, hremoved⟩ := h
    obtain ⟨rfl, rfl⟩ := hremoved.eq_of_ne hnil
    exact ⟨hmem.mpr hstdout, .inr ⟨rfl, hinput, [], left, rfl, rfl⟩⟩
  | twoInputs found =>
    unfold Found.Of at h ⊢
    rw [hinputs, List.length_cons]
    rw [count, if_neg hnil] at h
    rw [count, if_pos rfl]
    omega

theorem getLast?_tail {rest : ArgumentsList}
    (h : ∀ d, (f :: rest).getLast? = some d → skipsNext d.1 = false) :
    ∀ d, rest.getLast? = some d → skipsNext d.1 = false := by
  cases rest with
  | nil => simp
  | cons next rest => exact h

theorem lookedAt_cons (h : skipsNext f.1 ≠ true) (rest : ArgumentsList) :
    lookedAt false (f :: rest) = f :: lookedAt false rest := by
  rw [lookedAt, if_neg h]

theorem lookedAt_skip (h : skipsNext f.1 = true) (next : Str × ArgumentType)
    (rest : ArgumentsList) : lookedAt false (f :: next :: rest) = lookedAt false rest := by
  rw [lookedAt, if_pos h, lookedAt]

theorem not_skipsNext_dash : skipsNext (str "-") ≠ true := by decide

/-- What holds of the search, said of the arguments that it looks at -/
abbrev Search (args : ArgumentsList) (ifile : Str) (x : Except Fault Found) : Prop :=
  Ends (fun _ => Blank (count ifile) (lookedAt false args))
    (fun r => r.Of (lookedAt false args) args ifile ∧ ¬ Blank (count ifile) (lookedAt false args)) x

/-- An argument that is looked at and stays -/
theorem Search.keep {rest : ArgumentsList} {x : Except Fault Found} (h : Search rest ifile x)
    (hdash : f.1 ≠ str "-") (hskip : skipsNext f.1 ≠ true) (hinput : isInput f = false)
    (hblank : isBlank f = false) :
    Search (f :: rest) ifile (do return (← x).keep [f]) := by
  have hnone : (inputs [f]).length = 0 := by simp [inputs, hinput]
  have hblank : Blank (count ifile) (lookedAt false (f :: rest)) ↔
      Blank (count ifile) (lookedAt false rest) := by
    rw [lookedAt_cons hskip, blank_cons hblank, hnone]
    exact and_iff_right hdash
  refine (h.weaken fun _ => hblank.mpr).bind fun r hr => .pure ⟨?_, hblank.not.mpr hr.2⟩
  rw [lookedAt_cons hskip]
  exact (hr.1.keep [f]).cons hdash hinput

theorem findInput_ends (args : ArgumentsList) (ifile : Str)
    (hlast : ∀ f, args.getLast? = some f → skipsNext f.1 = false) :
    Search args ifile (findInput args ifile) := by
  fun_induction findInput args ifile with
  | case1 ifile =>
    exact .pure ⟨⟨List.not_mem_nil, .inl ⟨rfl, rfl⟩, by simp [lookedAt, inputs]⟩, not_blank_nil⟩
  | case2 t rest ifile =>
    -- The search ends at `-`.
    refine .pure ⟨?_, ?_⟩
    · rw [lookedAt_cons not_skipsNext_dash]
      exact ⟨List.mem_cons_self, .inl ⟨rfl, rfl⟩⟩
    · rw [lookedAt_cons not_skipsNext_dash, blank_cons (isBlank_of_ne (List.cons_ne_nil 45 []))]
      exact fun h => h.1 rfl
  | case3 a t ifile hdash hskip => exact absurd hskip (by simp [hlast (a, t) rfl])
  | case4 a t ifile hdash hskip next rest ih =>
    have hskipped := lookedAt_skip (f := (a, t)) hskip next rest
    rw [Search, hskipped]
    exact (ih (getLast?_tail (getLast?_tail hlast))).bind fun r hr =>
      .pure ⟨hr.1.keep [(a, t), next], hr.2⟩
  | case5 a t rest ifile hdash hskip htype ih =>
    exact (ih (getLast?_tail hlast)).keep hdash hskip (by simp [isInput, htype])
      (by simp [isBlank, htype])
  | case6 t rest ifile htype hdash hskip =>
    refine .throw ?_
    rw [lookedAt_cons hskip, blank_cons_of_blank (by simpa [isBlank] using htype)]
    unfold count
    split_ifs <;> decide
  | case7 t rest ifile htype c name hc hdash hskip ih =>
    refine (ih (getLast?_tail hlast)).keep hdash hskip ?_ (isBlank_of_ne (List.cons_ne_nil c name))
    rcases hc with rfl | rfl <;> simp [isInput]
  | case8 t rest htype c name hc hdash hskip ih =>
    have htype := not_ne_iff.mp htype
    subst htype
    have hinput : isInput (c :: name, .argRest) = true := isInput_cons hc
    have hone := inputs_singleton hinput
    have hblank : Blank (count []) (lookedAt false ((c :: name, .argRest) :: rest)) ↔
        Blank (count (c :: name)) (lookedAt false rest) := by
      rw [lookedAt_cons hskip, blank_cons (isBlank_of_ne (List.cons_ne_nil c name)), hone]
      exact and_iff_right hdash
    refine ((ih (getLast?_tail hlast)).weaken fun _ => hblank.mpr).mono fun r hr =>
      ⟨?_, hblank.not.mpr hr.2⟩
    rw [lookedAt_cons hskip]
    exact hr.1.input hdash hinput (List.cons_ne_nil c name)
  | case9 t rest ifile htype c name hc hifile hdash hskip =>
    -- The second input file
    have htype := not_ne_iff.mp htype
    subst htype
    have hinput : isInput (c :: name, .argRest) = true := isInput_cons hc
    have hone := inputs_singleton hinput
    have hcount : count ifile = 1 := if_neg hifile
    rw [Search, lookedAt_cons hskip, hcount]
    refine .pure ⟨?_, ?_⟩
    · rw [Found.Of, inputs_cons, hone, hcount, List.length_append]
      exact Nat.add_le_add_left (Nat.le_add_right 1 _) 1
    · rw [blank_cons (isBlank_of_ne (List.cons_ne_nil c name)), hone]
      exact fun h => not_blank_of_two (le_refl 2) h.2

end Icecream.Client
