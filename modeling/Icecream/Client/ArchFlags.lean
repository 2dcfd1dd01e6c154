import Icecream.Client.Arguments
import Icecream.Library.Cursor

/-!
# The flags behind `native`

`compiler_get_arch_flags` compares what the compiler says of itself without and with the flags
`-march`, `-mcpu` and `-mtune=native`. The two lines are compared from both ends by signed
indices, what lies between is widened to whole words, and the words are given back.
-/

namespace Icecream.Client

open Icecream.Comm (Str str)
open Icecream.Cursor

/-- `operator[]`: behind the characters stands the terminator. Nothing else may be read. -/
def charAt (s : Str) (i : ℤ) : Option UInt8 := if i < 0 then none else (s ++ [0])[i.toNat]?

/-- A size as an `int` -/
def toInt (n : ℤ) : ℤ := (Int32.ofInt n).toInt

/-- `substr`, which throws behind the end -/
def substr (s : Str) (pos len : ℤ) : Option Str :=
  if 0 ≤ pos ∧ pos ≤ s.length then some ((s.drop pos.toNat).take len.toNat) else none

def notAt (s : Str) (c : UInt8) (i : ℤ) : Option Bool := return (← charAt s i) ≠ c

/-! ## The line -/

def lineMark (isClang : Bool) : Str := if isClang then str "\"-cc1\"" else str "/cc1 "

/-- What `find` does not find is erased up to the end. -/
def eraseBefore (mark output : Str) : Str :=
  match find mark output with
  | some i => output.drop i
  | none => []

/-- The right line, or the exception -/
def rightLine (isClang : Bool) (output : Str) : Option Str :=
  let line := eraseBefore (lineMark isClang) output
  match find (str "\n") line with
  | some i => some (line.take i)
  | none => if isClang then some line else none

/-! ## The differing words -/

def sameAt (flags normal : Str) (i j : ℤ) : Option Bool :=
  return (← charAt flags i) = (← charAt normal j)

def firstDifferent (flags normal : Str) (flagsEnd : ℤ) : Option ℤ :=
  advance (fun i => sameAt flags normal i i) flagsEnd.toNat 0

def lastDifferent (flags normal : Str) (flagsEnd start : ℤ) : Option ℤ :=
  let endDiff := toInt (normal.length - flagsEnd)
  retreat (fun i => sameAt flags normal i (i + endDiff)) (flagsEnd - 1 - start).toNat
    (flagsEnd - 1)

def wordStart (flags : Str) (start : ℤ) : Option ℤ := do
  return (← retreat (notAt flags 32) (start + 1).toNat start) + 1

def wordEnd (flags : Str) (flagsEnd last : ℤ) : Option ℤ := do
  return (← advance (notAt flags 32) (flagsEnd - last).toNat last) + 1

/-- Neither of the first two characters is a `-`. -/
def valueAt (flags : Str) (start : ℤ) : Option Bool := do
  if ← notAt flags 45 start then notAt flags 45 (start + 1) else return false

/-- The name of the option is needed too where the difference starts with its value. -/
def optionStart (flags : Str) (start : ℤ) : Option ℤ := do
  if ← valueAt flags start then wordStart flags (start - 2) else return start

/-- The word at `start`, and where the next one starts -/
def nextArg (flags : Str) (stop start : ℤ) : Option (Str × ℤ) := do
  if (← charAt flags start) = 34 then
    let pos ← advance (notAt flags 34) (stop - (start + 1)).toNat (start + 1)
    return (← substr flags (start + 1) (pos - start - 1), pos + 2)
  else
    let pos ← advance (notAt flags 32) (stop - start).toNat start
    return (← substr flags start (pos - start), pos + 1)

def pushed (isClang : Bool) (arg : Str) : List Str :=
  if isClang then [str "-Xclang", arg] else [arg]

/-- Each turn moves `start` forward, so that the distance to the end suffices for the turns. -/
def takeArgs (isClang : Bool) (flags : Str) (stop : ℤ) : ℕ → ℤ → Option (List Str)
  | 0, _ => some []
  | n + 1, start =>
    if start < stop then do
      let (arg, next) ← nextArg flags stop start
      return pushed isClang arg ++ (← takeArgs isClang flags stop n next)
    else some []

/-- What is appended; `none` if a string is read outside its characters -/
def differingArgs (isClang : Bool) (flags normal : Str) : Option (List Str) := do
  let flagsEnd := toInt flags.length
  let first ← firstDifferent flags normal flagsEnd
  if first = flagsEnd then return []
  let last ← lastDifferent flags normal flagsEnd first
  let start ← optionStart flags (← wordStart flags first)
  let stop ← wordEnd flags flagsEnd last
  takeArgs isClang flags stop (stop - start).toNat start

def archArgs (march mcpu mtune : Bool) : List Str :=
  [str "-###", str "-E", str "-"] ++ (if march then [str "-march=native"] else []) ++
    (if mcpu then [str "-mcpu=native"] else []) ++ if mtune then [str "-mtune=native"] else []

/-- The outer `none` stands for a fault and the inner one for `false`. -/
def compilerGetArchFlags (readCommandOutput : List Str → Str) (isClang march mcpu mtune : Bool) :
    Option (Option (List Str)) :=
  let normalOutput := readCommandOutput (archArgs false false false)
  let flagsOutput := readCommandOutput (archArgs march mcpu mtune)
  match rightLine isClang flagsOutput, rightLine isClang normalOutput with
  | some flags, some normal => (differingArgs isClang flags normal).map some
  | _, _ => some none

/-! ## Characters -/

section

variable {s P Q R : Str} {c x : UInt8} {i : ℕ}

theorem charAt_natCast : charAt s i = (s ++ [0])[i]? := if_neg (by omega)

theorem charAt_of_lt (h : i < s.length) : charAt s i = s[i]? := by
  rw [charAt_natCast, List.getElem?_append_left h]

theorem notAt_of_getElem (h : s[i]? = some x) : notAt s c i = some (decide (x ≠ c)) := by
  obtain ⟨hi, -⟩ := List.getElem?_eq_some_iff.mp h
  rw [notAt, charAt_of_lt hi, h]
  rfl

/-- The terminator is no blank, no quote and no dash. -/
theorem notAt_length (h : c ≠ 0) : notAt s c s.length = some true := by
  rw [notAt, charAt_natCast, List.getElem?_concat_length]
  exact congrArg some (decide_eq_true h.symm)

theorem notAt_of_mem (hQ : c ∉ Q) (hi : i < Q.length) :
    notAt (P ++ Q ++ R) c (P.length + i : ℕ) = some true := by
  have hget : (P ++ Q ++ R)[P.length + i]? = some Q[i] := by
    rw [List.append_assoc, List.getElem?_append_right (by omega), Nat.add_sub_cancel_left,
      List.getElem?_append_left hi, List.getElem?_eq_getElem hi]
  rw [notAt_of_getElem hget]
  have hne : Q[i] ≠ c := fun heq => hQ (heq ▸ List.getElem_mem hi)
  exact congrArg some (decide_eq_true hne)

/-- `start` goes back to the blank before it. -/
theorem wordStart_eq (hP : P = [] ∨ P.getLast? = some 32) (hQ : 32 ∉ Q) :
    wordStart (P ++ Q ++ R) ((P.length + Q.length : ℕ) - 1) = some (P.length : ℤ) := by
  have hloop : retreat (notAt (P ++ Q ++ R) 32) ((P.length + Q.length : ℕ) - 1 + 1 : ℤ).toNat
      ((P.length + Q.length : ℕ) - 1) = some ((P.length : ℤ) - 1) := by
    refine retreat_eq_some.mpr ⟨Q.length, by omega, by omega, fun j hj => ?_, ?_⟩
    · have hplace : ((P.length + Q.length : ℕ) : ℤ) - 1 - j =
          (P.length + (Q.length - 1 - j) : ℕ) := by omega
      rw [hplace]
      exact notAt_of_mem hQ (by omega)
    · rcases hP with rfl | hlast
      · exact .inl (by simp)
      · right
        obtain ⟨P, rfl⟩ := List.getLast?_eq_some_iff.mp hlast
        have hplace : ((P ++ [32]).length + Q.length : ℕ) - 1 - (Q.length : ℤ) =
            (P.length : ℕ) := by
          rw [List.length_append, List.length_singleton]
          omega
        have hget : (P ++ [32] ++ Q ++ R)[P.length]? = some 32 := by simp
        rw [hplace, notAt_of_getElem hget]
        rfl
  rw [wordStart, hloop]
  simp

/-- `end` goes on to the blank behind it, and past it. -/
theorem wordEnd_eq (hQ : 32 ∉ Q) (hR : R = [] ∨ R.head? = some 32) :
    wordEnd (P ++ Q ++ R) ((P ++ Q ++ R).length : ℕ) P.length =
      some ((P.length + Q.length + 1 : ℕ) : ℤ) := by
  have hloop : advance (notAt (P ++ Q ++ R) 32)
      (((P ++ Q ++ R).length : ℕ) - (P.length : ℤ)).toNat P.length =
        some ((P.length + Q.length : ℕ) : ℤ) := by
    have hlength : (P ++ Q ++ R).length = P.length + Q.length + R.length := by
      simp [Nat.add_assoc]
    rw [hlength]
    refine advance_eq_some.mpr ⟨Q.length, by omega, by omega, fun j hj => ?_, ?_⟩
    · exact notAt_of_mem hQ hj
    · rcases hR with rfl | hhead
      · left
        rw [List.length_nil]
        omega
      · right
        obtain ⟨R, rfl⟩ := List.head?_eq_some_iff.mp hhead
        have hget : (P ++ Q ++ 32 :: R)[P.length + Q.length]? = some 32 := by
          rw [← List.length_append]
          simp
        have hfound := notAt_of_getElem (c := 32) hget
        rwa [Nat.cast_add] at hfound
  rw [wordEnd, hloop]
  rfl

end

/-! ## The two ends of the difference -/

/-- The first character that the other line, with its terminator, does not have in its place -/
structure FirstDifference (flags normal : Str) (d : ℕ) : Prop where
  inside : d < flags.length
  within : d ≤ normal.length
  before : flags.take d = normal.take d
  differ : flags[d]? ≠ (normal ++ [0])[d]?

/-- The last character that the other line does not have in its place when the ends are aligned,
or the first difference if that comes later -/
structure LastDifference (flags normal : Str) (d e : ℕ) : Prop where
  le : d ≤ e
  inside : e < flags.length
  within : flags.length ≤ normal.length + (e + 1)
  after : flags.drop (e + 1) <:+ normal
  differ : e = d ∨ flags.length ≤ normal.length + e ∧ ¬ flags.drop e <:+ normal

section

variable {flags normal s t : Str} {d e m : ℕ} {i j k : ℤ}

theorem sameAt_eq_true : sameAt flags normal i j = some true ↔
    ∃ x, charAt flags i = some x ∧ charAt normal j = some x := by
  cases hf : charAt flags i <;> cases hn : charAt normal j <;> simp [sameAt, hf, hn, eq_comm]

theorem sameAt_eq_false : sameAt flags normal i j = some false ↔
    ∃ x y, charAt flags i = some x ∧ charAt normal j = some y ∧ x ≠ y := by
  cases hf : charAt flags i <;> cases hn : charAt normal j <;> simp [sameAt, hf, hn]

theorem firstDifferent_eq (h : FirstDifference flags normal d) :
    firstDifferent flags normal flags.length = some (d : ℤ) := by
  have hinside := h.inside
  have hwithin := h.within
  refine advance_eq_some.mpr ⟨d, by omega, by omega, fun j hj => ?_, .inr ?_⟩
  · rw [zero_add, sameAt_eq_true, charAt_of_lt (by omega), charAt_of_lt (by omega)]
    have hget : (flags.take d)[j]? = (normal.take d)[j]? := by rw [h.before]
    rw [List.getElem?_take_of_lt hj, List.getElem?_take_of_lt hj] at hget
    exact ⟨flags[j], List.getElem?_eq_getElem (by omega),
      hget ▸ List.getElem?_eq_getElem (by omega)⟩
  · have hlt : d < (normal ++ [0]).length := by
      rw [List.length_append, List.length_singleton]
      omega
    have hdiffer := h.differ
    rw [List.getElem?_eq_getElem hinside, List.getElem?_eq_getElem hlt] at hdiffer
    rw [zero_add, sameAt_eq_false, charAt_of_lt hinside, charAt_natCast]
    exact ⟨_, _, List.getElem?_eq_getElem hinside, List.getElem?_eq_getElem hlt,
      fun heq => hdiffer (congrArg some heq)⟩

theorem firstDifferent_some (h : firstDifferent flags normal flags.length = some k) :
    k = flags.length ∧ flags <+: normal ++ [0] ∨
      ∃ d : ℕ, k = d ∧ FirstDifference flags normal d := by
  obtain ⟨d, hd, rfl, hbefore, hend⟩ := advance_eq_some.mp h
  rw [Int.toNat_natCast] at hd
  simp only [zero_add, sameAt_eq_true, charAt_natCast] at hbefore
  have hsame : ∀ i < d, flags[i]? = (normal ++ [0])[i]? := by
    intro i hi
    obtain ⟨x, hx, hy⟩ := hbefore i hi
    rw [List.getElem?_append_left (by omega)] at hx
    rw [hx, hy]
  by_cases hlast : d = flags.length
  · refine .inl ⟨by omega, List.prefix_iff_getElem?.mpr fun i hi => ?_⟩
    rw [← hsame i (by omega), List.getElem?_eq_getElem hi]
  · have hfalse := hend.resolve_left (by rwa [Int.toNat_natCast])
    rw [zero_add, sameAt_eq_false, charAt_of_lt (by omega), charAt_natCast] at hfalse
    obtain ⟨x, y, hx, hy, hne⟩ := hfalse
    obtain ⟨hlt, -⟩ := List.getElem?_eq_some_iff.mp hy
    rw [List.length_append, List.length_singleton] at hlt
    refine .inr ⟨d, by omega, by omega, by omega, List.ext_getElem? fun i => ?_, ?_⟩
    · by_cases hi : i < d
      · rw [List.getElem?_take_of_lt hi, List.getElem?_take_of_lt hi, hsame i hi,
          List.getElem?_append_left (by omega)]
      · rw [List.getElem?_eq_none, List.getElem?_eq_none] <;> rw [List.length_take] <;> omega
    · rw [hx, hy]
      exact fun heq => hne (Option.some.inj heq)

theorem firstDifferent_begins (h : flags <+: normal ++ [0]) :
    firstDifferent flags normal flags.length = some (flags.length : ℤ) := by
  refine advance_eq_some.mpr ⟨flags.length, by omega, by omega, fun j hj => ?_, .inl (by omega)⟩
  rw [zero_add, sameAt_eq_true, charAt_of_lt hj, charAt_natCast]
  exact ⟨flags[j], List.getElem?_eq_getElem hj, List.prefix_iff_getElem?.mp h j hj⟩

theorem toInt_eq (hlow : -2 ^ 31 ≤ i) (hhigh : i < 2 ^ 31) : toInt i = i :=
  Int32.toInt_ofInt_of_le hlow hhigh

theorem toInt_length (h : s.length < 2 ^ 31) : toInt s.length = s.length :=
  toInt_eq (by omega) (by omega)

/-- The characters that stand `m` places before the ends -/
theorem sameAt_end (hf : m < flags.length) (hn : m < normal.length) :
    sameAt flags normal (flags.length - 1 - m)
        (flags.length - 1 - m + (normal.length - flags.length)) =
      some (decide (flags[flags.length - 1 - m]? = normal[normal.length - 1 - m]?)) := by
  have hplace : (flags.length : ℤ) - 1 - m = (flags.length - 1 - m : ℕ) := by omega
  have hplace' : (flags.length : ℤ) - 1 - m + (normal.length - flags.length) =
      (normal.length - 1 - m : ℕ) := by omega
  rw [hplace', hplace, sameAt, charAt_of_lt (by omega), charAt_of_lt (by omega),
    List.getElem?_eq_getElem (by omega), List.getElem?_eq_getElem (by omega)]
  simp

theorem sameAt_before (hn : normal.length ≤ m) :
    sameAt flags normal (flags.length - 1 - m)
      (flags.length - 1 - m + (normal.length - flags.length)) = none := by
  have hbefore : charAt normal (flags.length - 1 - m + (normal.length - flags.length)) = none :=
    if_pos (by omega)
  rw [sameAt, hbefore]
  cases charAt flags (flags.length - 1 - m) <;> rfl

theorem lastDifferent_eq_some (hflags : flags.length < 2 ^ 31) (hnormal : normal.length < 2 ^ 31)
    (hd : d < flags.length) : lastDifferent flags normal flags.length d = some k ↔
      ∃ e : ℕ, k = e ∧ LastDifference flags normal d e := by
  have hdiff : toInt (normal.length - flags.length) = normal.length - flags.length :=
    toInt_eq (by omega) (by omega)
  rw [lastDifferent, hdiff, retreat_eq_some]
  constructor
  · rintro ⟨m, hm, rfl, hbefore, hend⟩
    have hle : m ≤ normal.length := by
      by_contra hlt
      have htrue := hbefore normal.length (by omega)
      rw [sameAt_before le_rfl] at htrue
      cases htrue
    have hdrop : flags.length - 1 - m + 1 = flags.length - m := by omega
    refine ⟨flags.length - 1 - m, by omega, by omega, by omega, by omega, ?_, ?_⟩
    · rw [hdrop, drop_suffix_iff (by omega) hle]
      intro j hj
      have htrue := hbefore j hj
      rw [sameAt_end (by omega) (by omega)] at htrue
      exact of_decide_eq_true (Option.some.inj htrue)
    · rcases hend with rfl | hfalse
      · exact .inl (by omega)
      · have hlt : m < normal.length := by
          by_contra hge
          rw [sameAt_before (by omega)] at hfalse
          cases hfalse
        have hdrop' : flags.length - 1 - m = flags.length - (m + 1) := by omega
        rw [sameAt_end (by omega) hlt] at hfalse
        refine .inr ⟨by omega, fun hsuffix => ?_⟩
        rw [hdrop', drop_suffix_iff (by omega) (by omega)] at hsuffix
        exact of_decide_eq_false (Option.some.inj hfalse) (hsuffix m (by omega))
  · rintro ⟨e, rfl, h⟩
    have hle := h.le
    have hinside := h.inside
    have hwithin := h.within
    have hdrop : e + 1 = flags.length - (flags.length - 1 - e) := by omega
    have hafter := h.after
    rw [hdrop, drop_suffix_iff (by omega) (by omega)] at hafter
    refine ⟨flags.length - 1 - e, by omega, by omega, fun j hj => ?_, ?_⟩
    · rw [sameAt_end (by omega) (by omega)]
      exact congrArg some (decide_eq_true (hafter j hj))
    · rcases h.differ with rfl | ⟨hroom, hnot⟩
      · exact .inl (by omega)
      · right
        rw [sameAt_end (by omega) (by omega)]
        refine congrArg some (decide_eq_false fun heq => hnot ?_)
        have hdrop' : e = flags.length - (flags.length - e) := by omega
        rw [hdrop', drop_suffix_iff (by omega) (by omega)]
        intro j hj
        by_cases hlast : j = flags.length - 1 - e
        · rw [hlast]
          exact heq
        · exact hafter j (by omega)

/-- The words between the borders are given back. -/
theorem differingArgs_eq {first stop : ℤ} (isClang : Bool) (hflags : flags.length < 2 ^ 31)
    (hnormal : normal.length < 2 ^ 31) (hfirst : FirstDifference flags normal d)
    (hlast : LastDifference flags normal d e) (hstart : wordStart flags d = some first)
    (hoption : optionStart flags first = some k)
    (hend : wordEnd flags flags.length e = some stop) :
    differingArgs isClang flags normal = takeArgs isClang flags stop (stop - k).toNat k := by
  have hne : (d : ℤ) ≠ flags.length := by
    have hinside := hfirst.inside
    omega
  rw [differingArgs, toInt_length hflags, firstDifferent_eq hfirst]
  simp only [Option.bind_eq_bind, Option.bind_some, if_neg hne,
    (lastDifferent_eq_some hflags hnormal hfirst.inside).mpr ⟨e, rfl, hlast⟩, hstart, hoption, hend]

end

/-! ## What is read -/

section

variable {n : ℕ} {s : Str} {c : UInt8} {i stop : ℤ}

theorem charAt_total (hlow : 0 ≤ i) (hhigh : i ≤ s.length) : ∃ x, charAt s i = some x := by
  have hlt : i.toNat < (s ++ [0]).length := by
    rw [List.length_append, List.length_singleton]
    omega
  exact ⟨_, (if_neg (by omega)).trans (List.getElem?_eq_getElem hlt)⟩

theorem notAt_total (c : UInt8) (hlow : 0 ≤ i) (hhigh : i ≤ s.length) :
    ∃ b, notAt s c i = some b := by
  obtain ⟨x, hx⟩ := charAt_total hlow hhigh
  exact ⟨decide (x ≠ c), by rw [notAt, hx]; rfl⟩

theorem advance_notAt_total (c : UInt8) (hlow : 0 ≤ i) (hstop : stop ≤ s.length + 1) :
    ∃ m ≤ (stop - i).toNat, advance (notAt s c) (stop - i).toNat i = some (i + m) :=
  advance_total _ fun j hj => notAt_total c (by omega) (by omega)

theorem substr_total (len : ℤ) (hlow : 0 ≤ i) (hhigh : i ≤ s.length) :
    ∃ w, substr s i len = some w :=
  ⟨_, if_pos ⟨hlow, hhigh⟩⟩

theorem wordStart_total (hlow : -1 ≤ i) (hhigh : i ≤ s.length) :
    ∃ k : ℕ, wordStart s i = some (k : ℤ) ∧ k ≤ i + 1 := by
  have htotal : ∀ j : ℕ, j < (i + 1).toNat → ∃ b, notAt s 32 (i - j) = some b :=
    fun j hj => notAt_total 32 (by omega) (by omega)
  obtain ⟨m, hm, hloop⟩ := retreat_total htotal
  refine ⟨(i + 1 - m).toNat, ?_, by omega⟩
  rw [wordStart, hloop]
  refine congrArg some ?_
  omega

theorem wordEnd_total (hlow : 0 ≤ i) (hhigh : i ≤ s.length) :
    ∃ k : ℤ, wordEnd s s.length i = some k ∧ k ≤ s.length + 1 := by
  obtain ⟨m, hm, hloop⟩ := advance_notAt_total (s := s) 32 hlow (le_add_of_nonneg_right zero_le_one)
  refine ⟨i + m + 1, ?_, by omega⟩
  rw [wordEnd, hloop]
  rfl

theorem nextArg_total (hlow : 0 ≤ i) (hlt : i < stop) (hstop : stop ≤ s.length + 1) :
    ∃ arg next, nextArg s stop i = some (arg, next) ∧ i < next := by
  obtain ⟨x, hx⟩ := charAt_total hlow (s := s) (by omega)
  by_cases hquote : x = 34
  · subst hquote
    have hinside : i < s.length := by
      by_contra hge
      obtain rfl : i = s.length := by omega
      rw [charAt_natCast, List.getElem?_concat_length] at hx
      cases hx
    obtain ⟨m, hm, hloop⟩ := advance_notAt_total (i := i + 1) 34 (by omega) hstop
    obtain ⟨w, hw⟩ := substr_total (s := s) (i := i + 1) (i + 1 + m - i - 1) (by omega) (by omega)
    refine ⟨w, i + 1 + m + 2, ?_, by omega⟩
    rw [nextArg, hx]
    simp only [Option.bind_eq_bind, Option.bind_some, ↓reduceIte, hloop, hw, Option.pure_def]
  · obtain ⟨m, hm, hloop⟩ := advance_notAt_total 32 hlow hstop
    obtain ⟨w, hw⟩ := substr_total (s := s) (i + m - i) hlow (by omega)
    refine ⟨w, i + m + 1, ?_, by omega⟩
    rw [nextArg, hx]
    simp only [Option.bind_eq_bind, Option.bind_some, if_neg hquote, hloop, hw, Option.pure_def]

theorem takeArgs_total (isClang : Bool) (hlow : 0 ≤ i) (hstop : stop ≤ s.length + 1) :
    ∃ args, takeArgs isClang s stop n i = some args := by
  induction n generalizing i with
  | zero => exact ⟨[], rfl⟩
  | succ n ih =>
    by_cases hlt : i < stop
    · obtain ⟨arg, next, harg, hnext⟩ := nextArg_total hlow hlt hstop
      obtain ⟨args, hargs⟩ := ih (i := next) (by omega)
      refine ⟨pushed isClang arg ++ args, ?_⟩
      rw [takeArgs, if_pos hlt, harg]
      simp only [Option.bind_eq_bind, Option.bind_some, hargs, Option.pure_def]
    · exact ⟨[], if_neg hlt⟩

end

/-! ## Where the first word starts -/

section

variable {flags : Str} {d i k : ℕ}

/-- The start of the word lies behind every blank before the difference. -/
theorem lt_of_wordStart (hk : wordStart flags d = some (k : ℤ)) (hi : i ≤ d)
    (hblank : flags[i]? = some 32) : i < k := by
  obtain ⟨k', hloop, hsucc⟩ := Option.bind_eq_some_iff.mp hk
  obtain ⟨m, hm, rfl, hbefore, -⟩ := retreat_eq_some.mp hloop
  have hplace : (d : ℤ) - m + 1 = k := Option.some.inj hsucc
  by_contra hle
  have htrue := hbefore (d - i) (by omega)
  have hsame : (d : ℤ) - (d - i : ℕ) = i := by omega
  rw [hsame, notAt_of_getElem hblank] at htrue
  cases htrue

theorem blank_of_wordStart (hk : wordStart flags d = some ((d + 1 : ℕ) : ℤ))
    (hd : d < flags.length) : flags[d]? = some 32 := by
  obtain ⟨k', hloop, hsucc⟩ := Option.bind_eq_some_iff.mp hk
  obtain ⟨m, hm, rfl, -, hend⟩ := retreat_eq_some.mp hloop
  have hplace : (d : ℤ) - m + 1 = (d + 1 : ℕ) := Option.some.inj hsucc
  obtain rfl : m = 0 := by omega
  have hfalse := hend.resolve_left (by omega)
  rw [Nat.cast_zero, sub_zero, notAt_of_getElem (List.getElem?_eq_getElem hd)] at hfalse
  rw [List.getElem?_eq_getElem hd]
  exact congrArg some (not_not.mp (of_decide_eq_false (Option.some.inj hfalse)))

theorem wordStart_blank (h : flags[d]? = some 32) :
    wordStart flags d = some ((d + 1 : ℕ) : ℤ) := by
  obtain ⟨hd, -⟩ := List.getElem?_eq_some_iff.mp h
  have hlast : (flags.take (d + 1)).getLast? = some 32 := by
    rw [List.take_add_one, h]
    simp
  have hfound := wordStart_eq (R := flags.drop (d + 1)) (.inr hlast) List.not_mem_nil
  have hlength : (flags.take (d + 1)).length = d + 1 := by
    rw [List.length_take]
    omega
  rw [List.append_nil, List.take_append_drop, hlength, List.length_nil] at hfound
  rw [← hfound]
  refine congrArg _ ?_
  omega

theorem optionStart_end : optionStart flags flags.length = none := by
  have hend := notAt_length (s := flags) (c := 45) (by decide)
  have hover : notAt flags 45 (flags.length + 1) = none := by
    have hplace : (flags.length : ℤ) + 1 = (flags.length + 1 : ℕ) := by omega
    have hlength : (flags ++ [0]).length ≤ flags.length + 1 := by simp
    rw [hplace, notAt, charAt_natCast, List.getElem?_eq_none hlength]
    rfl
  rw [optionStart, valueAt, hend]
  simp [hover]

end

end Icecream.Client
