import Icecream.Client.ArchWords

/-!
# When the flags behind `native` are right

What `compiler_get_arch_flags` is for, the texts on which it does that, and one on which it does
not: for clang a missing line is not noticed.
-/

namespace Icecream.Client

open Icecream.Comm (Str str)

/-! ## A block of words -/

def startsWithValue (w : Str) : Bool := (unquoted w).head? ≠ some 45

/-- The name of the option before a block that starts with a value -/
def optionOf (before block : List Str) : List Str :=
  if block.head?.any startsWithValue then before.getLast?.toList else []

/-- The line without the block `B`. The block and the rest of the line begin differently, the
block and what stands before it end differently, and the block starts with what the code takes for
a value only if it is one. -/
structure Block (normal X : Str) (A B C : List Str) (Z : Str) : Prop where
  line : normal ++ [32] = X ++ lined (A ++ C) ++ Z
  begins : ∀ b ∈ B.head?, ¬ b <+: lined C ++ Z
  ends : (∀ b ∈ B.getLast?, ¬ b <:+ (X ++ lined A).dropLast) ∨
    B.length = 1 ∧ lined C ++ Z ≠ []
  value : ∀ b ∈ B.head?, looksLikeValue b = startsWithValue b

section

variable {flags normal K K' U V W X Y Z b y : Str} {A B C : List Str} {d e : ℕ}

theorem FirstDifference.length_le (h : FirstDifference flags normal d)
    (hflags : K <+: flags ++ [32]) (hnormal : K <+: normal) : K.length ≤ d := by
  by_contra hlt
  have hinside := h.inside
  have hlength := hnormal.length_le
  obtain ⟨U, hU⟩ := hflags
  obtain ⟨V, rfl⟩ := hnormal
  refine h.differ ?_
  calc flags[d]? = (flags ++ [32])[d]? := (List.getElem?_append_left hinside).symm
    _ = K[d]? := by rw [← hU, List.getElem?_append_left (by omega)]
    _ = (K ++ V ++ [0])[d]? := by
      rw [List.append_assoc, List.getElem?_append_left (by omega)]

/-- The blank behind the common words may stand for the end of the shorter line. -/
theorem FirstDifference.common_le (h : FirstDifference flags normal d)
    (hflags : flags ++ [32] = K ++ U) (hnormal : normal ++ [32] = K ++ V) : K.length ≤ d + 1 := by
  have hflags' : K.dropLast <+: flags ++ [32] :=
    (List.dropLast_prefix K).trans ⟨U, hflags.symm⟩
  have hnormal' : K.dropLast <+: normal := by
    refine List.prefix_of_prefix_length_le ((List.dropLast_prefix K).trans ⟨V, hnormal.symm⟩)
      (List.prefix_append _ _) ?_
    have hlength := congrArg List.length hnormal
    rw [List.length_append, List.length_append, List.length_singleton] at hlength
    rw [List.length_dropLast]
    omega
  have hle := h.length_le hflags' hnormal'
  rw [List.length_dropLast] at hle
  omega

/-- Behind the common beginning the first difference lies in the first word. -/
theorem FirstDifference.lt_of_not_begins (h : FirstDifference flags normal d)
    (hflags : flags ++ [32] = K ++ (b ++ U)) (hnormal : normal ++ [32] = K ++ V)
    (hb : ¬ b <+: V) : d < K.length + b.length := by
  by_contra hle
  have hinside := h.inside
  have hbegins : K ++ b <+: flags ++ [32] := ⟨U, by rw [hflags, List.append_assoc]⟩
  have htake : K ++ b <+: flags.take d := by
    refine List.prefix_of_prefix_length_le hbegins
      ((List.take_prefix d flags).trans (List.prefix_append _ _)) ?_
    rw [List.length_append, List.length_take]
    omega
  rw [h.before] at htake
  have hcommon : K ++ b <+: K ++ V := by
    rw [← hnormal]
    exact htake.trans ((List.take_prefix d normal).trans (List.prefix_append _ _))
  exact hb ((List.prefix_append_right_inj K).mp hcommon)

theorem suffix_of_blank (h : flags ++ [32] <:+ normal ++ [32]) : flags <:+ normal := by
  obtain ⟨t, ht⟩ := h
  rw [← List.append_assoc] at ht
  exact ⟨t, List.append_cancel_right ht⟩

/-- What the lines have in common at their ends comes behind the last difference. -/
theorem LastDifference.le_of_suffix (h : LastDifference flags normal d e)
    (hflags : flags ++ [32] = Y ++ W) (hnormal : normal ++ [32] = K ++ W) (hd : d < Y.length) :
    e < Y.length := by
  by_contra hle
  have hinside := h.inside
  obtain ⟨hroom, hnot⟩ := h.differ.resolve_left (by omega)
  refine hnot (suffix_of_blank ?_)
  have hdrop : flags.drop e ++ [32] = W.drop (e - Y.length) := by
    rw [← List.drop_append_of_le_length (by omega), hflags, List.drop_append,
      List.drop_of_length_le (by omega), List.nil_append]
  rw [hdrop, hnormal]
  exact (List.drop_suffix _ _).trans (List.suffix_append _ _)

theorem LastDifference.le_of_not_suffix (h : LastDifference flags normal d e)
    (hflags : flags ++ [32] = Y ++ (y ++ 32 :: W)) (hnormal : normal ++ [32] = K' ++ 32 :: W)
    (hy : ¬ y <:+ K') : Y.length ≤ e := by
  by_contra hlt
  have hlength := congrArg List.length hflags
  simp only [List.length_append, List.length_cons, List.length_nil] at hlength
  have hdrop : flags.drop Y.length ++ [32] = y ++ 32 :: W := by
    rw [← List.drop_append_of_le_length (by omega), hflags, List.drop_left]
  have hback : flags.drop Y.length <:+ normal := by
    refine List.IsSuffix.trans ?_ h.after
    have hsplit : Y.length = e + 1 + (Y.length - (e + 1)) := by omega
    rw [hsplit, ← List.drop_drop]
    exact List.drop_suffix _ _
  obtain ⟨t, ht⟩ := hback
  have hcommon : t ++ y ++ 32 :: W = K' ++ 32 :: W := by
    rw [← hnormal, ← ht, List.append_assoc, List.append_assoc, hdrop]
  exact hy ⟨t, List.append_cancel_right hcommon⟩

theorem optionOf_append (hvalue : looksLikeValue b = startsWithValue b) :
    (if looksLikeValue b then A.dropLast else A) ++ optionOf A (b :: B) = A := by
  rw [hvalue, optionOf, List.head?_cons, Option.any_some]
  split
  · rcases List.eq_nil_or_concat' A with rfl | ⟨A, u, rfl⟩
    · rfl
    · simp
  · exact List.append_nil A

/-- The block is given back, with the name of the option before it. -/
theorem differingArgs_block (h : Row flags d e X (A ++ B ++ C) Z) (isClang : Bool)
    (hB : B ≠ []) (hblock : Block normal X A B C Z) (hflags : flags.length < 2 ^ 31)
    (hnormal : normal.length < 2 ^ 31) (hfirst : FirstDifference flags normal d)
    (hlast : LastDifference flags normal d e) :
    differingArgs isClang flags normal = some (rendered isClang (optionOf A B ++ B)) := by
  obtain ⟨B', y, hconcat⟩ := (List.eq_nil_or_concat' B).resolve_left hB
  obtain ⟨b, B₁, rfl⟩ := List.exists_cons_of_ne_nil hB
  have hstart : A ++ b :: B₁ ++ C = A ++ b :: (B₁ ++ C) := by simp
  have hend : A ++ b :: B₁ ++ C = A ++ B' ++ y :: C := by
    rw [hconcat]
    simp
  have hbegins : flags ++ [32] = X ++ lined A ++ (b ++ (32 :: lined (B₁ ++ C) ++ Z)) := by
    rw [h.split hstart]
    simp
  have hends : flags ++ [32] = X ++ lined (A ++ B') ++ (y ++ 32 :: (lined C ++ Z)) := by
    rw [h.split hend]
    simp
  have hwithout : normal ++ [32] = X ++ lined A ++ (lined C ++ Z) := by
    rw [hblock.line]
    simp
  have hplaces : (X ++ lined (A ++ B')).length + y.length + 1 =
      (X ++ lined A).length + b.length + 1 + (lined B₁).length := by
    have hlined : lined (b :: B₁) = lined (B' ++ [y]) := by rw [hconcat]
    have hlength := congrArg List.length hlined
    simp only [lined_append, lined_cons, lined_nil, List.length_append, List.length_cons,
      List.length_nil] at hlength ⊢
    omega
  have hlow := hfirst.common_le hbegins hwithout
  have hhigh := hfirst.lt_of_not_begins hbegins hwithout (hblock.begins b rfl)
  have hlow' : (X ++ lined (A ++ B')).length ≤ e := by
    rcases hblock.ends with hdiffer | ⟨hone, hbehind⟩
    · have hy : ¬ y <:+ (X ++ lined A).dropLast := hdiffer y (by rw [hconcat]; simp)
      obtain ⟨K, hK⟩ := List.getLast?_eq_some_iff.mp
        (lined_getLast X (h.before_ne_nil hstart hhigh))
      rw [hK, List.dropLast_concat] at hy
      rw [hK, List.append_assoc, List.singleton_append] at hwithout
      exact hlast.le_of_not_suffix hends hwithout hy
    · -- the only word of the block holds the first difference
      obtain rfl : B₁ = [] := List.length_eq_zero_iff.mp (Nat.succ.inj hone)
      obtain ⟨rfl, hrest⟩ : B' = [] ∧ [b] = [y] := by
        cases B' with
        | nil => exact ⟨rfl, hconcat⟩
        | cons w B' => simp at hconcat
      obtain ⟨V, z, hV⟩ := (List.eq_nil_or_concat' (lined C ++ Z)).resolve_left hbehind
      rw [hV, ← List.append_assoc] at hwithout
      have hcommon := hfirst.length_le (K := X ++ lined A) ⟨_, hbegins.symm⟩
        ⟨V, (List.append_inj' hwithout rfl).1.symm⟩
      rw [List.append_nil]
      exact hcommon.trans hlast.le
  have hhigh' : e ≤ (X ++ lined (A ++ B')).length + y.length := by
    have hends' : flags ++ [32] = X ++ lined (A ++ B') ++ (y ++ [32]) ++ (lined C ++ Z) := by
      rw [hends]
      simp
    have hlength : (X ++ lined (A ++ B') ++ (y ++ [32])).length =
        (X ++ lined (A ++ B')).length + y.length + 1 := by simp; omega
    have hbefore := hlast.le_of_suffix hends' hwithout (by omega)
    omega
  refine h.differingArgs isClang hflags hnormal hfirst hlast hstart hlow hhigh hend hlow' hhigh' ?_
  rw [← List.append_assoc, optionOf_append (hblock.value b rfl), hconcat, List.append_assoc]

end

/-! ## The whole call -/

/-- The compiler's line, if there is one. That of gcc has an end. -/
def compilerLine (isClang : Bool) (output : Str) : Option Str := do
  let line := output.drop (← find (lineMark isClang) output)
  match find (str "\n") line with
  | some i => some (line.take i)
  | none => if isClang then some line else none

/-- What the function is for. `none` stands for a read outside the strings, and `some none` for
`false`. -/
structure Expands (isClang : Bool) (normalOutput flagsOutput : Str)
    (result : Option (Option (List Str))) : Prop where
  reads : result ≠ none
  refuses : compilerLine isClang normalOutput = none ∨ compilerLine isClang flagsOutput = none →
    result = some none
  range : ∀ normal flags, compilerLine isClang normalOutput = some normal →
    compilerLine isClang flagsOutput = some flags →
      ∃ before range after, words flags = before ++ range ++ after ∧
        result = some (some (rendered isClang range))
  block : ∀ normal flags, compilerLine isClang normalOutput = some normal →
    compilerLine isClang flagsOutput = some flags →
      ∀ before block after, block ≠ [] → words normal = before ++ after →
        words flags = before ++ block ++ after →
          result = some (some (rendered isClang (optionOf before block ++ block)))

/-- Two lines whose sizes fit into `int`, of which the second one begins the first or differs
from it inside a row of words. A block of words is seen as a block, if need be at another place
where the same words stand. -/
structure Alike (normal flags : Str) : Prop where
  normalFits : normal.length < 2 ^ 31
  flagsFit : flags.length + 2 < 2 ^ 31
  differ : flags <+: normal ∨ ∃ d e, FirstDifference flags normal d ∧
    LastDifference flags normal d e ∧ (∃ X ws Z, Row flags d e X ws Z) ∧
      ∀ A B C, B ≠ [] → words normal = A ++ C → words flags = A ++ B ++ C →
        ∃ X A' C' Z, Row flags d e X (A' ++ B ++ C') Z ∧ Block normal X A' B C' Z ∧
          optionOf A' B = optionOf A B

/-- Only for gcc a line may be missing. -/
def Comparable (isClang : Bool) (normalOutput flagsOutput : Str) : Prop :=
  (isClang = false ∧
    (compilerLine isClang normalOutput = none ∨ compilerLine isClang flagsOutput = none)) ∨
  ∃ normal flags, compilerLine isClang normalOutput = some normal ∧
    compilerLine isClang flagsOutput = some flags ∧ Alike normal flags

/-- The ends of the difference are found before a line ends, and the second line does not end with
the blank that is the difference. -/
def Readable (normal flags : Str) : Prop :=
  flags <+: normal ++ [0] ∨ ∃ d e, FirstDifference flags normal d ∧
    LastDifference flags normal d e ∧ flags.drop d ≠ [32]

section

variable {normal flags output line s needle : Str} {isClang : Bool} {d i k : ℕ}

theorem find_begins (h : find needle s = some i) : needle <+: s.drop i := by
  induction s generalizing i with
  | nil =>
    simp only [find, Option.ite_none_right_eq_some, Option.some.injEq] at h
    obtain ⟨rfl, rfl⟩ := h
    exact List.nil_prefix
  | cons x s ih =>
    rw [find] at h
    split at h
    · rename_i hbegins
      cases h
      exact hbegins
    · obtain ⟨j, hj, rfl⟩ := Option.map_eq_some_iff.mp h
      exact ih hj

theorem lineMark_begins (h : compilerLine isClang output = some line) :
    lineMark isClang <+: line := by
  obtain ⟨i, hi, hline⟩ := Option.bind_eq_some_iff.mp h
  have hmark := find_begins hi
  cases hj : find (str "\n") (output.drop i) with
  | none =>
    simp only [hj] at hline
    cases isClang with
    | false => cases hline
    | true =>
      cases hline
      exact hmark
  | some j =>
    simp only [hj] at hline
    obtain rfl := Option.some.inj hline
    refine List.prefix_take_iff.mpr ⟨hmark, ?_⟩
    by_contra hlt
    have hnewline : (output.drop i)[j]? = some 10 := by
      have hget := List.prefix_iff_getElem?.mp (find_begins hj) 0 (by decide)
      rwa [List.getElem?_drop, add_zero] at hget
    have hlast : (lineMark isClang)[j]? = some 10 := by
      rw [List.getElem?_eq_getElem (by omega), ← hnewline]
      exact (List.prefix_iff_getElem?.mp hmark j (by omega)).symm
    have hno : (10 : UInt8) ∉ lineMark isClang := by
      cases isClang <;> decide
    exact hno (List.mem_of_getElem? hlast)

theorem rightLine_eq (h : compilerLine isClang output = some line) :
    rightLine isClang output = some line := by
  obtain ⟨i, hi, hline⟩ := Option.bind_eq_some_iff.mp h
  rw [rightLine, eraseBefore, hi]
  exact hline

theorem rightLine_none (h : compilerLine false output = none) : rightLine false output = none := by
  rw [compilerLine] at h
  rw [rightLine, eraseBefore]
  cases hi : find (lineMark false) output with
  | none => rfl
  | some i =>
    rw [hi] at h
    exact h

/-- For clang nothing is thrown. -/
theorem rightLine_clang (output : Str) : ∃ line, rightLine true output = some line := by
  rw [rightLine]
  cases find (str "\n") (eraseBefore (lineMark true) output) with
  | none => exact ⟨_, rfl⟩
  | some i => exact ⟨_, rfl⟩

theorem differingArgs_begins (hflags : flags.length < 2 ^ 31) (h : flags <+: normal ++ [0]) :
    differingArgs isClang flags normal = some [] := by
  rw [differingArgs, toInt_length hflags, firstDifferent_begins h]
  exact if_pos rfl

/-- Nothing is inserted into a line that is a beginning of the other one. -/
theorem no_block_of_begins (h : flags <+: normal) {A B C : List Str} (hB : B ≠ [])
    (hnormal : words normal = A ++ C) (hflags : words flags = A ++ B ++ C) : False := by
  obtain ⟨rest, rfl⟩ := h
  have hle : (words flags).length ≤ (words (flags ++ rest)).length := wordsFrom_length_le
  have hpos := List.length_pos_of_ne_nil hB
  rw [hnormal, hflags] at hle
  simp only [List.length_append] at hle
  omega

theorem Alike.range (isClang : Bool) (h : Alike normal flags) : ∃ before range after,
    words flags = before ++ range ++ after ∧
      differingArgs isClang flags normal = some (rendered isClang range) := by
  have hnormal := h.normalFits
  have hflags := h.flagsFit
  rcases h.differ with hbegins | ⟨d, e, hfirst, hlast, ⟨X, ws, Z, hrow⟩, -⟩
  · exact ⟨words flags, [], [], by simp, differingArgs_begins (by omega)
      (hbegins.trans (List.prefix_append _ _))⟩
  · obtain ⟨w, vs, hne, -⟩ := hrow.behind
    obtain ⟨before, after, hwords⟩ := words_row hrow.line hrow.isWord
      (hne ▸ List.cons_ne_nil w vs) hrow.starts hrow.quotes
    obtain ⟨A, M, D, hws, hargs⟩ :=
      hrow.differingArgs_row isClang (by omega) hnormal hfirst hlast
    refine ⟨before ++ A, M, D ++ after, ?_, hargs⟩
    rw [hwords, hws]
    simp

theorem Alike.block (h : Alike normal flags) {A B C : List Str} (hB : B ≠ [])
    (hwords : words normal = A ++ C) (hwords' : words flags = A ++ B ++ C) :
    differingArgs isClang flags normal = some (rendered isClang (optionOf A B ++ B)) := by
  have hflags := h.flagsFit
  rcases h.differ with hbegins | ⟨d, e, hfirst, hlast, -, hblocks⟩
  · exact (no_block_of_begins hbegins hB hwords hwords').elim
  · obtain ⟨X, A', C', Z, hrow, hblock, hoption⟩ := hblocks A B C hB hwords hwords'
    rw [← hoption]
    exact differingArgs_block hrow isClang hB hblock (by omega) h.normalFits hfirst hlast

/-- The mark at the beginning of the lines is not taken for a value. -/
theorem pos_of_value (hflags : lineMark isClang <+: flags) (hnormal : lineMark isClang <+: normal)
    (hfirst : FirstDifference flags normal d) (hk : wordStart flags d = some (k : ℤ))
    (hvalue : notAt flags 45 (k + 1) = some true) : 0 < k := by
  cases isClang with
  | true =>
    refine Nat.pos_of_ne_zero ?_
    rintro rfl
    have hdash : flags[1]? = some 45 := List.prefix_iff_getElem?.mp hflags 1 (by decide)
    have hfalse := notAt_of_getElem (c := 45) hdash
    rw [Nat.cast_zero, zero_add] at hvalue
    rw [Nat.cast_one, hvalue] at hfalse
    cases hfalse
  | false =>
    have hblank : flags[4]? = some 32 := List.prefix_iff_getElem?.mp hflags 4 (by decide)
    have hle : 5 ≤ d := hfirst.length_le (hflags.trans (List.prefix_append _ _)) hnormal
    exact Nat.zero_lt_of_lt (lt_of_wordStart hk (by omega) hblank)

/-- The name of an option is looked for in the line. -/
theorem optionStart_total (hflags : lineMark isClang <+: flags)
    (hnormal : lineMark isClang <+: normal) (hfirst : FirstDifference flags normal d)
    (hk : wordStart flags d = some (k : ℤ)) (hlt : k < flags.length) :
    ∃ s : ℕ, optionStart flags k = some (s : ℤ) := by
  obtain ⟨b, hb⟩ := notAt_total (s := flags) (i := k) 45 (by omega) (by omega)
  obtain ⟨b', hb'⟩ := notAt_total (s := flags) (i := k + 1) 45 (by omega) (by omega)
  have hvalue : valueAt flags k = some (b && b') := by
    rw [valueAt, hb]
    cases b with
    | false => rfl
    | true => exact hb'
  rw [optionStart, hvalue, Option.bind_eq_bind, Option.bind_some]
  split
  · rename_i htrue
    obtain ⟨rfl, rfl⟩ : b = true ∧ b' = true := by simpa using htrue
    have hpos := pos_of_value hflags hnormal hfirst hk hb'
    obtain ⟨s, hs, -⟩ := wordStart_total (s := flags) (i := (k : ℤ) - 2) (by omega) (by omega)
    exact ⟨s, hs⟩
  · exact ⟨k, rfl⟩

/-- Exactly then nothing is read outside the two lines. -/
theorem differingArgs_reads_iff (hmark : lineMark isClang <+: flags)
    (hmark' : lineMark isClang <+: normal) (hnormal : normal.length < 2 ^ 31)
    (hflags : flags.length < 2 ^ 31) :
    differingArgs isClang flags normal ≠ none ↔ Readable normal flags := by
  constructor
  · intro h
    obtain ⟨args, hargs⟩ := Option.ne_none_iff_exists'.mp h
    rw [differingArgs, toInt_length hflags] at hargs
    obtain ⟨k, hk, hargs⟩ := Option.bind_eq_some_iff.mp hargs
    rcases firstDifferent_some hk with ⟨-, hbegins⟩ | ⟨d, rfl, hfirst⟩
    · exact .inl hbegins
    · have hinside := hfirst.inside
      have hne : (d : ℤ) ≠ flags.length := by omega
      rw [if_neg hne] at hargs
      obtain ⟨k, hk, hargs⟩ := Option.bind_eq_some_iff.mp hargs
      obtain ⟨e, -, hlast⟩ := (lastDifferent_eq_some hflags hnormal hinside).mp hk
      refine .inr ⟨d, e, hfirst, hlast, fun hdrop => ?_⟩
      -- the word is looked for behind the blank that ends the line
      have hblank : flags[d]? = some 32 := by
        rw [← List.head?_drop, hdrop, List.head?_cons]
      have hlength : d + 1 = flags.length := by
        have hone := congrArg List.length hdrop
        rw [List.length_drop, List.length_singleton] at hone
        omega
      obtain ⟨w, hw, hargs⟩ := Option.bind_eq_some_iff.mp hargs
      obtain ⟨s, hs, -⟩ := Option.bind_eq_some_iff.mp hargs
      obtain rfl : ((d + 1 : ℕ) : ℤ) = w := Option.some.inj ((wordStart_blank hblank).symm.trans hw)
      rw [hlength, optionStart_end] at hs
      cases hs
  · rintro (hbegins | ⟨d, e, hfirst, hlast, hdrop⟩)
    · rw [differingArgs_begins hflags hbegins]
      exact Option.some_ne_none _
    · have hinside := hfirst.inside
      obtain ⟨k, hk, hle⟩ := wordStart_total (s := flags) (i := d) (by omega) (by omega)
      have hlt : k < flags.length := by
        by_contra hge
        obtain rfl : k = d + 1 := by omega
        refine hdrop ?_
        rw [List.drop_eq_getElem_cons hinside, List.drop_of_length_le (by omega)]
        have hblank := blank_of_wordStart hk hinside
        rw [List.getElem?_eq_getElem hinside] at hblank
        rw [Option.some.inj hblank]
      obtain ⟨s, hs⟩ := optionStart_total hmark hmark' hfirst hk hlt
      have hend := hlast.inside
      obtain ⟨stop, hstop, hstop'⟩ :=
        wordEnd_total (s := flags) (i := e) (by omega) (by omega)
      obtain ⟨args, hargs⟩ :=
        takeArgs_total (n := (stop - s).toNat) (i := s) isClang (by omega) hstop'
      rw [differingArgs_eq isClang hflags hnormal hfirst hlast hk hs hstop, hargs]
      exact Option.some_ne_none _

variable {readCommandOutput : List Str → Str} {march mcpu mtune : Bool}

theorem compilerGetArchFlags_lines
    (hnormal : compilerLine isClang (readCommandOutput (archArgs false false false)) = some normal)
    (hflags : compilerLine isClang (readCommandOutput (archArgs march mcpu mtune)) = some flags) :
    compilerGetArchFlags readCommandOutput isClang march mcpu mtune =
      (differingArgs isClang flags normal).map some := by
  rw [compilerGetArchFlags, rightLine_eq hnormal, rightLine_eq hflags]

theorem compilerGetArchFlags_missing
    (h : compilerLine false (readCommandOutput (archArgs false false false)) = none ∨
      compilerLine false (readCommandOutput (archArgs march mcpu mtune)) = none) :
    compilerGetArchFlags readCommandOutput false march mcpu mtune = some none := by
  rw [compilerGetArchFlags]
  rcases h with hnormal | hflags
  · rw [rightLine_none hnormal]
    cases rightLine false (readCommandOutput (archArgs march mcpu mtune)) <;> rfl
  · rw [rightLine_none hflags]

/-- For clang the call is never refused. -/
theorem compilerGetArchFlags_clang :
    compilerGetArchFlags readCommandOutput true march mcpu mtune ≠ some none := by
  obtain ⟨flags, hflags⟩ := rightLine_clang (readCommandOutput (archArgs march mcpu mtune))
  obtain ⟨normal, hnormal⟩ :=
    rightLine_clang (readCommandOutput (archArgs false false false))
  rw [compilerGetArchFlags, hflags, hnormal]
  cases differingArgs true flags normal <;> simp

theorem Expands.of_missing
    (h : compilerLine false (readCommandOutput (archArgs false false false)) = none ∨
      compilerLine false (readCommandOutput (archArgs march mcpu mtune)) = none) :
    Expands false (readCommandOutput (archArgs false false false))
      (readCommandOutput (archArgs march mcpu mtune))
      (compilerGetArchFlags readCommandOutput false march mcpu mtune) := by
  rw [compilerGetArchFlags_missing h]
  constructor
  case reads => exact Option.some_ne_none none
  case refuses => exact fun _ => rfl
  case range =>
    intro normal flags hnormal hflags
    rw [hnormal, hflags] at h
    rcases h with h | h <;> cases h
  case block =>
    intro normal flags hnormal hflags
    rw [hnormal, hflags] at h
    rcases h with h | h <;> cases h

theorem Expands.of_alike (h : Alike normal flags)
    (hnormal : compilerLine isClang (readCommandOutput (archArgs false false false)) = some normal)
    (hflags : compilerLine isClang (readCommandOutput (archArgs march mcpu mtune)) = some flags) :
    Expands isClang (readCommandOutput (archArgs false false false))
      (readCommandOutput (archArgs march mcpu mtune))
      (compilerGetArchFlags readCommandOutput isClang march mcpu mtune) := by
  rw [compilerGetArchFlags_lines hnormal hflags]
  obtain ⟨before, range, after, hwords, hargs⟩ := h.range isClang
  constructor
  case reads => simp [hargs]
  case refuses =>
    rw [hnormal, hflags]
    rintro (hmissing | hmissing) <;> cases hmissing
  case range =>
    intro normal' flags' hnormal' hflags'
    obtain rfl : flags = flags' := Option.some.inj (hflags.symm.trans hflags')
    exact ⟨before, range, after, hwords, by rw [hargs, Option.map_some]⟩
  case block =>
    intro normal' flags' hnormal' hflags' A B C hB hA hAB
    obtain rfl : normal = normal' := Option.some.inj (hnormal.symm.trans hnormal')
    obtain rfl : flags = flags' := Option.some.inj (hflags.symm.trans hflags')
    rw [h.block hB hA hAB, Option.map_some]

end

/-- Where gcc names one flag more, its place is the end of the line. -/
theorem comparable_flag : Comparable false (str "/cc1 -E\n") (str "/cc1 -E -m\n") := by
  have hwords : ∀ w ∈ [str "/cc1", str "-E", str "-m"], 32 ∉ w ∧ IsWord w := by
    have hplain : ∀ w ∈ [str "/cc1", str "-E", str "-m"], w ≠ [] ∧ 32 ∉ w ∧ 34 ∉ w := by decide
    exact fun w hw => ⟨(hplain w hw).2.1, .bare (hplain w hw).1 (hplain w hw).2.1 (hplain w hw).2.2⟩
  have hrow : Row (str "/cc1 -E -m") 7 9 [] [str "/cc1", str "-E", str "-m"] [] := by
    constructor
    case isWord => exact fun w hw => (hwords w hw).2
    case behind => exact ⟨_, _, rfl, by decide⟩
    case whole =>
      intro A w C hws hblank
      exact absurd hblank (hwords w (by rw [hws]; simp)).1
    all_goals decide
  have hblock : Block (str "/cc1 -E") [] [str "/cc1", str "-E"] [str "-m"] [] [] :=
    ⟨by decide, by decide, .inl (by decide), by decide⟩
  refine .inr ⟨str "/cc1 -E", str "/cc1 -E -m", by decide, by decide, by decide, by decide,
    .inr ⟨7, 9, ⟨by decide, by decide, by decide, by decide⟩,
      ⟨by decide, by decide, by decide, by decide, .inr (by decide)⟩, ⟨_, _, _, hrow⟩, ?_⟩⟩
  intro A B C hB hnormal hflags
  have hshort : words (str "/cc1 -E") = [str "/cc1", str "-E"] := by decide
  have hlong : words (str "/cc1 -E -m") = [str "/cc1", str "-E"] ++ [str "-m"] := by decide
  rw [hshort] at hnormal
  rw [hlong, List.append_assoc] at hflags
  obtain rfl : C = [] := by
    rcases List.eq_nil_or_concat' C with rfl | ⟨C, c, rfl⟩
    · rfl
    · -- the last words of the lines are not the same
      rw [← List.append_assoc] at hnormal hflags
      rw [← List.append_assoc] at hflags
      have hsplit : [str "/cc1"] ++ [str "-E"] = A ++ C ++ [c] := hnormal
      have hlast : [str "-E"] = [c] := (List.append_inj' hsplit rfl).2
      have hlast' : [str "-m"] = [c] := (List.append_inj' hflags rfl).2
      exact absurd (hlast.trans hlast'.symm) (by decide)
  rw [List.append_nil] at hnormal hflags
  subst hnormal
  obtain rfl := List.append_cancel_left hflags
  exact ⟨[], _, [], [], hrow, hblock, rfl⟩

end Icecream.Client
