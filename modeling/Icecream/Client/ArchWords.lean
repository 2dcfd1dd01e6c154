import Icecream.Client.ArchFlags

/-!
# The words behind `native`

A line of the compiler is a row of words, bare or in quotes. Where the lines differ inside such a
row, `compiler_get_arch_flags` gives back some of its words; which ones is said by the positions of
the first and of the last difference.
-/

namespace Icecream.Client

open Icecream.Comm (Str str)
open Icecream.Cursor

/-! ## Words of a line -/

/-- Blanks separate the words, but not between quotes. -/
def wordsFrom : Bool → Str → Str → List Str
  | _, word, [] => if word = [] then [] else [word]
  | quoted, word, c :: rest =>
    if c = 32 ∧ quoted = false then
      (if word = [] then [] else [word]) ++ wordsFrom false [] rest
    else wordsFrom (quoted != (c == 34)) (word ++ [c]) rest

def words (line : Str) : List Str := wordsFrom false [] line

/-- A word without the quotes around it -/
def unquoted (w : Str) : Str := if w.head? = some 34 then (w.drop 1).dropLast else w

/-- A word as the compilers write it -/
inductive IsWord : Str → Prop
  | quoted {w : Str} (hquote : 34 ∉ w) : IsWord (34 :: (w ++ [34]))
  | bare {w : Str} (hne : w ≠ []) (hblank : 32 ∉ w) (hquote : 34 ∉ w) : IsWord w

/-- The text of the words, each with a blank behind it -/
def lined (ws : List Str) : Str := ws.flatMap fun w => w ++ [32]

section

variable {w line word rest X Z : Str} {ws : List Str} {quoted : Bool}

@[simp] theorem lined_nil : lined [] = [] := rfl

@[simp] theorem lined_cons : lined (w :: ws) = w ++ 32 :: lined ws := by simp [lined]

@[simp] theorem lined_append (vs ws : List Str) : lined (vs ++ ws) = lined vs ++ lined ws :=
  List.flatMap_append

theorem lined_getLast (X : Str) (hws : ws ≠ []) : (X ++ lined ws).getLast? = some 32 := by
  obtain ⟨vs, v, rfl⟩ := (List.eq_nil_or_concat' ws).resolve_left hws
  simp [← List.append_assoc]

theorem lined_ends (X : Str) (hX : X = [] ∨ X.getLast? = some 32) (ws : List Str) :
    X ++ lined ws = [] ∨ (X ++ lined ws).getLast? = some 32 := by
  by_cases hws : ws = []
  · rwa [hws, lined_nil, List.append_nil]
  · exact .inr (lined_getLast X hws)

theorem IsWord.ne_nil (h : IsWord w) : w ≠ [] := by
  cases h with
  | quoted => exact List.cons_ne_nil _ _
  | bare hne => exact hne

/-- Words without a quote between them and the blank are kept whole. -/
theorem wordsFrom_append (hw : 34 ∉ w) (hblank : quoted = true ∨ 32 ∉ w) :
    wordsFrom quoted word (w ++ rest) = wordsFrom quoted (word ++ w) rest := by
  induction w generalizing word with
  | nil => simp
  | cons c w ih =>
    rw [List.mem_cons, not_or] at hw
    have hkept : ¬ (c = 32 ∧ quoted = false) := by
      rintro ⟨rfl, rfl⟩
      exact hblank.elim Bool.false_ne_true fun h => h List.mem_cons_self
    have hother : (c == 34) = false := beq_false_of_ne (Ne.symm hw.1)
    rw [List.cons_append, wordsFrom, if_neg hkept, hother, Bool.bne_false,
      ih hw.2 (hblank.imp_right fun h hmem => h (List.mem_cons_of_mem c hmem)), List.append_assoc,
      List.singleton_append]

theorem words_isWord (h : IsWord w) (rest : Str) : words (w ++ rest) = wordsFrom false w rest := by
  cases h with
  | @quoted w hquote =>
    have hopen : words (34 :: (w ++ [34]) ++ rest) = wordsFrom true [34] (w ++ (34 :: rest)) := by
      rw [List.cons_append, List.append_assoc]
      rfl
    rw [hopen, wordsFrom_append hquote (.inl rfl), wordsFrom, if_neg (by decide)]
    simp
  | bare hne hblank hquote => exact wordsFrom_append hquote (.inr hblank)

theorem words_cons (h : IsWord w) (rest : Str) : words (w ++ 32 :: rest) = w :: words rest := by
  rw [words_isWord h, wordsFrom, if_pos ⟨rfl, rfl⟩, if_neg h.ne_nil]
  rfl

theorem words_single (h : IsWord w) : words w = [w] := by
  have hword := words_isWord h []
  rw [List.append_nil] at hword
  rw [hword, wordsFrom, if_neg h.ne_nil]

theorem words_lined (hws : ∀ w ∈ ws, IsWord w) (rest : Str) :
    words (lined ws ++ rest) = ws ++ words rest := by
  induction ws with
  | nil => rfl
  | cons w ws ih =>
    rw [List.forall_mem_cons] at hws
    rw [lined_cons, List.append_assoc, List.cons_append, words_cons hws.1, ih hws.2,
      List.cons_append]

/-- A blank outside of quotes ends the words before it. -/
theorem wordsFrom_blank (hquotes : quoted = true ↔ ¬ Even (line.count 34)) :
    wordsFrom quoted word (line ++ 32 :: rest) = wordsFrom quoted word line ++ words rest := by
  induction line generalizing quoted word with
  | nil =>
    obtain rfl : quoted = false := by simpa using hquotes
    rfl
  | cons c line ih =>
    rw [List.cons_append, wordsFrom, wordsFrom]
    split
    · rename_i hblank
      obtain ⟨rfl, rfl⟩ := hblank
      rw [ih (by simpa using hquotes), List.append_assoc]
    · refine ih ?_
      rw [List.count_cons] at hquotes
      by_cases hc : c = 34
      · subst hc
        rw [beq_self_eq_true, if_pos rfl, Nat.even_add_one, not_not] at hquotes
        cases quoted <;> simp_all
      · have hne : (c == 34) = false := beq_false_of_ne hc
        rw [hne] at hquotes ⊢
        simpa using hquotes

theorem words_blank (hquotes : Even (line.count 34)) (rest : Str) :
    words (line ++ 32 :: rest) = words line ++ words rest :=
  wordsFrom_blank (by simpa using hquotes)

/-- More text has at least as many words. -/
theorem wordsFrom_length_le : (wordsFrom quoted word line).length ≤
    (wordsFrom quoted word (line ++ rest)).length := by
  induction line generalizing quoted word with
  | nil =>
    induction rest generalizing quoted word with
    | nil => exact le_rfl
    | cons c rest ih =>
      rw [List.nil_append, wordsFrom, wordsFrom]
      split
      · simp
      · rename_i hne
        split
        · simp
        · have hle : (wordsFrom (quoted != (c == 34)) (word ++ [c]) []).length ≤
              (wordsFrom (quoted != (c == 34)) (word ++ [c]) ([] ++ rest)).length := ih
          rw [List.nil_append, wordsFrom, if_neg (by simp)] at hle
          exact hle
  | cons c line ih =>
    rw [List.cons_append, wordsFrom, wordsFrom]
    split
    · rw [List.length_append, List.length_append]
      exact Nat.add_le_add_left ih _
    · exact ih

/-- The words of a row inside a line are words of the line. -/
theorem words_row (hline : line ++ [32] = X ++ lined ws ++ Z) (hws : ∀ w ∈ ws, IsWord w)
    (hne : ws ≠ []) (hX : X = [] ∨ X.getLast? = some 32) (hquotes : Even (X.count 34)) :
    ∃ before after, words line = before ++ ws ++ after := by
  have hbefore : ∃ before, ∀ rest, words (X ++ rest) = before ++ words rest := by
    rcases hX with rfl | hlast
    · exact ⟨[], fun rest => rfl⟩
    · obtain ⟨X, rfl⟩ := List.getLast?_eq_some_iff.mp hlast
      rw [List.count_append] at hquotes
      refine ⟨words X, fun rest => ?_⟩
      rw [List.append_assoc, List.singleton_append, words_blank (by simpa using hquotes)]
  obtain ⟨before, hbefore⟩ := hbefore
  rcases List.eq_nil_or_concat' Z with rfl | ⟨Z, z, rfl⟩
  · -- the last word ends the line
    obtain ⟨vs, v, rfl⟩ := (List.eq_nil_or_concat' ws).resolve_left hne
    have hblank : X ++ lined (vs ++ [v]) ++ [] = X ++ (lined vs ++ v) ++ [32] := by simp
    have hend := List.append_cancel_right (hline.trans hblank)
    rw [List.forall_mem_append] at hws
    refine ⟨before, [], ?_⟩
    rw [hend, hbefore, words_lined hws.1, words_single (hws.2 v (List.mem_singleton_self v))]
    simp
  · rw [← List.append_assoc] at hline
    have hend := (List.append_inj' hline rfl).1
    refine ⟨before, words Z, ?_⟩
    rw [hend, List.append_assoc, hbefore, words_lined hws, List.append_assoc]

/-! ## Giving the words back -/

/-- The words as they are appended -/
def rendered (isClang : Bool) (ws : List Str) : List Str :=
  ws.flatMap fun w => pushed isClang (unquoted w)

/-- The blank behind the last word of a line is not in the line. -/
theorem line_split (h : line ++ [32] = X ++ 32 :: Z) :
    ∃ T, line = X ++ T ∧ (T = [] ∧ Z = [] ∨ ∃ Z', T = 32 :: Z' ∧ Z = Z' ++ [32]) := by
  rcases List.eq_nil_or_concat' Z with rfl | ⟨Z, z, rfl⟩
  · exact ⟨[], by simpa using List.append_cancel_right h, .inl ⟨rfl, rfl⟩⟩
  · rw [← List.cons_append, ← List.append_assoc] at h
    obtain ⟨hline, hz⟩ := List.append_inj' h rfl
    obtain rfl : 32 = z := List.singleton_inj.mp hz
    exact ⟨32 :: Z, hline, .inr ⟨Z, rfl, rfl⟩⟩

/-- A loop up to the end of the word -/
theorem advance_over {c : UInt8} {bound : ℤ} (hw : c ∉ w)
    (hbound : X.length + w.length < bound) :
    advance (notAt (X ++ w ++ c :: rest) c) (bound - X.length).toNat X.length =
      some ((X.length : ℤ) + w.length) := by
  have hget : (X ++ w ++ c :: rest)[X.length + w.length]? = some c := by
    rw [← List.length_append]
    simp
  refine advance_eq_some.mpr ⟨w.length, by omega, rfl, fun j hj => notAt_of_mem hw hj, .inr ?_⟩
  have hstop := notAt_of_getElem (c := c) hget
  rw [Nat.cast_add] at hstop
  rw [hstop]
  simp

theorem substr_append : substr (X ++ w ++ rest) X.length w.length = some w := by
  have hle : (0 : ℤ) ≤ X.length ∧ (X.length : ℤ) ≤ (X ++ w ++ rest).length := by
    rw [List.length_append, List.length_append]
    omega
  rw [substr, if_pos hle, Int.toNat_natCast, Int.toNat_natCast, List.append_assoc, List.drop_left,
    List.take_left]

theorem nextArg_quoted {stop : ℤ} (hw : 34 ∉ w) (hstop : X.length + w.length + 2 < stop) :
    nextArg (X ++ 34 :: (w ++ 34 :: rest)) stop X.length =
      some (w, (X.length : ℤ) + w.length + 3) := by
  have hsplit : X ++ 34 :: (w ++ 34 :: rest) = X ++ [34] ++ w ++ 34 :: rest := by simp
  have hlength : (X.length : ℤ) + 1 = (X ++ [34]).length := by simp
  have hchar : charAt (X ++ 34 :: (w ++ 34 :: rest)) X.length = some 34 := by
    rw [charAt_of_lt (by simp)]
    simp
  have hloop : advance (notAt (X ++ [34] ++ w ++ 34 :: rest) 34)
      (stop - (X ++ [34]).length).toNat (X ++ [34]).length =
        some (((X ++ [34]).length : ℤ) + w.length) :=
    advance_over hw (by rw [← hlength]; omega)
  have hsub : substr (X ++ [34] ++ w ++ 34 :: rest) (X ++ [34]).length w.length = some w :=
    substr_append
  have hlen : ((X ++ [34]).length : ℤ) + w.length - X.length - 1 = w.length := by omega
  rw [nextArg, hchar, hsplit, hlength]
  simp only [Option.bind_eq_bind, Option.bind_some, ↓reduceIte, hloop, hlen, hsub, Option.pure_def]
  rw [← hlength]
  congr 2
  omega

theorem nextArg_bare {c : UInt8} {stop : ℤ} (hc : c ≠ 34) (hw : 32 ∉ c :: w)
    (hstop : X.length + (c :: w).length < stop) :
    nextArg (X ++ (c :: w) ++ 32 :: rest) stop X.length =
      some (c :: w, (X.length : ℤ) + (c :: w).length + 1) := by
  have hchar : charAt (X ++ (c :: w) ++ 32 :: rest) X.length = some c := by
    rw [charAt_of_lt (by simp)]
    simp
  have hlen : (X.length : ℤ) + (c :: w).length - X.length = (c :: w).length := by omega
  rw [nextArg, hchar]
  simp only [Option.bind_eq_bind, Option.bind_some, if_neg hc, advance_over hw hstop, hlen,
    substr_append, Option.pure_def]

/-- The last word of the line has no blank behind it. -/
theorem nextArg_last {c : UInt8} (hc : c ≠ 34) (hw : 32 ∉ c :: w) :
    nextArg (X ++ (c :: w)) (X.length + (c :: w).length + 1) X.length =
      some (c :: w, (X.length : ℤ) + (c :: w).length + 2) := by
  have hchar : charAt (X ++ (c :: w)) X.length = some c := by
    rw [charAt_of_lt (by simp)]
    simp
  have hloop : advance (notAt (X ++ (c :: w)) 32)
      ((X.length : ℤ) + (c :: w).length + 1 - X.length).toNat X.length =
        some ((X.length : ℤ) + (c :: w).length + 1) := by
    refine advance_eq_some.mpr ⟨(c :: w).length + 1, by omega, by omega, fun j hj => ?_,
      .inl (by omega)⟩
    by_cases hlast : j = (c :: w).length
    · have hend := notAt_length (s := X ++ (c :: w)) (c := 32) (by decide)
      rw [List.length_append, Nat.cast_add] at hend
      rw [hlast]
      exact hend
    · have hmem := notAt_of_mem (P := X) (R := []) hw (i := j) (by omega)
      rwa [List.append_nil] at hmem
  have hsub : substr (X ++ (c :: w)) X.length
      ((X.length : ℤ) + (c :: w).length + 1 - X.length) = some (c :: w) := by
    have hle : (0 : ℤ) ≤ X.length ∧ (X.length : ℤ) ≤ (X ++ (c :: w)).length := by
      rw [List.length_append]
      omega
    rw [substr, if_pos hle, Int.toNat_natCast, List.drop_left, List.take_of_length_le (by omega)]
  rw [nextArg, hchar]
  simp only [Option.bind_eq_bind, Option.bind_some, if_neg hc, hloop, hsub, Option.pure_def]
  congr 2

/-- The words of a row are given back, and the loop ends behind them. -/
theorem takeArgs_eq {M : List Str} {n : ℕ} (isClang : Bool)
    (hline : line ++ [32] = X ++ lined M ++ Z) (hM : ∀ w ∈ M, IsWord w)
    (hn : (lined M).length ≤ n) :
    takeArgs isClang line (X.length + (lined M).length : ℕ) n X.length =
      some (rendered isClang M) := by
  induction M generalizing X n with
  | nil =>
    cases n with
    | zero => rfl
    | succ n => exact if_neg (by simp)
  | cons w M ih =>
    rw [List.forall_mem_cons] at hM
    have hlength : (lined (w :: M)).length = w.length + 1 + (lined M).length := by
      rw [lined_cons, List.length_append, List.length_cons]
      omega
    obtain ⟨n, rfl⟩ : ∃ m, n = m + 1 := ⟨n - 1, by omega⟩
    have hline' : line ++ [32] = X ++ w ++ 32 :: (lined M ++ Z) := by
      rw [hline, lined_cons]
      simp
    have hrest := ih (X := X ++ (w ++ [32])) (n := n) (by rw [hline']; simp) hM.2 (by omega)
    have hnext : ((X ++ (w ++ [32])).length : ℤ) = X.length + w.length + 1 := by
      rw [List.length_append, List.length_append, List.length_singleton]
      omega
    have hstop : (X ++ (w ++ [32])).length + (lined M).length =
        X.length + (lined (w :: M)).length := by
      rw [hlength, List.length_append, List.length_append, List.length_singleton]
      omega
    rw [hstop, hnext] at hrest
    have hstart : (X.length : ℤ) < (X.length + (lined (w :: M)).length : ℕ) := by omega
    have hturn : takeArgs isClang line (X.length + (lined (w :: M)).length : ℕ) (n + 1) X.length =
        (nextArg line (X.length + (lined (w :: M)).length : ℕ) X.length).bind fun r =>
          (takeArgs isClang line (X.length + (lined (w :: M)).length : ℕ) n r.2).bind fun args =>
            some (pushed isClang r.1 ++ args) := if_pos hstart
    rw [hturn]
    obtain ⟨T, rfl, hT⟩ := line_split hline'
    cases hM.1 with
    | @quoted w hquote =>
      have harg : nextArg (X ++ 34 :: (w ++ 34 :: T))
          (X.length + (lined ((34 :: (w ++ [34])) :: M)).length : ℕ) X.length =
            some (w, (X.length : ℤ) + w.length + 3) :=
        nextArg_quoted hquote (by simp; omega)
      have hsplit : X ++ 34 :: (w ++ 34 :: T) = X ++ 34 :: (w ++ [34]) ++ T := by simp
      rw [hsplit] at harg
      have hplace : (X.length : ℤ) + (34 :: (w ++ [34])).length + 1 = X.length + w.length + 3 := by
        rw [List.length_cons, List.length_append, List.length_singleton]
        omega
      rw [hplace] at hrest
      rw [harg, Option.bind_some, hrest]
      simp [rendered, unquoted]
    | bare hne hblank hquote =>
      obtain ⟨c, w, rfl⟩ := List.exists_cons_of_ne_nil hne
      have hc : c ≠ 34 := fun heq => hquote (heq ▸ List.mem_cons_self)
      have hword : unquoted (c :: w) = c :: w := if_neg fun h => hc (Option.some.inj h)
      rcases hT with ⟨rfl, hnil⟩ | ⟨T, rfl, -⟩
      · -- nothing is left behind the last word
        obtain ⟨hnil, rfl⟩ := List.append_eq_nil_iff.mp hnil
        obtain rfl : M = [] := by
          cases M with
          | nil => rfl
          | cons v M => simp at hnil
        have hend : ((X.length + (lined [c :: w]).length : ℕ) : ℤ) =
            X.length + (c :: w).length + 1 := by
          rw [hlength, lined_nil, List.length_nil]
          omega
        have hover : takeArgs isClang (X ++ (c :: w)) (X.length + (c :: w).length + 1) n
            (X.length + (c :: w).length + 2) = some [] := by
          cases n with
          | zero => rfl
          | succ n => exact if_neg (by omega)
        rw [List.append_nil, hend, nextArg_last hc hblank, Option.bind_some, hover]
        simp [rendered, hword]
      · rw [nextArg_bare hc hblank (by omega), Option.bind_some, hrest]
        simp [rendered, hword]

/-- What the code takes for a value: neither of the first two characters is a `-`. -/
def looksLikeValue (w : Str) : Bool := w.head? ≠ some 45 ∧ w[1]? ≠ some 45

theorem valueAt_eq (hline : line ++ [32] = X ++ w ++ 32 :: Z) (hw : w ≠ []) :
    valueAt line X.length = some (looksLikeValue w) := by
  obtain ⟨T, rfl, hT⟩ := line_split hline
  obtain ⟨c, w, rfl⟩ := List.exists_cons_of_ne_nil hw
  have hfirst : notAt (X ++ (c :: w) ++ T) 45 X.length = some (decide (c ≠ 45)) :=
    notAt_of_getElem (by simp)
  have hplace : (X.length : ℤ) + 1 = (X.length + 1 : ℕ) := by omega
  have hsecond : notAt (X ++ (c :: w) ++ T) 45 (X.length + 1) =
      some (decide ((c :: w)[1]? ≠ some 45)) := by
    rw [hplace]
    cases w with
    | nil =>
      rcases hT with ⟨rfl, -⟩ | ⟨T, rfl, -⟩
      · have hend := notAt_length (s := X ++ [c] ++ []) (c := 45) (by decide)
        rw [List.append_nil, List.length_append] at hend
        rw [List.append_nil]
        exact hend
      · have hblank : (X ++ [c] ++ 32 :: T)[X.length + 1]? = some 32 := by simp
        rw [notAt_of_getElem hblank]
        rfl
    | cons b w =>
      have hget : (X ++ (c :: b :: w) ++ T)[X.length + 1]? = some b := by simp
      rw [notAt_of_getElem hget]
      simp
  rw [valueAt, hfirst]
  by_cases hc : c = 45
  · subst hc
    rfl
  · rw [decide_eq_true hc, Option.bind_eq_bind, Option.bind_some, if_pos rfl, hsecond]
    simp [hc, looksLikeValue]

end

/-! ## The row in which the lines differ -/

/-- The lines differ inside a row of words. No blank between quotes is taken for the border of a
word: a word with blanks neither holds the first or the last difference nor stands where the name
of an option is looked for. -/
structure Row (flags : Str) (d e : ℕ) (X : Str) (ws : List Str) (Z : Str) : Prop where
  line : flags ++ [32] = X ++ lined ws ++ Z
  starts : X = [] ∨ X.getLast? = some 32
  quotes : Even (X.count 34)
  isWord : ∀ w ∈ ws, IsWord w
  behind : ∃ w vs, ws = w :: vs ∧ X.length + w.length ≤ d
  ahead : d + 1 < (X ++ lined ws).length
  last : e < (X ++ lined ws).length
  whole : ∀ A w C, ws = A ++ w :: C → 32 ∈ w →
    (d < (X ++ lined A).length ∨
      (X ++ lined A).length + w.length + 1 + (C.headD []).length ≤ d) ∧
    (e < (X ++ lined A).length ∨ (X ++ lined A).length + w.length ≤ e)

section

variable {flags normal X Z v x : Str} {ws A B C D M : List Str} {d e i : ℕ}

theorem length_lined_concat :
    (X ++ lined (A ++ [v])).length = (X ++ lined A).length + v.length + 1 := by
  simp only [List.length_append, lined_append, lined_cons, lined_nil, List.length_cons,
    List.length_nil]
  omega

/-- Each place of a row belongs to a word or to the blank behind it. -/
theorem exists_word (hlow : X.length ≤ i) (hhigh : i < (X ++ lined ws).length) :
    ∃ A w C, ws = A ++ w :: C ∧ (X ++ lined A).length ≤ i ∧
      i ≤ (X ++ lined A).length + w.length := by
  induction ws generalizing X with
  | nil =>
    rw [lined_nil, List.append_nil] at hhigh
    omega
  | cons w ws ih =>
    by_cases hi : i ≤ X.length + w.length
    · exact ⟨[], w, ws, rfl, by simpa using hlow, by simpa using hi⟩
    · have hlow' : (X ++ (w ++ [32])).length ≤ i := by
        rw [List.length_append, List.length_append, List.length_singleton]
        omega
      have hsplit : X ++ lined (w :: ws) = X ++ (w ++ [32]) ++ lined ws := by simp
      rw [hsplit] at hhigh
      obtain ⟨A, v, C, rfl, hA, hv⟩ := ih hlow' hhigh
      have hplace : X ++ (w ++ [32]) ++ lined A = X ++ lined (w :: A) := by simp
      rw [hplace] at hA hv
      exact ⟨w :: A, v, C, rfl, hA, hv⟩

namespace Row

variable (h : Row flags d e X ws Z)
include h

theorem split (hws : ws = A ++ v :: C) :
    flags ++ [32] = X ++ lined A ++ v ++ 32 :: (lined C ++ Z) := by
  rw [h.line, hws]
  simp

/-- The word that holds the place behind the first difference is the one that is found. -/
theorem wordStart (hws : ws = A ++ v :: C) (hlow : (X ++ lined A).length ≤ d + 1)
    (hhigh : d + 1 ≤ (X ++ lined A).length + v.length) :
    wordStart flags d = some ((X ++ lined A).length : ℤ) := by
  obtain ⟨T, rfl, -⟩ := line_split (h.split hws)
  have hblank : 32 ∉ v.take (d + 1 - (X ++ lined A).length) := by
    intro hmem
    have hlength := List.length_pos_of_mem hmem
    rw [List.length_take] at hlength
    have hwhole := (h.whole A v C hws (List.mem_of_mem_take hmem)).1
    omega
  have hplace : ((X ++ lined A).length + (v.take (d + 1 - (X ++ lined A).length)).length : ℕ) - 1 =
      (d : ℤ) := by
    rw [List.length_take]
    omega
  have hfound := wordStart_eq (R := v.drop (d + 1 - (X ++ lined A).length) ++ T)
    (lined_ends X h.starts A) hblank
  rwa [hplace, List.append_assoc (X ++ lined A), ← List.append_assoc (v.take _),
    List.take_append_drop, ← List.append_assoc] at hfound

theorem wordStart_option {u : Str} (hws : ws = A ++ u :: v :: C)
    (hlow : (X ++ lined (A ++ [u])).length ≤ d + 1)
    (hhigh : d + 1 ≤ (X ++ lined (A ++ [u])).length + v.length) :
    Client.wordStart flags ((X ++ lined (A ++ [u])).length - 2) =
      some ((X ++ lined A).length : ℤ) := by
  rw [length_lined_concat] at hlow hhigh ⊢
  obtain ⟨T, rfl, -⟩ := line_split (h.split hws)
  have hblank : 32 ∉ u := by
    intro hmem
    have hwhole := (h.whole A u (v :: C) hws hmem).1
    rw [List.headD_cons] at hwhole
    omega
  have hplace : (((X ++ lined A).length + u.length + 1 : ℕ) : ℤ) - 2 =
      ((X ++ lined A).length + u.length : ℕ) - 1 := by omega
  rw [hplace]
  exact wordStart_eq (lined_ends X h.starts A) hblank

theorem wordEnd (hws : ws = B ++ x :: D) (he : e < flags.length)
    (hlow : (X ++ lined B).length ≤ e) (hhigh : e ≤ (X ++ lined B).length + x.length) :
    wordEnd flags flags.length e = some ((X ++ lined (B ++ [x])).length : ℤ) := by
  obtain ⟨T, rfl, hT⟩ := line_split (h.split hws)
  have hblank : 32 ∉ x.drop (e - (X ++ lined B).length) := by
    intro hmem
    have hlength := List.length_pos_of_mem hmem
    rw [List.length_drop] at hlength
    have hwhole := (h.whole B x D hws (List.mem_of_mem_drop hmem)).2
    omega
  have hends : T = [] ∨ T.head? = some 32 := by
    rcases hT with ⟨rfl, -⟩ | ⟨T, rfl, -⟩
    · exact .inl rfl
    · exact .inr rfl
  have hfound := wordEnd_eq (P := X ++ lined B ++ x.take (e - (X ++ lined B).length)) hblank hends
  have hplace : (X ++ lined B ++ x.take (e - (X ++ lined B).length)).length = e := by
    rw [List.length_append, List.length_take]
    omega
  have hplace' : e + (x.drop (e - (X ++ lined B).length)).length + 1 =
      (X ++ lined (B ++ [x])).length := by
    rw [length_lined_concat, List.length_drop]
    omega
  rwa [List.append_assoc (X ++ lined B), List.take_append_drop, hplace, hplace'] at hfound

/-- The first word of the row stands before the difference. -/
theorem before_ne_nil (hws : ws = A ++ v :: C)
    (hhigh : d + 1 ≤ (X ++ lined A).length + v.length) : A ≠ [] := by
  rintro rfl
  obtain ⟨w, vs, hhead, hbehind⟩ := h.behind
  rw [hws, List.nil_append] at hhead
  obtain ⟨rfl, -⟩ := List.cons.inj hhead
  rw [lined_nil, List.append_nil] at hhigh
  omega

/-- The start of the difference with the name of the option, if it starts with a value -/
theorem optionStart (hws : ws = A ++ v :: C) (hlow : (X ++ lined A).length ≤ d + 1)
    (hhigh : d + 1 ≤ (X ++ lined A).length + v.length) :
    optionStart flags (X ++ lined A).length =
      some ((X ++ lined (if looksLikeValue v then A.dropLast else A)).length : ℤ) := by
  have hv : v ≠ [] := (h.isWord v (by rw [hws]; simp)).ne_nil
  rw [Client.optionStart, valueAt_eq (h.split hws) hv, Option.bind_eq_bind, Option.bind_some]
  by_cases hvalue : looksLikeValue v
  · rw [if_pos hvalue, if_pos hvalue]
    obtain ⟨A, u, rfl⟩ :=
      (List.eq_nil_or_concat' A).resolve_left (h.before_ne_nil hws hhigh)
    rw [List.dropLast_concat]
    rw [List.append_assoc, List.singleton_append] at hws
    exact h.wordStart_option hws hlow hhigh
  · rw [if_neg hvalue, if_neg hvalue]
    rfl

theorem differingArgs (isClang : Bool) (hflags : flags.length < 2 ^ 31)
    (hnormal : normal.length < 2 ^ 31) (hfirst : FirstDifference flags normal d)
    (hlast : LastDifference flags normal d e) (hstart : ws = A ++ v :: C)
    (hlow : (X ++ lined A).length ≤ d + 1) (hhigh : d + 1 ≤ (X ++ lined A).length + v.length)
    (hend : ws = B ++ x :: D) (hlow' : (X ++ lined B).length ≤ e)
    (hhigh' : e ≤ (X ++ lined B).length + x.length)
    (hM : B ++ [x] = (if looksLikeValue v then A.dropLast else A) ++ M) :
    differingArgs isClang flags normal = some (rendered isClang M) := by
  have hrow : flags ++ [32] = X ++ lined (if looksLikeValue v then A.dropLast else A) ++ lined M ++
      (lined D ++ Z) := by
    rw [h.line, hend, List.append_cons, hM]
    simp
  have hword : ∀ w ∈ M, IsWord w := by
    intro w hw
    refine h.isWord w ?_
    rw [hend, List.append_cons, hM]
    simp [hw]
  have hargs := takeArgs_eq isClang hrow hword le_rfl
  have hplace : X ++ lined (B ++ [x]) =
      X ++ lined (if looksLikeValue v then A.dropLast else A) ++ lined M := by
    rw [hM, lined_append, List.append_assoc]
  have hdistance : (((X ++ lined (B ++ [x])).length : ℤ) -
      (X ++ lined (if looksLikeValue v then A.dropLast else A)).length).toNat =
        (lined M).length := by
    rw [hplace]
    simp only [List.length_append]
    omega
  rw [← List.length_append, ← hplace, ← hdistance] at hargs
  rw [differingArgs_eq isClang hflags hnormal hfirst hlast (h.wordStart hstart hlow hhigh)
    (h.optionStart hstart hlow hhigh) (h.wordEnd hend hlast.inside hlow' hhigh')]
  exact hargs

omit h in
/-- Of two beginnings of a row the shorter one begins the other. -/
theorem prefix_of_length_le (hA : A <+: ws) (hB : B <+: ws)
    (hle : (X ++ lined A).length ≤ (X ++ lined B).length) : A <+: B := by
  refine (List.prefix_or_prefix_of_prefix hA hB).elim id fun hback => ?_
  obtain ⟨t, rfl⟩ := hback
  rw [lined_append, ← List.append_assoc, List.length_append] at hle
  have hnil : lined t = [] := List.length_eq_zero_iff.mp (by omega)
  cases t with
  | nil => simp
  | cons w t => simp at hnil

/-- Some words of the row are given back, one after another. -/
theorem differingArgs_row (isClang : Bool) (hflags : flags.length < 2 ^ 31)
    (hnormal : normal.length < 2 ^ 31) (hfirst : FirstDifference flags normal d)
    (hlast : LastDifference flags normal d e) :
    ∃ A M D, ws = A ++ M ++ D ∧
      Client.differingArgs isClang flags normal = some (rendered isClang M) := by
  obtain ⟨w, vs, -, hbehind⟩ := h.behind
  have hle := hlast.le
  obtain ⟨A, v, C, hstart, hlow, hhigh⟩ := exists_word (by omega) h.ahead
  obtain ⟨B, x, D, hend, hlow', hhigh'⟩ := exists_word (by omega) h.last
  have hbegins : (if looksLikeValue v then A.dropLast else A) <+: A := by
    split
    · exact List.dropLast_prefix A
    · exact List.prefix_rfl
  have hA : A <+: ws := ⟨v :: C, hstart.symm⟩
  have hB : B ++ [x] <+: ws := ⟨D, by rw [hend, List.append_assoc, List.singleton_append]⟩
  have hAB : A <+: B ++ [x] := by
    refine prefix_of_length_le (X := X) hA hB ?_
    rw [length_lined_concat]
    omega
  obtain ⟨M, hM⟩ := hbegins.trans hAB
  refine ⟨if looksLikeValue v then A.dropLast else A, M, D, ?_, h.differingArgs isClang hflags
    hnormal hfirst hlast hstart hlow hhigh hend hlow' hhigh' hM.symm⟩
  rw [hM, List.append_assoc, List.singleton_append, hend]

end Row

end

end Icecream.Client
