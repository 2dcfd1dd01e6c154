import Icecream.Library.Occurrence
import Icecream.Services.Basename

/-!
# The C and the C++ compiler of a pair

`getCCompiler` and `getCppCompiler` replace one word of the base name. Each branch is
described once, for a directory and a base name; the conditions on the pair follow.
-/

namespace Icecream.Services

open Icecream.Comm (Str str)
open Icecream.Occurrence
open Icecream.Path (slash)

variable {dir name old new : Str}

/-- The word stands somewhere in the name. -/
abbrev Has (name : Str) (word : String) : Prop := str word <:+: name

/-! ## One replacement -/

theorem afterSlash_append (hdir : IsDir dir) (hname : slash ∉ name) :
    afterSlash (rfind (dir ++ name) (str "/")) = dir.length := by
  rcases hdir with rfl | ⟨d, rfl⟩
  · rw [List.nil_append, rfind_slash_none hname]
    rfl
  · rw [List.append_assoc, List.singleton_append, rfind_slash hname, List.length_append]
    rfl

/-- The last occurrence lies in the base name if there is one in it. -/
theorem rfind_append (dir name old : Str) :
    (∃ u v, name = u ++ (old ++ v) ∧ rfind (dir ++ name) old = some (dir ++ u).length) ∨
    (¬ old <:+: name ∧ ∀ i, rfind (dir ++ name) old = some i → i < dir.length) := by
  by_cases hmem : old <:+: name
  · obtain ⟨u, v, rfl⟩ := hmem
    have hsplit : dir ++ (u ++ old ++ v) = dir ++ u ++ (old ++ v) := by simp
    have hle : (dir ++ u).length ≤ (dir ++ (u ++ old ++ v)).length := by
      rw [hsplit]
      exact (List.prefix_append _ _).length_le
    have hfound : old <+: (dir ++ u ++ (old ++ v)).drop (dir ++ u).length := prefix_drop_length
    rw [← hsplit] at hfound
    obtain ⟨i, hi, hlast⟩ := le_rfind hle hfound
    obtain ⟨rest, hrest, hlength⟩ := rfind_split hi
    have hdir : dir.length ≤ i := by
      rw [List.length_append] at hlast
      omega
    have htake : (dir ++ (u ++ old ++ v)).take i = dir ++ (u ++ old ++ v).take (i - dir.length) := by
      rw [List.take_append, List.take_of_length_le hdir]
    refine .inl ⟨(u ++ old ++ v).take (i - dir.length), rest, ?_, ?_⟩
    · rw [htake, List.append_assoc dir] at hrest
      exact List.append_cancel_left hrest
    · rw [← htake, hlength, hi]
  · refine .inr ⟨hmem, fun i hi => ?_⟩
    by_contra hle
    obtain ⟨-, hfound⟩ := rfind_some hi
    rw [List.drop_append, List.drop_of_length_le (Nat.le_of_not_lt hle), List.nil_append] at hfound
    exact hmem (hfound.isInfix.trans (List.drop_suffix _ _).isInfix)

theorem replaceName_append (old new : Str) (hdir : IsDir dir) (hname : slash ∉ name) :
    (∃ u v, name = u ++ (old ++ v) ∧
      replaceName (dir ++ name) (rfind (dir ++ name) (str "/")) old new =
        some (dir ++ (u ++ (new ++ v)))) ∨
    (¬ old <:+: name ∧
      replaceName (dir ++ name) (rfind (dir ++ name) (str "/")) old new = none) := by
  unfold replaceName
  rw [afterSlash_append hdir hname]
  rcases rfind_append dir name old with ⟨u, v, rfl, hi⟩ | ⟨hmem, hbefore⟩
  · have hsplit : dir ++ (u ++ (old ++ v)) = dir ++ u ++ (old ++ v) := by simp
    have hle : dir.length ≤ (dir ++ u).length := by simp
    refine .inl ⟨u, v, rfl, ?_⟩
    simp only [hi, if_pos hle]
    rw [hsplit, List.take_left, ← List.drop_drop, List.drop_left, List.drop_left]
    simp
  · refine .inr ⟨hmem, ?_⟩
    cases hi : rfind (dir ++ name) old with
    | none => rfl
    | some i => exact if_neg (Nat.not_le.mpr (hbefore i hi))

/-- The whole beginning of the base name -/
theorem replaceStart_append (old new : Str) (hdir : IsDir dir) (hname : slash ∉ name) :
    (∃ v, name = old ++ v ∧
      replaceStart (dir ++ name) (rfind (dir ++ name) (str "/")) old new =
        some (dir ++ (new ++ v))) ∨
    (name ≠ old ∧
      replaceStart (dir ++ name) (rfind (dir ++ name) (str "/")) old new = none) := by
  unfold replaceStart
  rw [afterSlash_append hdir hname]
  rcases rfind_append dir name old with ⟨u, v, rfl, hi⟩ | ⟨hmem, hbefore⟩
  · cases u with
    | nil =>
      refine .inl ⟨v, rfl, ?_⟩
      rw [List.append_nil] at hi
      simp only [hi, if_true]
      rw [List.take_left, ← List.drop_drop, List.drop_left, List.nil_append, List.drop_left]
      simp
    | cons x u =>
      refine .inr ⟨fun heq => ?_, ?_⟩
      · have hlength := congrArg List.length heq
        simp only [List.length_append, List.length_cons] at hlength
        omega
      · have hne : (dir ++ x :: u).length ≠ dir.length := by simp
        simp only [hi, if_neg hne]
  · refine .inr ⟨fun heq => hmem (heq ▸ List.infix_rfl), ?_⟩
    cases hi : rfind (dir ++ name) old with
    | none => rfl
    | some i => exact if_neg (Nat.ne_of_lt (hbefore i hi))

/-! ## What each branch makes of a name -/

/-- The path is taken for one of a C compiler. -/
def TakenForC (dir name : Str) : Prop := dir = [] ∨ ¬ Has name "++"

/-- The branches of `getCCompiler` -/
inductive CName (dir name : Str) : Option Str → Prop
  | same : TakenForC dir name → ¬ Has name "dpcpp" → CName dir name (some (dir ++ name))
  | dpcpp {u v : Str} : TakenForC dir name → name = u ++ (str "dpcpp" ++ v) →
      CName dir name (some (dir ++ (u ++ (str "icx" ++ v))))
  | clang {u v : Str} : ¬ TakenForC dir name → name = u ++ (str "clang++" ++ v) →
      CName dir name (some (dir ++ (u ++ (str "clang" ++ v))))
  | icpx {u v : Str} : ¬ TakenForC dir name → ¬ Has name "clang++" →
      name = u ++ (str "icpx" ++ v) → CName dir name (some (dir ++ (u ++ (str "icx" ++ v))))
  | gcc {u v : Str} : ¬ TakenForC dir name → ¬ Has name "clang++" → ¬ Has name "icpx" →
      name = u ++ (str "g++" ++ v) → CName dir name (some (dir ++ (u ++ (str "gcc" ++ v))))
  | cc {v : Str} : ¬ TakenForC dir name → ¬ Has name "icpx" → ¬ Has name "g++" →
      name = str "c++" ++ v → CName dir name (some (dir ++ (str "cc" ++ v)))
  | unknown : ¬ TakenForC dir name → ¬ Has name "g++" → name ≠ str "c++" → CName dir name none

/-- The branches of `getCppCompiler` -/
inductive CppName (dir name : Str) : Option Str → Prop
  | same : Has name "++" → ¬ Has name "dpcpp" → CppName dir name (some (dir ++ name))
  | dpcpp {u v : Str} : name = u ++ (str "dpcpp" ++ v) →
      CppName dir name (some (dir ++ (u ++ (str "icpx" ++ v))))
  | gcc {u v : Str} : ¬ Has name "++" → ¬ Has name "dpcpp" → name = u ++ (str "gcc" ++ v) →
      CppName dir name (some (dir ++ (u ++ (str "g++" ++ v))))
  | icx {u v : Str} : ¬ Has name "++" → ¬ Has name "dpcpp" → ¬ Has name "gcc" →
      ¬ Has (dir ++ name) "icpx" → name = u ++ (str "icx" ++ v) →
      CppName dir name (some (dir ++ (u ++ (str "icpx" ++ v))))
  | clang {u v : Str} : ¬ Has name "++" → ¬ Has name "dpcpp" → ¬ Has name "gcc" →
      ¬ (Has name "icx" ∧ ¬ Has (dir ++ name) "icpx") → name = u ++ (str "clang" ++ v) →
      CppName dir name (some (dir ++ (u ++ (str "clang++" ++ v))))
  | cc {v : Str} : ¬ Has name "++" → ¬ Has name "dpcpp" → ¬ Has name "gcc" →
      ¬ (Has name "icx" ∧ ¬ Has (dir ++ name) "icpx") → ¬ Has name "clang" →
      name = str "cc" ++ v → CppName dir name (some (dir ++ (str "c++" ++ v)))
  | unknown : ¬ Has name "++" → ¬ Has name "dpcpp" → ¬ Has name "gcc" →
      ¬ (Has name "icx" ∧ ¬ Has (dir ++ name) "icpx") → ¬ Has name "clang" → name ≠ str "cc" →
      CppName dir name none

/-- A directory that ends in a slash does not end in a plus. -/
theorem plus_before_slash {i : ℕ} (hdir : IsDir dir) (hname : slash ∉ name)
    (hi : rfind (dir ++ name) (str "++") = some i) (hlt : i < dir.length) :
    beforeSlash i (rfind (dir ++ name) (str "/")) = true := by
  rcases hdir with rfl | ⟨d, rfl⟩
  · cases hlt
  · have hne : i ≠ d.length := by
      rintro rfl
      obtain ⟨-, hfound⟩ := rfind_some hi
      rw [List.append_assoc, List.drop_left, List.singleton_append] at hfound
      exact absurd (List.cons_prefix_cons.mp hfound).1 (by decide)
    rw [List.length_append, List.length_singleton] at hlt
    rw [List.append_assoc, List.singleton_append, rfind_slash hname]
    exact decide_eq_true (by omega)

theorem getCCompiler_name (hdir : IsDir dir) (hname : slash ∉ name) (hne : name ≠ []) :
    CName dir name (getCCompiler (dir ++ name)) := by
  have hnil : dir ++ name ≠ [] := List.append_ne_nil_of_right_ne_nil _ hne
  have hplus := rfind_append dir name (str "++")
  rw [getCCompiler, if_neg hnil]
  simp only
  by_cases hkind : TakenForC dir name
  · rw [if_pos]
    · rcases replaceName_append (str "dpcpp") (str "icx") hdir hname with
        ⟨u, v, hsplit, hnew⟩ | ⟨hmem, hnew⟩
      · rw [hnew]
        exact .dpcpp hkind hsplit
      · rw [hnew]
        exact .same hkind hmem
    · cases hi : rfind (dir ++ name) (str "++") with
      | none => rfl
      | some i =>
        rcases hkind with rfl | hhas
        · show beforeSlash i (rfind name (str "/")) = true
          rw [rfind_slash_none hname]
          rfl
        · rcases hplus with ⟨u, v, hsplit, -⟩ | ⟨-, hbefore⟩
          · exact absurd ⟨u, v, by rw [hsplit, List.append_assoc]⟩ hhas
          · exact plus_before_slash hdir hname hi (hbefore i hi)
  · obtain ⟨hdirne, hhas⟩ : dir ≠ [] ∧ Has name "++" := by rwa [TakenForC, not_or, not_not] at hkind
    rw [if_neg]
    · rcases replaceName_append (str "clang++") (str "clang") hdir hname with
        ⟨u, v, hsplit, hnew⟩ | ⟨hclang, hnew⟩
      · rw [hnew]
        exact .clang hkind hsplit
      rw [hnew, Option.orElse_none]
      rcases replaceName_append (str "icpx") (str "icx") hdir hname with
        ⟨u, v, hsplit, hnew⟩ | ⟨hicpx, hnew⟩
      · rw [hnew]
        exact .icpx hkind hclang hsplit
      rw [hnew, Option.orElse_none]
      rcases replaceName_append (str "g++") (str "gcc") hdir hname with
        ⟨u, v, hsplit, hnew⟩ | ⟨hgcc, hnew⟩
      · rw [hnew]
        exact .gcc hkind hclang hicpx hsplit
      rw [hnew, Option.orElse_none]
      rcases replaceStart_append (str "c++") (str "cc") hdir hname with
        ⟨v, hsplit, hnew⟩ | ⟨hcc, hnew⟩
      · rw [hnew]
        exact .cc hkind hicpx hgcc hsplit
      · rw [hnew]
        exact .unknown hkind hgcc hcc
    · rcases hplus with ⟨u, v, hsplit, hi⟩ | ⟨hmem, -⟩
      · obtain ⟨d, rfl⟩ := hdir.resolve_left hdirne
        have hslash : rfind (d ++ [slash] ++ name) (str "/") = some d.length := by
          rw [List.append_assoc]
          exact rfind_slash hname
        simp only [hi, hslash, beforeSlash, Option.all_some, decide_eq_true_eq]
        simp
      · exact absurd hhas hmem

theorem getCppCompiler_name (hdir : IsDir dir) (hname : slash ∉ name) (hne : name ≠ []) :
    CppName dir name (getCppCompiler (dir ++ name)) := by
  have hnil : dir ++ name ≠ [] := List.append_ne_nil_of_right_ne_nil _ hne
  have hplus := rfind_append dir name (str "++")
  rw [getCppCompiler, if_neg hnil]
  simp only
  by_cases hhas : Has name "++"
  · rw [if_pos]
    · rcases replaceName_append (str "dpcpp") (str "icpx") hdir hname with
        ⟨u, v, hsplit, hnew⟩ | ⟨hmem, hnew⟩
      · rw [hnew]
        exact .dpcpp hsplit
      · rw [hnew]
        exact .same hhas hmem
    · rcases hplus with ⟨u, v, hsplit, hi⟩ | ⟨hmem, -⟩
      · simp [hi, afterSlash_append hdir hname]
      · exact absurd hhas hmem
  · rw [if_neg]
    · rcases replaceName_append (str "dpcpp") (str "icpx") hdir hname with
        ⟨u, v, hsplit, hnew⟩ | ⟨hdpcpp, hnew⟩
      · rw [hnew]
        exact .dpcpp hsplit
      rw [hnew, Option.orElse_none]
      rcases replaceName_append (str "gcc") (str "g++") hdir hname with
        ⟨u, v, hsplit, hnew⟩ | ⟨hgcc, hnew⟩
      · rw [hnew]
        exact .gcc hhas hdpcpp hsplit
      rw [hnew, Option.orElse_none]
      by_cases hicx : Has name "icx" ∧ ¬ Has (dir ++ name) "icpx"
      · rcases replaceName_append (str "icx") (str "icpx") hdir hname with
          ⟨u, v, hsplit, hnew⟩ | ⟨hmem, -⟩
        · rw [if_neg (mt contains_iff.mp hicx.2), hnew]
          exact .icx hhas hdpcpp hgcc hicx.2 hsplit
        · exact absurd hicx.1 hmem
      have hskip : (if contains (dir ++ name) (str "icpx") = true then none
          else replaceName (dir ++ name) (rfind (dir ++ name) (str "/")) (str "icx") (str "icpx")) =
          none := by
        split
        · rfl
        · rename_i hicpx
          rcases replaceName_append (str "icx") (str "icpx") hdir hname with
            ⟨u, v, hsplit, -⟩ | ⟨-, hnew⟩
          · exact absurd ⟨⟨u, v, by rw [hsplit, List.append_assoc]⟩, mt contains_iff.mpr hicpx⟩ hicx
          · exact hnew
      rw [hskip, Option.orElse_none]
      rcases replaceName_append (str "clang") (str "clang++") hdir hname with
        ⟨u, v, hsplit, hnew⟩ | ⟨hclang, hnew⟩
      · rw [hnew]
        exact .clang hhas hdpcpp hgcc hicx hsplit
      rw [hnew, Option.orElse_none]
      rcases replaceStart_append (str "cc") (str "c++") hdir hname with
        ⟨v, hsplit, hnew⟩ | ⟨hcc, hnew⟩
      · rw [hnew]
        exact .cc hhas hdpcpp hgcc hicx hclang hsplit
      · rw [hnew]
        exact .unknown hhas hdpcpp hgcc hicx hclang hcc
    · rcases hplus with ⟨u, v, hsplit, -⟩ | ⟨-, hbefore⟩
      · exact absurd ⟨u, v, by rw [hsplit, List.append_assoc]⟩ hhas
      · cases hi : rfind (dir ++ name) (str "++") with
        | none => simp
        | some i => simp [afterSlash_append hdir hname, hbefore i hi]

/-! ## Words that do not overlap -/

variable {u v : Str}

theorem Has.mono {word part : String} (h : Has name word) (hpart : str part <:+: str word) :
    Has name part := hpart.trans h

theorem Has.of_append (u v : Str) (word : String) : Has (u ++ (str word ++ v)) word :=
  ⟨u, v, List.append_assoc _ _ _⟩

/-- A replacement makes a difference. -/
theorem ne_replaced (h : new ≠ old) (hsplit : name = u ++ (old ++ v)) :
    some (dir ++ name) ≠ some (dir ++ (u ++ (new ++ v))) := by
  intro heq
  rw [hsplit] at heq
  have hname := List.append_cancel_left (List.append_cancel_left (Option.some.inj heq))
  exact h (List.append_cancel_right hname).symm

theorem has_plus (hnew : Foreign new (str "++")) :
    Has (u ++ (new ++ v)) "++" ↔ Has u "++" ∨ Has v "++" :=
  infix_append_foreign hnew

theorem has_dpcpp_clang : Has (u ++ (str "clang" ++ v)) "dpcpp" ↔
    Has (u ++ (str "clang++" ++ v)) "dpcpp" := by
  have hsplit : ∀ rest : Str, u ++ (99 :: rest ++ v) = u ++ [99] ++ (rest ++ v) := by simp
  have hclang : Has (u ++ [99] ++ (str "lang" ++ v)) "dpcpp" ↔
      Has (u ++ [99]) "dpcpp" ∨ Has v "dpcpp" :=
    infix_append_foreign (by decide)
  have hplus : Has (u ++ [99] ++ (str "lang++" ++ v)) "dpcpp" ↔
      Has (u ++ [99]) "dpcpp" ∨ Has v "dpcpp" :=
    infix_append_foreign (by decide)
  rw [← hsplit] at hclang hplus
  exact hclang.trans hplus.symm

theorem has_dpcpp_gcc : Has (u ++ (str "gcc" ++ v)) "dpcpp" ↔
    Has (u ++ (str "g++" ++ v)) "dpcpp" := by
  have hplus : Has (u ++ (str "g++" ++ v)) "dpcpp" ↔ Has u "dpcpp" ∨ Has v "dpcpp" :=
    infix_append_foreign (by decide)
  have hgcc : Has (u ++ 103 :: (99 :: 99 :: v)) "dpcpp" ↔ Has u "dpcpp" ∨ Has v "dpcpp" := by
    have hword : str "dpcpp" = 100 :: str "pcpp" := rfl
    rw [Has, infix_append_cons (by decide), hword, infix_cons_of_ne (by decide),
      infix_cons_of_ne (by decide)]
    exact Iff.rfl
  exact hgcc.trans hplus.symm

theorem has_dpcpp_cc : Has (str "cc" ++ v) "dpcpp" ↔ Has (str "c++" ++ v) "dpcpp" := by
  have hword : str "dpcpp" = 100 :: str "pcpp" := rfl
  have hcc : Has (99 :: 99 :: v) "dpcpp" ↔ Has v "dpcpp" := by
    rw [Has, hword, infix_cons_of_ne (by decide), infix_cons_of_ne (by decide)]
    exact Iff.rfl
  have hplus : Has (99 :: 43 :: 43 :: v) "dpcpp" ↔ Has v "dpcpp" := by
    rw [Has, hword, infix_cons_of_ne (by decide), infix_cons_of_ne (by decide),
      infix_cons_of_ne (by decide)]
    exact Iff.rfl
  exact hcc.trans hplus.symm

/-- Two occurrences of `g++` are the same or apart. -/
theorem shift_plus {x v' : Str} (h : str "g++" ++ v' = x ++ (str "g++" ++ v)) :
    x = [] ∨ Has v' "++" ∧ Has x "++" := by
  have hword : str "g++" = [103, 43, 43] := by decide
  rcases x with _ | ⟨a, _ | ⟨b, _ | ⟨d, y⟩⟩⟩
  · exact .inl rfl
  · rw [hword] at h
    exact absurd (List.cons.inj (List.cons.inj h).2).1 (by decide)
  · rw [hword] at h
    exact absurd (List.cons.inj (List.cons.inj (List.cons.inj h).2).2).1 (by decide)
  · have hfirst : a = 103 ∧ b = 43 ∧ d = 43 ∧ v' = y ++ (str "g++" ++ v) := by
      simpa [hword, eq_comm] using h
    obtain ⟨rfl, rfl, rfl, rfl⟩ := hfirst
    exact .inr ⟨(Has.of_append y v "g++").mono (by decide), [103], y, rfl⟩

/-- The plus signs of a name with one `++` -/
theorem split_plus {u' v' : Str} (h : u' ++ (str "g++" ++ v') = u ++ (str "g++" ++ v))
    (hu : ¬ Has u' "++") (hv : ¬ Has v' "++") : ¬ Has u "++" ∧ ¬ Has v "++" := by
  rcases List.append_eq_append_iff.mp h with ⟨x, rfl, hx⟩ | ⟨x, rfl, hx⟩
  · rcases shift_plus hx with rfl | ⟨hplus, -⟩
    · rw [List.append_nil]
      exact ⟨hu, List.append_cancel_left hx ▸ hv⟩
    · exact absurd hplus hv
  · rcases shift_plus hx with rfl | ⟨-, hplus⟩
    · rw [List.append_nil] at hu
      exact ⟨hu, List.append_cancel_left hx ▸ hv⟩
    · exact absurd (hplus.trans (List.suffix_append u x).isInfix) hu

/-! ## The pair -/

variable {compiler : Str}

def directory (compiler : Str) : Str := compiler.take (afterSlash (rfind compiler (str "/")))

/-- Both compilers are found, beside the given one, and are what they are called. -/
def Paired (compiler : Str) : Prop :=
  ∃ c cpp, getCCompiler compiler = some c ∧ getCppCompiler compiler = some cpp ∧
    directory c = directory compiler ∧ directory cpp = directory compiler ∧
    isCCompiler c = true ∧ isCppCompiler cpp = true ∧
    getCCompiler c = some c ∧ getCppCompiler cpp = some cpp

/-- The C compilers `gcc`, `clang` and `cc`, and the C++ compilers `g++`, `clang++` and `c++`
with a directory, each with no word of another one and a single `++` -/
def Regular (compiler : Str) : Prop :=
  let name := findBasename compiler
  ¬ Has name "dpcpp" ∧
  ((¬ Has name "++" ∧ (Has name "gcc" ∨ Has name "clang" ∧ ¬ (Has name "icx" ∧
      ¬ Has compiler "icpx") ∨ name = str "cc")) ∨
   (slash ∈ compiler ∧ (name = str "c++" ∨ (Has name "clang++" ∨ ¬ Has name "icpx") ∧
      ∃ u v, name = u ++ (str "g++" ++ v) ∧ ¬ Has u "++" ∧ ¬ Has v "++")))

theorem directory_append (hdir : IsDir dir) (hname : slash ∉ name) : directory (dir ++ name) = dir := by
  rw [directory, afterSlash_append hdir hname, List.take_left]

theorem isCCompiler_append (hdir : IsDir dir) (hname : slash ∉ name) :
    isCCompiler (dir ++ name) = true ↔ ¬ Has name "++" ∧ (Has name "icx" ∧ ¬ Has name "icpx" ∨
      Has name "gcc" ∨ Has name "clang" ∨ name = str "cc") := by
  simp only [isCCompiler, findBasename_append hdir hname, contains_iff]
  split
  · rename_i hplus
    exact iff_of_false Bool.false_ne_true fun h => h.1 hplus
  · rename_i hplus
    split
    · rename_i hicx
      exact iff_of_true rfl ⟨hplus, .inl hicx⟩
    · rename_i hicx
      simp only [Bool.or_eq_true, contains_iff, decide_eq_true_eq]
      tauto

theorem isCppCompiler_append (hdir : IsDir dir) (hname : slash ∉ name) :
    isCppCompiler (dir ++ name) = true ↔ Has name "g++" ∨ Has name "icpx" ∨ Has name "dpcpp" ∨
      name = str "c++" := by
  have hclang : Has name "clang++" → Has name "g++" := fun h => h.mono (by decide)
  simp only [isCppCompiler, findBasename_append hdir hname, Bool.or_eq_true, contains_iff,
    decide_eq_true_eq]
  tauto

theorem getCCompiler_eq_self (hdir : IsDir dir) (hname : slash ∉ name) (hne : name ≠ []) :
    getCCompiler (dir ++ name) = some (dir ++ name) ↔
      TakenForC dir name ∧ ¬ Has name "dpcpp" := by
  have hcases := getCCompiler_name hdir hname hne
  generalize getCCompiler (dir ++ name) = r at hcases ⊢
  constructor
  · rintro rfl
    generalize hr : some (dir ++ name) = r at hcases
    cases hcases with
    | same hkind hdpcpp => exact ⟨hkind, hdpcpp⟩
    | dpcpp hkind hsplit => exact absurd hr (ne_replaced (by decide) hsplit)
    | clang _ hsplit => exact absurd hr (ne_replaced (by decide) hsplit)
    | icpx _ _ hsplit => exact absurd hr (ne_replaced (by decide) hsplit)
    | gcc _ _ _ hsplit => exact absurd hr (ne_replaced (by decide) hsplit)
    | cc _ _ _ hsplit => 
      have hne : str "cc" ≠ str "c++" := by decide
      exact absurd hr (ne_replaced (u := []) hne hsplit)
    | unknown => cases hr
  · rintro ⟨hkind, hdpcpp⟩
    cases hcases with
    | same => rfl
    | dpcpp _ hsplit => exact absurd (hsplit ▸ .of_append _ _ _) hdpcpp
    | clang h => exact absurd hkind h
    | icpx h => exact absurd hkind h
    | gcc h => exact absurd hkind h
    | cc h => exact absurd hkind h
    | unknown h => exact absurd hkind h

theorem getCppCompiler_eq_self (hdir : IsDir dir) (hname : slash ∉ name) (hne : name ≠ []) :
    getCppCompiler (dir ++ name) = some (dir ++ name) ↔ Has name "++" ∧ ¬ Has name "dpcpp" := by
  have hcases := getCppCompiler_name hdir hname hne
  generalize getCppCompiler (dir ++ name) = r at hcases ⊢
  constructor
  · rintro rfl
    generalize hr : some (dir ++ name) = r at hcases
    cases hcases with
    | same hplus hdpcpp => exact ⟨hplus, hdpcpp⟩
    | dpcpp hsplit => exact absurd hr (ne_replaced (by decide) hsplit)
    | gcc _ _ hsplit => exact absurd hr (ne_replaced (by decide) hsplit)
    | icx _ _ _ _ hsplit => exact absurd hr (ne_replaced (by decide) hsplit)
    | clang _ _ _ _ hsplit => exact absurd hr (ne_replaced (by decide) hsplit)
    | cc _ _ _ _ _ hsplit => 
      have hne : str "cc" ≠ str "c++" := by decide
      exact absurd hr (ne_replaced (u := []) hne.symm hsplit)
    | unknown => cases hr
  · rintro ⟨hplus, hdpcpp⟩
    cases hcases with
    | same => rfl
    | dpcpp hsplit => exact absurd (hsplit ▸ .of_append _ _ _) hdpcpp
    | gcc h => exact absurd hplus h
    | icx h => exact absurd hplus h
    | clang h => exact absurd hplus h
    | cc h => exact absurd hplus h
    | unknown h => exact absurd hplus h

theorem replaced_located (hname : slash ∉ name) (hsplit : name = u ++ (old ++ v))
    (hnew : slash ∉ new ∧ new ≠ []) : slash ∉ u ++ (new ++ v) ∧ u ++ (new ++ v) ≠ [] := by
  subst hsplit
  simp only [List.mem_append, not_or] at hname ⊢
  exact ⟨⟨hname.1, hnew.1, hname.2.2⟩, by simp [hnew.2]⟩

theorem CName.located {c : Str} (h : CName dir name (some c)) (hname : slash ∉ name)
    (hne : name ≠ []) : ∃ c', c = dir ++ c' ∧ slash ∉ c' ∧ c' ≠ [] := by
  cases h with
  | same => exact ⟨name, rfl, hname, hne⟩
  | dpcpp _ hsplit => exact ⟨_, rfl, replaced_located hname hsplit (by decide)⟩
  | clang _ hsplit => exact ⟨_, rfl, replaced_located hname hsplit (by decide)⟩
  | icpx _ _ hsplit => exact ⟨_, rfl, replaced_located hname hsplit (by decide)⟩
  | gcc _ _ _ hsplit => exact ⟨_, rfl, replaced_located hname hsplit (by decide)⟩
  | @cc v _ _ _ hsplit =>
    have hnew : slash ∉ str "cc" ∧ str "cc" ≠ [] := by decide
    have hstart : name = [] ++ (str "c++" ++ v) := hsplit
    exact ⟨str "cc" ++ v, rfl, replaced_located hname hstart hnew⟩

theorem CppName.located {c : Str} (h : CppName dir name (some c)) (hname : slash ∉ name)
    (hne : name ≠ []) : ∃ c', c = dir ++ c' ∧ slash ∉ c' ∧ c' ≠ [] := by
  cases h with
  | same => exact ⟨name, rfl, hname, hne⟩
  | dpcpp hsplit => exact ⟨_, rfl, replaced_located hname hsplit (by decide)⟩
  | gcc _ _ hsplit => exact ⟨_, rfl, replaced_located hname hsplit (by decide)⟩
  | icx _ _ _ _ hsplit => exact ⟨_, rfl, replaced_located hname hsplit (by decide)⟩
  | clang _ _ _ _ hsplit => exact ⟨_, rfl, replaced_located hname hsplit (by decide)⟩
  | @cc v _ _ _ _ _ hsplit =>
    have hnew : slash ∉ str "c++" ∧ str "c++" ≠ [] := by decide
    have hstart : name = [] ++ (str "cc" ++ v) := hsplit
    exact ⟨str "c++" ++ v, rfl, replaced_located hname hstart hnew⟩

/-- What is asked of the name of the C compiler -/
def GoodC (c : Str) : Prop :=
  ¬ Has c "++" ∧ ¬ Has c "dpcpp" ∧
    (Has c "icx" ∧ ¬ Has c "icpx" ∨ Has c "gcc" ∨ Has c "clang" ∨ c = str "cc")

/-- What is asked of the name of the C++ compiler -/
def GoodCpp (cpp : Str) : Prop :=
  Has cpp "++" ∧ ¬ Has cpp "dpcpp" ∧ (Has cpp "g++" ∨ Has cpp "icpx" ∨ cpp = str "c++")

theorem paired_iff (hdir : IsDir dir) (hname : slash ∉ name) (hne : name ≠ []) :
    Paired (dir ++ name) ↔ (∃ c, getCCompiler (dir ++ name) = some (dir ++ c) ∧ GoodC c) ∧
      ∃ cpp, getCppCompiler (dir ++ name) = some (dir ++ cpp) ∧ GoodCpp cpp := by
  have hcname := getCCompiler_name hdir hname hne
  have hcppname := getCppCompiler_name hdir hname hne
  constructor
  · rintro ⟨c, cpp, hc, hcpp, -, -, hisC, hisCpp, hsameC, hsameCpp⟩
    rw [hc] at hcname
    rw [hcpp] at hcppname
    obtain ⟨c, rfl, hslash, hcne⟩ := hcname.located hname hne
    obtain ⟨cpp, rfl, hslash', hcppne⟩ := hcppname.located hname hne
    rw [isCCompiler_append hdir hslash] at hisC
    rw [isCppCompiler_append hdir hslash'] at hisCpp
    rw [getCCompiler_eq_self hdir hslash hcne] at hsameC
    rw [getCppCompiler_eq_self hdir hslash' hcppne] at hsameCpp
    refine ⟨⟨c, hc, hisC.1, hsameC.2, hisC.2⟩, cpp, hcpp, hsameCpp.1, hsameCpp.2, ?_⟩
    exact hisCpp.imp_right (·.imp_right (·.resolve_left hsameCpp.2))
  · rintro ⟨⟨c, hc, hplus, hdpcpp, hkind⟩, cpp, hcpp, hplus', hdpcpp', hkind'⟩
    rw [hc] at hcname
    rw [hcpp] at hcppname
    obtain ⟨c', heq, hslash, hcne⟩ := hcname.located hname hne
    obtain rfl := List.append_cancel_left heq
    obtain ⟨cpp', heq', hslash', hcppne⟩ := hcppname.located hname hne
    obtain rfl := List.append_cancel_left heq'
    refine ⟨_, _, hc, hcpp, ?_, ?_, ?_, ?_, ?_, ?_⟩
    · rw [directory_append hdir hslash, directory_append hdir hname]
    · rw [directory_append hdir hslash', directory_append hdir hname]
    · exact (isCCompiler_append hdir hslash).mpr ⟨hplus, hkind⟩
    · exact (isCppCompiler_append hdir hslash').mpr (hkind'.imp_right (·.imp_right .inr))
    · exact (getCCompiler_eq_self hdir hslash hcne).mpr ⟨.inr hplus, hdpcpp⟩
    · exact (getCppCompiler_eq_self hdir hslash' hcppne).mpr ⟨hplus', hdpcpp'⟩

/-- `Regular`, of a directory and a base name -/
def RegularName (dir name : Str) : Prop :=
  ¬ Has name "dpcpp" ∧
  ((¬ Has name "++" ∧ (Has name "gcc" ∨ Has name "clang" ∧ ¬ (Has name "icx" ∧
      ¬ Has (dir ++ name) "icpx") ∨ name = str "cc")) ∨
   (dir ≠ [] ∧ (name = str "c++" ∨ (Has name "clang++" ∨ ¬ Has name "icpx") ∧
      ∃ u v, name = u ++ (str "g++" ++ v) ∧ ¬ Has u "++" ∧ ¬ Has v "++")))

theorem regular_append (hdir : IsDir dir) (hname : slash ∉ name) :
    Regular (dir ++ name) ↔ RegularName dir name := by
  have hslash : slash ∈ dir ++ name ↔ dir ≠ [] := by
    rw [List.mem_append, or_iff_left hname]
    rcases hdir with rfl | ⟨d, rfl⟩
    · simp
    · simp
  simp only [Regular, findBasename_append hdir hname, hslash, RegularName]

/-- The plus signs of a name stay when `dpcpp` or `icpx` is replaced. -/
theorem plus_replaced (hold : Foreign old (str "++")) (hnew : Foreign new (str "++")) :
    Has (u ++ (new ++ v)) "++" ↔ Has (u ++ (old ++ v)) "++" := by
  rw [has_plus hnew, has_plus hold]

variable {c cpp : Str} {r : Option Str}

/-- Of a name with `++` the C compiler can only be one of these. -/
theorem CName.plus (h : CName dir name (some (dir ++ c))) (hgood : GoodC c)
    (hplus : Has name "++") :
    dir ≠ [] ∧ ((∃ u v, name = u ++ (str "clang++" ++ v) ∧ c = u ++ (str "clang" ++ v)) ∨
      (¬ Has name "icpx" ∧ ∃ u v, name = u ++ (str "g++" ++ v) ∧ c = u ++ (str "gcc" ++ v)) ∨
      (¬ Has name "icpx" ∧ ¬ Has name "g++" ∧ ∃ v, name = str "c++" ++ v ∧ c = str "cc" ++ v)) := by
  obtain ⟨hnoplus, -, -⟩ := hgood
  have hwords : Foreign (str "icpx") (str "++") ∧
      Foreign (str "dpcpp") (str "++") ∧
      Foreign (str "icx") (str "++") := by decide
  generalize hr : some (dir ++ c) = r at h
  cases h with
  | same =>
    obtain rfl := List.append_cancel_left (Option.some.inj hr)
    exact absurd hplus hnoplus
  | dpcpp _ hsplit =>
    obtain rfl := List.append_cancel_left (Option.some.inj hr)
    rw [hsplit] at hplus
    exact absurd ((plus_replaced hwords.2.1 hwords.2.2).mpr hplus) hnoplus
  | clang hkind hsplit =>
    obtain rfl := List.append_cancel_left (Option.some.inj hr)
    exact ⟨fun h => hkind (.inl h), .inl ⟨_, _, hsplit, rfl⟩⟩
  | icpx _ _ hsplit =>
    obtain rfl := List.append_cancel_left (Option.some.inj hr)
    rw [hsplit] at hplus
    exact absurd ((plus_replaced hwords.1 hwords.2.2).mpr hplus) hnoplus
  | gcc hkind _ hicpx hsplit =>
    obtain rfl := List.append_cancel_left (Option.some.inj hr)
    exact ⟨fun h => hkind (.inl h), .inr (.inl ⟨hicpx, _, _, hsplit, rfl⟩)⟩
  | cc hkind hicpx hgcc hsplit =>
    obtain rfl := List.append_cancel_left (Option.some.inj hr)
    exact ⟨fun h => hkind (.inl h), .inr (.inr ⟨hicpx, hgcc, _, hsplit, rfl⟩)⟩
  | unknown => cases hr

theorem CName.not_dpcpp (h : CName dir name (some (dir ++ c))) (hgood : GoodC c)
    (hplus : Has name "++") : ¬ Has name "dpcpp" := by
  have hdpcpp := hgood.2.1
  obtain ⟨-, ⟨u, v, hsplit, rfl⟩ | ⟨-, u, v, hsplit, rfl⟩ | ⟨-, -, v, hsplit, rfl⟩⟩ :=
    h.plus hgood hplus
  · rwa [hsplit, ← has_dpcpp_clang]
  · rwa [hsplit, ← has_dpcpp_gcc]
  · rwa [hsplit, ← has_dpcpp_cc]

theorem CName.regular (h : CName dir name (some (dir ++ c))) (hgood : GoodC c)
    (hplus : Has name "++") (hknown : Has name "g++" ∨ Has name "icpx" ∨ name = str "c++") :
    RegularName dir name := by
  refine ⟨h.not_dpcpp hgood hplus, .inr ?_⟩
  have hnoplus := hgood.1
  obtain ⟨hdir, ⟨u, v, hsplit, rfl⟩ | ⟨hicpx, u, v, hsplit, rfl⟩ | ⟨hicpx, hgcc, v, hsplit, rfl⟩⟩ :=
    h.plus hgood hplus
  · rw [has_plus (by decide), not_or] at hnoplus
    have hclan : Has (u ++ (str "clan" ++ [])) "++" ↔ Has u "++" ∨ Has [] "++" :=
      has_plus (by decide)
    rw [List.append_nil] at hclan
    refine ⟨hdir, .inr ⟨.inl (hsplit ▸ .of_append _ _ _), u ++ str "clan", v, ?_, ?_, hnoplus.2⟩⟩
    · rw [hsplit, List.append_assoc]
      rfl
    · rw [hclan, or_iff_left (by decide)]
      exact hnoplus.1
  · rw [has_plus (by decide), not_or] at hnoplus
    exact ⟨hdir, .inr ⟨.inr hicpx, u, v, hsplit, hnoplus⟩⟩
  · exact ⟨hdir, .inl ((hknown.resolve_left hgcc).resolve_left hicpx)⟩

/-- A name without `++` that nothing has to be replaced in -/
theorem CName.same_of_not_plus (h : CName dir name (some (dir ++ c))) (hplus : ¬ Has name "++")
    (hdpcpp : ¬ Has name "dpcpp") : c = name := by
  generalize hr : some (dir ++ c) = r at h
  cases h with
  | same => exact List.append_cancel_left (Option.some.inj hr)
  | dpcpp _ hsplit => exact absurd (hsplit ▸ .of_append _ _ _) hdpcpp
  | clang hkind => exact absurd (.inr hplus) hkind
  | icpx hkind => exact absurd (.inr hplus) hkind
  | gcc hkind => exact absurd (.inr hplus) hkind
  | cc hkind => exact absurd (.inr hplus) hkind
  | unknown => cases hr

/-- Behind `c++` there is nothing of the C++ compilers' words. -/
theorem eq_nil_of_goodCpp (hgood : GoodCpp (str "c++" ++ v)) (hplus : ¬ Has v "++")
    (hicpx : ¬ Has v "icpx") : v = [] := by
  have hword : str "g++" = 103 :: str "++" := rfl
  have hgcc : Has (99 :: 43 :: 43 :: v) "g++" ↔ Has v "g++" := by
    rw [Has, hword, infix_cons_of_ne (by decide), infix_cons_of_ne (by decide),
      infix_cons_of_ne (by decide)]
    exact Iff.rfl
  have hicpxs : Has (str "c" ++ (str "++" ++ v)) "icpx" ↔ Has (str "c") "icpx" ∨ Has v "icpx" :=
    infix_append_foreign (by decide)
  rcases hgood.2.2 with h | h | h
  · exact absurd ((hgcc.mp h).mono (by decide)) hplus
  · exact absurd ((hicpxs.mp h).resolve_left (by decide)) hicpx
  · exact List.append_right_eq_self.mp h

theorem CppName.regular (h : CppName dir name (some (dir ++ cpp))) (hgood : GoodCpp cpp)
    (hc : CName dir name (some (dir ++ c))) (hgoodC : GoodC c) (hplus : ¬ Has name "++") :
    RegularName dir name := by
  have hwords : Foreign (str "dpcpp") (str "++") ∧
      Foreign (str "icx") (str "++") ∧
      Foreign (str "icpx") (str "++") := by decide
  generalize hr : some (dir ++ cpp) = r at h
  cases h with
  | same hhas => exact absurd hhas hplus
  | dpcpp hsplit =>
    obtain rfl := List.append_cancel_left (Option.some.inj hr)
    rw [hsplit] at hplus
    exact absurd ((plus_replaced hwords.1 hwords.2.2).mp hgood.1) hplus
  | gcc _ hdpcpp hsplit => exact ⟨hdpcpp, .inl ⟨hplus, .inl (hsplit ▸ .of_append _ _ _)⟩⟩
  | icx _ _ _ _ hsplit =>
    obtain rfl := List.append_cancel_left (Option.some.inj hr)
    rw [hsplit] at hplus
    exact absurd ((plus_replaced hwords.2.1 hwords.2.2).mp hgood.1) hplus
  | clang _ hdpcpp _ hicx hsplit =>
    exact ⟨hdpcpp, .inl ⟨hplus, .inr (.inl ⟨hsplit ▸ .of_append _ _ _, hicx⟩)⟩⟩
  | @cc v _ hdpcpp hgcc _ hclang hsplit =>
    obtain rfl := List.append_cancel_left (Option.some.inj hr)
    obtain rfl := hc.same_of_not_plus hplus hdpcpp
    refine ⟨hdpcpp, .inl ⟨hplus, .inr (.inr ?_)⟩⟩
    rcases hgoodC.2.2 with ⟨-, hicpx⟩ | h | h | h
    · have hmem : v <:+: c := hsplit ▸ (List.suffix_append _ _).isInfix
      obtain rfl := eq_nil_of_goodCpp hgood (fun h => hplus (h.trans hmem)) fun h =>
        hicpx (h.trans hmem)
      exact hsplit
    · exact absurd h hgcc
    · exact absurd h hclang
    · exact h
  | unknown => cases hr

theorem RegularName.goodC (h : RegularName dir name) (hc : CName dir name r) :
    ∃ c, r = some (dir ++ c) ∧ GoodC c := by
  obtain ⟨hdpcpp, ⟨hplus, hkind⟩ | ⟨hdir, hkind⟩⟩ := h
  · have hgood : GoodC name := ⟨hplus, hdpcpp, .inr (hkind.imp_right (·.imp_left And.left))⟩
    cases hc with
    | same => exact ⟨name, rfl, hgood⟩
    | dpcpp _ hsplit => exact absurd (hsplit ▸ .of_append _ _ _) hdpcpp
    | clang hnot => exact absurd (.inr hplus) hnot
    | icpx hnot => exact absurd (.inr hplus) hnot
    | gcc hnot => exact absurd (.inr hplus) hnot
    | cc hnot => exact absurd (.inr hplus) hnot
    | unknown hnot => exact absurd (.inr hplus) hnot
  · have hplus : Has name "++" := by
      rcases hkind with rfl | ⟨-, u, v, rfl, -⟩
      · decide
      · exact (Has.of_append _ _ _).mono (by decide)
    -- wherever the replaced `++` stands, it is the only one
    have honly : ∀ {u v : Str}, name = u ++ (str "g++" ++ v) → ¬ Has u "++" ∧ ¬ Has v "++" := by
      intro u v hsplit
      rcases hkind with rfl | ⟨-, u', v', hsplit', hu, hv⟩
      · exact absurd (hsplit ▸ Has.of_append u v "g++") (by decide)
      · exact split_plus (hsplit'.symm.trans hsplit) hu hv
    cases hc with
    | same htaken => exact (htaken.elim hdir (absurd hplus)).elim
    | dpcpp _ hsplit => exact absurd (hsplit ▸ .of_append _ _ _) hdpcpp
    | @clang u v _ hsplit =>
      have hsplit' : name = u ++ str "clan" ++ (str "g++" ++ v) := by
        rw [hsplit, List.append_assoc]
        rfl
      obtain ⟨hu, hv⟩ := honly hsplit'
      refine ⟨_, rfl, ?_, ?_, .inr (.inr (.inl (.of_append _ _ _)))⟩
      · rw [has_plus (by decide), not_or]
        exact ⟨fun h => hu (h.trans List.infix_append_left), hv⟩
      · rwa [has_dpcpp_clang, ← hsplit]
    | icpx _ hclang hsplit =>
      have hicpx : Has name "icpx" := hsplit ▸ .of_append _ _ _
      rcases hkind with rfl | ⟨hclang' | hicpx', -⟩
      · exact absurd hicpx (by decide)
      · exact absurd hclang' hclang
      · exact absurd hicpx hicpx'
    | @gcc u v _ _ _ hsplit =>
      refine ⟨_, rfl, ?_, ?_, .inr (.inl (.of_append _ _ _))⟩
      · rw [has_plus (by decide), not_or]
        exact honly hsplit
      · rwa [has_dpcpp_gcc, ← hsplit]
    | cc _ _ hgcc hsplit =>
      rcases hkind with rfl | ⟨-, u, v, hsplit', -⟩
      · obtain rfl := List.append_right_eq_self.mp hsplit.symm
        exact ⟨_, rfl, by unfold GoodC; decide⟩
      · exact absurd (hsplit' ▸ .of_append _ _ _) hgcc
    | unknown _ hgcc hcc =>
      rcases hkind with h | ⟨-, u, v, hsplit', -⟩
      · exact absurd h hcc
      · exact absurd (hsplit' ▸ .of_append _ _ _) hgcc

theorem RegularName.goodCpp (h : RegularName dir name) (hcpp : CppName dir name r) :
    ∃ cpp, r = some (dir ++ cpp) ∧ GoodCpp cpp := by
  obtain ⟨hdpcpp, ⟨hplus, hkind⟩ | ⟨hdir, hkind⟩⟩ := h
  · cases hcpp with
    | same hhas => exact absurd hhas hplus
    | dpcpp hsplit => exact absurd (hsplit ▸ .of_append _ _ _) hdpcpp
    | @gcc u v _ _ hsplit =>
      have hgcc := Has.of_append u v "g++"
      exact ⟨_, rfl, hgcc.mono (by decide), by rwa [← has_dpcpp_gcc, ← hsplit], .inl hgcc⟩
    | icx _ _ hgcc hicpx hsplit =>
      have hicx : Has name "icx" := hsplit ▸ .of_append _ _ _
      rcases hkind with h | ⟨-, h⟩ | rfl
      · exact absurd h hgcc
      · exact absurd ⟨hicx, hicpx⟩ h
      · exact absurd hicx (by decide)
    | @clang u v _ _ _ _ hsplit =>
      have hclang := Has.of_append u v "clang++"
      exact ⟨_, rfl, hclang.mono (by decide), by rwa [← has_dpcpp_clang, ← hsplit],
        .inl (hclang.mono (by decide))⟩
    | cc _ _ hgcc _ hclang hsplit =>
      rcases hkind with h | ⟨h, -⟩ | rfl
      · exact absurd h hgcc
      · exact absurd h hclang
      · obtain rfl := List.append_right_eq_self.mp hsplit.symm
        exact ⟨_, rfl, by unfold GoodCpp; decide⟩
    | unknown _ _ hgcc _ hclang hcc =>
      rcases hkind with h | ⟨h, -⟩ | h
      · exact absurd h hgcc
      · exact absurd h hclang
      · exact absurd h hcc
  · have hknown : Has name "g++" ∨ name = str "c++" := by
      rcases hkind with h | ⟨-, u, v, hsplit, -⟩
      · exact .inr h
      · exact .inl (hsplit ▸ .of_append _ _ _)
    have hplus : Has name "++" := by
      rcases hknown with h | rfl
      · exact h.mono (by decide)
      · decide
    cases hcpp with
    | same => exact ⟨name, rfl, hplus, hdpcpp, hknown.imp_right .inr⟩
    | dpcpp hsplit => exact absurd (hsplit ▸ .of_append _ _ _) hdpcpp
    | gcc h => exact absurd hplus h
    | icx h => exact absurd hplus h
    | clang h => exact absurd hplus h
    | cc h => exact absurd hplus h
    | unknown h => exact absurd hplus h

/-- A known compiler has its pair exactly when the code replaces its own word and nothing else. -/
theorem paired_iff_regular (hknown : isCCompiler compiler = true ∨ isCppCompiler compiler = true) :
    Paired compiler ↔ Regular compiler := by
  obtain ⟨dir, name, rfl, hdir, hname⟩ := exists_dir_append compiler
  rw [isCCompiler_append hdir hname, isCppCompiler_append hdir hname] at hknown
  have hne : name ≠ [] := by
    rintro rfl
    revert hknown
    decide
  rw [paired_iff hdir hname hne, regular_append hdir hname]
  have hc := getCCompiler_name hdir hname hne
  have hcpp := getCppCompiler_name hdir hname hne
  constructor
  · rintro ⟨⟨c, hceq, hgoodC⟩, cpp, hcppeq, hgoodCpp⟩
    rw [hceq] at hc
    rw [hcppeq] at hcpp
    by_cases hplus : Has name "++"
    · refine hc.regular hgoodC hplus ?_
      have hdpcpp := hc.not_dpcpp hgoodC hplus
      rcases hknown with h | h | h | h | h
      · exact absurd hplus h.1
      · exact .inl h
      · exact .inr (.inl h)
      · exact absurd h hdpcpp
      · exact .inr (.inr h)
    · exact hcpp.regular hgoodCpp hc hgoodC hplus
  · intro h
    exact ⟨h.goodC hc, h.goodCpp hcpp⟩

theorem paired_iff_regular_version : (isCCompiler (str "/opt/bin/arm-linux-g++-12") = true ∨
      isCppCompiler (str "/opt/bin/arm-linux-g++-12") = true) ∧
    (Paired (str "/opt/bin/arm-linux-g++-12") ↔ Regular (str "/opt/bin/arm-linux-g++-12")) :=
  ⟨by decide, paired_iff_regular (by decide)⟩

/-- Of `icpx` no C++ compiler is found, and `g++` without a directory is its own C compiler. -/
theorem icpx_not_paired :
    (isCppCompiler (str "/usr/bin/icpx") = true ∧ getCppCompiler (str "/usr/bin/icpx") = none ∧
      ¬ Paired (str "/usr/bin/icpx")) ∧
    (isCppCompiler (str "g++") = true ∧ getCCompiler (str "g++") = some (str "g++") ∧
      ¬ Paired (str "g++")) := by
  have hicpx : getCppCompiler (str "/usr/bin/icpx") = none := by decide
  have hgcc : getCCompiler (str "g++") = some (str "g++") := by decide
  refine ⟨⟨by decide, hicpx, ?_⟩, by decide, hgcc, ?_⟩
  · rintro ⟨c, cpp, -, hcpp, -⟩
    rw [hicpx] at hcpp
    cases hcpp
  · rintro ⟨c, cpp, hc, -, -, -, hisC, -⟩
    rw [hgcc] at hc
    cases hc
    exact absurd hisC (by decide)

end Icecream.Services
