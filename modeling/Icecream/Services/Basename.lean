import Icecream.Library.Path
import Icecream.Services.Compiler

/-!
# Where a word is found in a path

A path is a directory, which ends in a slash, and a base name. A word without a slash is
found in the base name whenever it stands there.
-/

namespace Icecream.Services

open Icecream.Comm (Str str)
open Icecream.Path (slash)

variable {s w u v dir name old new : Str} {i k : ℕ}

theorem rfind_some (h : rfind s w = some i) : i ≤ s.length ∧ w <+: s.drop i := by
  have hmem := List.mem_of_find?_eq_some h
  rw [List.mem_reverse, List.mem_range] at hmem
  have hfound := List.find?_some h
  exact ⟨Nat.le_of_lt_succ hmem, of_decide_eq_true hfound⟩

/-- The word does not stand behind the position that is found. -/
theorem le_rfind (hk : k ≤ s.length) (hmem : w <+: s.drop k) :
    ∃ i, rfind s w = some i ∧ k ≤ i := by
  have hrange : k ∈ (List.range (s.length + 1)).reverse :=
    List.mem_reverse.mpr (List.mem_range.mpr (Nat.lt_succ_of_le hk))
  cases hfind : rfind s w with
  | none =>
    rw [rfind, List.find?_eq_none] at hfind
    exact absurd (decide_eq_true hmem) (hfind k hrange)
  | some i =>
    refine ⟨i, rfl, ?_⟩
    obtain ⟨-, before, after, hsplit, hbefore⟩ := List.find?_eq_some_iff_append.mp hfind
    have hsorted : List.Pairwise (· > ·) (List.range (s.length + 1)).reverse :=
      List.pairwise_reverse.mpr List.pairwise_lt_range
    rw [hsplit, List.mem_append, List.mem_cons] at hrange
    rw [hsplit, List.pairwise_append, List.pairwise_cons] at hsorted
    rcases hrange with hrange | rfl | hrange
    · exact absurd (hbefore k hrange) (by simpa using hmem)
    · exact le_refl k
    · exact Nat.le_of_lt (hsorted.2.1.1 k hrange)

theorem rfind_eq_some (hi : i ≤ s.length) (hw : w <+: s.drop i)
    (hlast : ∀ k, i < k → k ≤ s.length → ¬ w <+: s.drop k) : rfind s w = some i := by
  obtain ⟨k, hk, hle⟩ := le_rfind hi hw
  obtain ⟨hks, hwk⟩ := rfind_some hk
  rcases Nat.eq_or_lt_of_le hle with rfl | hlt
  · exact hk
  · exact absurd hwk (hlast k hlt hks)

theorem prefix_drop_length : w <+: (u ++ (w ++ v)).drop u.length := by
  rw [List.drop_left]
  exact List.prefix_append w v

/-- The text around the last occurrence -/
theorem rfind_split (h : rfind s w = some i) :
    ∃ v, s = s.take i ++ (w ++ v) ∧ (s.take i).length = i := by
  obtain ⟨hi, v, hv⟩ := rfind_some h
  exact ⟨v, by rw [hv, List.take_append_drop], List.length_take_of_le hi⟩

theorem rfind_isSome : (rfind s w).isSome = true ↔ w <:+: s := by
  constructor
  · intro h
    obtain ⟨i, hi⟩ := Option.isSome_iff_exists.mp h
    obtain ⟨v, hv, -⟩ := rfind_split hi
    exact ⟨s.take i, v, by rw [List.append_assoc, ← hv]⟩
  · rintro ⟨u, v, rfl⟩
    rw [List.append_assoc]
    obtain ⟨i, hi, -⟩ := le_rfind (k := u.length) (by simp) (prefix_drop_length (w := w) (v := v))
    rw [hi]
    rfl

theorem contains_iff : contains s w = true ↔ w <:+: s := rfind_isSome

/-! ## The directory of a path -/

/-- What stands before a base name -/
def IsDir (dir : Str) : Prop := dir = [] ∨ ∃ d, dir = d ++ [slash]

theorem slash_prefix_drop : str "/" <+: s.drop k ↔ s[k]? = some slash := by
  constructor
  · rintro ⟨v, hv⟩
    have hhead := congrArg List.head? hv
    rw [List.head?_drop] at hhead
    exact hhead.symm
  · intro h
    obtain ⟨hk, hslash⟩ := List.getElem?_eq_some_iff.mp h
    rw [List.drop_eq_getElem_cons hk, hslash]
    exact ⟨s.drop (k + 1), rfl⟩

/-- No slash after the last one -/
theorem rfind_slash (hname : slash ∉ name) : rfind (u ++ slash :: name) (str "/") = some u.length := by
  refine rfind_eq_some (by simp) prefix_drop_length fun k hk _ hslash => hname ?_
  rw [slash_prefix_drop, List.getElem?_append_right (Nat.le_of_lt hk)] at hslash
  obtain ⟨j, hj⟩ := Nat.exists_eq_add_of_lt hk
  have hindex : k - u.length = j + 1 := by omega
  rw [hindex, List.getElem?_cons_succ] at hslash
  exact List.mem_of_getElem? hslash

theorem rfind_slash_none (hname : slash ∉ name) : rfind name (str "/") = none := by
  rw [← Option.not_isSome_iff_eq_none, rfind_isSome]
  exact fun h => hname (h.subset List.mem_cons_self)

theorem exists_dir_append (s : Str) : ∃ dir name, s = dir ++ name ∧ IsDir dir ∧ slash ∉ name := by
  obtain ⟨w, cs, rfl, hw, hcs⟩ := Path.exists_joined s
  rcases List.eq_nil_or_concat cs with rfl | ⟨cs, c, rfl⟩
  · exact ⟨[], w, List.append_nil w, .inl rfl, hw⟩
  · refine ⟨w ++ Path.joined cs ++ [slash], c, ?_, .inr ⟨_, rfl⟩, hcs c (by simp)⟩
    rw [List.concat_eq_append, Path.joined_append]
    simp [Path.joined]

theorem findBasename_append (hdir : IsDir dir) (hname : slash ∉ name) :
    findBasename (dir ++ name) = name := by
  rcases hdir with rfl | ⟨d, rfl⟩
  · rw [List.nil_append, findBasename, rfind_slash_none hname]
  · rw [List.append_assoc, List.singleton_append, findBasename, rfind_slash hname]
    simp

theorem slash_not_mem_findBasename (s : Str) : slash ∉ findBasename s := by
  obtain ⟨dir, name, rfl, hdir, hname⟩ := exists_dir_append s
  rwa [findBasename_append hdir hname]

end Icecream.Services
