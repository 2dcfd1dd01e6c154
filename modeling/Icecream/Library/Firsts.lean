import Mathlib.Data.List.Induction
import Mathlib.Data.List.Nodup

/-!
# The first of each key

Values are taken from the front of a list, those that are fit and of which no other one with the same
key has been taken.
-/

namespace Icecream.Firsts

variable {α κ : Type*} [DecidableEq κ] (key : α → κ) (fit : α → Bool)

def add (taken : List α) (a : α) : List α :=
  if key a ∈ taken.map key then taken
  else if fit a then taken ++ [a]
  else taken

def firsts (l : List α) : List α := l.foldl (add key fit) []

theorem firsts_concat (l : List α) (a : α) :
    firsts key fit (l ++ [a]) = add key fit (firsts key fit l) a := by
  rw [firsts, List.foldl_append]
  rfl

theorem add_nodup {taken : List α} (h : (taken.map key).Nodup) (a : α) :
    ((add key fit taken a).map key).Nodup := by
  unfold add
  split_ifs with hmem hfit
  · exact h
  · rw [List.map_append]
    refine h.append (List.nodup_singleton _) ?_
    simpa using hmem
  · exact h

theorem firsts_nodup (l : List α) : ((firsts key fit l).map key).Nodup := by
  induction l using List.reverseRecOn with
  | nil => exact List.nodup_nil
  | append_singleton l a ih =>
    rw [firsts_concat]
    exact add_nodup key fit ih a

theorem mem_add_iff {taken : List α} {a b : α} :
    b ∈ add key fit taken a ↔ b ∈ taken ∨ b = a ∧ fit a = true ∧ key a ∉ taken.map key := by
  unfold add
  split_ifs with hmem hfit
  · simp [hmem]
  · simp [hmem, hfit]
  · simp [hfit]

theorem mem_add_keys {taken : List α} {a : α} {k : κ} :
    k ∈ (add key fit taken a).map key ↔ k ∈ taken.map key ∨ fit a = true ∧ key a = k := by
  unfold add
  split_ifs with hmem hfit
  · refine ⟨.inl, ?_⟩
    rintro (h | ⟨-, rfl⟩)
    · exact h
    · exact hmem
  · rw [List.map_append, List.mem_append]
    refine or_congr_right ⟨fun h => ⟨hfit, (List.mem_singleton.mp h).symm⟩, fun h => ?_⟩
    exact List.mem_singleton.mpr h.2.symm
  · simp [hfit]

theorem mem_keys_iff {l : List α} {k : κ} :
    k ∈ (firsts key fit l).map key ↔ ∃ b ∈ l, fit b = true ∧ key b = k := by
  induction l using List.reverseRecOn with
  | nil => simp [firsts]
  | append_singleton l x ih =>
    rw [firsts_concat, mem_add_keys, ih]
    simp [or_and_right, exists_or]

/-- A value is taken if it is fit and none in front of it that is fit has its key. -/
theorem mem_firsts_iff {l : List α} {a : α} :
    a ∈ firsts key fit l ↔ ∃ before after, l = before ++ a :: after ∧ fit a = true ∧
      ∀ b ∈ before, fit b = true → key b ≠ key a := by
  induction l using List.reverseRecOn with
  | nil => simp [firsts]
  | append_singleton l x ih =>
    rw [firsts_concat, mem_add_iff, ih, mem_keys_iff]
    constructor
    · rintro (⟨before, after, rfl, h⟩ | ⟨rfl, hfit, hnew⟩)
      · exact ⟨before, after ++ [x], by simp, h⟩
      · exact ⟨l, [], rfl, hfit, fun b hb hfitb heq => hnew ⟨b, hb, hfitb, heq⟩⟩
    · rintro ⟨before, after, hl, hfit, hnew⟩
      rcases List.eq_nil_or_concat after with rfl | ⟨after', y, rfl⟩
      · obtain ⟨rfl, rfl⟩ := List.append_singleton_inj.mp hl
        refine .inr ⟨rfl, hfit, ?_⟩
        rintro ⟨b, hb, hfitb, heq⟩
        exact hnew b hb hfitb heq
      · have hcut : l ++ [x] = (before ++ a :: after') ++ [y] := by simpa using hl
        obtain ⟨rfl, rfl⟩ := List.append_singleton_inj.mp hcut
        exact .inl ⟨before, after', rfl, hfit, hnew⟩

end Icecream.Firsts
