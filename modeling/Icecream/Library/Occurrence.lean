import Mathlib.Data.List.Infix

/-!
# Occurrences of a word in a text

A word that does not use a character lies on one side of it.
-/

namespace Icecream.Occurrence

variable {α : Type*} {w u v m : List α} {x : α}

theorem infix_append_cons (hx : x ∉ w) : w <:+: u ++ x :: v ↔ w <:+: u ∨ w <:+: v := by
  constructor
  · rintro ⟨s, t, heq⟩
    rw [List.append_assoc] at heq
    rcases List.append_eq_append_iff.mp heq with ⟨s', rfl, hs⟩ | ⟨s', rfl, hs⟩
    · -- the word begins in `u`, and ends before the character
      rcases List.append_eq_append_iff.mp hs with ⟨t', rfl, ht⟩ | ⟨t', rfl, ht⟩
      · exact .inl ⟨s, t', List.append_assoc _ _ _⟩
      · cases t' with
        | nil => exact .inl ⟨s, [], by simp⟩
        | cons y t' =>
          obtain rfl : x = y := (List.cons.inj ht).1
          exact absurd (List.mem_append_right s' List.mem_cons_self) hx
    · cases s' with
      | nil =>
        cases w with
        | nil => exact .inl (List.nil_infix)
        | cons y w =>
          obtain rfl : x = y := (List.cons.inj hs).1
          exact absurd List.mem_cons_self hx
      | cons y s' => exact .inr ⟨s', t, by simpa using (List.cons.inj hs).2.symm⟩
  · rintro (h | h)
    · exact h.trans (List.infix_append_left)
    · exact h.trans ⟨u ++ [x], [], by simp⟩

/-- A text that is not empty and has no character in common with the word -/
def Foreign (m w : List α) : Prop := m ≠ [] ∧ ∀ x ∈ m, x ∉ w

instance [DecidableEq α] (m w : List α) : Decidable (Foreign m w) :=
  inferInstanceAs (Decidable (m ≠ [] ∧ ∀ x ∈ m, x ∉ w))

/-- The same for a text between the two sides -/
theorem infix_append_foreign (hforeign : Foreign m w) :
    w <:+: u ++ (m ++ v) ↔ w <:+: u ∨ w <:+: v := by
  obtain ⟨hm, hdisjoint⟩ := hforeign
  induction m generalizing u with
  | nil => exact absurd rfl hm
  | cons x m ih =>
    rw [List.forall_mem_cons] at hdisjoint
    rw [List.cons_append, infix_append_cons hdisjoint.1]
    by_cases hnil : m = []
    · rw [hnil, List.nil_append]
    · have hrest := ih (u := []) hnil hdisjoint.2
      rw [List.nil_append] at hrest
      rw [hrest, List.infix_nil]
      refine or_congr_right (or_iff_right_of_imp ?_)
      rintro rfl
      exact List.nil_infix

/-- A word that begins with another character does not begin at `x`. -/
theorem infix_cons_of_ne {y : α} (hy : y ≠ x) : y :: w <:+: x :: v ↔ y :: w <:+: v := by
  rw [List.infix_cons_iff, List.cons_prefix_cons]
  simp [hy]

end Icecream.Occurrence
