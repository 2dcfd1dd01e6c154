import Mathlib.Data.List.Basic

/-!
# A sequence in chunks

The pieces that a buffer of a fixed size makes of a sequence when it is sent off whenever it is
full, and at the end unless it is empty.
-/

namespace Icecream

variable {α : Type*} {n : ℕ} {l : List α} {pieces pieces' : List (List α)}

inductive Chunked (n : ℕ) : List α → List (List α) → Prop
  | nil : Chunked n [] []
  | last {buffer : List α} (hne : buffer ≠ []) (hle : buffer.length ≤ n) : Chunked n buffer [buffer]
  | full {piece rest : List α} {pieces : List (List α)} (hlength : piece.length = n)
      (hrest : Chunked n rest pieces) : Chunked n (piece ++ rest) (piece :: pieces)

namespace Chunked

theorem flatten (h : Chunked n l pieces) : pieces.flatten = l := by
  induction h with
  | nil => rfl
  | last hne hle => simp
  | full hlength hrest ih => rw [List.flatten_cons, ih]

theorem length_le (h : Chunked n l pieces) : ∀ p ∈ pieces, p.length ≤ n := by
  induction h with
  | nil => simp
  | last hne hle => simpa using hle
  | full hlength hrest ih => simpa [hlength] using ih

/-- The first piece is as much as there is room for. -/
theorem head_eq {piece : List α} (h : Chunked n l (piece :: pieces)) :
    piece = l.take n ∧ Chunked n (l.drop n) pieces := by
  cases h with
  | last hne hle =>
    rw [List.take_of_length_le hle, List.drop_of_length_le hle]
    exact ⟨rfl, .nil⟩
  | full hlength hrest =>
    refine ⟨?_, ?_⟩
    · rw [← hlength, List.take_left]
    · rwa [← hlength, List.drop_left, hlength]

theorem eq_nil_iff (hn : 0 < n) (h : Chunked n l pieces) : pieces = [] ↔ l = [] := by
  cases h with
  | nil => simp
  | last hne hle => simpa using hne
  | full hlength hrest =>
    have hne : ∀ piece : List α, piece.length = n → piece ≠ [] := by
      rintro _ hlength rfl
      rw [List.length_nil] at hlength
      omega
    simp [hne _ hlength]

/-- There is one way to cut a sequence. -/
theorem unique (hn : 0 < n) (h : Chunked n l pieces) (h' : Chunked n l pieces') :
    pieces = pieces' := by
  induction pieces generalizing l pieces' with
  | nil => exact ((h'.eq_nil_iff hn).mpr ((h.eq_nil_iff hn).mp rfl)).symm
  | cons piece pieces ih =>
    cases pieces' with
    | nil => exact absurd ((h.eq_nil_iff hn).mpr ((h'.eq_nil_iff hn).mp rfl)) (List.cons_ne_nil _ _)
    | cons piece' pieces' =>
      obtain ⟨rfl, hrest⟩ := h.head_eq
      obtain ⟨rfl, hrest'⟩ := h'.head_eq
      rw [ih hrest hrest']

end Chunked

end Icecream
