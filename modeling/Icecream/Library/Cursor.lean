import Mathlib.Algebra.Order.Ring.Int
import Mathlib.Data.List.Infix

/-!
# Loops over signed indices

A loop moves an index while a test holds, and the test can fail to read. `advance` and `retreat`
are described by the number of their steps: all the tests before the end hold, and the loop ends at
the bound or where the test does not hold.
-/

namespace Icecream.Cursor

/-- The loop `while( i < bound && test ) ++i`, for the distance to the bound -/
def advance (test : ℤ → Option Bool) : ℕ → ℤ → Option ℤ
  | 0, i => some i
  | n + 1, i => do if ← test i then advance test n (i + 1) else some i

/-- The same for `--i` -/
def retreat (test : ℤ → Option Bool) : ℕ → ℤ → Option ℤ
  | 0, i => some i
  | n + 1, i => do if ← test i then retreat test n (i - 1) else some i

section

variable {test : ℤ → Option Bool} {n : ℕ} {i k : ℤ}

theorem advance_eq_some : advance test n i = some k ↔ ∃ m ≤ n, k = i + m ∧
    (∀ j : ℕ, j < m → test (i + j) = some true) ∧ (m = n ∨ test (i + m) = some false) := by
  induction n generalizing i with
  | zero =>
    constructor
    · intro h
      cases h
      exact ⟨0, le_rfl, by simp, by simp, .inl rfl⟩
    · rintro ⟨m, hm, rfl, -, -⟩
      obtain rfl := Nat.le_zero.mp hm
      simp [advance]
  | succ n ih =>
    have hunfold : advance test (n + 1) i =
        (test i).bind fun b => if b then advance test n (i + 1) else some i := rfl
    rw [hunfold]
    constructor
    · intro h
      obtain ⟨b, hb, h⟩ := Option.bind_eq_some_iff.mp h
      cases b with
      | false =>
        obtain rfl : i = k := Option.some.inj h
        exact ⟨0, Nat.zero_le _, by simp, by simp, .inr (by simpa using hb)⟩
      | true =>
        obtain ⟨m, hm, rfl, hbefore, hend⟩ := ih.mp h
        refine ⟨m + 1, by omega, by omega, fun j hj => ?_, ?_⟩
        · cases j with
          | zero => simpa using hb
          | succ j =>
            have hj := hbefore j (by omega)
            rwa [add_assoc, add_comm 1] at hj
        · refine hend.imp (congrArg (· + 1)) fun hend => ?_
          rwa [add_assoc, add_comm 1] at hend
    · rintro ⟨m, hm, rfl, hbefore, hend⟩
      cases m with
      | zero =>
        have hfalse := hend.resolve_left (Nat.succ_ne_zero n).symm
        rw [Nat.cast_zero, add_zero] at hfalse ⊢
        rw [hfalse]
        rfl
      | succ m =>
        have hfirst := hbefore 0 (Nat.succ_pos m)
        rw [Nat.cast_zero, add_zero] at hfirst
        rw [hfirst]
        refine ih.mpr ⟨m, by omega, by omega, fun j hj => ?_, ?_⟩
        · have hj := hbefore (j + 1) (by omega)
          rwa [Nat.cast_succ, add_comm (j : ℤ), ← add_assoc] at hj
        · refine hend.imp Nat.succ.inj fun hend => ?_
          rwa [Nat.cast_succ, add_comm (m : ℤ), ← add_assoc] at hend

/-- Going down is going up the mirrored numbers. -/
theorem retreat_eq_advance : retreat test n i =
    (advance (fun j => test (-j)) n (-i)).map fun j => -j := by
  induction n generalizing i with
  | zero => simp [retreat, advance]
  | succ n ih =>
    have hback : retreat test (n + 1) i =
        (test i).bind fun b => if b then retreat test n (i - 1) else some i := rfl
    have hon : advance (fun j => test (-j)) (n + 1) (-i) = (test (- -i)).bind fun b =>
        if b then advance (fun j => test (-j)) n (-i + 1) else some (-i) := rfl
    rw [hback, hon, neg_neg]
    cases test i with
    | none => rfl
    | some b =>
      cases b with
      | false => simp
      | true =>
        have hnext : -(i - 1) = -i + 1 := by omega
        simp [ih, hnext]

theorem retreat_eq_some : retreat test n i = some k ↔ ∃ m ≤ n, k = i - m ∧
    (∀ j : ℕ, j < m → test (i - j) = some true) ∧ (m = n ∨ test (i - m) = some false) := by
  have hneg : ∀ j : ℕ, -(-i + (j : ℤ)) = i - j := fun j => by omega
  rw [retreat_eq_advance, Option.map_eq_some_iff]
  constructor
  · rintro ⟨k, h, rfl⟩
    obtain ⟨m, hm, rfl, hbefore, hend⟩ := advance_eq_some.mp h
    exact ⟨m, hm, hneg m, fun j hj => hneg j ▸ hbefore j hj, hneg m ▸ hend⟩
  · rintro ⟨m, hm, rfl, hbefore, hend⟩
    refine ⟨-i + m, advance_eq_some.mpr ⟨m, hm, rfl, fun j hj => ?_, ?_⟩, hneg m⟩
    · exact (hneg j).symm ▸ hbefore j hj
    · exact (hneg m).symm ▸ hend

/-- A loop ends whose test never reads outside. -/
theorem advance_total (test : ℤ → Option Bool) (h : ∀ j : ℕ, j < n → ∃ b, test (i + j) = some b) :
    ∃ m ≤ n, advance test n i = some (i + m) := by
  induction n generalizing i with
  | zero => exact ⟨0, le_rfl, by simp [advance]⟩
  | succ n ih =>
    obtain ⟨b, hb⟩ := h 0 (Nat.succ_pos n)
    rw [Nat.cast_zero, add_zero] at hb
    cases b with
    | false => exact ⟨0, Nat.zero_le _, by simp [advance, hb]⟩
    | true =>
      obtain ⟨m, hm, hrest⟩ := ih fun j hj => by
        obtain ⟨b, hb⟩ := h (j + 1) (by omega)
        rw [Nat.cast_succ, add_comm (j : ℤ), ← add_assoc] at hb
        exact ⟨b, hb⟩
      refine ⟨m + 1, by omega, ?_⟩
      rw [advance, hb]
      refine hrest.trans ?_
      rw [Nat.cast_succ, add_comm (m : ℤ), ← add_assoc]

theorem retreat_total (h : ∀ j : ℕ, j < n → ∃ b, test (i - j) = some b) :
    ∃ m ≤ n, retreat test n i = some (i - m) := by
  have hneg : ∀ j : ℕ, -(-i + (j : ℤ)) = i - j := fun j => by omega
  have htotal : ∀ j : ℕ, j < n → ∃ b, test (-(-i + j)) = some b := fun j hj => by
    rw [hneg]
    exact h j hj
  obtain ⟨m, hm, hloop⟩ := advance_total (fun j => test (-j)) htotal
  refine ⟨m, hm, ?_⟩
  rw [retreat_eq_advance, hloop, Option.map_some, hneg]

end

/-! ## Common endings -/

variable {α : Type*} {s t : List α} {m : ℕ}

theorem drop_suffix_iff (hs : m ≤ s.length) (ht : m ≤ t.length) :
    s.drop (s.length - m) <:+ t ↔
      ∀ j < m, s[s.length - 1 - j]? = t[t.length - 1 - j]? := by
  have hback : t.length - (s.length - (s.length - m)) = t.length - m := by omega
  rw [List.suffix_iff_eq_drop, List.length_drop, hback]
  constructor
  · intro h j hj
    have hget : (s.drop (s.length - m))[m - 1 - j]? = (t.drop (t.length - m))[m - 1 - j]? := by
      rw [h]
    rw [List.getElem?_drop, List.getElem?_drop] at hget
    have hs' : s.length - m + (m - 1 - j) = s.length - 1 - j := by omega
    have ht' : t.length - m + (m - 1 - j) = t.length - 1 - j := by omega
    rwa [hs', ht'] at hget
  · intro h
    refine List.ext_getElem? fun i => ?_
    rw [List.getElem?_drop, List.getElem?_drop]
    by_cases hi : i < m
    · have hget := h (m - 1 - i) (by omega)
      have hs' : s.length - 1 - (m - 1 - i) = s.length - m + i := by omega
      have ht' : t.length - 1 - (m - 1 - i) = t.length - m + i := by omega
      rwa [hs', ht'] at hget
    · rw [List.getElem?_eq_none (by omega), List.getElem?_eq_none (by omega)]

end Icecream.Cursor
