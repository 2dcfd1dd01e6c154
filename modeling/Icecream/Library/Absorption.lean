import Mathlib.Data.List.Basic

/-!
# A state that takes a sequence in blocks

Whole blocks change the state, in their order; what is left behind the last of them waits for
more. What comes later does not depend on how the sequence was cut.
-/

namespace Icecream.Absorption

variable {α β : Type*} (f : α → List β → α) (n : ℕ)

/-- The state after so many blocks -/
def blocks : ℕ → α → List β → α
  | 0, a, _ => a
  | k + 1, a, l => blocks k (f a (l.take n)) (l.drop n)

/-- The state after all of the blocks that are whole -/
def absorb (a : α) (l : List β) : α := blocks f n (l.length / n) a l

/-- What is left behind the blocks -/
def rest (l : List β) : List β := l.drop (n * (l.length / n))

theorem rest_length (l : List β) : (rest n l).length = l.length % n := by
  rw [rest, List.length_drop]
  exact (Nat.mod_eq_sub_mul_div).symm

theorem rest_of_lt {l : List β} (h : l.length < n) : rest n l = l := by
  rw [rest, Nat.div_eq_of_lt h, Nat.mul_zero, List.drop_zero]

theorem absorb_of_lt {l : List β} (h : l.length < n) (a : α) : absorb f n a l = a := by
  rw [absorb, Nat.div_eq_of_lt h, blocks]

variable {n} in
theorem div_length_drop (hn : 0 < n) {l : List β} (h : n ≤ l.length) :
    l.length / n = (l.drop n).length / n + 1 := by
  rw [List.length_drop]
  exact Nat.div_eq_sub_div hn h

variable {n} in
theorem absorb_step (hn : 0 < n) {l : List β} (h : n ≤ l.length) (a : α) :
    absorb f n a l = absorb f n (f a (l.take n)) (l.drop n) := by
  rw [absorb, div_length_drop hn h, blocks, absorb]

variable {n} in
theorem rest_step (hn : 0 < n) {l : List β} (h : n ≤ l.length) : rest n l = rest n (l.drop n) := by
  rw [rest, div_length_drop hn h, rest, List.drop_drop, Nat.mul_add, Nat.mul_one, Nat.add_comm]

/-- A block and more -/
theorem absorb_block {block : List β} (hn : 0 < n) (h : block.length = n) (a : α) (l : List β) :
    absorb f n a (block ++ l) = absorb f n (f a block) l := by
  have hlength : n ≤ (block ++ l).length := by
    rw [List.length_append, h]
    exact Nat.le_add_right n l.length
  rw [absorb_step f hn hlength, List.take_left' h, List.drop_left' h]

theorem rest_block {block : List β} (hn : 0 < n) (h : block.length = n) (l : List β) :
    rest n (block ++ l) = rest n l := by
  have hlength : n ≤ (block ++ l).length := by
    rw [List.length_append, h]
    exact Nat.le_add_right n l.length
  rw [rest_step hn hlength, List.drop_left' h]

/-- More is taken from where the blocks have ended. -/
theorem absorb_append (hn : 0 < n) (a : α) (l more : List β) :
    absorb f n a (l ++ more) = absorb f n (absorb f n a l) (rest n l ++ more) ∧
      rest n (l ++ more) = rest n (rest n l ++ more) := by
  induction hk : l.length / n generalizing a l with
  | zero =>
    have hlt : l.length < n := by
      rcases Nat.div_eq_zero_iff.mp hk with hzero | hlt
      · exact absurd hzero (Nat.ne_of_gt hn)
      · exact hlt
    rw [rest_of_lt n hlt, absorb_of_lt f n hlt]
    exact ⟨rfl, rfl⟩
  | succ k ih =>
    have hle : n ≤ l.length := by
      by_contra hlt
      rw [Nat.div_eq_of_lt (Nat.lt_of_not_ge hlt)] at hk
      cases hk
    have hcut : l.take n ++ l.drop n = l := List.take_append_drop n l
    have hblock : (l.take n).length = n := List.length_take_of_le hle
    have hleft : (l.drop n).length / n = k := by
      rw [div_length_drop hn hle] at hk
      exact Nat.succ.inj hk
    obtain ⟨habsorb, hrest⟩ := ih (f a (l.take n)) (l.drop n) hleft
    have hwhole : l ++ more = l.take n ++ (l.drop n ++ more) := by rw [← List.append_assoc, hcut]
    rw [absorb_step f hn hle, rest_step hn hle, hwhole, absorb_block f n hn hblock,
      rest_block n hn hblock]
    exact ⟨habsorb, hrest⟩

end Icecream.Absorption
