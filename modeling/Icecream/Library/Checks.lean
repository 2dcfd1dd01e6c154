import Mathlib.Order.Basic

/-!
# Programs with checks

A program that checks what it relies on has no result where a check fails. `Yields P x a`
says that none fails: the result is `a`, and it has the property `P`.
-/

namespace Icecream.Checks

variable {α β : Type}

/-- The difference of two numbers without a sign, where it does not wrap -/
def minus (a b : ℕ) : Option ℕ := if b ≤ a then some (a - b) else none

def ensure (p : Prop) [Decidable p] (a : α) : Option α := if p then some a else none

theorem minus_eq {a b : ℕ} (h : b ≤ a) : minus a b = some (a - b) := if_pos h

structure Yields (P : α → Prop) (x : Option α) (a : α) : Prop where
  eq : x = some a
  holds : P a

namespace Yields

variable {P : α → Prop} {Q : β → Prop} {x y : Option α} {a b : α}

theorem pure (h : P a) : Yields P (some a) a := ⟨rfl, h⟩

theorem ensure {p : Prop} [Decidable p] (hp : p) (h : P a) : Yields P (ensure p a) a :=
  ⟨if_pos hp, h⟩

theorem mono {P' : α → Prop} (h : Yields P x a) (himp : P a → P' a) : Yields P' x a :=
  ⟨h.eq, himp h.holds⟩

theorem bind {f : α → Option β} {b : β} (h : Yields P x a) (hf : P a → Yields Q (f a) b) :
    Yields Q (x >>= f) b := by
  rw [h.eq]
  exact hf h.holds

theorem map {f : α → β} (h : Yields P x a) (hf : P a → Q (f a)) : Yields Q (x.map f) (f a) := by
  rw [h.eq]
  exact ⟨rfl, hf h.holds⟩

theorem ite {c : Prop} [Decidable c] (hx : c → Yields P x a) (hy : ¬ c → Yields P y b) :
    Yields P (if c then x else y) (if c then a else b) := by
  by_cases hc : c
  · rw [if_pos hc, if_pos hc]
    exact hx hc
  · rw [if_neg hc, if_neg hc]
    exact hy hc

/-- A difference that is taken first -/
theorem minus {f : ℕ → Option α} {n m : ℕ} (hle : m ≤ n) (h : Yields P (f (n - m)) a) :
    Yields P (minus n m >>= f) a := by
  rw [minus_eq hle]
  exact h

end Yields

end Icecream.Checks
