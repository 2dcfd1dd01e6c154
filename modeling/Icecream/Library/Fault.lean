import Mathlib.Order.Basic

/-!
# Programs that can fault

A program that reads and writes an explicit state and may end with a fault is a
function into `Except`. `Ends allowed P x` is its partial correctness with the faults
that are tolerated: with every fault allowed it speaks of the runs that survive, and
with one fault left out it says that this fault does not happen.
-/

namespace Icecream.Fault

variable {ε α β : Type}

/-- The program ends with a value of `P` or with an allowed fault. -/
def Ends (allowed : ε → Prop) (P : α → Prop) : Except ε α → Prop
  | .ok a => P a
  | .error e => allowed e

theorem ok_of_toOption {a : α} {x : Except ε α} (h : x.toOption = some a) : x = .ok a := by
  cases x with
  | ok b =>
    cases h
    rfl
  | error e => cases h

namespace Ends

variable {allowed : ε → Prop} {P Q : α → Prop} {x : Except ε α}

theorem ok {a : α} (h : P a) : Ends allowed P (.ok a) := h

theorem pure {a : α} (h : P a) : Ends allowed P (Pure.pure a) := h

theorem throw {e : ε} (h : allowed e) : Ends allowed P (throw e) := h

/-- Nothing is said about faults. -/
theorem any (h : ∀ a, P a) : Ends (fun _ => True) P x := by
  cases x with
  | ok a => exact h a
  | error e => exact trivial

theorem mono (h : Ends allowed P x) (himp : ∀ a, P a → Q a) : Ends allowed Q x := by
  cases x with
  | ok a => exact himp a h
  | error e => exact h

/-- More faults may be allowed. -/
theorem weaken {allowed' : ε → Prop} (h : Ends allowed P x) (himp : ∀ e, allowed e → allowed' e) :
    Ends allowed' P x := by
  cases x with
  | ok a => exact h
  | error e => exact himp e h

/-- What survives satisfies also what holds of every run that survives. -/
theorem and (hp : Ends allowed P x) (hq : Ends (fun _ => True) Q x) :
    Ends allowed (fun a => P a ∧ Q a) x := by
  cases x with
  | ok a => exact ⟨hp, hq⟩
  | error e => exact hp

theorem bind {R : β → Prop} {f : α → Except ε β} (h : Ends allowed P x)
    (hf : ∀ a, P a → Ends allowed R (f a)) : Ends allowed R (x >>= f) := by
  cases x with
  | ok a => exact hf a h
  | error e => exact h

theorem map {R : β → Prop} {f : α → β} (h : Ends allowed P x) (hf : ∀ a, P a → R (f a)) :
    Ends allowed R (f <$> x) := by
  cases x with
  | ok a => exact hf a h
  | error e => exact h

theorem ite {c : Prop} [Decidable c] {y : Except ε α} (hx : c → Ends allowed P x)
    (hy : ¬ c → Ends allowed P y) : Ends allowed P (if c then x else y) := by
  by_cases hc : c
  · rw [if_pos hc]
    exact hx hc
  · rw [if_neg hc]
    exact hy hc

/-- The loop rule: an invariant of the loop over the elements still to come. -/
theorem foldlM {γ : Type} {f : α → γ → Except ε α} (Inv : List γ → α → Prop) {l : List γ}
    {a : α} (hfirst : Inv l a)
    (hturn : ∀ c rest a, Inv (c :: rest) a → Ends allowed (Inv rest) (f a c)) :
    Ends allowed (Inv []) (l.foldlM f a) := by
  induction l generalizing a with
  | nil => exact hfirst
  | cons c l ih =>
    rw [List.foldlM_cons]
    exact (hturn c l a hfirst).bind fun b hb => ih hb

theorem eq (h : Ends allowed P x) : Ends allowed (fun a => P a ∧ x = .ok a) x := by
  cases x with
  | ok a => exact ⟨h, rfl⟩
  | error e => exact h

theorem of_ok {a : α} (h : Ends allowed P x) (hx : x = .ok a) : P a := by
  rw [hx] at h
  exact h

theorem of_error {e : ε} (h : Ends allowed P x) (hx : x = .error e) : allowed e := by
  rw [hx] at h
  exact h

end Ends

end Icecream.Fault
