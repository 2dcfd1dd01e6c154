import Mathlib.Data.List.Basic
import Mathlib.Tactic.Linarith

/-!
# Network byte order

Thirty-two bit words as four bytes, most significant first.
-/

namespace Icecream.Word

def bytes (x : UInt32) : List UInt8 :=
  [UInt8.ofNat (x.toNat / 2 ^ 24), UInt8.ofNat (x.toNat / 2 ^ 16),
    UInt8.ofNat (x.toNat / 2 ^ 8), UInt8.ofNat x.toNat]

def value : List UInt8 → UInt32
  | a :: b :: c :: d :: _ =>
    UInt32.ofNat (a.toNat * 2 ^ 24 + b.toNat * 2 ^ 16 + c.toNat * 2 ^ 8 + d.toNat)
  | _ => 0

@[simp] theorem bytes_length (x : UInt32) : (bytes x).length = 4 := rfl

theorem value_bytes (x : UInt32) (r : List UInt8) : value (bytes x ++ r) = x := by
  apply UInt32.toNat_inj.mp
  have hx : x.toNat < 2 ^ 32 := x.toNat_lt
  simp only [bytes, value, List.cons_append, UInt8.toNat_ofNat', UInt32.toNat_ofNat']
  omega

theorem bytes_value {p : List UInt8} (hp : p.length = 4) : bytes (value p) = p := by
  match p, hp with
  | [a, b, c, d], _ =>
    have ha := a.toNat_lt
    have hb := b.toNat_lt
    have hc := c.toNat_lt
    have hd := d.toNat_lt
    simp only [bytes, value, List.cons.injEq, and_true]
    refine ⟨?_, ?_, ?_, ?_⟩ <;> apply UInt8.toNat_inj.mp <;>
      simp only [UInt8.toNat_ofNat', UInt32.toNat_ofNat'] <;> omega

theorem value_append {p : List UInt8} (hp : 4 ≤ p.length) (r : List UInt8) :
    value (p ++ r) = value p := by
  match p, hp with
  | _ :: _ :: _ :: _ :: _, _ => rfl

theorem ofNat_toNat_of_lt {n : ℕ} (hn : n < 2 ^ 32) : (UInt32.ofNat n).toNat = n :=
  UInt32.toNat_ofNat_of_lt' hn

end Icecream.Word
