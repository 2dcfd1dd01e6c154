import Mathlib.Algebra.Order.Ring.Int

/-!
# The least recently used entry

A table is scanned for the entry that was used longest ago among those that are due. One
that is gone already ends the scan.
-/

namespace Icecream.Recency

variable {ε : Type*} (gone due : ε → Prop) [DecidablePred gone] [DecidablePred due] (time : ε → ℤ)

/-- The best so far, with the time to beat -/
def oldest (best : Option ε × ℤ) : List ε → Option ε × ℤ
  | [] => best
  | e :: rest =>
    if gone e then (some e, 0)
    else if time e < best.2 ∧ due e then oldest (some e, time e) rest
    else oldest best rest

/-- What a scan of `l` with the time `bound` to beat ends with -/
inductive Picks (l : List ε) (bound : ℤ) : Option ε × ℤ → Prop
  | gone {e : ε} : e ∈ l → gone e → Picks l bound (some e, 0)
  | due {e : ε} : (∀ x ∈ l, ¬ gone x) → e ∈ l → due e → time e < bound →
      (∀ x ∈ l, due x → time e ≤ time x) → Picks l bound (some e, time e)
  | nothing : (∀ x ∈ l, ¬ gone x) → (∀ x ∈ l, due x → bound ≤ time x) → Picks l bound (none, bound)

theorem oldest_cases (best : Option ε × ℤ) (l : List ε) :
    (∃ e ∈ l, gone e ∧ oldest gone due time best l = (some e, 0)) ∨
      (∀ x ∈ l, ¬ gone x) ∧
        ((oldest gone due time best l = best ∧ ∀ x ∈ l, due x → best.2 ≤ time x) ∨
          ∃ e ∈ l, due e ∧ time e < best.2 ∧ (∀ x ∈ l, due x → time e ≤ time x) ∧
            oldest gone due time best l = (some e, time e)) := by
  induction l generalizing best with
  | nil => exact .inr ⟨by simp, .inl ⟨rfl, by simp⟩⟩
  | cons e l ih =>
    by_cases hgone : gone e
    · exact .inl ⟨e, List.mem_cons_self, hgone, by rw [oldest, if_pos hgone]⟩
    by_cases hold : time e < best.2 ∧ due e
    · have hturn : oldest gone due time best (e :: l) =
          oldest gone due time (some e, time e) l := by
        rw [oldest, if_neg hgone, if_pos hold]
      rw [hturn]
      rcases ih (some e, time e) with ⟨x, hx, hxgone, heq⟩ | ⟨hnone, hrest⟩
      · exact .inl ⟨x, List.mem_cons_of_mem e hx, hxgone, heq⟩
      refine .inr ⟨List.forall_mem_cons.mpr ⟨hgone, hnone⟩, .inr ?_⟩
      rcases hrest with ⟨heq, hleast⟩ | ⟨x, hx, hdue, hlt, hleast, heq⟩
      · exact ⟨e, List.mem_cons_self, hold.2, hold.1,
          List.forall_mem_cons.mpr ⟨fun _ => le_rfl, hleast⟩, heq⟩
      · exact ⟨x, List.mem_cons_of_mem e hx, hdue, hlt.trans hold.1,
          List.forall_mem_cons.mpr ⟨fun _ => hlt.le, hleast⟩, heq⟩
    · have hturn : oldest gone due time best (e :: l) = oldest gone due time best l := by
        rw [oldest, if_neg hgone, if_neg hold]
      have hlate : due e → best.2 ≤ time e := fun hdue => not_lt.mp fun hlt => hold ⟨hlt, hdue⟩
      rw [hturn]
      rcases ih best with ⟨x, hx, hxgone, heq⟩ | ⟨hnone, hrest⟩
      · exact .inl ⟨x, List.mem_cons_of_mem e hx, hxgone, heq⟩
      refine .inr ⟨List.forall_mem_cons.mpr ⟨hgone, hnone⟩, ?_⟩
      rcases hrest with ⟨heq, hleast⟩ | ⟨x, hx, hdue, hlt, hleast, heq⟩
      · exact .inl ⟨heq, List.forall_mem_cons.mpr ⟨hlate, hleast⟩⟩
      · refine .inr ⟨x, List.mem_cons_of_mem e hx, hdue, hlt, ?_, heq⟩
        exact List.forall_mem_cons.mpr ⟨fun hdue => hlt.le.trans (hlate hdue), hleast⟩

theorem oldest_picks (bound : ℤ) (l : List ε) :
    Picks gone due time l bound (oldest gone due time (none, bound) l) := by
  rcases oldest_cases gone due time (none, bound) l with ⟨e, he, hgone, heq⟩ | ⟨hnone, hrest⟩
  · rw [heq]
    exact .gone he hgone
  rcases hrest with ⟨heq, hleast⟩ | ⟨e, he, hdue, hlt, hleast, heq⟩
  · rw [heq]
    exact .nothing hnone hleast
  · rw [heq]
    exact .due hnone he hdue hlt hleast

variable {gone due time}

theorem Picks.mem {l : List ε} {bound : ℤ} {r : Option ε × ℤ} (h : Picks gone due time l bound r)
    {e : ε} (he : r.1 = some e) : e ∈ l := by
  cases h with
  | gone hmem _ =>
    cases he
    exact hmem
  | due _ hmem _ _ _ =>
    cases he
    exact hmem
  | nothing _ _ => cases he

end Icecream.Recency
