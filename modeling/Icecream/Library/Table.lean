import Mathlib.Algebra.BigOperators.Group.List.Basic
import Mathlib.Data.List.AList

/-!
# Weighed tables

A table of entries by key, each with a weight. A key that is not in the table weighs
nothing, so that one equation says how the total changes.
-/

namespace Icecream.Table

variable {κ V M : Type*} [DecidableEq κ] [AddCommMonoid M] (w : V → M)

def weight (m : AList (fun _ : κ => V)) (k : κ) : M := ((m.lookup k).map w).getD 0

def total (m : AList (fun _ : κ => V)) : M := (m.entries.map fun e => w e.2).sum

variable {w}

theorem weight_of_lookup {m : AList (fun _ : κ => V)} {k : κ} {v : V} (h : m.lookup k = some v) :
    weight w m k = w v := by
  simp [weight, h]

theorem sum_kerase (k : κ) (l : List (Sigma fun _ : κ => V)) :
    ((List.kerase k l).map fun e => w e.2).sum + ((List.dlookup k l).map w).getD 0 =
      (l.map fun e => w e.2).sum := by
  induction l with
  | nil => simp
  | cons e l ih =>
    by_cases hk : k = e.1
    · subst hk
      rw [List.kerase_cons_eq rfl, List.dlookup_cons_eq, List.map_cons, List.sum_cons]
      exact add_comm _ _
    · rw [List.kerase_cons_ne hk, List.dlookup_cons_ne _ _ hk, List.map_cons, List.map_cons,
        List.sum_cons, List.sum_cons, add_assoc, ih]

theorem total_erase (m : AList (fun _ : κ => V)) (k : κ) :
    total w (m.erase k) + weight w m k = total w m :=
  sum_kerase k m.entries

theorem total_insert (m : AList (fun _ : κ => V)) (k : κ) (v : V) :
    total w (m.insert k v) + weight w m k = total w m + w v := by
  have hinsert : total w (m.insert k v) = w v + total w (m.erase k) := by
    simp only [total, AList.entries_insert, List.map_cons, List.sum_cons]
    rfl
  rw [hinsert, add_assoc, total_erase, add_comm]

/-- An entry of the same weight takes the place of what was there. -/
theorem total_insert_same [IsCancelAdd M] (m : AList (fun _ : κ => V)) (k : κ) (v : V)
    (h : weight w m k = w v) : total w (m.insert k v) = total w m := by
  have hinsert := total_insert (w := w) m k v
  rw [h] at hinsert
  exact add_right_cancel hinsert

end Icecream.Table
