import Mathlib.Algebra.BigOperators.Group.List.Basic
import Mathlib.Data.List.Nodup

/-!
# Records in a list, named by a key

A table kept as a list: a record is replaced or removed by its key. With distinct
keys a sum over the table changes by the record that changed.
-/

namespace Icecream.Records

variable {ρ κ : Type*} [DecidableEq κ] (key : ρ → κ)

def replace (c : ρ) (l : List ρ) : List ρ := l.map fun x => if key x = key c then c else x

def remove (k : κ) (l : List ρ) : List ρ := l.filter fun x => key x ≠ k

variable {key}

theorem mem_replace {c x : ρ} {l : List ρ} :
    x ∈ replace key c l ↔ (x = c ∧ key c ∈ l.map key) ∨ (x ∈ l ∧ key x ≠ key c) := by
  simp only [replace, List.mem_map]
  constructor
  · rintro ⟨y, hy, rfl⟩
    by_cases h : key y = key c
    · left
      exact ⟨if_pos h, y, hy, h⟩
    · right
      rw [if_neg h]
      exact ⟨hy, h⟩
  · rintro (⟨rfl, y, hy, hk⟩ | ⟨hx, hk⟩)
    · exact ⟨y, hy, by simp [hk]⟩
    · exact ⟨x, hx, by simp [hk]⟩

theorem mem_remove {k : κ} {x : ρ} {l : List ρ} : x ∈ remove key k l ↔ x ∈ l ∧ key x ≠ k := by
  simp [remove]

theorem map_key_replace {c : ρ} {l : List ρ} : (replace key c l).map key = l.map key := by
  induction l with
  | nil => rfl
  | cons x l ih =>
    simp only [replace, List.map_cons, List.map_map] at ih ⊢
    rw [ih]
    by_cases h : key x = key c
    · simp [h]
    · simp [h]

/-- A view that does not see the difference between the records -/
theorem map_replace {α : Type*} (g : ρ → α) {c : ρ} {l : List ρ}
    (h : ∀ x ∈ l, key x = key c → g c = g x) : (replace key c l).map g = l.map g := by
  simp only [replace, List.map_map]
  apply List.map_congr_left
  intro x hx
  by_cases hk : key x = key c
  · simp [hk, h x hx hk]
  · simp [hk]

/-- Looking up a key after a replacement -/
theorem find_replace {c : ρ} {k : κ} (l : List ρ) :
    (replace key c l).find? (fun d => key d = k) =
      (l.find? fun d => key d = k).map fun d => if key c = k then c else d := by
  induction l with
  | nil => rfl
  | cons d rest ih =>
    simp only [replace] at ih
    simp only [replace, List.map_cons, List.find?_cons, ih]
    by_cases hsame : key d = key c
    · by_cases hc : key c = k <;> simp [hsame, hc]
    · by_cases hd : key d = k
      · have hc : key c ≠ k := fun hc => hsame (hd.trans hc.symm)
        simp [hd, hc, hc.symm]
      · simp [hsame, hd]

/-- Looking up a key other than the one removed -/
theorem find_remove {k k' : κ} (l : List ρ) (h : k' ≠ k) :
    (remove key k l).find? (fun d => key d = k') = l.find? fun d => key d = k' := by
  rw [remove, List.find?_filter]
  congr 1
  funext d
  by_cases hd : key d = k'
  · simp [hd, h]
  · simp [hd]

theorem map_key_remove {k : κ} {l : List ρ} :
    (remove key k l).map key = (l.map key).filter fun x => x ≠ k := by
  rw [List.filter_map]
  rfl

theorem replace_replace {c c' : ρ} {l : List ρ} (hk : key c' = key c) :
    replace key c' (replace key c l) = replace key c' l := by
  simp only [replace, List.map_map]
  apply List.map_congr_left
  intro x _
  by_cases h : key x = key c
  · simp [h, hk]
  · simp [h]

theorem remove_replace {c : ρ} {l : List ρ} :
    remove key (key c) (replace key c l) = remove key (key c) l := by
  induction l with
  | nil => rfl
  | cons x l ih =>
    simp only [remove, replace, List.map_cons, List.filter_cons] at ih ⊢
    rw [ih]
    by_cases h : key x = key c
    · simp [h]
    · simp [h]

theorem replace_of_notMem {c : ρ} {l : List ρ} (h : key c ∉ l.map key) :
    replace key c l = l := by
  induction l with
  | nil => rfl
  | cons x l ih =>
    have hx : key x ≠ key c := fun hk => h (by simp [hk])
    have hl : key c ∉ l.map key := fun hm => h (by simp [List.mem_map.mp hm])
    have htail := ih hl
    simp only [replace, List.map_cons] at htail ⊢
    rw [htail, if_neg hx]

theorem remove_of_notMem {k : κ} {l : List ρ} (h : k ∉ l.map key) : remove key k l = l := by
  apply List.filter_eq_self.mpr
  intro x hx
  have hne : key x ≠ k := fun hk => h (List.mem_map.mpr ⟨x, hx, hk⟩)
  simpa using hne

theorem sum_replace {M : Type*} [AddCommMonoid M] (f : ρ → M) {c c' : ρ} {l : List ρ}
    (hnd : (l.map key).Nodup) (hc : c ∈ l) (hk : key c' = key c) :
    ((replace key c' l).map f).sum + f c = (l.map f).sum + f c' := by
  induction l with
  | nil => simp at hc
  | cons x l ih =>
    simp only [List.map_cons, List.nodup_cons] at hnd
    rcases List.mem_cons.mp hc with rfl | hmem
    · have hrest : replace key c' l = l := replace_of_notMem (by rw [hk]; exact hnd.1)
      have hhead : replace key c' (c :: l) = c' :: replace key c' l := by simp [replace, hk]
      rw [hhead, hrest]
      simp only [List.map_cons, List.sum_cons]
      rw [add_comm (f c') _, add_comm (f c) _, add_right_comm]
    · have hx : key x ≠ key c' := by
        intro h
        apply hnd.1
        rw [h, hk]
        exact List.mem_map_of_mem hmem
      have hhead : replace key c' (x :: l) = x :: replace key c' l := by simp [replace, hx]
      rw [hhead]
      simp only [List.map_cons, List.sum_cons]
      rw [add_assoc, ih hnd.2 hmem, add_assoc]

theorem sum_remove {M : Type*} [AddCommMonoid M] (f : ρ → M) {c : ρ} {l : List ρ}
    (hnd : (l.map key).Nodup) (hc : c ∈ l) :
    ((remove key (key c) l).map f).sum + f c = (l.map f).sum := by
  induction l with
  | nil => simp at hc
  | cons x l ih =>
    simp only [List.map_cons, List.nodup_cons] at hnd
    rcases List.mem_cons.mp hc with rfl | hmem
    · have hrest : remove key (key c) l = l := remove_of_notMem hnd.1
      have hhead : remove key (key c) (c :: l) = remove key (key c) l := by simp [remove]
      rw [hhead, hrest, List.map_cons, List.sum_cons, add_comm]
    · have hx : key x ≠ key c := by
        intro h
        apply hnd.1
        rw [h]
        exact List.mem_map_of_mem hmem
      have hhead : remove key (key c) (x :: l) = x :: remove key (key c) l := by simp [remove, hx]
      rw [hhead]
      simp only [List.map_cons, List.sum_cons]
      rw [add_assoc, ih hnd.2 hmem]

end Icecream.Records
