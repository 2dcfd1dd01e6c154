import Mathlib.Data.List.Basic

/-!
# Terminated pieces

The pieces of a sequence that end at a separator, the empty ones left out. What is behind the
last separator is not a piece yet.
-/

namespace Icecream.Pieces

universe u
variable {α : Type u} {sep : α → Bool}

/-- A piece, unless it is empty -/
def nonempty (w : List α) : List (List α) := if w.isEmpty then [] else [w]

def pieces (sep : α → Bool) (s : List α) : List (List α) :=
  (s.splitOnP sep).dropLast.flatMap nonempty

theorem pieces_none {s : List α} (h : ∀ x ∈ s, sep x = false) : pieces sep s = [] := by
  rw [pieces, List.splitOnP_eq_singleton h]
  rfl

theorem pieces_first {w : List α} (hw : ∀ x ∈ w, sep x = false) {c : α} (hc : sep c = true)
    (s : List α) : pieces sep (w ++ c :: s) = nonempty w ++ pieces sep s := by
  rw [pieces, List.splitOnP_append_cons_of_forall_mem hw c hc,
    List.dropLast_cons_of_ne_nil (List.splitOnP_ne_nil _ _), List.flatMap_cons]
  rfl

/-- The first separator and what is on either side of it -/
theorem findIdx?_split {s : List α} {i : ℕ} (h : s.findIdx? sep = some i) :
    ∃ w c t, s = w ++ c :: t ∧ (∀ x ∈ w, sep x = false) ∧ sep c = true ∧ w.length = i := by
  obtain ⟨hi, hc, hbefore⟩ := List.findIdx?_eq_some_iff_getElem.mp h
  refine ⟨s.take i, s[i], s.drop (i + 1), ?_, fun x hx => ?_, hc, ?_⟩
  · rw [List.getElem_cons_drop, List.take_append_drop]
  · obtain ⟨j, hj, rfl⟩ := List.mem_iff_getElem.mp hx
    rw [List.length_take] at hj
    rw [List.getElem_take]
    simpa using hbefore j (by omega)
  · rw [List.length_take]
    omega

/-- A run of separators ends one piece. -/
theorem pieces_separators {s : List α} (hs : ∀ x ∈ s, sep x = true) (t : List α) :
    pieces sep (s ++ t) = pieces sep t := by
  induction s with
  | nil => rfl
  | cons c s ih =>
    have hc := hs c List.mem_cons_self
    have hfirst := pieces_first (w := []) (fun _ hx => nomatch hx) hc (s ++ t)
    exact hfirst.trans (ih fun x hx => hs x (List.mem_cons_of_mem _ hx))

theorem pieces_taken {w cs : List α} (hw : ∀ x ∈ w, sep x = false) (hne : cs ≠ [])
    (hcs : ∀ x ∈ cs, sep x = true) (t : List α) :
    pieces sep (w ++ (cs ++ t)) = nonempty w ++ pieces sep t := by
  cases cs with
  | nil => exact absurd rfl hne
  | cons c cs =>
    rw [List.cons_append, pieces_first hw (hcs c List.mem_cons_self),
      pieces_separators fun x hx => hcs x (List.mem_cons_of_mem _ hx)]

/-- What follows does not change the pieces there are. -/
theorem pieces_prefix (s t : List α) : pieces sep s <+: pieces sep (s ++ t) := by
  have hpast : ∀ s w : List α, (∀ x ∈ w, sep x = false) →
      pieces sep (w ++ s) <+: pieces sep (w ++ (s ++ t)) := by
    intro s
    induction s with
    | nil =>
      intro w hw
      rw [List.append_nil, pieces_none hw]
      exact List.nil_prefix
    | cons x s ih =>
      intro w hw
      cases hx : sep x with
      | true =>
        rw [List.cons_append, pieces_first hw hx, pieces_first hw hx]
        have hrest := ih [] fun _ hx => nomatch hx
        exact (List.prefix_append_right_inj _).mpr hrest
      | false =>
        have hlonger := ih (w ++ [x]) fun y hy => by
          rcases List.mem_append.mp hy with hy | hy
          · exact hw y hy
          · exact List.mem_singleton.mp hy ▸ hx
        simpa only [List.append_assoc, List.cons_append, List.nil_append] using hlonger
  exact hpast s [] fun _ hx => nomatch hx

/-- No piece is empty. -/
theorem nil_notMem_pieces (s : List α) : [] ∉ pieces sep s := by
  intro hmem
  obtain ⟨w, -, hw⟩ := List.mem_flatMap.mp hmem
  rw [nonempty] at hw
  split at hw
  · cases hw
  · next hne =>
    rw [← List.mem_singleton.mp hw] at hne
    exact hne rfl

theorem flatMap_nonempty {ws : List (List α)} (h : [] ∉ ws) : ws.flatMap nonempty = ws := by
  induction ws with
  | nil => rfl
  | cons w ws ih =>
    rw [List.mem_cons, not_or] at h
    have hw : w.isEmpty = false := by
      rw [List.isEmpty_eq_false_iff]
      exact Ne.symm h.1
    rw [List.flatMap_cons, ih h.2, nonempty, hw]
    rfl

end Icecream.Pieces
