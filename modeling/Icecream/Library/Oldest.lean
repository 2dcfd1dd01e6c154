import Mathlib.Data.Finset.Card

/-!
# Taking the oldest

Members carry marks. Whoever is taken has the least mark of all members, and gets a new one.
While new marks are above all others, nobody is taken again before everybody else has been;
a new mark that is below another member's brings the member back too early.
-/

namespace Icecream.Oldest

variable {α κ : Type*} [DecidableEq α]

/-- The marks once those in `history`, the last one first, have been taken and marked -/
def marks (first : α → κ) : List (α × κ) → α → κ
  | [] => first
  | t :: history => Function.update (marks first history) t.1 t.2

theorem marks_append (first : α → κ) (later history : List (α × κ)) :
    marks first (later ++ history) = marks (marks first history) later := by
  induction later with
  | nil => rfl
  | cons t later ih => rw [List.cons_append, marks, ih, marks]

/-- The marks seen through `f` -/
theorem marks_map {μ : Type*} (f : κ → μ) (first : α → κ) (history : List (α × κ)) :
    marks (fun x => f (first x)) (history.map fun t => (t.1, f t.2)) =
      fun x => f (marks first history x) := by
  induction history with
  | nil => rfl
  | cons t history ih =>
    funext x
    rw [List.map_cons, marks, ih, marks, Function.update_apply, Function.update_apply, apply_ite f]

variable [LinearOrder κ] {members : Finset α} {first mark : α → κ} {history : List (α × κ)}
  {taken : List α} {x y : α} {k : κ}

/-- Each in `history` had the least mark when it was taken. -/
inductive Takes (members : Finset α) (first : α → κ) : List (α × κ) → Prop
  | nil : Takes members first []
  | cons {x : α} {history : List (α × κ)} (k : κ) : x ∈ members →
    (∀ y ∈ members, marks first history x ≤ marks first history y) →
    Takes members first history → Takes members first ((x, k) :: history)

/-- Each new mark was above those of all members. -/
inductive Rising (members : Finset α) (first : α → κ) : List (α × κ) → Prop
  | nil : Rising members first []
  | cons {k : κ} {history : List (α × κ)} (x : α) :
    (∀ y ∈ members, marks first history y < k) →
    Rising members first history → Rising members first ((x, k) :: history)

/-- Those in `taken` have been taken once each, and later than the other members. -/
structure Lately (members : Finset α) (mark : α → κ) (taken : List α) : Prop where
  nodup : taken.Nodup
  later : ∀ x ∈ taken, ∀ y ∈ members, y ∉ taken → mark y < mark x

/-- As long as somebody is left, the oldest is one of those that are. -/
theorem Lately.notMem (h : Lately members mark taken) (hlength : taken.length < members.card)
    (hleast : ∀ y ∈ members, mark x ≤ mark y) : x ∉ taken := by
  intro hx
  have hcard := (List.toFinset_card_le taken).trans_lt hlength
  obtain ⟨y, hy, hleft⟩ := Finset.exists_mem_notMem_of_card_lt_card hcard
  exact absurd (h.later x hx y hy (by simpa using hleft)) (not_lt.mpr (hleast y hy))

theorem Lately.take (h : Lately members mark taken) (hx : x ∉ taken)
    (hk : ∀ y ∈ members, mark y < k) : Lately members (Function.update mark x k) (x :: taken) := by
  refine ⟨List.nodup_cons.mpr ⟨hx, h.nodup⟩, fun z hz y hy hleft => ?_⟩
  have hold := List.not_mem_of_not_mem_cons hleft
  rw [Function.update_of_ne (List.ne_of_not_mem_cons hleft)]
  rcases List.mem_cons.mp hz with rfl | hz
  · rw [Function.update_self]
    exact hk y hy
  · have hne : z ≠ x := fun heq => hx (heq ▸ hz)
    rw [Function.update_of_ne hne]
    exact h.later z hz y hy hold

theorem Takes.lately (h : Takes members first history) (hrising : Rising members first history)
    (hlength : history.length ≤ members.card) :
    Lately members (marks first history) (history.map Prod.fst) := by
  induction h with
  | nil => exact ⟨List.nodup_nil, fun x hx => absurd hx List.not_mem_nil⟩
  | cons k hx hleast _ ih =>
    cases hrising with
    | cons _ hk hrising =>
      rw [List.length_cons] at hlength
      have hlately := ih hrising (by omega)
      exact hlately.take (hlately.notMem (by rwa [List.length_map]) hleast) hk

/-- Nobody who was above the mark that `x` got is taken before `x` is taken again. -/
theorem Takes.passed (h : Takes members first (history ++ [(x, k)])) (hx : x ∈ members)
    (hne : y ≠ x) (hlt : k < first y) (hagain : x ∉ history.map Prod.fst) :
    y ∉ history.map Prod.fst ∧ marks first (history ++ [(x, k)]) x = k ∧
      marks first (history ++ [(x, k)]) y = first y := by
  induction history with
  | nil =>
    refine ⟨List.not_mem_nil, ?_, ?_⟩
    · exact Function.update_self x k first
    · exact Function.update_of_ne hne k first
  | cons t history ih =>
    have hxt : x ≠ t.1 := List.ne_of_not_mem_cons hagain
    cases h with
    | @cons z _ m _ hleast h =>
      obtain ⟨hy, hmarkx, hmarky⟩ := ih h (List.not_mem_of_not_mem_cons hagain)
      have hle := hleast x hx
      have hyt : y ≠ z := by
        intro heq
        change marks first (history ++ [(x, k)]) z ≤ marks first (history ++ [(x, k)]) x at hle
        rw [← heq, hmarkx, hmarky] at hle
        exact absurd hlt (not_lt.mpr hle)
      refine ⟨List.not_mem_cons_of_ne_of_not_mem hyt hy, ?_, ?_⟩
      · exact (Function.update_of_ne hxt _ _).trans hmarkx
      · exact (Function.update_of_ne hyt _ _).trans hmarky

theorem Takes.mem (h : Takes members first history) (hx : x ∈ history.map Prod.fst) :
    x ∈ members := by
  induction h with
  | nil => exact absurd hx List.not_mem_nil
  | cons k hz _ _ ih =>
    rcases List.mem_cons.mp hx with rfl | hx
    · exact hz
    · exact ih hx

theorem Takes.oldest (h : Takes members first (history ++ [(x, k)])) :
    x ∈ members ∧ ∀ y ∈ members, first x ≤ first y := by
  induction history with
  | nil =>
    cases h with
    | cons _ hx hleast _ => exact ⟨hx, hleast⟩
  | cons t history ih =>
    cases h with
    | cons _ _ _ h => exact ih h

/-- When the first one gets a mark below another member's, somebody is taken twice before
everybody has been taken. -/
theorem Takes.repeats (h : Takes members first (history ++ [(x, k)])) (hy : y ∈ members)
    (hlt : k < first y) (hcard : 1 < members.card) (hlength : members.card ≤ history.length + 1) :
    ¬ ((history ++ [(x, k)]).map Prod.fst).Nodup := by
  intro hnodup
  obtain ⟨hx, hleast⟩ := h.oldest
  obtain ⟨z, hz, hne, hzlt⟩ : ∃ z ∈ members, z ≠ x ∧ k < first z := by
    by_cases hyx : y = x
    · obtain ⟨z, hz, hne⟩ := Finset.exists_mem_ne hcard x
      exact ⟨z, hz, hne, (hyx ▸ hlt).trans_le (hleast z hz)⟩
    · exact ⟨y, hy, hyx, hlt⟩
  have hperm := (List.perm_append_singleton (x, k) history).map Prod.fst
  have hagain : x ∉ history.map Prod.fst := (List.nodup_cons.mp (hperm.nodup_iff.mp hnodup)).1
  obtain ⟨hpassed, -, -⟩ := h.passed hx hne hzlt hagain
  have hleft : z ∉ (history ++ [(x, k)]).map Prod.fst := by
    rw [hperm.mem_iff]
    exact List.not_mem_cons_of_ne_of_not_mem hne hpassed
  have hsubset : (((history ++ [(x, k)]).map Prod.fst).toFinset) ⊆ members.erase z := by
    intro a ha
    rw [List.mem_toFinset] at ha
    exact Finset.mem_erase.mpr ⟨fun heq => hleft (heq ▸ ha), h.mem ha⟩
  have hle := Finset.card_le_card hsubset
  rw [List.toFinset_card_of_nodup hnodup, Finset.card_erase_of_mem hz, List.length_map,
    List.length_append, List.length_singleton] at hle
  omega

end Icecream.Oldest
