import Mathlib.Data.List.MinMax
import Mathlib.Data.List.Perm.Lattice

/-!
# A scan that keeps one candidate

The members of a collection come in some order, and each replaces the candidate so far
when it beats it. Every order gives the same winner just when one member beats all others.
A scan for the least value of a function keeps the first member that has it.
-/

namespace Icecream.Selection

variable {α : Type*} (beats : α → α → Prop) [DecidableRel beats]

def keep (best : Option α) (x : α) : Option α :=
  match best with
  | none => some x
  | some b => if beats x b then some x else some b

def winner (l : List α) : Option α := l.foldl (keep beats) none

variable {l : List α} {b m : α}

theorem foldl_mem (l : List α) (b : α) :
    ∃ w, l.foldl (keep beats) (some b) = some w ∧ (w = b ∨ w ∈ l) := by
  induction l generalizing b with
  | nil => exact ⟨b, rfl, .inl rfl⟩
  | cons x l ih =>
    by_cases hx : beats x b
    · obtain ⟨w, hw, hmem⟩ := ih x
      have hturn : keep beats (some b) x = some x := if_pos hx
      refine ⟨w, ?_, .inr ?_⟩
      · rw [List.foldl_cons, hturn, hw]
      · exact List.mem_cons.mpr hmem
    · obtain ⟨w, hw, hmem⟩ := ih b
      have hturn : keep beats (some b) x = some b := if_neg hx
      refine ⟨w, ?_, hmem.imp_right (List.mem_cons_of_mem x)⟩
      rw [List.foldl_cons, hturn, hw]

variable {beats}

theorem mem_of_winner (h : winner beats l = some m) : m ∈ l := by
  cases l with
  | nil => cases h
  | cons x l =>
    obtain ⟨w, hw, hmem⟩ := foldl_mem beats l x
    have hwm : some w = some m := hw.symm.trans h
    cases hwm
    exact List.mem_cons.mpr hmem

/-- Nobody who comes later replaces an unbeaten candidate. -/
theorem foldl_unbeaten (h : ∀ x ∈ l, ¬ beats x b) :
    l.foldl (keep beats) (some b) = some b := by
  induction l with
  | nil => rfl
  | cons x l ih =>
    have hturn : keep beats (some b) x = some b := if_neg (h x List.mem_cons_self)
    rw [List.foldl_cons, hturn]
    exact ih fun y hy => h y (List.mem_cons_of_mem x hy)

/-- When every member that beats another is fit, what is kept is fit as soon as the first candidate
is, or one that beats it has come. -/
theorem foldl_fit {fit : α → Prop} (hfit : ∀ x b, beats x b → fit x) {w : α}
    (h : l.foldl (keep beats) (some b) = some w) : fit w ↔ fit b ∨ ∃ x ∈ l, beats x b := by
  induction l generalizing b with
  | nil =>
    cases h
    simp
  | cons x l ih =>
    by_cases hx : beats x b
    · have hturn : keep beats (some b) x = some x := if_pos hx
      rw [List.foldl_cons, hturn] at h
      have hw : fit w := (ih h).mpr (.inl (hfit x b hx))
      exact iff_of_true hw (.inr ⟨x, List.mem_cons_self, hx⟩)
    · have hturn : keep beats (some b) x = some b := if_neg hx
      rw [List.foldl_cons, hturn] at h
      simp [ih h, hx]

theorem winner_fit_iff {fit : α → Prop} (hfit : ∀ x b, beats x b → fit x) {w : α}
    (h : winner beats (b :: l) = some w) : fit w ↔ fit b ∨ ∃ x ∈ l, beats x b := foldl_fit hfit h

theorem winner_isSome (hl : l ≠ []) : ∃ w, winner beats l = some w := by
  obtain ⟨x, l, rfl⟩ := List.exists_cons_of_ne_nil hl
  obtain ⟨w, hw, -⟩ := foldl_mem beats l x
  exact ⟨w, hw⟩

section Asymmetric

variable (hasymm : ∀ x y, beats x y → ¬ beats y x)

include hasymm

theorem winner_of_beats (hm : m ∈ l) (hall : ∀ x ∈ l, x ≠ m → beats m x) :
    winner beats l = some m := by
  obtain ⟨before, after, rfl⟩ := List.append_of_mem hm
  have hafter : ∀ x ∈ after, ¬ beats x m := by
    intro x hx hxm
    have hne : x ≠ m := by
      rintro rfl
      exact hasymm x x hxm hxm
    exact hasymm x m hxm (hall x (by simp [hx]) hne)
  have hturn : keep beats (winner beats before) m = some m := by
    cases hb : winner beats before with
    | none => rfl
    | some b =>
      by_cases hbm : b = m
      · subst hbm
        exact ite_self _
      · have hmem : b ∈ before ++ m :: after := List.mem_append_left _ (mem_of_winner hb)
        exact if_pos (hall b hmem hbm)
  have hsplit : winner beats (before ++ m :: after) =
      after.foldl (keep beats) (keep beats (winner beats before) m) := by
    rw [winner, List.foldl_append, List.foldl_cons]
    rfl
  rw [hsplit, hturn, foldl_unbeaten hafter]

omit hasymm in
/-- In the order in which `c` comes before `m`, a candidate that does not beat `c` is lost. -/
theorem winner_ne {c : α} {rest : List α} (hmc : ¬ beats m c) (hne : m ≠ c) (hm : m ∉ rest) :
    winner beats (c :: m :: rest) ≠ some m := by
  have hturn : keep beats (some c) m = some c := if_neg hmc
  obtain ⟨w, hw, hmem⟩ := foldl_mem beats rest c
  have hscan : winner beats (c :: m :: rest) = some w := by
    change rest.foldl (keep beats) (keep beats (some c) m) = some w
    rw [hturn, hw]
  rw [hscan]
  rintro ⟨⟩
  exact hmem.elim hne hm

theorem winner_perm_iff (hnd : l.Nodup) :
    (∀ l' : List α, l'.Perm l → winner beats l' = some m) ↔
      m ∈ l ∧ ∀ x ∈ l, x ≠ m → beats m x := by
  constructor
  · intro h
    have hm : m ∈ l := mem_of_winner (h l (.refl l))
    refine ⟨hm, fun x hx hne => ?_⟩
    by_contra hmx
    -- `x` first and `m` next
    classical
    obtain ⟨rest, hrest⟩ : ∃ rest, (x :: m :: rest).Perm l := by
      have hm' : m ∈ l.erase x := (List.mem_erase_of_ne hne.symm).mpr hm
      have hpair := (List.perm_cons_erase hm').cons x
      exact ⟨_, hpair.symm.trans (List.perm_cons_erase hx).symm⟩
    have hfresh : m ∉ rest := by
      have hsub := hrest.nodup_iff.mpr hnd
      simp only [List.nodup_cons] at hsub
      exact hsub.2.1
    exact winner_ne hmx hne.symm hfresh (h _ hrest)
  · rintro ⟨hm, hall⟩ l' hl'
    exact winner_of_beats hasymm (hl'.mem_iff.mpr hm)
      fun x hx hne => hall x (hl'.subset hx) hne

end Asymmetric

/-! ## The first of the least -/

section First
variable {β : Type*} [LinearOrder β] {f : α → β}

/-- The first of those where `f` is least -/
theorem argmin_iff : l.argmin f = some m ↔ ∃ before after, l = before ++ m :: after ∧
    (∀ x ∈ before, f m < f x) ∧ ∀ x ∈ after, f m ≤ f x := by
  constructor
  · intro h
    induction l using List.reverseRecOn generalizing m with
    | nil => cases h
    | append_singleton l x ih =>
      rw [List.argmin_concat] at h
      cases hbest : l.argmin f with
      | none =>
        rw [hbest] at h
        obtain rfl := Option.some.inj h
        rw [List.argmin_eq_none.mp hbest]
        exact ⟨[], [], rfl, nofun, nofun⟩
      | some b =>
        rw [hbest] at h
        dsimp only at h
        split at h
        · next hless =>
          obtain rfl := Option.some.inj h
          refine ⟨l, [], rfl, fun y hy => ?_, nofun⟩
          exact hless.trans_le (List.le_of_mem_argmin hy hbest)
        · next hless =>
          obtain rfl := Option.some.inj h
          obtain ⟨before, after, rfl, hbefore, hafter⟩ := ih hbest
          refine ⟨before, after ++ [x], by simp, hbefore, fun y hy => ?_⟩
          rcases List.mem_append.mp hy with hy | hy
          · exact hafter y hy
          · rw [List.mem_singleton.mp hy]
            exact not_lt.mp hless
  · rintro ⟨before, after, rfl, hbefore, hafter⟩
    induction after using List.reverseRecOn with
    | nil =>
      rw [List.argmin_concat]
      cases hbest : before.argmin f with
      | none => rfl
      | some b => exact if_pos (hbefore b (List.argmin_mem hbest))
    | append_singleton after x ih =>
      have hrest := ih fun y hy => hafter y (List.mem_append_left _ hy)
      have hlast : ¬ f x < f m := not_lt.mpr (hafter x (by simp))
      rw [← List.cons_append, ← List.append_assoc, List.argmin_concat, hrest]
      exact if_neg hlast

theorem argmin_filter_iff {p : α → Bool} : (l.filter p).argmin f = some m ↔
    ∃ before after, l = before ++ m :: after ∧ p m = true ∧
      (∀ x ∈ before, p x = true → f m < f x) ∧ ∀ x ∈ after, p x = true → f m ≤ f x := by
  constructor
  · intro h
    obtain ⟨before, after, hsplit, hbefore, hafter⟩ := argmin_iff.mp h
    obtain ⟨front, rest, rfl, rfl, hrest⟩ := List.filter_eq_append_iff.mp hsplit
    obtain ⟨skipped, back, rfl, hskipped, hm, rfl⟩ := List.filter_eq_cons_iff.mp hrest
    refine ⟨front ++ skipped, back, by simp, hm, fun x hx hpx => ?_, fun x hx hpx => ?_⟩
    · rcases List.mem_append.mp hx with hx | hx
      · exact hbefore x (List.mem_filter.mpr ⟨hx, hpx⟩)
      · exact absurd hpx (hskipped x hx)
    · exact hafter x (List.mem_filter.mpr ⟨hx, hpx⟩)
  · rintro ⟨before, after, rfl, hm, hbefore, hafter⟩
    refine argmin_iff.mpr ⟨before.filter p, after.filter p, ?_, fun x hx => ?_, fun x hx => ?_⟩
    · rw [List.filter_append, List.filter_cons_of_pos hm]
    · exact hbefore x (List.mem_filter.mp hx).1 (List.mem_filter.mp hx).2
    · exact hafter x (List.mem_filter.mp hx).1 (List.mem_filter.mp hx).2

end First

section Sentinel

variable {β : Type*} [LinearOrder β] [Zero β] (p : α → Prop) [DecidablePred p] (f : α → β)

/-- The least value so far; one below zero stands for none. -/
def lower (least : β) (x : α) : β := if p x ∧ (least < 0 ∨ f x < least) then f x else least

variable {p f}

/-- A minimum that begins with `least` -/
inductive Lowers (p : α → Prop) (f : α → β) (l : List α) (least : β) : β → Prop
  | keep : (∀ x ∈ l, p x → 0 ≤ least ∧ least ≤ f x) → Lowers p f l least least
  | take {x : α} : x ∈ l → p x → (0 ≤ least → f x ≤ least) → (∀ y ∈ l, p y → f x ≤ f y) →
      Lowers p f l least (f x)

theorem foldl_lower (least : β) (hf : ∀ x ∈ l, p x → 0 ≤ f x) :
    Lowers p f l least (l.foldl (lower p f) least) := by
  induction l generalizing least with
  | nil => exact .keep nofun
  | cons x l ih =>
    have hrest : ∀ y ∈ l, p y → 0 ≤ f y := fun y hy => hf y (List.mem_cons_of_mem x hy)
    rw [List.foldl_cons, lower]
    split
    · next hx =>
      have hzero : 0 ≤ f x := hf x List.mem_cons_self hx.1
      have hbelow : 0 ≤ least → f x ≤ least := fun hleast =>
        (hx.2.resolve_left (not_lt.mpr hleast)).le
      have hend := ih (f x) hrest
      generalize l.foldl (lower p f) (f x) = r at hend
      cases hend with
      | keep hall =>
        refine .take List.mem_cons_self hx.1 hbelow fun y hy hpy => ?_
        rcases List.mem_cons.mp hy with rfl | hy
        · exact le_rfl
        · exact (hall y hy hpy).2
      | @take z hz hpz hle hall =>
        refine .take (List.mem_cons_of_mem x hz) hpz (fun h => (hle hzero).trans (hbelow h)) ?_
        intro y hy hpy
        rcases List.mem_cons.mp hy with rfl | hy
        · exact hle hzero
        · exact hall y hy hpy
    · next hx =>
      have hlow : p x → 0 ≤ least ∧ least ≤ f x := fun hpx => by
        rw [not_and, not_or, not_lt, not_lt] at hx
        exact hx hpx
      have hend := ih least hrest
      generalize l.foldl (lower p f) least = r at hend
      cases hend with
      | keep hall =>
        refine .keep fun y hy hpy => ?_
        rcases List.mem_cons.mp hy with rfl | hy
        · exact hlow hpy
        · exact hall y hy hpy
      | @take z hz hpz hle hall =>
        refine .take (List.mem_cons_of_mem x hz) hpz hle fun y hy hpy => ?_
        rcases List.mem_cons.mp hy with rfl | hy
        · exact (hle (hlow hpy).1).trans (hlow hpy).2
        · exact hall y hy hpy

end Sentinel
end Icecream.Selection
