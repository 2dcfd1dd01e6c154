import Mathlib.Data.List.Nodup
import Mathlib.Data.List.Count

/-!
# Serving in rotation

A line whose first member is served and goes to the back, or leaves when there is nothing
more to serve it with. Whoever joins joins at the back. Between two servings of one member
everybody else who stays in the line is served exactly once.
-/

namespace Icecream.Rotation

variable {α σ ε : Type*}

/-- One change of the line, with the member that is served -/
inductive Step : List α → Option α → List α → Prop
  | wait (l : List α) : Step l none l
  | join {l : List α} {a : α} : a ∉ l → Step l none (l ++ [a])
  | again (a : α) (l : List α) : Step (a :: l) (some a) (l ++ [a])
  | leave (a : α) (l : List α) : Step (a :: l) (some a) l

def Ahead (a b : α) (l : List α) : Prop := [a, b].Sublist l

variable {a b : α} {l l' : List α} {who : Option α}

theorem Step.head (h : Step l (some a) l') : l.head? = some a := by
  cases h <;> rfl

theorem Step.nodup (h : Step l who l') (hl : l.Nodup) : l'.Nodup := by
  cases h with
  | wait => exact hl
  | @join _ c hc =>
    rw [(List.perm_append_singleton c l).nodup_iff]
    exact List.nodup_cons.mpr ⟨hc, hl⟩
  | again c r => exact (List.perm_append_singleton c r).nodup_iff.mpr hl
  | leave c r => exact (List.nodup_cons.mp hl).2

theorem ahead_cons {c : α} (h : Ahead a b (c :: l)) (hne : c ≠ a) : Ahead a b l := by
  cases h with
  | cons _ h => exact h
  | cons_cons => exact absurd rfl hne

theorem Ahead.ne (h : Ahead a b l) (hl : l.Nodup) : a ≠ b := by
  have hpair := hl.sublist h
  simpa using hpair

/-- Nobody joins while somebody is served. -/
theorem Step.subset (h : Step l (some a) l') : l' ⊆ l := by
  cases h with
  | again _ r => exact (List.perm_append_singleton a r).subset
  | leave _ r => exact List.subset_cons_self a l'

/-- Nobody overtakes without being served. -/
theorem Step.keeps (h : Step l who l') (hahead : Ahead a b l) (hwho : who ≠ some a) :
    Ahead a b l' := by
  cases h with
  | wait => exact hahead
  | join => exact hahead.trans (List.sublist_append_left _ _)
  | again c r =>
    have hrest := ahead_cons hahead fun hc => hwho (congrArg some hc)
    exact hrest.trans (List.sublist_append_left _ _)
  | leave c r => exact ahead_cons hahead fun hc => hwho (congrArg some hc)

/-- Who is served and stays is behind everybody else. -/
theorem Step.passes (h : Step l (some a) l') (hl : l.Nodup) (hb : b ∈ l) (hne : b ≠ a)
    (ha : a ∈ l') : Ahead b a l' := by
  cases h with
  | again =>
    have hrest := (List.mem_cons.mp hb).resolve_left hne
    exact (List.singleton_sublist.mpr hrest).append (List.Sublist.refl [a])
  | leave => exact absurd ha (List.nodup_cons.mp hl).1

theorem Ahead.head (h : Ahead a b l) (hl : l.Nodup) : l.head? ≠ some b := by
  intro hhead
  cases l with
  | nil => cases hhead
  | cons c r =>
    cases hhead
    have hrest := ahead_cons h (h.ne hl).symm
    exact (List.nodup_cons.mp hl).1 (hrest.subset (by simp))

theorem Ahead.mem (h : Ahead a b l) : a ∈ l ∧ b ∈ l := ⟨h.subset (by simp), h.subset (by simp)⟩

/-! ## Machines with such a line -/

section Machines

variable (next : σ → ε → σ) (serves : σ → ε → Option α)

/-- Who is served in a run -/
def served : σ → List ε → List α
  | _, [] => []
  | s, e :: es => (serves s e).toList ++ served (next s e) es

variable {next serves} {line : σ → List α}

/-- Who is served last of two that stay in the line, when `a` comes next: with `b` ahead
of `a` it is `b`'s turn once before, and with `a` ahead not at all. -/
theorem count_served [BEq α] [LawfulBEq α] {Inv : σ → Prop}
    (hstep : ∀ s e, Inv s → Inv (next s e) ∧ Step (line s) (serves s e) (line (next s e)))
    {s : σ} {es : List ε} (hs : Inv s) (hl : (line s).Nodup)
    (hstay : ∀ pre, pre <+: es → a ∈ line (pre.foldl next s) ∧ b ∈ line (pre.foldl next s))
    (hne : b ≠ a) (hno : a ∉ served next serves s es)
    (hlast : (line (es.foldl next s)).head? = some a) :
    (Ahead b a (line s) → (served next serves s es).count b = 1) ∧
      (Ahead a b (line s) → (served next serves s es).count b = 0) := by
  induction es generalizing s with
  | nil => exact ⟨fun h => absurd hlast (h.head hl), fun _ => rfl⟩
  | cons e es ih =>
    obtain ⟨hinv, hturn⟩ := hstep s e hs
    have hstays := hstay [e] (by simp)
    rw [served, List.mem_append, not_or] at hno
    obtain ⟨hfirst, hrest⟩ := hno
    obtain ⟨hbehind, hahead⟩ := ih hinv (hturn.nodup hl)
      (fun pre hpre => hstay (e :: pre) ((List.prefix_cons_inj e).mpr hpre)) hrest hlast
    have hnota : serves s e ≠ some a := fun heq => hfirst (by simp [heq])
    rw [served, List.count_append]
    constructor
    · intro hba
      by_cases hb : serves s e = some b
      · rw [hb] at hturn ⊢
        have hpass := hturn.passes hl hba.mem.2 hne.symm hstays.2
        simp [hahead hpass]
      · have hkeep := hturn.keeps hba hb
        have hzero : (serves s e).toList.count b = 0 := List.count_eq_zero.mpr (by simpa using hb)
        rw [hzero, hbehind hkeep]
    · intro hab
      have hb : serves s e ≠ some b := by
        intro hb
        rw [hb] at hturn
        exact hab.head hl hturn.head
      have hzero : (serves s e).toList.count b = 0 := List.count_eq_zero.mpr (by simpa using hb)
      rw [hzero, hahead (hturn.keeps hab hnota)]

end Machines

end Icecream.Rotation
