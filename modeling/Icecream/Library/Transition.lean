import Mathlib.Order.Basic

/-!
# Guarded transition systems

A system is a partial step function: `next s e = none` says that event `e` cannot
be taken in `s`, or that the program does not survive it. Runs are restricted by a
guard on the state before a step and on its event, so that one invariant rule
serves both unrestricted reachability and runs whose steps all meet a condition.
-/

namespace Icecream.Transition

variable {σ ε : Type*}

structure System (σ ε : Type*) where
  init : σ → Prop
  next : σ → ε → Option σ

namespace System

/-- States reached by runs every step of which meets the guard `ok`. -/
inductive Reaches (S : System σ ε) (ok : σ → ε → Prop) : σ → Prop where
  | init {s : σ} : S.init s → Reaches S ok s
  | step {s t : σ} (e : ε) : Reaches S ok s → ok s e → S.next s e = some t → Reaches S ok t

abbrev Reachable (S : System σ ε) : σ → Prop := S.Reaches (fun _ _ => True)

theorem Reaches.mono {S : System σ ε} {ok ok' : σ → ε → Prop} {s : σ}
    (himp : ∀ s e, ok s e → ok' s e) (h : S.Reaches ok s) : S.Reaches ok' s := by
  induction h with
  | init hs => exact .init hs
  | step e _ he hn ih => exact .step e ih (himp _ _ he) hn

/-- The run rule: what holds initially and is preserved by every guarded step
holds of every state reached. -/
theorem Reaches.invariant {S : System σ ε} {ok : σ → ε → Prop} {Inv : σ → Prop} {s : σ}
    (h : S.Reaches ok s) (hinit : ∀ s, S.init s → Inv s)
    (hstep : ∀ s e t, Inv s → ok s e → S.next s e = some t → Inv t) : Inv s := by
  induction h with
  | init hs => exact hinit _ hs
  | step e _ he hn ih => exact hstep _ e _ ih he hn

/-- The state after a list of events, when all of them can be taken. -/
def exec (S : System σ ε) : σ → List ε → Option σ
  | s, [] => some s
  | s, e :: es => (S.next s e).bind fun t => S.exec t es

theorem Reaches.exec {S : System σ ε} {ok : σ → ε → Prop} {s t : σ} (hs : S.Reaches ok s)
    {es : List ε} (hok : ∀ e ∈ es, ∀ u, ok u e) (h : S.exec s es = some t) :
    S.Reaches ok t := by
  induction es generalizing s with
  | nil =>
    simp only [System.exec, Option.some.injEq] at h
    exact h ▸ hs
  | cons e es ih =>
    simp only [System.exec] at h
    obtain ⟨u, hu, ht⟩ := Option.bind_eq_some_iff.mp h
    have he := hok e List.mem_cons_self s
    exact ih (.step e hs he hu) (fun e' he' => hok e' (List.mem_cons_of_mem _ he')) ht

/-- The state after a list of events whose guards hold as they are taken. -/
def run (S : System σ ε) (ok : σ → ε → Prop) [∀ s e, Decidable (ok s e)] : σ → List ε → Option σ
  | s, [] => some s
  | s, e :: es => if ok s e then (S.next s e).bind fun t => S.run ok t es else none

theorem Reaches.run {S : System σ ε} {ok : σ → ε → Prop} [∀ s e, Decidable (ok s e)] {s t : σ}
    (hs : S.Reaches ok s) {es : List ε} (h : S.run ok s es = some t) : S.Reaches ok t := by
  induction es generalizing s with
  | nil =>
    simp only [System.run, Option.some.injEq] at h
    exact h ▸ hs
  | cons e es ih =>
    simp only [System.run] at h
    split at h
    · rename_i he
      obtain ⟨u, hu, ht⟩ := Option.bind_eq_some_iff.mp h
      exact ih (.step e hs he hu) ht
    · simp at h

/-- The states that such runs lead to from `s` -/
inductive Steps (S : System σ ε) (ok : σ → ε → Prop) (s : σ) : σ → Prop where
  | refl : Steps S ok s s
  | step {t u : σ} (e : ε) : Steps S ok s t → ok t e → S.next t e = some u → Steps S ok s u

theorem Steps.invariant {S : System σ ε} {ok : σ → ε → Prop} {Inv : σ → Prop} {s t : σ}
    (h : S.Steps ok s t) (hs : Inv s)
    (hstep : ∀ s e t, Inv s → ok s e → S.next s e = some t → Inv t) : Inv t := by
  induction h with
  | refl => exact hs
  | step e _ he hn ih => exact hstep _ e _ ih he hn

theorem Steps.run {S : System σ ε} {ok : σ → ε → Prop} [∀ s e, Decidable (ok s e)] {s t u : σ}
    (hs : S.Steps ok s t) {es : List ε} (h : S.run ok t es = some u) : S.Steps ok s u := by
  induction es generalizing t with
  | nil =>
    simp only [System.run, Option.some.injEq] at h
    exact h ▸ hs
  | cons e es ih =>
    simp only [System.run] at h
    split at h
    · rename_i he
      obtain ⟨v, hv, hu⟩ := Option.bind_eq_some_iff.mp h
      exact ih (.step e hs he hv) hu
    · simp at h

end System

end Icecream.Transition
