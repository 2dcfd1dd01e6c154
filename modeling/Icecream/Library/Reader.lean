import Mathlib.Data.List.Basic
import Mathlib.Data.List.Infix

/-!
# Reading from a window of received data

A reader takes its input from the front of a window `rest` and may look at what
lies `beyond` it in memory. Three flags record how it used the window: `short`,
a test against the end of the window decided a read; `loose`, a value was taken
from behind the end; `failed`, the reader reported an error of its own.

`Decodes` says that a reader consumes exactly the given data whatever follows.
`Regular` is what every field reader has in common: it consumes from the front, and a
run that never met the end of its window is the same run in any longer window.
`Paired` compares readers on a window and on a longer one where the end may be met.
All are closed under sequencing, so facts about messages follow from facts about
fields.
-/

namespace Icecream

universe u
variable {β : Type u} {α γ : Type u}

structure Window (β : Type u) where
  rest : List β
  beyond : List β
  short : Bool
  loose : Bool
  failed : Bool

namespace Window

def fresh (rest beyond : List β) : Window β := ⟨rest, beyond, false, false, false⟩

/-- The window when `r` has arrived behind it and `b` is the memory after that. -/
def extend (w : Window β) (r b : List β) : Window β :=
  { w with rest := w.rest ++ r, beyond := b }

@[simp] theorem extend_fresh (p b r b' : List β) :
    (fresh p b).extend r b' = fresh (p ++ r) b' := rfl

end Window

def Reader (β : Type u) (α : Type u) : Type u := Window β → α × Window β

namespace Reader

instance : Monad (Reader β) where
  pure a := fun w => (a, w)
  bind rd f := fun w => let r := rd w; f r.1 r.2

@[simp] theorem pure_apply (a : α) (w : Window β) : (pure a : Reader β α) w = (a, w) := rfl

@[simp] theorem bind_apply (rd : Reader β α) (f : α → Reader β γ) (w : Window β) :
    (rd >>= f) w = f (rd w).1 (rd w).2 := rfl

@[simp] theorem map_apply (f : α → γ) (rd : Reader β α) (w : Window β) :
    (f <$> rd) w = (f (rd w).1, (rd w).2) := rfl

/-! ## Exact decoding -/

/-- `rd` reads `bs` as `x` and leaves what follows, whatever that is. -/
def Decodes (rd : Reader β α) (bs : List β) (x : α) : Prop :=
  ∀ r b, rd (Window.fresh (bs ++ r) b) = (x, Window.fresh r b)

theorem Decodes.pure (x : α) : Decodes (pure x : Reader β α) [] x := fun _ _ => rfl

theorem Decodes.bind {rd : Reader β α} {f : α → Reader β γ} {bs cs : List β} {x : α} {y : γ}
    (h : Decodes rd bs x) (hf : Decodes (f x) cs y) : Decodes (rd >>= f) (bs ++ cs) y := by
  intro r b
  rw [bind_apply, List.append_assoc, h]
  exact hf r b

theorem Decodes.map {rd : Reader β α} {bs : List β} {x : α} (f : α → γ)
    (h : Decodes rd bs x) : Decodes (f <$> rd) bs (f x) := by
  intro r b
  rw [map_apply, h]

theorem Decodes.bindPure {rd : Reader β α} {bs : List β} {x : α} (h : Decodes rd bs x)
    (f : α → γ) : Decodes (rd >>= fun x => Pure.pure (f x)) bs (f x) := by
  intro r b
  rw [bind_apply, h, pure_apply]

theorem Decodes.alone {rd : Reader β α} {bs : List β} {x : α} (h : Decodes rd bs x)
    (b : List β) : rd (Window.fresh bs b) = (x, Window.fresh [] b) := by
  simpa using h [] b

/-- A field that is there only under a condition known to both sides. -/
theorem Decodes.ite {c : Prop} [Decidable c] {rd : Reader β α} {bs : List β} {x d : α}
    (h : c → Decodes rd bs x) :
    Decodes (if c then rd else Pure.pure d) (if c then bs else []) (if c then x else d) := by
  by_cases hc : c
  · simpa only [if_pos hc] using h hc
  · simpa only [if_neg hc] using Decodes.pure d

/-! ## Regular readers -/

structure Regular (rd : Reader β α) : Prop where
  suffix : ∀ w, (rd w).2.rest <:+ w.rest
  beyond : ∀ w, (rd w).2.beyond = w.beyond
  short : ∀ w, w.short = true → (rd w).2.short = true
  loose : ∀ w, w.loose = true → (rd w).2.loose = true
  failed : ∀ w, w.failed = true → (rd w).2.failed = true
  extend : ∀ w r b, (rd w).2.short = false → (rd w).2.loose = false →
    rd (w.extend r b) = ((rd w).1, (rd w).2.extend r b)

theorem Regular.pure (x : α) : Regular (Pure.pure x : Reader β α) where
  suffix _ := List.suffix_rfl
  beyond _ := rfl
  short _ h := h
  loose _ h := h
  failed _ h := h
  extend _ _ _ _ _ := rfl

theorem Regular.bind {rd : Reader β α} {f : α → Reader β γ} (h : Regular rd)
    (hf : ∀ x, Regular (f x)) : Regular (rd >>= f) where
  suffix w := ((hf _).suffix _).trans (h.suffix w)
  beyond w := ((hf _).beyond _).trans (h.beyond w)
  short w hw := (hf _).short _ (h.short w hw)
  loose w hw := (hf _).loose _ (h.loose w hw)
  failed w hw := (hf _).failed _ (h.failed w hw)
  extend w r b hs hl := by
    have hs' : (rd w).2.short = false := by
      by_contra hc
      exact Bool.false_ne_true (hs.symm.trans ((hf _).short _ (Bool.not_eq_false _ ▸ hc)))
    have hl' : (rd w).2.loose = false := by
      by_contra hc
      exact Bool.false_ne_true (hl.symm.trans ((hf _).loose _ (Bool.not_eq_false _ ▸ hc)))
    rw [bind_apply, h.extend w r b hs' hl']
    exact (hf _).extend _ r b hs hl

theorem Regular.map {rd : Reader β α} (f : α → γ) (h : Regular rd) :
    Regular (f <$> rd) where
  suffix := h.suffix
  beyond := h.beyond
  short := h.short
  loose := h.loose
  failed := h.failed
  extend w r b hs hl := by
    rw [map_apply, h.extend w r b hs hl]
    rfl

theorem Regular.ite {c : Prop} [Decidable c] {rd rd' : Reader β α} (h : Regular rd)
    (h' : Regular rd') : Regular (if c then rd else rd') := by
  by_cases hc : c
  · simpa only [if_pos hc] using h
  · simpa only [if_neg hc] using h'

/-! ## Readers beside each other -/

section Tracks

variable {α' γ' : Type u}

/-- Run beside `rd` on a window with more data in it, `rd'` consumes as much as `rd`
and reads a value related by `E`, or it goes past the end of `rd`'s window. Nothing is
said where `rd` uses up its window. -/
structure Tracks (E : α → α' → Prop) (rd : Reader β α) (rd' : Reader β α') : Prop where
  suffix : ∀ w, (rd w).2.rest <:+ w.rest
  suffix' : ∀ w, (rd' w).2.rest <:+ w.rest
  track : ∀ w w' r, w'.rest = w.rest ++ r → (rd w).2.rest ≠ [] →
    (rd' w').2.rest.length < r.length ∨
      ((rd' w').2.rest = (rd w).2.rest ++ r ∧ E (rd w).1 (rd' w').1)

variable {E : α → α' → Prop} {F : γ → γ' → Prop}

theorem Tracks.pure {x : α} {x' : α'} (h : E x x') :
    Tracks E (Pure.pure x : Reader β α) (Pure.pure x' : Reader β α') where
  suffix _ := List.suffix_rfl
  suffix' _ := List.suffix_rfl
  track _ _ _ hw _ := .inr ⟨hw, h⟩

/-- The values read first may differ as far as `E` allows; the continuations must
track each other for all such values. -/
theorem Tracks.bind {rd : Reader β α} {rd' : Reader β α'} {f : α → Reader β γ}
    {f' : α' → Reader β γ'} (h : Tracks E rd rd') (hs : ∀ x w, (f x w).2.rest <:+ w.rest)
    (hs' : ∀ x w, (f' x w).2.rest <:+ w.rest) (hf : ∀ x x', E x x' → Tracks F (f x) (f' x')) :
    Tracks F (rd >>= f) (rd' >>= f') where
  suffix w := (hs _ _).trans (h.suffix w)
  suffix' w := (hs' _ _).trans (h.suffix' w)
  track w w' r hw hne := by
    have hne' : (rd w).2.rest ≠ [] := by
      intro he
      have hsuf := hs (rd w).1 (rd w).2
      rw [he] at hsuf
      exact hne (List.suffix_nil.mp hsuf)
    rcases h.track w w' r hw hne' with hover | ⟨hrest, hE⟩
    · exact .inl ((hs' _ _).length_le.trans_lt hover)
    · exact (hf _ _ hE).track _ _ r hrest hne

theorem Tracks.weaken {F : α → α' → Prop} {rd : Reader β α} {rd' : Reader β α'}
    (h : Tracks E rd rd') (hE : ∀ x x', E x x' → F x x') : Tracks F rd rd' where
  suffix := h.suffix
  suffix' := h.suffix'
  track w w' r hw hne := (h.track w w' r hw hne).imp_right (And.imp_right (hE _ _))

/-- Regular readers that track each other, whatever the values, and report no error. -/
structure Paired (rd : Reader β α) (rd' : Reader β α') : Prop where
  left : Regular rd
  right : Regular rd'
  tracks : Tracks (fun _ _ => True) rd rd'
  quiet : ∀ w, (rd' w).2.failed = w.failed

theorem Paired.pure (x : α) (x' : α') :
    Paired (Pure.pure x : Reader β α) (Pure.pure x' : Reader β α') :=
  ⟨Regular.pure x, Regular.pure x', Tracks.pure trivial, fun _ => rfl⟩

theorem Paired.bind {rd : Reader β α} {rd' : Reader β α'} {f : α → Reader β γ}
    {f' : α' → Reader β γ'} (h : Paired rd rd') (hf : ∀ x x', Paired (f x) (f' x')) :
    Paired (rd >>= f) (rd' >>= f') where
  left := h.left.bind fun x => (hf x (rd' (Window.fresh [] [])).1).left
  right := h.right.bind fun x' => (hf (rd (Window.fresh [] [])).1 x').right
  tracks := h.tracks.bind (fun x => (hf x (rd' (Window.fresh [] [])).1).left.suffix)
    (fun x' => (hf (rd (Window.fresh [] [])).1 x').right.suffix) fun x x' _ => (hf x x').tracks
  quiet w := ((hf (rd (Window.fresh [] [])).1 _).quiet _).trans (h.quiet w)

/-- What is kept by sequencing readers beside each other -/
structure Closed (P : ∀ {α α' : Type u}, Reader β α → Reader β α' → Prop) : Prop where
  pure : ∀ {α α' : Type u} (x : α) (x' : α'),
    P (Pure.pure x : Reader β α) (Pure.pure x' : Reader β α')
  bind : ∀ {α α' γ γ' : Type u} {rd : Reader β α} {rd' : Reader β α'} {f : α → Reader β γ}
    {f' : α' → Reader β γ'}, P rd rd' → (∀ x x', P (f x) (f' x')) → P (rd >>= f) (rd' >>= f')

section Closed

variable {P : ∀ {α α' : Type u}, Reader β α → Reader β α' → Prop}

theorem Closed.map (hP : Closed @P) {rd : Reader β α} {rd' : Reader β α'} (f : α → γ) (f' : α' → γ')
    (h : P rd rd') : P (f <$> rd) (f' <$> rd') :=
  hP.bind h fun x x' => hP.pure (f x) (f' x')

theorem Closed.ite {c : Prop} [Decidable c] {rd₁ rd₂ : Reader β α} {rd₁' rd₂' : Reader β α'}
    (h₁ : P rd₁ rd₁') (h₂ : P rd₂ rd₂') :
    P (if c then rd₁ else rd₂) (if c then rd₁' else rd₂') := by
  by_cases hc : c
  · simpa only [if_pos hc] using h₁
  · simpa only [if_neg hc] using h₂

end Closed

theorem Paired.closed : Closed (β := β) Paired where
  pure := Paired.pure
  bind h hf := h.bind hf

theorem Paired.map {rd : Reader β α} {rd' : Reader β α'} (f : α → γ) (f' : α' → γ')
    (h : Paired rd rd') : Paired (f <$> rd) (f' <$> rd') := Paired.closed.map f f' h

end Tracks

end Reader

end Icecream
