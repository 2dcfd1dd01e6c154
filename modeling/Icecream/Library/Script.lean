import Icecream.Library.Reader

/-!
# Readers that are made of operations

A script is what a reader does operation by operation, where the result of each decides how
it goes on. Once a reader is known to be the run of a script, what holds of its operations
holds of the places of the input that they are used at.
-/

namespace Icecream

variable {β : Type} {Op : Type} {Res : Op → Type} {α γ : Type}

inductive Script (Op : Type) (Res : Op → Type) (α : Type) : Type
  | done (a : α)
  | step (o : Op) (next : Res o → Script Op Res α)

namespace Script

variable (exec : (o : Op) → Reader β (Res o))

def run : Script Op Res α → Reader β α
  | .done a => pure a
  | .step o next => exec o >>= fun r => (next r).run

/-- The operations of a run, each with the window that it is used on -/
def uses : Script Op Res α → Window β → List (Op × Window β)
  | .done _, _ => []
  | .step o next, w => (o, w) :: (next (exec o w).1).uses (exec o w).2

def bind : Script Op Res α → (α → Script Op Res γ) → Script Op Res γ
  | .done a, f => f a
  | .step o next, f => .step o fun r => (next r).bind f

theorem run_bind (p : Script Op Res α) (f : α → Script Op Res γ) :
    (p.bind f).run exec = p.run exec >>= fun a => (f a).run exec := by
  induction p with
  | done a => rfl
  | step o next ih =>
    funext w
    exact congrFun (ih (exec o w).1) (exec o w).2

/-- The run on a state of another kind, which the operations may have no result on -/
def runOn {σ : Type} (act : (o : Op) → σ → Option (Res o × σ)) :
    Script Op Res α → σ → Option (α × σ)
  | .done a, s => some (a, s)
  | .step o next, s => act o s >>= fun r => (next r.1).runOn act r.2

/-- Operations that go along with those of a reader make runs that do. -/
theorem runOn_run {exec : (o : Op) → Reader β (Res o)} {σ : Type}
    {act : (o : Op) → σ → Option (Res o × σ)} {R : σ → Window β → Prop}
    (hact : ∀ o s w, R s w → ∃ s', act o s = some ((exec o w).1, s') ∧ R s' (exec o w).2)
    (q : Script Op Res α) {s : σ} {w : Window β} (h : R s w) :
    ∃ s', q.runOn act s = some ((q.run exec w).1, s') ∧ R s' (q.run exec w).2 := by
  induction q generalizing s w with
  | done a => exact ⟨s, rfl, h⟩
  | step o next ih =>
    obtain ⟨s₁, hs₁, hrel⟩ := hact o s w h
    obtain ⟨s₂, hs₂, hend⟩ := ih (exec o w).1 hrel
    refine ⟨s₂, ?_, hend⟩
    rw [runOn, hs₁]
    exact hs₂

end Script

namespace Reader

variable {exec : (o : Op) → Reader β (Res o)}

/-- The reader is the run of a script. -/
def Spelled (exec : (o : Op) → Reader β (Res o)) (rd : Reader β α) : Prop :=
  ∃ p : Script Op Res α, p.run exec = rd

theorem Spelled.pure (x : α) : Spelled exec (Pure.pure x : Reader β α) := ⟨.done x, rfl⟩

theorem Spelled.op (exec : (o : Op) → Reader β (Res o)) (o : Op) : Spelled exec (exec o) :=
  ⟨.step o .done, rfl⟩

theorem Spelled.bind {rd : Reader β α} {f : α → Reader β γ} (h : Spelled exec rd)
    (hf : ∀ x, Spelled exec (f x)) : Spelled exec (rd >>= f) := by
  obtain ⟨p, rfl⟩ := h
  choose q hq using hf
  refine ⟨p.bind q, ?_⟩
  rw [Script.run_bind]
  simp only [hq]

theorem Spelled.closed (exec : (o : Op) → Reader β (Res o)) :
    Closed (β := β) fun rd rd' => Spelled exec rd ∧ Spelled exec rd' where
  pure x x' := ⟨.pure x, .pure x'⟩
  bind {_ _ _ _ rd rd' _ _} h hf :=
    ⟨h.1.bind fun x => (hf x (rd' (Window.fresh [] [])).1).1,
      h.2.bind fun x' => (hf (rd (Window.fresh [] [])).1 x').2⟩

end Reader

end Icecream
