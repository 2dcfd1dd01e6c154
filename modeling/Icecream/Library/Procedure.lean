import Icecream.Library.Script
import Icecream.Library.Transition

/-!
# Procedures

A procedure is a script that ends with a result or with an exception. What its operations do to a
state is decided from outside, choice by choice. Of a procedure it can be asked what its operations
need of the state before them and what holds at its end; one rule takes that to every state of
every run.
-/

namespace Icecream

open Transition

variable {Op : Type} {Res : Op → Type} {α β ε σ κ : Type}

/-! ## Scripts that run on a state -/

/-- A script under way -/
structure Running (Op : Type) (Res : Op → Type) (σ α : Type) where
  program : Script Op Res α
  state : σ

section

-- What an operation gives is up to the choice; `none` says that it cannot be made.
variable (act : (o : Op) → κ → σ → Option (Res o × σ))

def Running.next (r : Running Op Res σ α) (c : κ) : Option (Running Op Res σ α) :=
  match r.program with
  | .done _ => none
  | .step o rest => (act o c r.state).map fun x => ⟨rest x.1, x.2⟩

def Script.system (p : Script Op Res α) (init : σ → Prop) : System (Running Op Res σ α) κ where
  init r := r.program = p ∧ init r.state
  next := Running.next act

variable (asks : Op → σ → Prop)

/-- Each operation finds the state as it needs it, and the result is as it should be. -/
def Script.wp : Script Op Res α → (α → σ → Prop) → σ → Prop
  | .done a, Q, s => Q a s
  | .step o rest, Q, s => asks o s ∧ ∀ c r t, act o c s = some (r, t) → (rest r).wp Q t

variable {act asks}

/-- A step is that of an operation. -/
theorem Running.next_eq_some {r r' : Running Op Res σ α} {c : κ} (h : r.next act c = some r') :
    ∃ o rest x, r.program = .step o rest ∧ act o c r.state = some (x, r'.state) := by
  obtain ⟨program, state⟩ := r
  cases program with
  | done a => cases h
  | step o rest =>
    obtain ⟨⟨x, after⟩, hact, rfl⟩ := Option.map_eq_some_iff.mp h
    exact ⟨o, rest, x, rfl, hact⟩

namespace Script

theorem wp_bind {p : Script Op Res α} {f : α → Script Op Res β} {Q : β → σ → Prop} {s : σ} :
    (p.bind f).wp act asks Q s ↔ p.wp act asks (fun a => (f a).wp act asks Q) s := by
  induction p generalizing s with
  | done a => exact Iff.rfl
  | step o rest ih =>
    refine and_congr_right fun _ => forall_congr' fun c => forall_congr' fun r => ?_
    exact forall_congr' fun t => imp_congr_right fun _ => ih r

theorem wp_mono {p : Script Op Res α} {Q Q' : α → σ → Prop} {s : σ}
    (h : p.wp act asks Q s) (himp : ∀ a t, Q a t → Q' a t) : p.wp act asks Q' s := by
  induction p generalizing s with
  | done a => exact himp a s h
  | step o rest ih => exact ⟨h.1, fun c r t hact => ih r (h.2 c r t hact)⟩

/-- An invariant of the operations goes with what is found of a script. -/
theorem wp_keeps {p : Script Op Res α} {Q : α → σ → Prop} {I : σ → Prop} {s : σ}
    (h : p.wp act asks Q s)
    (hact : ∀ o c s r t, asks o s → act o c s = some (r, t) → I s → I t) (hI : I s) :
    p.wp act (fun o s => asks o s ∧ I s) (fun a t => Q a t ∧ I t) s := by
  induction p generalizing s with
  | done a => exact ⟨h, hI⟩
  | step o rest ih =>
    refine ⟨⟨h.1, hI⟩, fun c r t hstep => ?_⟩
    exact ih r (h.2 c r t hstep) (hact o c s r t h.1 hstep hI)

/-- What is found of a script holds of what is left of it in every state of a run. -/
theorem reaches_wp {p : Script Op Res α} {init : σ → Prop} {Q : α → σ → Prop}
    {ok : Running Op Res σ α → κ → Prop} {r : Running Op Res σ α}
    (hr : (p.system act init).Reaches ok r) (hp : ∀ s, init s → p.wp act asks Q s) :
    r.program.wp act asks Q r.state := by
  induction hr with
  | init hs =>
    rw [hs.1]
    exact hp _ hs.2
  | @step s t c _ _ hstep ih =>
    obtain ⟨program, state⟩ := s
    cases program with
    | done a => cases hstep
    | step o rest =>
      obtain ⟨⟨result, after⟩, hact, rfl⟩ := Option.map_eq_some_iff.mp hstep
      exact ih.2 c result after hact

theorem reaches_asks {p : Script Op Res α} {init : σ → Prop} {Q : α → σ → Prop}
    {ok : Running Op Res σ α → κ → Prop} {r : Running Op Res σ α}
    (hr : (p.system act init).Reaches ok r) (hp : ∀ s, init s → p.wp act asks Q s)
    {o : Op} {rest : Res o → Script Op Res α} (hnext : r.program = .step o rest) :
    asks o r.state := by
  have hleft := reaches_wp hr hp
  rw [hnext] at hleft
  exact hleft.1

/-- What operations keep that find the state as they need it -/
theorem reaches_keeps {p : Script Op Res α} {init I : σ → Prop} {Q : α → σ → Prop}
    {ok : Running Op Res σ α → κ → Prop} {r : Running Op Res σ α}
    (hr : (p.system act init).Reaches ok r) (hp : ∀ s, init s → p.wp act asks Q s)
    (hinit : ∀ s, init s → I s)
    (hact : ∀ o c s x t, asks o s → act o c s = some (x, t) → I s → I t) : I r.state := by
  induction hr with
  | init hs => exact hinit _ hs.2
  | @step s t c hs _ hstep ih =>
    have hwp := reaches_wp hs hp
    obtain ⟨program, state⟩ := s
    cases program with
    | done a => cases hstep
    | step o rest =>
      obtain ⟨⟨result, after⟩, hafter, rfl⟩ := Option.map_eq_some_iff.mp hstep
      exact hact o c state result after hwp.1 hafter ih

theorem reaches_done {p : Script Op Res α} {init : σ → Prop} {Q : α → σ → Prop}
    {ok : Running Op Res σ α → κ → Prop} {r : Running Op Res σ α}
    (hr : (p.system act init).Reaches ok r) (hp : ∀ s, init s → p.wp act asks Q s) {a : α}
    (hend : r.program = .done a) : Q a r.state := by
  have hleft := reaches_wp hr hp
  rw [hend] at hleft
  exact hleft

end Script

end

/-! ### Scripts over more operations -/

section

variable {Op' : Type} {Res' : Op' → Type} {σ' κ' : Type}

/-- The script with its operations as some of others, whose results are read as those that it
expects -/
def Script.embed (place : Op → Op') (read : ∀ o, Res' (place o) → Res o) :
    Script Op Res α → Script Op' Res' α
  | .done a => .done a
  | .step o rest => .step (place o) fun r => (rest (read o r)).embed place read

variable {place : Op → Op'} {read : ∀ o, Res' (place o) → Res o}
  {act : (o : Op) → κ → σ → Option (Res o × σ)} {asks : Op → σ → Prop}
  {act' : (o : Op') → κ' → σ' → Option (Res' o × σ')} {asks' : Op' → σ' → Prop}

/-- A script that sees a part of the state only leaves the rest of it as it is. `inside` is the
state around that part. -/
theorem Script.wp_embed {inside : σ → σ'} {p : Script Op Res α} {Q : α → σ → Prop} {s : σ}
    (h : p.wp act asks Q s)
    (hact : ∀ o c s r t, act' (place o) c (inside s) = some (r, t) →
      ∃ k u, act o k s = some (read o r, u) ∧ t = inside u)
    (hasks : ∀ o s, asks o s → asks' (place o) (inside s)) :
    (p.embed place read).wp act' asks' (fun a t => ∃ u, t = inside u ∧ Q a u) (inside s) := by
  induction p generalizing s with
  | done a => exact ⟨s, rfl, h⟩
  | step o rest ih =>
    refine ⟨hasks o s h.1, fun c r t hstep => ?_⟩
    obtain ⟨k, u, hk, rfl⟩ := hact o c s r t hstep
    exact ih (read o r) (h.2 k (read o r) u hk)

end

/-! ## Results and exceptions -/

def Procedure (Op : Type) (Res : Op → Type) (ε α : Type) : Type := Script Op Res (Except ε α)

namespace Procedure

instance : Monad (Procedure Op Res ε) where
  pure a := Script.done (.ok a)
  bind p f := Script.bind p fun
    | .ok a => f a
    | .error e => .done (.error e)

def perform (o : Op) : Procedure Op Res ε (Res o) := .step o fun r => .done (.ok r)

/-- `throw` -/
def raise (e : ε) : Procedure Op Res ε α := .done (.error e)

/-- `try` with the handler of its `catch` -/
def rescue (p : Procedure Op Res ε α) (handler : ε → Procedure Op Res ε α) :
    Procedure Op Res ε α :=
  Script.bind p fun
    | .ok a => .done (.ok a)
    | .error e => handler e

/-- What is done at the end of a scope, however it is left -/
def leaving (p : Procedure Op Res ε α) (last : Procedure Op Res ε Unit) : Procedure Op Res ε α := do
  let a ← p.rescue fun e => do
    last
    raise e
  last
  return a

/-- The procedure over more operations, with its exceptions as some of others -/
def embed {Op' : Type} {Res' : Op' → Type} {ε' : Type} (place : Op → Op')
    (read : ∀ o, Res' (place o) → Res o) (thrown : ε → ε') (p : Procedure Op Res ε α) :
    Procedure Op' Res' ε' α :=
  Script.bind (Script.embed place read p) fun
    | .ok a => .done (.ok a)
    | .error e => .done (.error (thrown e))

section

variable (act : (o : Op) → κ → σ → Option (Res o × σ)) (asks : Op → σ → Prop)

/-- `Q` at the end, or `E` after an exception -/
def Meets (p : Procedure Op Res ε α) (Q : α → σ → Prop) (E : ε → σ → Prop) : σ → Prop :=
  Script.wp act asks p fun
    | .ok a => Q a
    | .error e => E e

variable {act asks} {p : Procedure Op Res ε α} {f : α → Procedure Op Res ε β}
  {Q Q' : α → σ → Prop} {E E' : ε → σ → Prop} {s : σ}

theorem Meets.pure {a : α} (h : Q a s) : (Pure.pure a : Procedure Op Res ε α).Meets act asks Q E s :=
  h

theorem Meets.raise {e : ε} (h : E e s) : (raise e : Procedure Op Res ε α).Meets act asks Q E s := h

theorem Meets.mono (h : p.Meets act asks Q E s) (hresult : ∀ a t, Q a t → Q' a t)
    (hthrown : ∀ e t, E e t → E' e t) : p.Meets act asks Q' E' s :=
  Script.wp_mono h fun
    | .ok a => hresult a
    | .error e => hthrown e

theorem Meets.bind {R : β → σ → Prop} (h : p.Meets act asks (fun a => (f a).Meets act asks R E) E s) :
    (p >>= f).Meets act asks R E s := by
  refine Script.wp_bind.mpr (Script.wp_mono h fun r t hr => ?_)
  cases r with
  | ok a => exact hr
  | error e => exact hr

/-- The first part and what is found of it, then the second -/
theorem Meets.andThen {R : β → σ → Prop} (h : p.Meets act asks Q E' s)
    (hnext : ∀ a t, Q a t → (f a).Meets act asks R E t) (hthrown : ∀ e t, E' e t → E e t) :
    (p >>= f).Meets act asks R E s :=
  .bind (h.mono hnext hthrown)

theorem Meets.perform {o : Op} {Q : Res o → σ → Prop} (hasks : asks o s)
    (h : ∀ c r t, act o c s = some (r, t) → Q r t) :
    (perform o : Procedure Op Res ε (Res o)).Meets act asks Q E s :=
  ⟨hasks, h⟩

/-- One operation, then the rest -/
theorem Meets.step {o : Op} {f : Res o → Procedure Op Res ε β} {R : β → σ → Prop} (hasks : asks o s)
    (h : ∀ c r t, act o c s = some (r, t) → (f r).Meets act asks R E t) :
    (Procedure.perform o >>= f).Meets act asks R E s :=
  .bind (.perform hasks h)

theorem Meets.rescue {handler : ε → Procedure Op Res ε α}
    (h : p.Meets act asks Q E' s) (hhandler : ∀ e t, E' e t → (handler e).Meets act asks Q E t) :
    (p.rescue handler).Meets act asks Q E s := by
  refine Script.wp_bind.mpr (Script.wp_mono h fun r t hr => ?_)
  cases r with
  | ok a => exact hr
  | error e => exact hhandler e t hr

/-- The last step is taken after a result and after an exception. -/
theorem Meets.leaving {last : Procedure Op Res ε Unit} (h : p.Meets act asks Q' E' s)
    (hresult : ∀ a t, Q' a t → last.Meets act asks (fun _ => Q a) E t)
    (hthrown : ∀ e t, E' e t → last.Meets act asks (fun _ => E e) E t) :
    (p.leaving last).Meets act asks Q E s := by
  refine .bind (.rescue (h.mono (fun a t ht => ?_) fun e t ht => ht) fun e t ht => ?_)
  · exact .bind ((hresult a t ht).mono (fun _ _ hq => hq) fun _ _ he => he)
  · exact .bind ((hthrown e t ht).mono (fun _ _ he => he) fun _ _ he => he)

theorem Meets.keeps {I : σ → Prop} (h : p.Meets act asks Q E s)
    (hact : ∀ o c s r t, asks o s → act o c s = some (r, t) → I s → I t) (hI : I s) :
    p.Meets act (fun o s => asks o s ∧ I s) (fun a t => Q a t ∧ I t) (fun e t => E e t ∧ I t) s := by
  refine Script.wp_mono (Script.wp_keeps h hact hI) fun r t hr => ?_
  cases r with
  | ok a => exact hr
  | error e => exact hr

theorem Meets.embed {Op' : Type} {Res' : Op' → Type} {ε' σ' κ' : Type} {place : Op → Op'}
    {read : ∀ o, Res' (place o) → Res o} {thrown : ε → ε'}
    {act' : (o : Op') → κ' → σ' → Option (Res' o × σ')} {asks' : Op' → σ' → Prop} {inside : σ → σ'}
    {Q' : α → σ' → Prop} {E' : ε' → σ' → Prop} (h : p.Meets act asks Q E s)
    (hact : ∀ o c s r t, act' (place o) c (inside s) = some (r, t) →
      ∃ k u, act o k s = some (read o r, u) ∧ t = inside u)
    (hasks : ∀ o s, asks o s → asks' (place o) (inside s))
    (hresult : ∀ a u, Q a u → Q' a (inside u)) (hthrown : ∀ e u, E e u → E' (thrown e) (inside u)) :
    (p.embed place read thrown).Meets act' asks' Q' E' (inside s) := by
  refine Script.wp_bind.mpr (Script.wp_mono (Script.wp_embed h hact hasks) fun r t hr => ?_)
  obtain ⟨u, rfl, hu⟩ := hr
  cases r with
  | ok a => exact hresult a u hu
  | error e => exact hthrown e u hu

theorem Meets.ite {c : Prop} [Decidable c] {q : Procedure Op Res ε α}
    (hthen : c → p.Meets act asks Q E s) (helse : ¬ c → q.Meets act asks Q E s) :
    (if c then p else q).Meets act asks Q E s := by
  split
  · next h => exact hthen h
  · next h => exact helse h

/-- A step that is only taken where it is needed -/
theorem Meets.optional {c : Prop} [Decidable c] {p : Procedure Op Res ε Unit}
    {f : Unit → Procedure Op Res ε β} {I : σ → Prop} {R : β → σ → Prop}
    (hthen : c → p.Meets act asks (fun _ => I) E s) (helse : ¬ c → I s)
    (hnext : ∀ t, I t → (f ()).Meets act asks R E t) :
    (if c then p >>= f else f ()).Meets act asks R E s :=
  .ite (fun h => .andThen (hthen h) (fun _ t ht => hnext t ht) fun _ _ he => he) fun h =>
    hnext s (helse h)

end

end Procedure

end Icecream
