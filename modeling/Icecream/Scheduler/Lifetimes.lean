import Icecream.Scheduler.Homes

/-!
# No connection is used after its end

What has to be the case for a message so that neither its handler nor the main loop uses
a connection that has been deleted. A daemon that logs in again closes its old
connection, which the main loop may be about to read from.
-/

namespace Icecream.IceccScheduler

open Icecream.Comm
open Icecream.Fault

namespace Scheduler

/-! ## Deciding the conditions -/

instance (s : Scheduler) (n : ℕ) : Decidable (s.Unused n) :=
  decidable_of_iff (∀ k ∈ List.range (n + 1), 1 ≤ k → ∀ e ∈ s.jobs,
      e.1 ≠ s.newJobId + UInt32.ofNat k)
    ⟨fun h k hpos hk => h k (List.mem_range.mpr (Nat.lt_succ_of_le hk)) hpos,
      fun h k hk hpos => h k hpos (Nat.le_of_lt_succ (List.mem_range.mp hk))⟩

instance decidableGreets (answer : ℕ → ℕ) :
    (n : ℕ) → (others : List ℕ) → (calls : ℕ) → Decidable (Greets answer n others calls)
  | 0, _, _ => isTrue trivial
  | n + 1, others, calls =>
    haveI := decidableGreets answer n (survivors answer (calls + 1) others)
      (calls + 1 + (others.length + 1))
    inferInstanceAs (Decidable (_ ∧ _))

instance (s : Scheduler) (cid : ℕ) : Decidable (s.Tells cid) :=
  inferInstanceAs (Decidable (_ → _))

instance (s : Scheduler) (text : Str) (x : ℕ) : Decidable (s.Removes text x) :=
  inferInstanceAs (Decidable (_ ∧ _ ∧ ∃ nm ∈ (splitString text).tail, _))

instance (s : Scheduler) (cid : ℕ) (m : LoginMsg) (x : ℕ) : Decidable (s.Stale cid m x) :=
  inferInstanceAs (Decidable (_ ∧ _ ∧ _))

instance (s : Scheduler) (cid : ℕ) (m : Msg) : Decidable (s.Numbered cid m) :=
  decidable_of_bool
    (match m with
      | .getCS m => decide ((s.conn cid).state = .loggedIn → s.Unused m.count.toNat)
      | _ => true)
    (by cases m <;> simp [Numbered, imp_iff_not_or])

instance (s : Scheduler) (cid : ℕ) (m : Msg) : Decidable (s.Outlives cid m) :=
  decidable_of_bool
    (match m with
      | .monLogin => decide ((s.conn cid).state = .connected →
          Greets s.host.answer s.css.length s.monitors s.calls)
      | .jobLocalBegin _ => decide ((s.conn cid).state = .loggedIn → s.Tells cid)
      | .jobLocalDone _ => decide ((s.conn cid).state = .loggedIn → s.Tells cid)
      | .text text => decide ((s.conn cid).state = .loggedIn →
          (cid ∉ s.monitors ∨ ∀ x ∈ s.css, ¬ s.Removes text x) ∧ ¬ s.Removes text cid)
      | _ => true)
    (by cases m <;> simp [Outlives, imp_iff_not_or])

instance (s : Scheduler) (cid : ℕ) (m : Msg) (x : ℕ) : Decidable (s.Closes cid m x) :=
  decidable_of_bool
    (match m with
      | .login login => decide ((s.conn cid).state = .connected ∧ s.Stale cid login x)
      | .text text => decide ((s.conn cid).state = .loggedIn ∧ s.Removes text x)
      | _ => false)
    (by cases m <;> simp [Closes])

end Scheduler

namespace Loop

open Scheduler

variable {l : Loop}

/-- A message asks for servers only from a daemon and for ids that are free, leaves its own
connection open, and does not close the one the main loop goes on with. -/
structure Careful (l : Loop) (e : Event) : Prop where
  domestic : ∀ r ∈ l.handled e, l.scheduler.Domestic r.1 r.2
  numbered : ∀ r ∈ l.handled e, l.scheduler.Numbered r.1 r.2
  outlives : ∀ r ∈ l.handled e, l.scheduler.Outlives r.1 r.2
  iterator : ∀ r ∈ l.handled e, ∀ fd ∈ saved l.phase, ∀ x ∈ l.scheduler.entryAt fd,
    ¬ l.scheduler.Closes r.1 r.2 x

instance (l : Loop) (e : Event) : Decidable (Careful l e) :=
  decidable_of_iff
    ((∀ r ∈ l.handled e, l.scheduler.Domestic r.1 r.2) ∧
      (∀ r ∈ l.handled e, l.scheduler.Numbered r.1 r.2) ∧
      (∀ r ∈ l.handled e, l.scheduler.Outlives r.1 r.2) ∧
      ∀ r ∈ l.handled e, ∀ fd ∈ saved l.phase, ∀ x ∈ l.scheduler.entryAt fd,
        ¬ l.scheduler.Closes r.1 r.2 x)
    ⟨fun ⟨h₁, h₂, h₃, h₄⟩ => ⟨h₁, h₂, h₃, h₄⟩, fun ⟨h₁, h₂, h₃, h₄⟩ => ⟨h₁, h₂, h₃, h₄⟩⟩

/-- Every use of a connection is one of a connection that is there. -/
def strictMode : Mode := ⟨True, True, True, id, id⟩

theorem Careful.permitted {e : Event} (h : Careful l e) : Permitted strictMode l e where
  allowed r hr := ⟨fun _ => h.domestic r hr, fun _ => h.numbered r hr, fun _ => h.outlives r hr⟩
  iterator _ := h.iterator

/-- What the main loop holds on to is there, and no step uses what is not. -/
structure Sound (l : Loop) : Prop where
  reading : ∀ r ∈ current l.phase, l.scheduler.live r.1 = true
  iterator : ∀ fd ∈ saved l.phase, (l.scheduler.entryAt fd).isSome = true
  entries : ∀ e ∈ l.scheduler.fd2cs, l.scheduler.live e.2 = true
  containers : ∀ x, x ∈ l.scheduler.css ∨ x ∈ l.scheduler.monitors ∨ x ∈ l.scheduler.controls →
    l.scheduler.live x = true
  step : ∀ e, Careful l e → step l e ≠ some (.error .readAfterFree)

theorem Between.sound (h : Between strictMode l) : Sound l where
  reading := h.reading trivial
  iterator fd hfd := by
    obtain ⟨x, hx, -⟩ := h.iterator trivial fd hfd
    rw [entryAt_isSome h.facts.peers hx]
    rfl
  entries e he := by
    obtain ⟨k, hk, hcid, -⟩ := h.facts.peers.entries e he
    exact live_iff.mpr (List.mem_map.mpr ⟨k, hk, hcid⟩)
  containers x hx := by
    rcases hx with hx | hx | hx
    · exact (h.facts.peers.css x hx).live
    · exact (h.facts.peers.monitors x hx).live
    · exact (h.facts.peers.controls x hx).live
  step e hok hx := by
    have hends := step_stepped h hok.permitted hx
    exact hends rfl trivial

/-- In a run all of whose messages are careful, no connection is used after its end. -/
theorem connections_sound (h : system.Reaches Careful l) : Sound l :=
  (reaches_between (fun _ _ hok => hok.permitted) h).sound

theorem connections_sound_relogin : ∃ l, system.Reaches Careful l ∧ l.scheduler.css = [1] ∧
    Sound l := by
  have hrun : (system.run Careful (started fun _ => 1) (polling 0 ++
      [newcomer 7 1 "n", .activity (some (daemonLogin "n"))] ++ quietTurn ++ polling 1 ++
      [newcomer 9 1 "n", .activity (some (daemonLogin "n"))])).map (fun l => l.scheduler.css) =
      some [1] := by decide +kernel
  obtain ⟨l, hl, hcss⟩ := Option.map_eq_some_iff.mp hrun
  have hreach := (Transition.System.Reaches.init (started_init _)).run hl
  exact ⟨l, hreach, hcss, connections_sound hreach⟩

def uses (x : Option (Except Fault Loop)) : Bool :=
  match x with
  | some (.error .readAfterFree) => true
  | _ => false

theorem uses_iff {x : Option (Except Fault Loop)} :
    uses x = true ↔ x = some (.error .readAfterFree) := by
  unfold uses
  split
  · simp
  · rename_i hne
    simp only [Bool.false_eq_true, false_iff]
    exact hne

/-- A daemon logs in again while the main loop reads: the saved iterator is that of its old
connection. A monitor cannot be told of the servers that there are: its login goes on
with a connection that is deleted. -/
theorem connections_unsound :
    (∃ l, system.Reachable l ∧ step l .advance = some (.error .readAfterFree)) ∧
    ∃ l, system.Reachable l ∧
      step l (.activity (some .monLogin)) = some (.error .readAfterFree) := by
  constructor
  · have hrun : (system.exec (started fun _ => 1) (polling 0 ++
        [newcomer 9 1 "n", .activity (some (daemonLogin "n"))] ++ quietTurn ++ polling 1 ++
        [newcomer 7 1 "n", .idle, .accepted, .controlled, .noDatagram, .advance,
          .activity (some (daemonLogin "n")), .idle])).map (fun l => uses (step l .advance)) =
        some true := by decide +kernel
    obtain ⟨l, hl, huses⟩ := Option.map_eq_some_iff.mp hrun
    refine ⟨l, ?_, uses_iff.mp huses⟩
    exact (Transition.System.Reaches.init (started_init _)).exec (fun _ _ _ => trivial) hl
  · have hrun : (system.exec (started fun _ => 0) (polling 0 ++
        [newcomer 9 1 "n", .activity (some (daemonLogin "n")), .idle, newcomer 7 2 "m"])).map
        (fun l => uses (step l (.activity (some .monLogin)))) = some true := by decide +kernel
    obtain ⟨l, hl, huses⟩ := Option.map_eq_some_iff.mp hrun
    refine ⟨l, ?_, uses_iff.mp huses⟩
    exact (Transition.System.Reaches.init (started_init _)).exec (fun _ _ _ => trivial) hl

end Loop

end Icecream.IceccScheduler
