import Icecream.Scheduler.Logins

/-!
# What a message leaves

`handle_activity` for every message, and what has to hold before it so that nothing is
used that has been closed.
-/

namespace Icecream.IceccScheduler

open Icecream.Comm
open Icecream.Fault

namespace Scheduler

variable {mode : Mode} {lost : ℕ → Prop} {s : Scheduler} {cid : ℕ}

/-! ## Conditions on a message -/

/-- A request for servers comes from no monitor. -/
def Domestic (s : Scheduler) (cid : ℕ) : Msg → Prop
  | .getCS m => (s.conn cid).state = .loggedIn → m.count ≠ 0 → (s.conn cid).type = .daemon
  | _ => True

/-- The ids that a request will take are free, as `create_new_job` asserts. -/
def Numbered (s : Scheduler) (cid : ℕ) : Msg → Prop
  | .getCS m => (s.conn cid).state = .loggedIn → s.Unused m.count.toNat
  | _ => True

/-- The connection itself outlives what it asks for. -/
def Outlives (s : Scheduler) (cid : ℕ) : Msg → Prop
  | .monLogin =>
    (s.conn cid).state = .connected → Greets s.host.answer s.css.length s.monitors s.calls
  | .jobLocalBegin _ => (s.conn cid).state = .loggedIn → s.Tells cid
  | .jobLocalDone _ => (s.conn cid).state = .loggedIn → s.Tells cid
  | .text text => (s.conn cid).state = .loggedIn →
    (cid ∉ s.monitors ∨ ∀ x ∈ s.css, ¬ s.Removes text x) ∧ ¬ s.Removes text cid
  | _ => True

/-- The other connections that a message closes. -/
def Closes (s : Scheduler) (cid : ℕ) (m : Msg) (x : ℕ) : Prop :=
  match m with
  | .login login => (s.conn cid).state = .connected ∧ s.Stale cid login x
  | .text text => (s.conn cid).state = .loggedIn ∧ s.Removes text x
  | _ => False

structure Allowed (mode : Mode) (s : Scheduler) (cid : ℕ) (m : Msg) : Prop where
  domestic : mode.tame → s.Domestic cid m
  numbered : mode.numbered → s.Numbered cid m
  outlives : mode.strict → s.Outlives cid m

/-- Requests and finished jobs, which change more than `handle_end` does. -/
def requests : Msg → Bool
  | .getCS _ | .jobDone _ => true
  | _ => false

/-! ## One message -/

section Acting

theorem Leaves.acted {t : Scheduler} {b : Bool} (h : Leaves mode (Closing lost cid b) s t)
    (hraw : s.Raw) (hstays : mode.strict → b = true → t.live cid = true) :
    Acted mode lost cid s (t, b) where
  facts := h.facts
  raw := hraw.kept h.loses.kinds.subset
  stays := hstays
  grown := (h.loses.mono fun _ hx => hx.imp_right And.left).grown
  known _ hk _ := h.loses.kinds.subset hk
  blacklists x hx y _ hy := h.loses.blacklists x hx y hy

theorem Served.acted {r : Scheduler × Bool} (h : Served mode lost cid s r) (hraw : s.Raw) :
    Acted mode lost cid s r := h.toLeaves.acted hraw h.stays

/-- What is left when the connection has been served, calm where it is told so -/
def Turned (mode : Mode) (lost : ℕ → Prop) (cid : ℕ) (m : Msg) (s : Scheduler)
    (r : Scheduler × Bool) : Prop :=
  Acted mode lost cid s r ∧
    (((s.conn cid).state = .loggedIn → requests m = false) → Calm mode s r.1)

theorem Handled.turned {m : Msg} {r : Scheduler × Bool} (h : Handled mode lost cid s r)
    (hraw : s.Raw) : Turned mode lost cid m s r := ⟨h.toServed.acted hraw, fun _ => h.calm⟩

theorem Served.turned {m : Msg} {r : Scheduler × Bool} (h : Served mode lost cid s r)
    (hraw : s.Raw) (hstate : (s.conn cid).state = .loggedIn) (hm : requests m = true) :
    Turned mode lost cid m s r :=
  ⟨h.acted hraw, fun hnot => by simp [hnot hstate] at hm⟩

theorem Peers.daemon_mem (h : Peers [] s) (hlive : s.live cid = true)
    (hstate : (s.conn cid).state = .loggedIn) (htype : (s.conn cid).type = .daemon) :
    cid ∈ s.css := by
  have hhome := (h.loggedIn _ (conn_kind_mem hlive) hstate).2 htype
  rw [Home, or_iff_left List.not_mem_nil] at hhome
  rwa [← conn_cid s cid]

theorem dispatch_turned (m : Msg) (h : Facts mode [] s) (hraw : s.Raw) (hlive : s.live cid = true)
    (hstate : (s.conn cid).state = .loggedIn) (hallowed : s.Allowed mode cid m)
    (hlost : ∀ x, s.Closes cid m x → lost x) (hself : mode.strict → ¬ lost cid) :
    Ends (tolerated mode) (Turned mode lost cid m s) (s.dispatch cid m) := by
  have hhandled : ∀ {x : Except Fault (Scheduler × Bool)},
      Ends (tolerated mode) (Handled mode lost cid s) x →
      Ends (tolerated mode) (Turned mode lost cid m s) x :=
    fun hx => hx.mono fun _ hr => hr.turned hraw
  have hstrict : mode.strict → s.live cid = true := fun _ => hlive
  cases m with
  | jobBegin m => exact hhandled (handleJobBegin_handled m h hstrict)
  | jobDone m =>
    have hserved : Ends (tolerated mode) (Served mode lost cid s) (s.handleJobDone cid m) :=
      handleJobDone_served m h hstrict
    exact hserved.mono fun r hr => hr.turned hraw hstate rfl
  | ping => exact hhandled (handlePing_handled h hstrict)
  | stats m => exact hhandled (handleStats_handled m h hstrict)
  | jobLocalBegin m =>
    exact hhandled (handleLocalJob_handled m h hstrict fun hs => hallowed.outlives hs hstate)
  | jobLocalDone id =>
    exact hhandled (handleLocalJobDone_handled id h hstrict fun hs => hallowed.outlives hs hstate)
  | login m => exact hhandled (handleRelogin_handled m h hstrict)
  | text text =>
    refine hhandled (handleLine_handled h hstrict (fun hs => ⟨?_, hself hs⟩) fun x hx => ?_)
    · have hkeep := (hallowed.outlives hs hstate).1
      exact hkeep.imp_right fun hnone x hx => hnone x hx.2.1 hx
    · exact hlost x ⟨hstate, hx⟩
  | getCS m =>
    have hserved : Ends (tolerated mode) (Served mode lost cid s) (s.handleCsRequest cid m) := by
      refine handleCsRequest_served m h hstrict (fun htame hcount => ?_) fun hnumbered => ?_
      · exact h.peers.daemon_mem hlive hstate (hallowed.domestic htame hstate hcount)
      · exact hallowed.numbered hnumbered hstate
    exact hserved.mono fun r hr => hr.turned hraw hstate rfl
  | blacklistHostEnv m => exact hhandled (handleBlacklistHostEnv_handled m h hstrict)
  | _ => exact hhandled ((handleEnd_handled h hstrict).bind fun t ht => .pure ht)

theorem Turned.after {t : Scheduler} {m : Msg} {r : Scheduler × Bool} (hstill : Still s t)
    (h : Facts mode [] s) (hstate : (t.conn cid).state = (s.conn cid).state)
    (hturned : Turned mode lost cid m t r) : Turned mode lost cid m s r := by
  obtain ⟨hacted, hcalm⟩ := hturned
  have hgrown : Grown lost cid s t := (hstill.toLoses.mono fun _ hf => hf.elim).grown
  refine ⟨⟨hacted.facts, hacted.raw, hacted.stays, hgrown.trans hacted.grown, ?_, ?_⟩, fun hm => ?_⟩
  · intro k hk hcss
    exact hstill.all ▸ hacted.known k hk (hstill.same.symm ▸ hcss)
  · intro x hx y hy hyr
    have hyt : y ∈ t.css := hstill.same ▸ hy
    exact List.Subset.trans (hstill.blacklists x (hacted.grown.lives x hx) y hyt)
      (hacted.blacklists x hx y hyt hyr)
  · have hcalms : Calms mode lost s t := .aside hstill.toAside h
    exact hcalms.calm.trans (hcalm (hstate ▸ hm))

/-- The end of a connection that says nothing more -/
theorem handleActivity_ended (h : Facts mode [] s) (hlive : mode.strict → s.live cid = true) :
    Ends (tolerated mode) (fun r => Handled mode lost cid s r ∧ r.2 = false)
      (s.handleActivity cid none) := by
  unfold handleActivity
  refine (touch_ends hlive).bind fun _ _ => ?_
  have hnote : Still s (s.note (.received cid none)) := .note s rfl
  have hfacts := hnote.toAside.facts h
  have hend : Ends (tolerated mode)
      (fun t => Handled mode lost cid (s.note (.received cid none)) (t, false))
      ((s.note (.received cid none)).handleEnd cid) := handleEnd_handled hfacts hlive
  refine hend.bind fun t ht => .pure ⟨?_, rfl⟩
  exact .after (.aside hnote.toAside h) ht

theorem handleActivity_turned (m : Msg) (h : Facts mode [] s) (hraw : s.Raw)
    (hlive : mode.strict → s.live cid = true) (hallowed : s.Allowed mode cid m)
    (hlost : ∀ x, s.Closes cid m x → lost x) (hself : mode.strict → ¬ lost cid) :
    Ends (tolerated mode) (Turned mode lost cid m s) (s.handleActivity cid (some m)) := by
  unfold handleActivity
  refine (touch_ends hlive).bind fun _ hhere => ?_
  have hnote : Still s (s.note (.received cid (some m))) := .note s rfl
  have hfacts := hnote.toAside.facts h
  have hnoteraw : Raw (s.note (.received cid (some m))) := hraw
  refine .ite (fun hstate => ?_) fun hstate => ?_
  · refine (tryLogin_acted m hfacts hnoteraw hhere hstate (fun hstrict hm => ?_)
      fun login hm x hx => ?_).mono fun r hr => .after hnote h rfl ⟨hr.1, fun _ => hr.2⟩
    · subst hm
      exact hallowed.outlives hstrict hstate
    · subst hm
      exact hlost x ⟨hstate, hx⟩
  · have hlogged : (s.conn cid).state = .loggedIn := by
      cases hs : (s.conn cid).state with
      | connected => exact absurd hs hstate
      | loggedIn => rfl
    have hdispatch := dispatch_turned (s := s.note (.received cid (some m))) m hfacts hnoteraw
      hhere hlogged ⟨hallowed.domestic, hallowed.numbered, hallowed.outlives⟩ hlost hself
    exact hdispatch.mono fun r hr => .after hnote h rfl hr

end Acting

end Scheduler

end Icecream.IceccScheduler
