import Icecream.Daemon.Assignments

/-!
# The scheduler's channel

The pointer to the scheduler's channel is null once a send on it has failed. The loop
reads the scheduler's messages through it as long as the handlers report success.
-/

namespace Icecream.Iceccd

open Icecream.Comm

/-- From `d` to `d'` the scheduler is lost only if the system refuses something. -/
structure Holds (d d' : Daemon) : Prop where
  later : d.calls ≤ d'.calls
  host : d'.host = d.host
  scheduler : (∀ k < d'.calls, d.calls ≤ k → d.host.answer k ≠ 0) → d'.scheduler = d.scheduler

namespace Holds

variable {d d' d'' : Daemon}

theorem same (hs : d'.scheduler = d.scheduler) (hh : d'.host = d.host) (hc : d.calls ≤ d'.calls) :
    Holds d d' :=
  ⟨hc, hh, fun _ => hs⟩

theorem refl : Holds d d := same rfl rfl le_rfl

theorem trans (h : Holds d d') (h' : Holds d' d'') : Holds d d'' where
  later := h.later.trans h'.later
  host := h'.host.trans h.host
  scheduler hall := by
    have hfirst : d'.scheduler = d.scheduler := by
      apply h.scheduler
      intro k hk
      exact hall k (hk.trans_le h'.later)
    have hsecond : d''.scheduler = d'.scheduler := by
      apply h'.scheduler
      intro k hk hlow
      rw [h.host]
      exact hall k hk (h.later.trans hlow)
    exact hsecond.trans hfirst

theorem ite {p : Prop} [Decidable p] {e e' : Daemon} (h : p → Holds d e) (h' : ¬ p → Holds d e') :
    Holds d (if p then e else e') := by
  split
  · rename_i hp
    exact h hp
  · rename_i hp
    exact h' hp

theorem asked : Holds d d.asked := same rfl rfl (Nat.le_succ _)

theorem require {a : Assertion} {b : Bool} : Holds d (d.require a b) := by
  unfold Daemon.require
  split
  · exact refl
  · exact same rfl rfl le_rfl

theorem sendScheduler (m : Msg) : Holds d (d.sendScheduler m).1 := by
  unfold Daemon.sendScheduler
  split
  · exact refl
  · split
    · exact same rfl rfl (Nat.le_succ _)
    · rename_i hask
      exact ⟨Nat.le_succ _, rfl, fun hall => absurd (hall d.calls (Nat.lt_succ_self _) le_rfl) hask⟩

theorem removeEnvironmentFiles (env : Str) : Holds d (d.removeEnvironmentFiles env) := by
  unfold Daemon.removeEnvironmentFiles
  dsimp only
  split
  · exact asked
  · exact same rfl rfl (Nat.le_succ _)

theorem removeNativeEnvironmentFiles (env : Str) : Holds d (d.removeNativeEnvironmentFiles env) := by
  unfold Daemon.removeNativeEnvironmentFiles
  split
  · exact refl
  · split
    · exact same rfl rfl (Nat.le_succ _)
    · exact asked

theorem removeNativeEnvironment (key : Str) : Holds d (d.removeNativeEnvironment key) := by
  unfold Daemon.removeNativeEnvironment
  dsimp only
  have hfiles : ∀ b, Holds d (((d.require .nativeKey (key ≠ [])).removeNativeEnvironmentFiles
      key).require .nativeSize b) := fun b =>
    (require.trans (removeNativeEnvironmentFiles key)).trans require
  apply (hfiles _).trans
  exact same rfl rfl le_rfl

theorem removeEnvironment (key : Str) : Holds d (d.removeEnvironment key) := by
  unfold Daemon.removeEnvironment
  dsimp only
  have hfiles : ∀ b, Holds d (((d.require .environmentKey (key ≠ [])).removeEnvironmentFiles
      key).require .environmentSize b) := fun b =>
    (require.trans (removeEnvironmentFiles key)).trans require
  apply (hfiles _).trans
  exact same rfl rfl le_rfl

theorem evict (now : ℤ) (newEnv : Str) : Holds d (d.evict now newEnv).1 := by
  unfold Daemon.evict
  split
  · exact refl
  · dsimp only
    have hseen : ∀ (p : Prop) [Decidable p],
        Holds d (if p then (d.require .cacheJob false).crash else d).asked := by
      intro p _
      have hcrash : Holds d (d.require .cacheJob false).crash :=
        require.trans (same rfl rfl le_rfl)
      exact (ite (fun _ => hcrash) fun _ => refl).trans asked
    split
    · exact hseen _
    · split
      · exact (hseen _).trans (removeNativeEnvironment _)
      · exact (hseen _).trans (removeEnvironment _)

theorem checkCacheLoop (now : ℤ) (newEnv : Str) (fuel : ℕ) :
    Holds d (Daemon.checkCacheLoop now newEnv fuel d) := by
  induction fuel generalizing d with
  | zero => exact refl
  | succ fuel ih =>
    unfold Daemon.checkCacheLoop
    dsimp only
    split
    · exact (evict now newEnv).trans ih
    · exact evict now newEnv

theorem maybeStats (forceCheck : Bool) : Holds d (d.maybeStats forceCheck).1 := by
  unfold Daemon.maybeStats
  dsimp only
  split
  · have hstart : Holds d { d.asked.asked with lastStat := d.now } :=
      same rfl rfl (Nat.le_add_right _ 2)
    have hsent : ∀ m, Holds d
        (Daemon.sendScheduler { d.asked.asked with lastStat := d.now } (.stats m)).1 :=
      fun m => hstart.trans (sendScheduler _)
    split
    · split
      · exact hsent _
      · exact (hsent _).trans (same rfl rfl le_rfl)
    · exact hstart.trans (same rfl rfl le_rfl)
  · exact refl

theorem stopTransfer (c : Client) (cancel : Bool) : Holds d (d.stopTransfer c cancel) := by
  unfold Daemon.stopTransfer Daemon.killChild
  dsimp only
  have hasserts : ∀ b₁ b₂ b₃ b₄ b₅, Holds d (((((d.require .finishOutfile b₁).require
      .finishStatus b₂).require .finishCancelFrom b₃).require .finishCancelTo b₄).require
      .finishCancelPid b₅) := fun _ _ _ _ _ =>
    (((require.trans require).trans require).trans require).trans require
  split
  · exact ((hasserts _ _ _ _ _).trans require).trans (same rfl rfl le_rfl)
  · exact hasserts _ _ _ _ _

theorem settleFiles (outfile : Str) (cancel : Bool) : Holds d (d.settleFiles outfile cancel).1 := by
  unfold Daemon.settleFiles
  dsimp only
  have hsettled : ∀ r : Daemon × UInt64, Holds d r.1 →
      Holds d (if r.2 = 0 then (r.1.removeEnvironmentFiles outfile, 0) else r).1 := by
    intro r hr
    split
    · exact hr.trans (removeEnvironmentFiles _)
    · exact hr
  apply hsettled
  split
  · exact refl
  · exact same rfl rfl (Nat.le_succ _)

theorem addReceived (key : Str) (size : UInt64) : Holds d (d.addReceived key size) := by
  unfold Daemon.addReceived
  split
  · exact same rfl rfl le_rfl
  · exact refl

theorem announceCache (key : Str) : Holds d (d.announceCache key).1 :=
  ((checkCacheLoop _ _ _).trans (sendScheduler _)).trans (maybeStats _)

theorem put (c : Client) : Holds d (d.put c) := same rfl rfl le_rfl

theorem finishTransferEnv (c : Client) (cancel : Bool) : Holds d (d.finishTransferEnv c cancel).1 := by
  have hfiles := (stopTransfer (d := d) c cancel).trans (settleFiles c.outfile cancel)
  have hreceived := (hfiles.trans (put c.transferOver)).trans (addReceived c.outfile
    ((d.stopTransfer c cancel).settleFiles c.outfile cancel).2)
  exact hreceived.trans (announceCache _)

theorem reportEnd (c : Client) (x : Int32) : Holds d (d.reportEnd c x) := by
  have hcrash : Holds d (if c.status = .toCompile ∧ c.job.isNone then d.crash else d) :=
    ite (fun _ => same rfl rfl le_rfl) fun _ => refl
  have hid : ∀ e : Daemon, Holds d e → Holds d
      (if c.status = .waitForCS then e.require .endClientId (0 < c.clientId) else e) :=
    fun e he => ite (fun _ => he.trans require) fun _ => he
  unfold Daemon.reportEnd
  split
  · dsimp only
    have hready := (hid _ hcrash).trans (require (a := .endStatus)
      (b := (0 < c.jobId.toInt32 → c.status.hasJob)))
    split
    · exact hready.trans (sendScheduler _)
    · exact hready
  · exact refl

theorem handleEnd (c : Client) (x : Int32) : Holds d (d.handleEnd c x) := by
  unfold Daemon.handleEnd
  dsimp only
  have hnoted : Holds d ((d.note (.ended c.status c.jobId)).dropFd c.fd) := same rfl rfl le_rfl
  have hfinished : Holds d (if c.status = .toInstall ∨ c.status = .waitInstall then
      (Daemon.finishTransferEnv ((d.note (.ended c.status c.jobId)).dropFd c.fd) c true).1
      else (d.note (.ended c.status c.jobId)).dropFd c.fd) :=
    ite (fun _ => hnoted.trans (finishTransferEnv c true)) fun _ => hnoted
  have hreleased : ∀ (e : Daemon) (c : Client), Holds d e →
      Holds d (if c.status = .clientWork then e.release (e.weight c) else e) :=
    fun e c he => ite (fun _ => he.trans (same rfl rfl le_rfl)) fun _ => he
  have herased : ∀ (e : Daemon) (c : Client), Holds d e → Holds d (e.erase c) :=
    fun e c he => he.trans (same rfl rfl le_rfl)
  exact (herased _ _ (hreleased _ _ hfinished)).trans (reportEnd _ _)

end Holds

/-! ## The loop -/

namespace EventLoop

/-- Where the loop reads the scheduler's messages, there is a scheduler. -/
def ReadsOpen (s : EventLoop) : Prop :=
  ∀ fds pipes, s.phase = .scheduled true fds pipes → s.daemon.scheduler.isSome

/-- A UseCS that is passed on to its client. -/
def forwarded (s : EventLoop) : Event → Option UseCSMsg
  | .schedulerMsg (some (.useCS m)) =>
    if (s.daemon.clients.findByClientId m.clientId).isSome ∧
        ¬ (m.hostname = s.daemon.remoteName ∧ m.port = s.daemon.daemonPort) then some m
    else none
  | _ => none

/-- When a UseCS cannot be passed on, the system refuses nothing else that the end of its
client asks for. -/
def KeepsChannel (s : EventLoop) (e : Event) : Prop :=
  ∀ m ∈ s.forwarded e, s.daemon.ask ≠ 0 ∨
    ∀ k < (s.daemon.handleScheduler (.useCS m)).1.calls,
      s.daemon.calls < k → s.daemon.host.answer k ≠ 0

instance (s : EventLoop) (e : Event) : Decidable (KeepsChannel s e) :=
  inferInstanceAs (Decidable (∀ m ∈ s.forwarded e, _))

end EventLoop

namespace Daemon

variable {d : Daemon} {c : Client}

theorem sendScheduler_isSome {m : Msg} (h : (d.sendScheduler m).2 = true) :
    (d.sendScheduler m).1.scheduler.isSome := by
  unfold sendScheduler at h ⊢
  split at h
  · simp at h
  · rename_i hs
    rw [if_neg hs]
    split at h
    · rename_i hask
      rw [if_pos hask]
      simpa [Option.isSome_iff_ne_none, note, asked] using hs
    · simp at h

theorem schedulerUseCS_isSome {m : UseCSMsg} (hs : d.scheduler.isSome)
    (hforward : (d.clients.findByClientId m.clientId).isSome →
      ¬ (m.hostname = d.remoteName ∧ m.port = d.daemonPort) →
      d.ask ≠ 0 ∨ ∀ k < (d.schedulerUseCS m).1.calls, d.calls < k → d.host.answer k ≠ 0)
    (h : (d.schedulerUseCS m).2 = true) : (d.schedulerUseCS m).1.scheduler.isSome := by
  unfold schedulerUseCS at h hforward ⊢
  cases hfind : d.clients.findByClientId m.clientId with
  | none =>
    simp only [hfind] at h ⊢
    exact sendScheduler_isSome h
  | some c =>
    simp only [hfind] at hforward ⊢
    by_cases hlocal : m.hostname = d.remoteName ∧ m.port = d.daemonPort
    · rw [if_pos hlocal]
      exact hs
    · rw [if_neg hlocal] at hforward ⊢
      generalize { c with usecsmsg := some ⟨m.jobId, m.hostname, m.port, m.hostPlatform, 1, 1,
        m.matchedJobId⟩ } = c₁ at hforward ⊢
      by_cases hsent : ((d.put c₁).sendClient c₁ (.useCS m)).2 = true
      · rw [if_pos hsent]
        exact hs
      · rw [if_neg hsent] at hforward ⊢
        -- the client ends, and what its end sends to the scheduler goes out
        have hask : d.ask = 0 := by
          by_contra hne
          exact hsent (decide_eq_true hne)
        have hcalm := (hforward rfl hlocal).resolve_left (not_not.mpr hask)
        have hkept := (Holds.handleEnd (d := ((d.put c₁).sendClient c₁ (.useCS m)).1)
          c₁ 143).scheduler fun k hk hlow => hcalm k hk hlow
        rw [hkept]
        exact hs

theorem handleScheduler_isSome {m : Msg} (hs : d.scheduler.isSome)
    (hforward : ∀ r, m = .useCS r → (d.clients.findByClientId r.clientId).isSome →
      ¬ (r.hostname = d.remoteName ∧ r.port = d.daemonPort) →
      d.ask ≠ 0 ∨ ∀ k < (d.handleScheduler (.useCS r)).1.calls, d.calls < k → d.host.answer k ≠ 0)
    (h : (d.handleScheduler m).2 = true) : (d.handleScheduler m).1.scheduler.isSome := by
  unfold handleScheduler at h ⊢
  have hnoted : (d.note (.fromScheduler m)).scheduler.isSome := hs
  cases m with
  | ping =>
    dsimp only at h ⊢
    split
    · rename_i hold
      rw [if_pos hold] at h
      exact sendScheduler_isSome h
    · exact hnoted
  | useCS m => exact schedulerUseCS_isSome hnoted (fun hc hl => hforward m rfl hc hl) h
  | noCS m =>
    dsimp only at h ⊢
    unfold schedulerNoCS at h ⊢
    split
    · rename_i hnone
      simp only [hnone] at h
      exact sendScheduler_isSome h
    · exact hnoted
  | getInternals => exact sendScheduler_isSome h
  | csConf m => exact hnoted
  | _ => simp at h

end Daemon

namespace EventLoop

variable {s t : EventLoop} {e : Event}

/-- How the loop comes to read from the scheduler. -/
theorem scheduled_step (hs : step s e = some t) {fds pipes : List ℕ}
    (hphase : t.phase = .scheduled true fds pipes) :
    t.daemon.scheduler.isSome ∨
      (s.phase = .scheduled true fds pipes ∧ t.daemon.scheduler = s.daemon.scheduler) ∨
      ∃ m, e = .schedulerMsg (some m) ∧ s.phase = .scheduled true fds pipes ∧
        (s.daemon.handleScheduler m).2 = true ∧
        t.daemon.scheduler = (s.daemon.handleScheduler m).1.scheduler := by
  cases step_leads hs with
  | pollReady =>
    simp only [Phase.scheduled.injEq] at hphase
    exact Or.inl hphase.1
  | schedulerLost hsched hok | schedulerMsg hsched hok =>
    exact Or.inr (Or.inr ⟨_, rfl, hsched.trans hphase, hok, rfl⟩)
  | unpack => exact Or.inr (Or.inl ⟨hphase, rfl⟩)
  | listed | handled =>
    obtain ⟨_, _, hcollecting⟩ := collected_phase _ _ _ _ _ _ _
    rw [hcollecting] at hphase
    cases hphase
  | greeted | clientMsg =>
    rcases afterActivity_phase _ _ _ _ with ⟨h, -⟩ | h
    · rw [h] at hphase
      cases hphase
    · rw [h] at hphase
      cases hphase
  | installDone =>
    dsimp only at hphase
    split at hphase <;> cases hphase
  | _ => cases hphase

theorem readsOpen_step (h : s.ReadsOpen) (hk : KeepsChannel s e) (hs : step s e = some t) :
    t.ReadsOpen := by
  intro fds pipes hphase
  rcases scheduled_step hs hphase with hsome | ⟨hsame, hsched⟩ | ⟨m, rfl, hsame, hok, hsched⟩
  · exact hsome
  · rw [hsched]
    exact h fds pipes hsame
  · rw [hsched]
    apply Daemon.handleScheduler_isSome (h fds pipes hsame) _ hok
    rintro r rfl hc hlocal
    exact hk r (if_pos ⟨hc, hlocal⟩)

/-- Where the loop of a run reads from the scheduler, no handler has closed its channel:
also after a step that the daemon does not survive. -/
theorem channel_open (h : system.Reaches KeepsChannel s) (hk : KeepsChannel s e)
    (hs : step s e = some t) : t.ReadsOpen := by
  have hinv : s.ReadsOpen := by
    apply h.invariant
    · intro s hs fds pipes hphase
      rw [hs.phase] at hphase
      simp at hphase
    · intro s e t hinv hk hn
      exact readsOpen_step hinv hk (next_step hn)
  exact readsOpen_step hinv hk hs

/-- A client of ours has asked the scheduler for a server and the loop is about to read. -/
def asking : List Event :=
  [.reconnect (some (45, str "h"))] ++ polling 0 ++ accepting 7 [.getCS { lang := 0 }] ++ again ++
    polling 1

def assigning : Event := .schedulerMsg (some (.useCS ⟨9, str "r", 10245, str "x", 1, 1, 0⟩))

theorem channel_open_forwardFails :
    ∃ t : EventLoop, t.daemon.clients.list = [] ∧ t.daemon.scheduler.isSome ∧ t.ReadsOpen := by
  -- only the send to the client fails
  have hrun : (system.run KeepsChannel (started (fun n => if n = 2 then 0 else 1) 4) asking).bind
      (fun s => if KeepsChannel s assigning then (step s assigning).map fun t =>
        (t.daemon.clients.list, t.daemon.scheduler.isSome) else none) = some ([], true) := by
    decide +kernel
  obtain ⟨s, hs, hstep⟩ := Option.bind_eq_some_iff.mp hrun
  split at hstep
  · rename_i hk
    obtain ⟨t, ht, hstate⟩ := Option.map_eq_some_iff.mp hstep
    obtain ⟨hclients, hsome⟩ := Prod.mk.inj hstate
    have hreach := (Transition.System.Reaches.init (started_init _ 4)).run hs
    exact ⟨t, hclients, hsome, channel_open hreach hk ht⟩
  · simp at hstep

/-- The send to the client fails and so does the one that tells the scheduler. -/
theorem channel_closed : ∃ s t, system.Reachable s ∧ step s assigning = some t ∧ ¬ t.ReadsOpen := by
  have hrun : (system.exec (started (fun n => if n < 2 then 1 else 0) 4) asking).bind
      (fun s => (step s assigning).map fun t => (t.phase, t.daemon.scheduler)) =
      some (.scheduled true [7] [], none) := by decide +kernel
  obtain ⟨s, hs, hstep⟩ := Option.bind_eq_some_iff.mp hrun
  obtain ⟨t, ht, hstate⟩ := Option.map_eq_some_iff.mp hstep
  obtain ⟨hphase, hnone⟩ := Prod.mk.inj hstate
  use s, t
  constructor
  · exact (Transition.System.Reaches.init (started_init _ 4)).exec (fun _ _ _ => trivial) hs
  constructor
  · exact ht
  · intro hopen
    have hsome := hopen _ _ hphase
    rw [hnone] at hsome
    simp at hsome

end EventLoop

end Icecream.Iceccd
