import Icecream.Daemon.Slots

/-!
# The job id of a client

A client has a job id only in the statuses that `handle_end` expects one in. Handlers
that set the status and leave the id break this, and so does an id taken unchecked.
-/

namespace Icecream.Iceccd

open Icecream.Comm

/-- What holds of one record. A client waiting for its native environment has no job, as
the environment's arrival sets its status. -/
structure Client.Fits (c : Client) : Prop where
  status : 0 < c.jobId.toInt32 → c.status.hasJob
  pending : c.pendingCreateEnv ≠ [] → ¬ 0 < c.jobId.toInt32

/-- The assertions that guard the bookkeeping of jobs. -/
def Assertion.guardsJob : Assertion → Bool
  | .endClientId | .endStatus | .jobDoneId | .compileFileClient => true
  | _ => false

/-- What the log may not say. -/
def Obs.Fits : Obs → Prop
  | .assertionFailed a => a.guardsJob = false
  | .ended status jobId => 0 < jobId.toInt32 → status.hasJob
  | _ => True

/-- The log of a daemon whose records of clients have always been consistent. -/
def Consistent (d : Daemon) : Prop := ∀ o ∈ d.log, o.Fits

structure Jobs (d : Daemon) : Prop where
  valid : Valid d
  fits : ∀ c ∈ d.clients.list, c.Fits
  consistent : Consistent d

namespace Jobs

variable {d d' e : Daemon} {c c₁ : Client} {A : Obs → Prop}

theorem aside_fits {o : Obs} (h : o.aside) : o.Fits := by
  cases o with
  | assertionFailed a =>
    have hno : a.guardsJob = false := by
      cases a <;> simp_all [Obs.aside, Assertion.guardsJob]
    exact hno
  | ended status jobId => simp [Obs.aside] at h
  | _ => trivial

theorem frame (hf : Frame A d d') (hA : ∀ o, A o → o.Fits) (h : Jobs d) : Jobs d' where
  valid := h.valid.frame hf
  fits := by
    rw [hf.clients]
    exact h.fits
  consistent := by
    obtain ⟨l, hl, hlA⟩ := hf.log
    intro o ho
    rw [hl] at ho
    rcases List.mem_append.mp ho with ho | ho
    · exact hA o (hlA o ho)
    · exact h.consistent o ho

theorem put (h : Jobs d) (hfits : c₁.Fits) : Jobs (d.put c₁) where
  valid := h.valid.put c₁
  fits x hx := by
    rcases Records.mem_replace.mp hx with ⟨rfl, -⟩ | ⟨hx, -⟩
    · exact hfits
    · exact h.fits x hx
  consistent := h.consistent

theorem put_jobless (h : Jobs d) (hjob : ¬ 0 < c₁.jobId.toInt32) : Jobs (d.put c₁) :=
  h.put ⟨fun hpos => absurd hpos hjob, fun _ => hjob⟩

theorem farewell_fits (hv : Valid d) (hc : c ∈ d.clients.list) (hfits : c.Fits) {o : Obs}
    (h : d.Farewell c o) : o.Fits := by
  rcases h with h | ⟨rfl, hzero⟩ | ⟨rfl, hpos, hbad⟩ | ⟨-, m, ok, rfl, -⟩
  · exact aside_fits h
  · have hbound := hv.bound c hc
    omega
  · have hgood := hfits.status hpos
    rw [hbad] at hgood
    simp at hgood
  · trivial

theorem leave (h : Jobs d) (hc : c ∈ d.clients.list) : Jobs (d.leave c) where
  valid := h.valid.leave c
  fits x hx := by
    apply h.fits
    rw [Daemon.leave_list] at hx
    exact (Records.mem_remove.mp hx).1
  consistent o ho := by
    have hended : (Obs.ended c.status c.jobId).Fits := (h.fits c hc).status
    obtain ⟨l, hl, hnew⟩ := Daemon.leave_log (d := d) c
    rw [hl] at ho
    rcases List.mem_append.mp ho with ho | ho
    · rcases hnew o ho with rfl | rfl
      · trivial
      · exact hended
    · exact h.consistent o ho

theorem release (h : Jobs d) (n : UInt32) : Jobs (d.release n) where
  valid := h.valid.of_eq rfl rfl fun hk => hk
  fits := h.fits
  consistent o ho := by
    obtain ⟨l, hl, hnew⟩ := Daemon.release_log (d := d) n
    rw [hl] at ho
    rcases List.mem_append.mp ho with ho | ho
    · rw [hnew o ho]
      trivial
    · exact h.consistent o ho

theorem stable : Stable Jobs where
  aside hf h := h.frame hf fun _ => aside_fits
  ended x _ hc h :=
    (h.leave hc).frame (Daemon.handleEnd_frame _ x) fun _ => farewell_fits h.valid hc (h.fits _ hc)

theorem jobless_of_status (h : c.Fits) (hs : c.status.hasJob = false) :
    ¬ 0 < c.jobId.toInt32 := by
  intro hpos
  have hgood := h.status hpos
  rw [hs] at hgood
  simp at hgood

theorem require (h : Jobs d) {a : Assertion} {b : Bool} (hb : b = false → a.guardsJob = false) :
    Jobs (d.require a b) := by
  have hreq : Frame Obs.Fits d (d.require a b) := .require hb
  exact h.frame hreq fun _ ho => ho

end Jobs

/-! ## Runs -/

/-- What client `c` may send in its status and with its job id. -/
def Daemon.allows (d : Daemon) (c : Client) : Msg → Bool
  | .getNativeEnv _ | .transferEnv _ | .jobLocalBegin _ => ¬ 0 < c.jobId.toInt32
  | .compileFile job => c.status = .clientWork → job.environmentVersion = str "__client"
  | .jobDone m => m.jobId = c.jobId
  | .getCS _ => d.scheduler.isNone → c.pendingCreateEnv = []
  | _ => true

/-- An event that keeps every client's job id with its status. -/
structure KeepsJobs (s : EventLoop) (e : Event) : Prop where
  message : ∀ p ∈ s.handles e, p.1.status ≠ .toInstall → s.daemon.allows p.1 p.2
  answer : ∀ c ∈ s.answered e, c.pendingCreateEnv = []
  compile : e = .oldRequest → ∀ c ∈ s.daemon.clients.list, s.daemon.StartsCompile c →
    ¬ 0 < c.jobId.toInt32

instance (d : Daemon) (c : Client) : Decidable (d.StartsCompile c) :=
  inferInstanceAs (Decidable (_ ∧ _ ∧ _ ∧ _ ∧ _))

instance (s : EventLoop) (e : Event) : Decidable (KeepsJobs s e) :=
  decidable_of_iff
    ((∀ p ∈ s.handles e, p.1.status ≠ .toInstall → s.daemon.allows p.1 p.2) ∧
      (∀ c ∈ s.answered e, c.pendingCreateEnv = []) ∧
      (e = .oldRequest → ∀ c ∈ s.daemon.clients.list, s.daemon.StartsCompile c →
        ¬ 0 < c.jobId.toInt32))
    ⟨fun ⟨h₁, h₂, h₃⟩ => ⟨h₁, h₂, h₃⟩, fun ⟨h₁, h₂, h₃⟩ => ⟨h₁, h₂, h₃⟩⟩

namespace Jobs

variable {d : Daemon} {c c₁ : Client} {s : EventLoop} {e : Event}

theorem zero_jobless : ¬ 0 < (0 : UInt32).toInt32 := by decide

theorem transferring_jobless (hR : c.Transferring c₁) (h : ¬ 0 < c.jobId.toInt32) :
    ¬ 0 < c₁.jobId.toInt32 := by
  rwa [hR.jobId]

theorem survives {m : Msg} (hfits : c.Fits) (hm : c.status ≠ .toInstall → d.allows c m) :
    Survives Jobs d c m where
  transfer hcase _ hR h := by
    apply h.put_jobless (transferring_jobless hR _)
    rcases hcase with hinst | ⟨hopen, r, rfl⟩
    · apply jobless_of_status hfits
      rw [hinst]
      rfl
    · simpa [Daemon.allows] using hm hopen
  create hm' hopen _ hR h := by
    subst hm'
    apply h.put_jobless
    rw [hR.jobId]
    simpa [Daemon.allows] using hm hopen
  environment hm' _ h := by
    subst hm'
    apply h.require
    intro hbad
    by_cases hopen : c.status = .toInstall
    · simp [hopen] at hbad
    · have hallowed := hm hopen
      simp only [Daemon.allows] at hallowed
      rw [hbad] at hallowed
      simp at hallowed
  compile hm' _ hR h := by
    apply h.put
    rcases hR with ⟨-, rfl⟩ | ⟨-, rfl⟩
    · exact ⟨hfits.status, hfits.pending⟩
    · exact ⟨fun _ => rfl, hfits.pending⟩
  ask hm' hopen _ hsched hR h := by
    subst hm'
    obtain ⟨-, -, -, hpending, hcase⟩ := hR
    apply h.put
    rcases hcase with ⟨-, hstatus, hjob⟩ | ⟨hnone, hstatus⟩
    · constructor
      · intro _
        rw [hstatus]
        rfl
      · rw [hpending, hjob]
        exact hfits.pending
    · constructor
      · intro _
        rw [hstatus]
        rfl
      · rw [hsched] at hnone
        have hallowed := hm hopen
        simp only [Daemon.allows, decide_eq_true_eq] at hallowed
        intro hne
        rw [hpending] at hne
        exact absurd (hallowed hnone) hne
  link hm' hopen _ h := by
    subst hm'
    apply h.put_jobless
    simpa [Daemon.allows] using hm hopen
  done {e r} hm' hopen _ _ h := by
    subst hm'
    have hid : r.jobId = c.jobId := by simpa [Daemon.allows] using hm hopen
    apply Jobs.frame (Daemon.handleJobDone_frame r)
    · rintro o (ho | ⟨-, n, ok, rfl⟩)
      · exact aside_fits ho
      · trivial
    · unfold Daemon.jobOver
      apply put_jobless _ zero_jobless
      apply require _ (by simp [hid])
      split
      · exact h.release _
      · exact h

theorem note (h : Jobs d) {o : Obs} (ho : o.Fits) : Jobs (d.note o) := by
  have hnote : Frame Obs.Fits d (d.note o) := .note ho
  exact h.frame hnote fun _ ho => ho

theorem working (h : Jobs d) (hfits : c.Fits) (n : UInt32) : Jobs (d.working c n) where
  valid := h.valid.working c n
  fits := by
    have hput : Jobs (d.put { c with status := .clientWork }) := h.put ⟨fun _ => rfl, hfits.pending⟩
    exact hput.fits
  consistent := h.consistent

theorem steps (hk : KeepsJobs s e) : Steps Jobs s e where
  stable := stable
  stray _ hf h := h.frame hf fun o ho => by simp [ho, Obs.Fits]
  reconnect {found} _ h := by
    rcases Daemon.reconnect_cases (d := s.daemon) found with heq | ⟨-, protocol, name, -, hf⟩
    · rwa [heq]
    · apply Jobs.frame hf fun _ => aside_fits
      have hnote : Jobs (s.daemon.note .connected) := h.note trivial
      exact ⟨Valid.of_eq h.valid rfl rfl fun hk => hk, h.fits, hnote.consistent⟩
  link _ hstart h := h.working (h.fits _ hstart.mem.1) _
  pending _ hstart h := h.working (h.fits _ hstart.mem.1) _
  compile {c} he hstart h := by
    have hjob : ¬ 0 < c.jobId.toInt32 := hk.compile he c hstart.mem.1 hstart
    exact h.put_jobless hjob
  message {c _} hm hc h := survives (h.fits c hc) (hk.message _ hm)
  heard _ h := h.note trivial
  assign {c} _ _ _ he hc hans hR h := by
    subst he
    have hpending : c.pendingCreateEnv = [] := hk.answer c hans.answered
    obtain ⟨-, -, -, hkept, hcase⟩ := hR
    apply h.put
    rcases hcase with ⟨-, hstatus | hstatus⟩ | ⟨hjob, hstatus⟩
    · exact ⟨fun _ => by rw [hstatus]; rfl, fun hne => absurd (hkept.trans hpending) hne⟩
    · exact ⟨fun _ => by rw [hstatus]; rfl, fun hne => absurd (hkept.trans hpending) hne⟩
    · have hfits := h.fits c hc
      constructor
      · rw [hjob, hstatus]
        exact hfits.status
      · rw [hjob, hkept]
        exact hfits.pending
  returned _ hf h := by
    apply h.frame hf
    rintro _ ⟨ok, rfl⟩
    trivial
  fresh hl h := by
    constructor
    · exact ⟨h.valid.nodup, by simp [hl], by simp, h.valid.keyed⟩
    · exact h.fits
    · exact h.consistent
  accept place fd protocol _ hid hplace h := by
    constructor
    · exact h.valid.accept place fd protocol hid hplace
    · intro x hx
      have hperm := List.perm_insertIdx
        ({ clientId := s.daemon.newClientId + 1, fd := fd, protocol := protocol } : Client)
        s.daemon.clients.list hplace
      rcases List.mem_cons.mp (hperm.mem_iff.mp hx) with rfl | hx
      · exact ⟨fun hpos => absurd hpos zero_jobless, fun hne => absurd rfl hne⟩
      · exact h.fits x hx
    · exact h.consistent
  compiled {c} hc _ h := by
    have hfits := h.fits c hc
    exact h.put ⟨hfits.status, hfits.pending⟩
  installed {c _} hc hinst hR h := by
    apply h.put_jobless (transferring_jobless hR _)
    apply jobless_of_status (h.fits c hc)
    rcases hinst with hinst | hinst <;> rw [hinst] <;> rfl
  created {_ c _ key _} _ hne _ _ hc hkey hR h := by
    apply h.put_jobless
    rw [hR.jobId]
    apply (h.fits c hc).pending
    rwa [hkey]

theorem init (h : s.Init) : Jobs s.daemon where
  valid := EventLoop.valid_init h
  fits := by simp [h.clients]
  consistent := by simp [Consistent, h.log]

/-- In a run that keeps every job id with its status, no guard of the bookkeeping fails. -/
theorem log_fits (h : EventLoop.system.Reaches KeepsJobs s) : Consistent s.daemon := by
  have hinv : Jobs s.daemon := by
    apply h.invariant
    · intro s hs
      exact init hs
    · intro s e t hinv hk hn
      exact (steps hk).step hinv.valid (EventLoop.next_step hn) hinv
  exact hinv.consistent

theorem log_fits_getCS : ∃ s, EventLoop.system.Reaches KeepsJobs s ∧
    .ended .pendingUseCS 1 ∈ s.daemon.log ∧ Consistent s.daemon := by
  have hrun : (EventLoop.system.run KeepsJobs (EventLoop.started (fun _ => 1) 4)
      ([.reconnect none] ++ EventLoop.polling 0 ++
        EventLoop.accepting 7 [.getCS { lang := 0 }, .endMsg])).map
      (fun s => decide (.ended .pendingUseCS 1 ∈ s.daemon.log)) = some true := by decide +kernel
  obtain ⟨s, hs, hended⟩ := Option.map_eq_some_iff.mp hrun
  have hreach := (Transition.System.Reaches.init (EventLoop.started_init _ 4)).run hs
  exact ⟨s, hreach, of_decide_eq_true hended, log_fits hreach⟩

/-- A client with a job begins a local job and leaves; another says that a job is done
that it does not have; a third sends a remote job while it is at work. -/
theorem log_misfits : [Obs.ended .linkJob 1, .assertionFailed .jobDoneId,
    .assertionFailed .compileFileClient].Forall
    fun o => ¬ o.Fits ∧ ∃ s, EventLoop.system.Reachable s ∧ o ∈ s.daemon.log := by
  have hreach : ∀ {es : List Event} {o : Obs}, (EventLoop.system.exec
      (EventLoop.started (fun _ => 1) 4) es).map (fun s => decide (o ∈ s.daemon.log)) = some true →
      ∃ s, EventLoop.system.Reachable s ∧ o ∈ s.daemon.log := by
    intro es o hrun
    obtain ⟨s, hs, ho⟩ := Option.map_eq_some_iff.mp hrun
    exact ⟨s, (Transition.System.Reaches.init (EventLoop.started_init _ 4)).exec
      (fun _ _ _ => trivial) hs, of_decide_eq_true ho⟩
  refine ⟨?_, ?_, ?_⟩
  · have hrun : (EventLoop.system.exec (EventLoop.started (fun _ => 1) 4)
        ([.reconnect none] ++ EventLoop.polling 0 ++
          EventLoop.accepting 7 [.getCS { lang := 0 }, .jobLocalBegin {}, .endMsg])).map
        (fun s => decide (.ended .linkJob 1 ∈ s.daemon.log)) = some true := by decide +kernel
    constructor
    · intro hfits
      exact absurd (hfits (by decide)) (by decide)
    · exact hreach hrun
  · have hrun : (EventLoop.system.exec (EventLoop.started (fun _ => 1) 4)
        ([.reconnect none] ++ EventLoop.polling 0 ++
          EventLoop.accepting 7 [.jobDone { jobId := 5, exitcode := 0, clientCount := 0 }])).map
        (fun s => decide (.assertionFailed .jobDoneId ∈ s.daemon.log)) = some true := by
      decide +kernel
    exact ⟨Bool.noConfusion, hreach hrun⟩
  · have hrun : (EventLoop.system.exec (EventLoop.started (fun _ => 1) 4)
        ([.reconnect none] ++ EventLoop.polling 0 ++
          EventLoop.accepting 7 [.getCS { lang := 0 }] ++ EventLoop.again ++ [.oldRequest] ++
          EventLoop.polling 1 ++ EventLoop.sending [.compileFile { language := 0 }])).map
        (fun s => decide (.assertionFailed .compileFileClient ∈ s.daemon.log)) = some true := by
      decide +kernel
    exact ⟨Bool.noConfusion, hreach hrun⟩

end Jobs

end Icecream.Iceccd
