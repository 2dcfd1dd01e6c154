import Icecream.Daemon.Frame

/-!
# What a handler does to its client

Every handler either changes the record of its client once or ends the client; the
rest is done by helpers. An invariant then has to be checked for these changes only.
-/

namespace Icecream.Iceccd

open Icecream.Comm

namespace Daemon

variable {d d' : Daemon} {A : Obs → Prop}

theorem put_put {c c' : Client} (h : c'.clientId = c.clientId) : (d.put c).put c' = d.put c' := by
  have hlist := Records.replace_replace (l := d.clients.list) h
  simp only [put, hlist]

theorem erase_put (c : Client) : (d.put c).erase c = d.erase c := by
  simp only [put, erase, Records.remove_replace]

theorem erase_congr {c c' : Client} (h : c'.clientId = c.clientId) : d.erase c' = d.erase c := by
  simp only [erase, h]

end Daemon

namespace Frame

variable {A : Obs → Prop} {d d' : Daemon}

theorem put (h : Frame A d d') (c : Client) : Frame A (d.put c) (d'.put c) where
  clients := by simp only [Daemon.put, h.clients]
  fd2client := h.fd2client
  newClientId := h.newClientId
  maxKids := h.maxKids
  scheduler := h.scheduler
  nativeKey := h.nativeKey
  log := h.log

theorem reserve (h : Frame A d d') (n : UInt32) : Frame A (d.reserve n) (d'.reserve n) where
  clients := by simp only [Daemon.reserve, h.clients]
  fd2client := h.fd2client
  newClientId := h.newClientId
  maxKids := h.maxKids
  scheduler := h.scheduler
  nativeKey := h.nativeKey
  log := h.log

theorem erase (h : Frame A d d') (c : Client) : Frame A (d.erase c) (d'.erase c) where
  clients := by simp only [Daemon.erase, h.clients]
  fd2client := h.fd2client
  newClientId := h.newClientId
  maxKids := h.maxKids
  scheduler := h.scheduler
  nativeKey := h.nativeKey
  log := h.log

end Frame

namespace Daemon

variable {d : Daemon}

theorem killChild_frame : Aside d d.killChild :=
  (Aside.require rfl).trans dropKid_frame

theorem stopTransfer_frame (c : Client) (cancel : Bool) : Aside d (d.stopTransfer c cancel) := by
  unfold stopTransfer
  dsimp only
  have hasserts : ∀ b₁ b₂ b₃ b₄ b₅, Aside d (((((d.require .finishOutfile b₁).require
      .finishStatus b₂).require .finishCancelFrom b₃).require .finishCancelTo b₄).require
      .finishCancelPid b₅) := by
    intro b₁ b₂ b₃ b₄ b₅
    exact ((((Aside.require rfl).required rfl).required rfl).required rfl).required rfl
  split
  · exact (hasserts _ _ _ _ _).trans killChild_frame
  · exact hasserts _ _ _ _ _

theorem settleFiles_frame (outfile : Str) (cancel : Bool) :
    Aside d (d.settleFiles outfile cancel).1 := by
  have hsettled : ∀ r : Daemon × UInt64, Aside d r.1 →
      Aside d (if r.2 = 0 then (r.1.removeEnvironmentFiles outfile, 0) else r).1 := by
    intro r hr
    split
    · exact hr.trans (removeEnvironmentFiles_frame _)
    · exact hr
  apply hsettled
  split
  · exact .refl
  · exact finalizeInstallEnvironment_frame _

theorem addReceived_frame (key : Str) (size : UInt64) : Aside d (d.addReceived key size) := by
  unfold addReceived
  split
  · exact Aside.same rfl rfl rfl rfl rfl rfl rfl
  · exact .refl

theorem announceCache_frame (key : Str) : Aside d (d.announceCache key).1 :=
  ((checkCacheSize_frame _).trans reannounceEnvironments_frame).trans (maybeStats_frame _)

theorem finishTransferEnv_frame (c : Client) (cancel : Bool) :
    Aside (d.put c.transferOver) (d.finishTransferEnv c cancel).1 := by
  have hfiles := (stopTransfer_frame (d := d) c cancel).trans (settleFiles_frame c.outfile cancel)
  exact ((hfiles.put _).trans (addReceived_frame _ _)).trans (announceCache_frame _)

/-! ## The end of a client -/

/-- The client's record is gone and its share of the slots given back. -/
def leave (d : Daemon) (c : Client) : Daemon :=
  let d := (d.note (.ended c.status c.jobId)).dropFd c.fd
  (if c.status = .clientWork then d.release (d.weight c) else d).erase c

/-- The submitter says that a job is over, and gives its id. -/
def submitterKnows (m : JobDoneMsg) : Bool :=
  ¬ m.isFromServer ∧ m.flags &&& JobDoneMsg.flagUnknownJobId = 0

/-- What the log may say about the end of `c`. -/
def Farewell (d : Daemon) (c : Client) (o : Obs) : Prop :=
  o.aside ∨ (o = .assertionFailed .endClientId ∧ c.clientId = 0) ∨
    (o = .assertionFailed .endStatus ∧ 0 < c.jobId.toInt32 ∧ c.status.hasJob = false) ∨
    (d.scheduler.isSome ∧ ∃ m ok, o = .toScheduler (.jobDone m) ok ∧
      (submitterKnows m → m.jobId = c.jobId ∧ c.jobId ≠ 0))

theorem goodbye_jobDone {c : Client} {x : Int32} {m : JobDoneMsg}
    (h : d.goodbye c x = some (.jobDone m)) (hm : submitterKnows m) :
    m.jobId = c.jobId ∧ c.jobId ≠ 0 := by
  unfold goodbye at h
  by_cases hid : 0 < c.endJobId.toInt32 ∨ c.status = .waitForCS
  · rw [if_pos hid] at h
    simp only [Option.some.injEq, Msg.jobDone.injEq] at h
    by_cases hwait : c.status = .waitForCS
    · -- the client id, marked as such
      rw [if_pos hwait] at h
      have hflag : c.endFlag = JobDoneMsg.fromSubmitter := by simp [Client.endFlag, hwait]
      rw [← h, hflag] at hm
      have hunknown : (1 ||| 2 : UInt32) &&& 2 ≠ 0 := by decide
      simp [submitterKnows, JobDoneMsg.setUnknownJobClientId, jobDoneMsg,
        JobDoneMsg.fromSubmitter, JobDoneMsg.flagUnknownJobId, hunknown] at hm
    · rw [if_neg hwait] at h
      by_cases hto : c.status = .toCompile
      · have hflag : c.endFlag = JobDoneMsg.fromServer := by simp [Client.endFlag, hto]
        rw [← h, hflag] at hm
        exact absurd hm (by simp [submitterKnows, jobDoneMsg, JobDoneMsg.isFromServer,
          JobDoneMsg.fromServer, JobDoneMsg.fromSubmitter])
      · have hend : c.endJobId = c.jobId := by simp [Client.endJobId, hto]
        have hpos : 0 < c.jobId.toInt32 := by
          rw [hend] at hid
          exact hid.resolve_right hwait
        constructor
        · rw [← h, hend]
          rfl
        · intro h0
          rw [h0] at hpos
          exact absurd hpos (by decide)
  · rw [if_neg hid] at h
    split at h <;> simp at h

theorem goodbye_message {c : Client} {x : Int32} {m : Msg} (h : d.goodbye c x = some m) :
    (∃ done, m = .jobDone done) ∨ ∃ id, m = .jobLocalDone id := by
  unfold goodbye at h
  by_cases hid : 0 < c.endJobId.toInt32 ∨ c.status = .waitForCS
  · rw [if_pos hid] at h
    exact Or.inl ⟨_, (Option.some.inj h).symm⟩
  · rw [if_neg hid] at h
    split at h
    · exact Or.inr ⟨_, (Option.some.inj h).symm⟩
    · simp at h

theorem reportEnd_frame (c : Client) (x : Int32) : Frame (Farewell d c) d (d.reportEnd c x) := by
  have haside : ∀ {e : Daemon}, Aside d e → Frame (Farewell d c) d e :=
    fun h => h.mono fun o ho => Or.inl ho
  have hcrash : Frame (Farewell d c) d
      (if c.status = .toCompile ∧ c.job.isNone then d.crash else d) :=
    .ite (fun _ => .crash) fun _ => .refl
  have hid : ∀ e : Daemon, Frame (Farewell d c) d e → Frame (Farewell d c) d
      (if c.status = .waitForCS then e.require .endClientId (0 < c.clientId) else e) := by
    intro e he
    apply Frame.ite
    · intro _
      apply he.trans
      apply Frame.require
      intro hzero
      right; left
      exact ⟨rfl, by simpa using hzero⟩
    · intro _
      exact he
  have hstatus : ∀ e : Daemon, Frame (Farewell d c) d e →
      Frame (Farewell d c) d (e.requireEndStatus c) := by
    intro e he
    apply he.trans
    apply Frame.require
    intro hbad
    right; right; left
    simpa using hbad
  unfold reportEnd
  split
  · dsimp only
    have hready := hstatus _ (hid _ hcrash)
    split
    · rename_i m hm
      apply hready.trans
      apply (sendScheduler_frame m).mono
      rintro o ⟨hs, ok, rfl⟩
      rcases goodbye_message hm with ⟨done, rfl⟩ | ⟨id, rfl⟩
      · right; right; right
        exact ⟨hready.scheduler hs, done, ok, rfl, goodbye_jobDone hm⟩
      · exact Or.inl rfl
    · exact hready
  · exact .refl

theorem Farewell.mono {d' : Daemon} {c c' : Client} {o : Obs} (h : Farewell d' c' o)
    (hs : d'.scheduler.isSome → d.scheduler.isSome) (hid : c'.clientId = c.clientId)
    (hjob : c'.jobId = c.jobId ∨ c'.jobId = 0)
    (hstatus : c'.status.hasJob = false → c.status.hasJob = false) : Farewell d c o := by
  rcases h with h | ⟨rfl, hzero⟩ | ⟨rfl, hpos, hbad⟩ | ⟨hsome, m, ok, rfl, hm⟩
  · exact Or.inl h
  · right; left
    exact ⟨rfl, hid ▸ hzero⟩
  · right; right; left
    rcases hjob with hjob | hjob
    · exact ⟨rfl, hjob ▸ hpos, hstatus hbad⟩
    · rw [hjob] at hpos
      exact absurd hpos (by decide)
  · right; right; right
    refine ⟨hs hsome, m, ok, rfl, fun hk => ?_⟩
    obtain ⟨hm, hne⟩ := hm hk
    rcases hjob with hjob | hjob
    · exact ⟨hm.trans hjob, hjob ▸ hne⟩
    · exact absurd hjob hne

/-- What is left of `handle_end` once a transfer is over. -/
theorem handleEnd_reported (e : Daemon) (c c' : Client) (he : Aside (d.leave c) (e.erase c))
    (hid : c'.clientId = c.clientId) (hjob : c'.jobId = c.jobId ∨ c'.jobId = 0)
    (hstatus : c'.status.hasJob = false → c.status.hasJob = false) (x : Int32) :
    Frame (Farewell d c) (d.leave c) ((e.erase c').reportEnd c' x) := by
  have herase : e.erase c' = e.erase c := erase_congr hid
  rw [herase]
  apply (he.mono fun o ho => Or.inl ho).trans
  apply (reportEnd_frame c' x).mono
  intro o ho
  apply ho.mono _ hid hjob hstatus
  intro hs
  have hleft : (d.leave c).scheduler = d.scheduler := by
    unfold leave
    split <;> rfl
  rw [← hleft]
  exact he.scheduler hs

theorem closed_jobId (c : Client) (x : Int32) : (c.closed x).jobId = c.jobId ∨ (c.closed x).jobId = 0 := by
  unfold Client.closed
  dsimp only
  split
  · exact Or.inr rfl
  · exact Or.inl rfl

theorem handleEnd_frame (c : Client) (x : Int32) :
    Frame (Farewell d c) (d.leave c) (d.handleEnd c x) := by
  unfold handleEnd
  dsimp only
  by_cases hinst : c.status = .toInstall ∨ c.status = .waitInstall
  · have hwork : c.status ≠ .clientWork := by
      rcases hinst with h | h <;> simp [h]
    have hnone : c.status.hasJob = false := by
      rcases hinst with h | h <;> simp [h, Status.hasJob]
    have hnever : c.transferOver.status ≠ .clientWork := by simp [Client.transferOver]
    simp only [if_pos hinst, if_neg hnever]
    apply handleEnd_reported _ c (c.transferOver.closed x) _ rfl (closed_jobId c.transferOver x) fun _ => hnone
    have hfiles := (finishTransferEnv_frame
      (d := (d.note (.ended c.status c.jobId)).dropFd c.fd) c true).erase c.transferOver
    rw [erase_put] at hfiles
    rw [leave, if_neg hwork]
    have hstart : Aside (((d.note (.ended c.status c.jobId)).dropFd c.fd).erase c)
        (((d.note (.ended c.status c.jobId)).dropFd c.fd).erase c.transferOver) :=
      Aside.same rfl rfl rfl rfl rfl rfl rfl
    exact hstart.trans hfiles
  · simp only [if_neg hinst]
    apply handleEnd_reported _ c (c.closed x) _ rfl (closed_jobId c x) fun h => h
    unfold leave
    dsimp only
    split
    · exact Aside.same rfl rfl rfl rfl rfl rfl rfl
    · exact Aside.same rfl rfl rfl rfl rfl rfl rfl

end Daemon

/-! ## One change of a record -/

/-- What a handler of client `c` can come to, when `R` says how it may change the record. -/
inductive Outcome (R : Client → Prop) (d : Daemon) (c : Client) : Daemon → Prop
  | kept {d₁ : Daemon} : Aside d d₁ → Outcome R d c d₁
  | ended {d₁ : Daemon} (x : Int32) : Aside d d₁ → Outcome R d c (d₁.handleEnd c x)
  | changed {c₁ : Client} {d₁ : Daemon} : Aside (d.put c₁) d₁ → R c₁ → Outcome R d c d₁
  | changedEnded {c₁ : Client} {d₁ : Daemon} (x : Int32) :
      Aside (d.put c₁) d₁ → R c₁ → Outcome R d c (d₁.handleEnd c₁ x)

namespace Outcome

variable {R R' : Client → Prop} {d d' e : Daemon} {c c' : Client}

theorem after (h : Aside d e) (ho : Outcome R e c d') : Outcome R d c d' := by
  cases ho with
  | kept h' => exact .kept (h.trans h')
  | ended x h' => exact .ended x (h.trans h')
  | changed h' hR => exact .changed ((h.put _).trans h') hR
  | changedEnded x h' hR => exact .changedEnded x ((h.put _).trans h') hR

theorem mono (ho : Outcome R d c d') (hRR : ∀ c₁, R c₁ → R' c₁) : Outcome R' d c d' := by
  cases ho with
  | kept h => exact .kept h
  | ended x h => exact .ended x h
  | changed h hR => exact .changed h (hRR _ hR)
  | changedEnded x h hR => exact .changedEnded x h (hRR _ hR)

/-- The record had been put already when a second function went on with it. -/
theorem ofPut (ho : Outcome R (d.put c') c' d') (hc' : R c')
    (hid : ∀ c₁, R c₁ → c₁.clientId = c'.clientId) : Outcome R d c d' := by
  cases ho with
  | kept h => exact .changed h hc'
  | ended x h => exact .changedEnded x h hc'
  | changed h hR =>
    rw [Daemon.put_put (hid _ hR)] at h
    exact .changed h hR
  | changedEnded x h hR =>
    rw [Daemon.put_put (hid _ hR)] at h
    exact .changedEnded x h hR

end Outcome

/-- Where a transfer takes its client's record. -/
structure Client.Transferring (c c₁ : Client) : Prop where
  clientId : c₁.clientId = c.clientId
  fd : c₁.fd = c.fd
  jobId : c₁.jobId = c.jobId
  fulljob : c₁.fulljob = c.fulljob
  pending : c₁.pendingCreateEnv = c.pendingCreateEnv
  status : c₁.status = .toInstall ∨ c₁.status = .waitInstall ∨ c₁.status = .unknown

/-- Where a request for the native environment takes its client's record. -/
structure Client.Creating (c c₁ : Client) : Prop where
  clientId : c₁.clientId = c.clientId
  fd : c₁.fd = c.fd
  jobId : c₁.jobId = c.jobId
  fulljob : c₁.fulljob = c.fulljob
  status : c₁.status = .waitCreateEnv ∨ (c₁.status = .gotNative ∧ c₁.pendingCreateEnv = [])

namespace Daemon

variable {d : Daemon} {c : Client}

theorem finishTransferEnv_put {c' : Client} (cancel : Bool) :
    Aside (d.put c'.transferOver) ((d.put c').finishTransferEnv c' cancel).1 := by
  have hframe := finishTransferEnv_frame (d := d.put c') c' cancel
  have hput : (d.put c').put c'.transferOver = d.put c'.transferOver := put_put rfl
  rwa [hput] at hframe

theorem requireChunk_frame : Aside d (d.requireChunk c) :=
  (Aside.require rfl).required rfl

theorem handleFileChunkEnv_outcome (m : Msg) :
    Outcome c.Transferring d c (d.handleFileChunkEnv c m).1 := by
  unfold handleFileChunkEnv
  dsimp only
  apply Outcome.after (requireChunk_frame (c := c))
  split
  · split
    · exact .kept .asked
    · exact .ended 137 .asked
  · split
    · exact .changed .refl ⟨rfl, rfl, rfl, rfl, rfl, .inr (.inl rfl)⟩
    · exact .changed (finishTransferEnv_put false) ⟨rfl, rfl, rfl, rfl, rfl, .inr (.inr rfl)⟩
  · exact .ended 138 .refl

theorem requireIdle_frame : Aside d (d.requireIdle c) :=
  (Aside.require rfl).required rfl

theorem handleTransferEnv_outcome (m : EnvTransferMsg) (next : Option Msg) :
    Outcome c.Transferring d c (d.handleTransferEnv c m next).1 := by
  unfold handleTransferEnv
  dsimp only
  have hstart := requireIdle_frame.trans (startInstallEnvironment_frame
    (d := d.requireIdle c) (d.transferTarget m) m.name next)
  apply Outcome.after hstart
  split
  · exact .ended 144 (removeEnvironmentFiles_frame _)
  · apply Outcome.after addKid_frame
    apply ((handleFileChunkEnv_outcome _).mono _).ofPut
    · exact ⟨rfl, rfl, rfl, rfl, rfl, .inl rfl⟩
    · exact fun c₁ h => h.clientId
    · exact fun c₁ h => ⟨h.clientId, h.fd, h.jobId, h.fulljob, h.pending, h.status⟩

theorem requireInstalling_frame : Aside d (d.requireInstalling c) :=
  (((Aside.require rfl).required rfl).required rfl).required rfl

theorem handleEnvInstallChildDone_outcome (success : Bool)
    (hc : c.status = .toInstall ∨ c.status = .waitInstall) :
    Outcome c.Transferring d c (d.handleEnvInstallChildDone c success).1 := by
  unfold handleEnvInstallChildDone
  dsimp only
  apply Outcome.after (requireInstalling_frame.trans dropKid_frame)
  split
  · exact .changed (finishTransferEnv_put true) ⟨rfl, rfl, rfl, rfl, rfl, .inr (.inr rfl)⟩
  · split
    · have hstatus : c.status = .toInstall ∨ c.status = .waitInstall ∨ c.status = .unknown :=
        hc.imp_right .inl
      exact .changed (Aside.require rfl) ⟨rfl, rfl, rfl, rfl, rfl, hstatus⟩
    · exact .changed (finishTransferEnv_put false) ⟨rfl, rfl, rfl, rfl, rfl, .inr (.inr rfl)⟩

end Daemon

end Icecream.Iceccd
