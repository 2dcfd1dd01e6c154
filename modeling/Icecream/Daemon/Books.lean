import Icecream.Daemon.Steps

/-!
# The daemon's books

The clients' records, the two tables of environments, the size of the cache and the
number of children. The helpers of the handlers touch none of these.
-/

namespace Icecream.Iceccd

open Icecream.Comm

/-- The log entries that do not say that a count has gone wrong -/
def Obs.plain : Obs → Bool
  | .assertionFailed .nativeSize | .assertionFailed .environmentSize
  | .assertionFailed .installDoneKids | .assertionFailed .finishKids
  | .assertionFailed .compileDoneKids => false
  | _ => true

namespace Daemon

variable (d : Daemon) (a : Assertion) (b : Bool)

@[simp] theorem require_clients : (d.require a b).clients = d.clients := by
  cases b <;> rfl

@[simp] theorem require_received :
    (d.require a b).receivedEnvironments = d.receivedEnvironments := by
  cases b <;> rfl

@[simp] theorem require_native : (d.require a b).nativeEnvironments = d.nativeEnvironments := by
  cases b <;> rfl

@[simp] theorem require_cacheSize : (d.require a b).cacheSize = d.cacheSize := by
  cases b <;> rfl

@[simp] theorem require_crashed : (d.require a b).crashed = d.crashed := by
  cases b <;> rfl

@[simp] theorem require_currentKids : (d.require a b).currentKids = d.currentKids := by
  cases b <;> rfl

variable {d a b}

theorem require_log {o : Obs} (h : o ∈ (d.require a b).log) :
    o ∈ d.log ∨ (o = .assertionFailed a ∧ b = false) := by
  cases b with
  | true => exact Or.inl h
  | false => exact (List.mem_cons.mp h).symm.imp_right fun heq => ⟨heq, rfl⟩

end Daemon

structure Still (d d' : Daemon) : Prop where
  list : d'.clients.list = d.clients.list
  received : d'.receivedEnvironments = d.receivedEnvironments
  native : d'.nativeEnvironments = d.nativeEnvironments
  cacheSize : d'.cacheSize = d.cacheSize
  currentKids : d'.currentKids = d.currentKids
  crashed : d.crashed → d'.crashed
  log : ∀ o ∈ d'.log, o ∈ d.log ∨ o.plain

namespace Still

variable {d d' d'' : Daemon}

theorem trans (h : Still d d') (h' : Still d' d'') : Still d d'' where
  list := h'.list.trans h.list
  received := h'.received.trans h.received
  native := h'.native.trans h.native
  cacheSize := h'.cacheSize.trans h.cacheSize
  currentKids := h'.currentKids.trans h.currentKids
  crashed hc := h'.crashed (h.crashed hc)
  log o ho := by
    rcases h'.log o ho with ho | ho
    · exact h.log o ho
    · exact Or.inr ho

theorem of_eq (hc : d'.clients.list = d.clients.list)
    (hr : d'.receivedEnvironments = d.receivedEnvironments)
    (hn : d'.nativeEnvironments = d.nativeEnvironments) (hs : d'.cacheSize = d.cacheSize)
    (hk : d'.currentKids = d.currentKids) (hx : d'.crashed = d.crashed) (hl : d'.log = d.log) :
    Still d d' :=
  ⟨hc, hr, hn, hs, hk, fun h => hx ▸ h, fun _ ho => Or.inl (hl ▸ ho)⟩

theorem entry {o : Obs} (ho : o.plain) (hl : d'.log = o :: d.log)
    (hc : d'.clients.list = d.clients.list)
    (hr : d'.receivedEnvironments = d.receivedEnvironments)
    (hn : d'.nativeEnvironments = d.nativeEnvironments) (hs : d'.cacheSize = d.cacheSize)
    (hk : d'.currentKids = d.currentKids) (hx : d'.crashed = d.crashed) : Still d d' where
  list := hc
  received := hr
  native := hn
  cacheSize := hs
  currentKids := hk
  crashed h := hx ▸ h
  log x hx := by
    rw [hl] at hx
    rcases List.mem_cons.mp hx with rfl | hx
    · exact Or.inr ho
    · exact Or.inl hx

theorem refl : Still d d := of_eq rfl rfl rfl rfl rfl rfl rfl

theorem ite {p : Prop} [Decidable p] {e e' : Daemon} (h : Still d e) (h' : Still d e') :
    Still d (if p then e else e') := by
  split
  · exact h
  · exact h'

theorem note (o : Obs) (ho : o.plain) : Still d (d.note o) :=
  entry ho rfl rfl rfl rfl rfl rfl rfl

theorem asked : Still d d.asked := of_eq rfl rfl rfl rfl rfl rfl rfl

theorem crash : Still d d.crash := ⟨rfl, rfl, rfl, rfl, rfl, fun _ => rfl, fun _ => Or.inl⟩

theorem require (a : Assertion) (b : Bool) (ha : (Obs.assertionFailed a).plain) :
    Still d (d.require a b) := by
  unfold Daemon.require
  exact ite refl (note _ ha)

/-- An assertion about a count, which holds -/
theorem holds (a : Assertion) {b : Bool} (hb : b) : Still d (d.require a b) := by
  rw [Daemon.require, if_pos hb]
  exact refl

theorem sendClient (c : Client) (m : Msg) : Still d (d.sendClient c m).1 :=
  asked.trans (note _ rfl)

theorem sendScheduler (m : Msg) : Still d (d.sendScheduler m).1 := by
  unfold Daemon.sendScheduler
  split
  · exact refl
  · split
    · exact asked.trans (note _ rfl)
    · exact (asked.trans (note _ rfl)).trans (of_eq rfl rfl rfl rfl rfl rfl rfl)

theorem makeDir (dirname : Str) (existsOk : Bool) : Still d (d.makeDir dirname existsOk).1 := by
  have hmade : Still d { (d.asked.note (.path .create dirname)) with
      disk := (d.disk.mkdir (Path.normalise dirname) (d.ask ≠ 0)).1 } :=
    entry rfl rfl rfl rfl rfl rfl rfl rfl
  unfold Daemon.makeDir
  dsimp only
  split
  · exact hmade.trans asked
  · exact hmade

theorem startInstallEnvironment (target name : Str) (next : Option Msg) :
    Still d (d.startInstallEnvironment target name next).1 := by
  unfold Daemon.startInstallEnvironment
  split
  · exact refl
  · split
    · dsimp only
      split
      · exact makeDir _ _
      · split
        · exact (makeDir _ _).trans (makeDir _ _)
        · exact ((makeDir _ _).trans (makeDir _ _)).trans asked
    · exact refl

theorem finalizeInstallEnvironment (target : Str) :
    Still d (d.finalizeInstallEnvironment target).1 :=
  entry rfl rfl rfl rfl rfl rfl rfl rfl

theorem removeEnvironmentFiles (env : Str) : Still d (d.removeEnvironmentFiles env) := by
  unfold Daemon.removeEnvironmentFiles
  exact ite asked (entry rfl rfl rfl rfl rfl rfl rfl rfl)

theorem removeNativeEnvironmentFiles (env : Str) :
    Still d (d.removeNativeEnvironmentFiles env) := by
  unfold Daemon.removeNativeEnvironmentFiles
  exact ite refl (ite (asked.trans (note _ rfl)) asked)

theorem verifyEnv (c : Client) (target env : Str) : Still d (d.verifyEnv c target env).1 := by
  have hcomplain : Still d
      (if 23 ≤ c.protocol then (d.sendClient c (.statusText [])).1 else d) :=
    ite (sendClient _ _) refl
  unfold Daemon.verifyEnv
  dsimp only
  split
  · exact hcomplain
  · split
    · exact hcomplain
    · exact (note _ rfl).trans asked

theorem handleConnection (job : CompileJob) : Still d (d.handleConnection job).1 := by
  unfold Daemon.handleConnection
  split
  · exact asked
  · dsimp only
    split
    · exact asked.trans (note _ rfl)
    · exact asked

theorem maybeStats (forceCheck : Bool) : Still d (d.maybeStats forceCheck).1 := by
  have hasked : Still d { d.asked.asked with lastStat := d.now } :=
    of_eq rfl rfl rfl rfl rfl rfl rfl
  unfold Daemon.maybeStats
  dsimp only
  split
  · split
    · split
      · exact hasked.trans (sendScheduler _)
      · exact (hasked.trans (sendScheduler _)).trans (of_eq rfl rfl rfl rfl rfl rfl rfl)
    · exact hasked.trans (of_eq rfl rfl rfl rfl rfl rfl rfl)
  · exact refl

theorem reannounceEnvironments : Still d d.reannounceEnvironments.1 := sendScheduler _

theorem release (n : UInt32) : Still d (d.release n) := by
  unfold Daemon.release
  split
  · exact entry rfl rfl rfl rfl rfl rfl rfl rfl
  · exact of_eq rfl rfl rfl rfl rfl rfl rfl

theorem reserve (n : UInt32) : Still d (d.reserve n) := of_eq rfl rfl rfl rfl rfl rfl rfl

theorem dropFd (fd : ℕ) : Still d (d.dropFd fd) := of_eq rfl rfl rfl rfl rfl rfl rfl

theorem reportEnd (c : Client) (x : Int32) : Still d (d.reportEnd c x) := by
  have hready : Still d ((if c.status = .waitForCS then
      (if c.status = .toCompile ∧ c.job.isNone then d.crash else d).require .endClientId
        (0 < c.clientId)
      else if c.status = .toCompile ∧ c.job.isNone then d.crash else d).requireEndStatus c) :=
    (ite ((ite crash refl).trans (require _ _ rfl)) (ite crash refl)).trans (require _ _ rfl)
  unfold Daemon.reportEnd
  dsimp only
  split
  · split
    · exact hready.trans (sendScheduler _)
    · exact hready
  · exact refl

theorem reconnect (found : Option (ℕ × Str)) : Still d (d.reconnect found) := by
  unfold Daemon.reconnect
  split
  · rename_i protocol name hs
    have hconnect : Still d (d.connect protocol name) :=
      entry (o := .connected) rfl rfl rfl rfl rfl rfl rfl rfl
    exact hconnect.trans (sendScheduler _)
  · exact refl

/-! ## The same change on both sides -/

theorem put (h : Still d d') (c : Client) : Still (d.put c) (d'.put c) :=
  { h with list := by simp only [Daemon.put, h.list] }

theorem erase (h : Still d d') (c : Client) : Still (d.erase c) (d'.erase c) :=
  { h with list := by simp only [Daemon.erase, h.list] }

theorem addKid (h : Still d d') : Still d.addKid d'.addKid :=
  { h with currentKids := by simp only [Daemon.addKid, h.currentKids] }

theorem dropKid (h : Still d d') : Still d.dropKid d'.dropKid :=
  { h with currentKids := by simp only [Daemon.dropKid, h.currentKids] }

/-- The same assertion on both sides, whether it holds or not -/
theorem required (h : Still d d') (a : Assertion) (b : Bool) :
    Still (d.require a b) (d'.require a b) := by
  unfold Daemon.require
  split
  · exact h
  · constructor
    · exact h.list
    · exact h.received
    · exact h.native
    · exact h.cacheSize
    · exact h.currentKids
    · exact h.crashed
    · intro o ho
      rcases List.mem_cons.mp ho with rfl | ho
      · exact Or.inl List.mem_cons_self
      · exact (h.log o ho).imp_left (List.mem_cons_of_mem _)

theorem killChild (h : Still d d') : Still d.killChild d'.killChild := by
  unfold Daemon.killChild
  rw [h.currentKids]
  exact (h.required _ _).dropKid

theorem setNative (h : Still d d') (key : Str) (env : NativeEnvironment) :
    Still (d.setNative key env) (d'.setNative key env) :=
  { h with native := by simp only [Daemon.setNative, h.native] }

end Still

/-! ## The end of a transfer and of a client -/

abbrev Client.Installing (c : Client) : Prop := c.status = .toInstall ∨ c.status = .waitInstall

namespace Daemon

variable {d d' : Daemon} {c : Client}

/-- The unpacking child of `c` is killed, if it has one. -/
def stopped (d : Daemon) (c : Client) : Daemon := if c.childPid then d.killChild else d

/-- A transfer is over; the cache is cut next. -/
def settled (d : Daemon) (c : Client) (cancel : Bool) : Daemon :=
  let r := (d.stopTransfer c cancel).settleFiles c.outfile cancel
  (r.1.put c.transferOver).addReceived c.outfile r.2

/-- The state and the key with which the end of `c` has the cache cut -/
def endCuts (d : Daemon) (c : Client) : List (Daemon × Str) :=
  if c.Installing then
    [(((d.note (.ended c.status c.jobId)).dropFd c.fd).settled c true, c.outfile)]
  else []

theorem stopTransfer_still (c : Client) (cancel : Bool) :
    Still (d.stopped c) (d.stopTransfer c cancel) := by
  have hasserts : ∀ b₁ b₂ b₃ b₄ b₅, Still d (((((d.require .finishOutfile b₁).require
      .finishStatus b₂).require .finishCancelFrom b₃).require .finishCancelTo b₄).require
      .finishCancelPid b₅) := fun b₁ b₂ b₃ b₄ b₅ =>
    ((((Still.require _ b₁ rfl).trans (.require _ b₂ rfl)).trans (.require _ b₃ rfl)).trans
      (.require _ b₄ rfl)).trans (.require _ b₅ rfl)
  unfold stopTransfer stopped
  dsimp only
  split
  · exact (hasserts _ _ _ _ _).killChild
  · exact hasserts _ _ _ _ _

theorem settled_cancelled (c : Client) :
    Still ((d.stopped c).put c.transferOver) (d.settled c true) := by
  have hfiles : Still (d.stopped c) ((d.stopTransfer c true).removeEnvironmentFiles c.outfile) :=
    (stopTransfer_still c true).trans (.removeEnvironmentFiles _)
  exact hfiles.put _

/-- What `finalize_install_environment` finds below the directory of `key` -/
def diskSize (d : Daemon) (key : Str) : UInt64 :=
  UInt64.ofNat (d.disk.sumupDir (Path.normalise (targetDir d.envbasedir key)))

/-- `size` bytes of a received environment are entered, last used at `t`. -/
def install (d : Daemon) (key : Str) (size : UInt64) (t : ℤ) : Daemon :=
  { d with
    cacheSize := d.cacheSize + size
    receivedEnvironments := d.receivedEnvironments.insert key { lastUse := t, size := size } }

theorem install_still (h : Still d d') (key : Str) (size : UInt64) (t : ℤ) :
    Still (d.install key size t) (d'.install key size t) :=
  { h with
    received := by simp only [install, h.received]
    cacheSize := by simp only [install, h.cacheSize] }

theorem sumupDir_mkdir (disk : Disk) (p q : List Path.Name) (permitted : Bool) :
    (disk.mkdir p permitted).1.sumupDir q = disk.sumupDir q := by
  unfold Disk.mkdir
  split
  · rfl
  · split
    · simp [Disk.sumupDir]
    · rfl

theorem finalizeInstallEnvironment_size (key : Str) :
    (d.finalizeInstallEnvironment key).2 = d.diskSize key := by
  simp only [finalizeInstallEnvironment, diskSize, sumupDir_mkdir]

theorem require_diskSize (a : Assertion) (b : Bool) (key : Str) :
    (d.require a b).diskSize key = d.diskSize key := by
  unfold require
  split <;> rfl

/-- Without a child, the end of a transfer enters what is found on the disk. -/
theorem settled_finished (hc : c.childPid = false) :
    (d.diskSize c.outfile = 0 ∧ Still (d.put c.transferOver) (d.settled c false)) ∨
      (d.diskSize c.outfile ≠ 0 ∧ ∃ t, Still
        ((d.put c.transferOver).install c.outfile (d.diskSize c.outfile) t)
        (d.settled c false)) := by
  have hstop : Still d (d.stopTransfer c false) := by
    have hstill := stopTransfer_still (d := d) c false
    rwa [stopped, hc] at hstill
  have hfinal := hstop.trans (.finalizeInstallEnvironment c.outfile)
  have hsize : (d.stopTransfer c false).diskSize c.outfile = d.diskSize c.outfile := by
    unfold stopTransfer
    simp only [hc, Bool.false_eq_true, if_false, require_diskSize]
  unfold settled settleFiles
  simp only [Bool.false_eq_true, if_false, finalizeInstallEnvironment_size, hsize]
  by_cases hzero : d.diskSize c.outfile = 0
  · left
    simp only [hzero, if_true, addReceived, ne_eq, not_true_eq_false, if_false, true_and]
    exact (hfinal.trans (.removeEnvironmentFiles _)).put _
  · right
    simp only [hzero, if_false, addReceived, ne_eq, not_false_eq_true, if_true, true_and,
      finalizeInstallEnvironment_size, hsize]
    exact ⟨_, install_still (hfinal.put _) _ _ _⟩

/-! ## Removals -/

/-- What the removal of a received environment does to the books -/
def forgetReceived (d : Daemon) (key : Str) : Daemon :=
  let env := (d.receivedEnvironments.lookup key).getD {}
  let d := d.require .environmentSize (env.size ≤ d.cacheSize)
  { d with
    cacheSize := d.cacheSize - env.size
    receivedEnvironments := d.receivedEnvironments.erase key }

def forgetNative (d : Daemon) (key : Str) : Daemon :=
  let env := (d.nativeEnvironments.lookup key).getD {}
  let d := d.require .nativeSize (env.size ≤ d.cacheSize)
  { d with
    cacheSize := d.cacheSize - env.size
    nativeEnvironments := d.nativeEnvironments.erase key }

theorem forgetReceived_still (h : Still d d') (key : Str) :
    Still (d.forgetReceived key) (d'.forgetReceived key) := by
  unfold forgetReceived
  rw [h.received, h.cacheSize]
  have hreq := h.required .environmentSize
    (((d.receivedEnvironments.lookup key).getD {}).size ≤ d.cacheSize)
  constructor
  · exact hreq.list
  · simp only [hreq.received]
  · exact hreq.native
  · simp only [hreq.cacheSize]
  · exact hreq.currentKids
  · exact hreq.crashed
  · exact hreq.log

theorem forgetNative_still (h : Still d d') (key : Str) :
    Still (d.forgetNative key) (d'.forgetNative key) := by
  unfold forgetNative
  rw [h.native, h.cacheSize]
  have hreq := h.required .nativeSize
    (((d.nativeEnvironments.lookup key).getD {}).size ≤ d.cacheSize)
  constructor
  · exact hreq.list
  · exact hreq.received
  · simp only [hreq.native]
  · simp only [hreq.cacheSize]
  · exact hreq.currentKids
  · exact hreq.crashed
  · exact hreq.log

theorem removeEnvironment_still (key : Str) :
    Still (d.forgetReceived key) (d.removeEnvironment key) :=
  forgetReceived_still ((Still.require .environmentKey _ rfl).trans (.removeEnvironmentFiles key))
    key

theorem removeNativeEnvironment_still (key : Str) :
    Still (d.forgetNative key) (d.removeNativeEnvironment key) :=
  forgetNative_still ((Still.require .nativeKey _ rfl).trans (.removeNativeEnvironmentFiles key))
    key

theorem forgetReceived_erase (key : Str) :
    Still ((d.erase c).forgetReceived key) ((d.forgetReceived key).erase c) := by
  unfold forgetReceived require
  by_cases hsize : ((d.receivedEnvironments.lookup key).getD {}).size ≤ d.cacheSize
  · simp only [erase, hsize, decide_true, if_true]
    exact .refl
  · simp only [erase, hsize, decide_false, Bool.false_eq_true, if_false]
    exact .of_eq rfl rfl rfl rfl rfl rfl rfl

theorem finishTransferEnv_still (c : Client) (cancel : Bool) :
    Still ((d.settled c cancel).checkCacheSize c.outfile) (d.finishTransferEnv c cancel).1 :=
  (Still.sendScheduler _).trans (.maybeStats _)

theorem handleEnd_plain (hc : ¬ c.Installing) (x : Int32) :
    Still (d.erase c) (d.handleEnd c x) := by
  have hnoted : Still d ((d.note (.ended c.status c.jobId)).dropFd c.fd) :=
    (Still.note _ rfl).trans (.dropFd _)
  unfold handleEnd
  simp only [if_neg hc]
  exact ((hnoted.trans (Still.ite (.release _) .refl)).erase c).trans (.reportEnd _ _)

theorem handleEnd_installing (hc : c.Installing) (x : Int32) :
    Still (((((d.note (.ended c.status c.jobId)).dropFd c.fd).settled c true).checkCacheSize
      c.outfile).erase c) (d.handleEnd c x) := by
  have hidle : c.transferOver.status ≠ .clientWork := by simp [Client.transferOver]
  unfold handleEnd
  simp only [if_pos hc, if_neg hidle]
  exact ((finishTransferEnv_still c true).erase c).trans (.reportEnd _ _)

theorem stopped_clients (c : Client) : (d.stopped c).clients = d.clients := by
  unfold stopped
  split
  · exact killChild_frame.clients
  · rfl

/-- What the end of a client keeps -/
theorem handleEnd_rule {I : Daemon → Prop} {x : Int32}
    (hstill : ∀ {d d' : Daemon}, Still d d' → I d → I d')
    (hplain : ¬ c.Installing → I (d.erase c))
    (hstop : c.Installing → ∀ n, Still d n → I ((n.stopped c).put c.transferOver))
    (hcut : ∀ p ∈ d.endCuts c, I p.1 → I (p.1.checkCacheSize p.2))
    (hover : ∀ n : Daemon, c.transferOver ∈ n.clients.list → I n → I (n.erase c.transferOver))
    (hc : c ∈ d.clients.list) : I (d.handleEnd c x) := by
  by_cases hinst : c.Installing
  · have hnoted : Still d ((d.note (.ended c.status c.jobId)).dropFd c.fd) :=
      (Still.note _ rfl).trans (.dropFd _)
    unfold endCuts at hcut
    rw [if_pos hinst] at hcut
    have hcut := hcut _ (List.mem_singleton_self _)
    have hend := handleEnd_installing (d := d) hinst x
    generalize (d.note (.ended c.status c.jobId)).dropFd c.fd = n at hnoted hcut hend
    have hsettled := settled_cancelled (d := n) c
    have hmem : c.transferOver ∈ ((n.settled c true).checkCacheSize c.outfile).clients.list := by
      rw [(checkCacheSize_frame _).clients, hsettled.list]
      have hstopped : c ∈ (n.stopped c).clients.list := by rwa [stopped_clients, hnoted.list]
      exact mem_put hstopped rfl
    exact hstill hend (hover _ hmem (hcut (hstill hsettled (hstop hinst n hnoted))))
  · exact hstill (handleEnd_plain hinst x) (hplain hinst)

end Daemon

end Icecream.Iceccd
