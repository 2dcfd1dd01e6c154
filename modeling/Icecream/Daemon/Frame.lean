import Icecream.Daemon.Loop

/-!
# What the helpers leave alone

Sending, the caches and the file system do not touch the clients' records. Each
handler is one change of its client's record with such steps around it.
-/

namespace Icecream.Iceccd

open Icecream.Comm

/-- The log entries that helpers make. -/
def Obs.aside : Obs → Bool
  | .toScheduler (.jobDone m) _ => m.isFromServer
  | .toScheduler _ _ | .toClient _ _ _ | .path _ _ | .unlinked _ => true
  | .assertionFailed .endClientId | .assertionFailed .endStatus
  | .assertionFailed .jobDoneId | .assertionFailed .compileFileClient => false
  | .assertionFailed _ => true
  | .connected | .fromScheduler _ | .ended _ _ | .wrapped | .readAfterFree => false

/-- The clients stay, and the log grows by entries in `A`. -/
structure Frame (A : Obs → Prop) (d d' : Daemon) : Prop where
  clients : d'.clients = d.clients
  fd2client : d'.fd2client = d.fd2client
  newClientId : d'.newClientId = d.newClientId
  maxKids : d'.maxKids = d.maxKids
  scheduler : d'.scheduler.isSome → d.scheduler.isSome
  nativeKey : [] ∈ d'.nativeEnvironments → [] ∈ d.nativeEnvironments
  log : ∃ l, d'.log = l ++ d.log ∧ ∀ o ∈ l, A o

namespace Frame

variable {A B : Obs → Prop} {d d' d'' : Daemon}

theorem trans (h : Frame A d d') (h' : Frame A d' d'') : Frame A d d'' := by
  obtain ⟨l, hl, hA⟩ := h.log
  obtain ⟨l', hl', hA'⟩ := h'.log
  constructor
  · exact h'.clients.trans h.clients
  · exact h'.fd2client.trans h.fd2client
  · exact h'.newClientId.trans h.newClientId
  · exact h'.maxKids.trans h.maxKids
  · exact fun hs => h.scheduler (h'.scheduler hs)
  · exact fun hk => h.nativeKey (h'.nativeKey hk)
  · use l' ++ l
    constructor
    · rw [hl', hl, List.append_assoc]
    · intro o ho
      rcases List.mem_append.mp ho with ho | ho
      · exact hA' o ho
      · exact hA o ho

theorem mono (h : Frame A d d') (hAB : ∀ o, A o → B o) : Frame B d d' := by
  obtain ⟨l, hl, hA⟩ := h.log
  exact { h with log := ⟨l, hl, fun o ho => hAB o (hA o ho)⟩ }

/-- Only fields that no frame speaks of have changed. -/
theorem of_eq (hc : d'.clients = d.clients) (hf : d'.fd2client = d.fd2client) (hn : d'.newClientId = d.newClientId)
    (hm : d'.maxKids = d.maxKids) (hs : d'.scheduler = d.scheduler)
    (he : d'.nativeEnvironments = d.nativeEnvironments) (hl : d'.log = d.log) : Frame A d d' where
  clients := hc
  fd2client := hf
  newClientId := hn
  maxKids := hm
  scheduler h := hs ▸ h
  nativeKey h := he ▸ h
  log := ⟨[], hl, by simp⟩

theorem refl : Frame A d d := of_eq rfl rfl rfl rfl rfl rfl rfl

theorem note {o : Obs} (ho : A o) : Frame A d (d.note o) where
  clients := rfl
  fd2client := rfl
  newClientId := rfl
  maxKids := rfl
  scheduler h := h
  nativeKey h := h
  log := ⟨[o], rfl, by simpa using ho⟩

theorem asked : Frame A d d.asked := of_eq rfl rfl rfl rfl rfl rfl rfl

theorem crash : Frame A d d.crash := of_eq rfl rfl rfl rfl rfl rfl rfl

theorem require {a : Assertion} {b : Bool} (ha : b = false → A (.assertionFailed a)) :
    Frame A d (d.require a b) := by
  unfold Daemon.require
  split
  · exact refl
  · rename_i h
    exact note (ha (by simpa using h))

theorem closeScheduler : Frame A d d.closeScheduler where
  clients := rfl
  fd2client := rfl
  newClientId := rfl
  maxKids := rfl
  scheduler h := absurd h (by simp [Daemon.closeScheduler])
  nativeKey h := h
  log := ⟨[], rfl, by simp⟩

theorem ite {p : Prop} [Decidable p] {e e' : Daemon} (h : p → Frame A d e)
    (h' : ¬ p → Frame A d e') : Frame A d (if p then e else e') := by
  split
  · rename_i hp
    exact h hp
  · rename_i hp
    exact h' hp

end Frame

/-- A step that only does what helpers do. -/
abbrev Aside (d d' : Daemon) : Prop := Frame (fun o => o.aside) d d'

theorem Aside.same {d d' : Daemon} (hc : d'.clients = d.clients)
    (hf : d'.fd2client = d.fd2client) (hn : d'.newClientId = d.newClientId) (hm : d'.maxKids = d.maxKids)
    (hs : d'.scheduler = d.scheduler) (he : d'.nativeEnvironments = d.nativeEnvironments)
    (hl : d'.log = d.log) : Aside d d' :=
  Frame.of_eq hc hf hn hm hs he hl

/-- One entry is made, and only fields that no frame speaks of have changed. -/
theorem Aside.entry {d d' : Daemon} {o : Obs} (hl : d'.log = o :: d.log) (ho : o.aside)
    (hc : d'.clients = d.clients) (hf : d'.fd2client = d.fd2client)
    (hn : d'.newClientId = d.newClientId) (hm : d'.maxKids = d.maxKids) (hs : d'.scheduler = d.scheduler)
    (he : d'.nativeEnvironments = d.nativeEnvironments) : Aside d d' where
  clients := hc
  fd2client := hf
  newClientId := hn
  maxKids := hm
  scheduler h := hs ▸ h
  nativeKey h := he ▸ h
  log := ⟨[o], hl, by simpa using ho⟩

/-- Nothing happens but that memory may be read after it was freed. -/
abbrev Stray (d d' : Daemon) : Prop := Frame (fun o => o = .readAfterFree) d d'

theorem Stray.read {d : Daemon} : Stray d (d.note .readAfterFree) := Frame.note rfl

theorem Aside.require {d : Daemon} {a : Assertion} {b : Bool}
    (ha : (Obs.assertionFailed a).aside) : Aside d (d.require a b) :=
  Frame.require fun _ => ha

theorem Aside.required {d d' : Daemon} {a : Assertion} {b : Bool} (h : Aside d d')
    (ha : (Obs.assertionFailed a).aside) : Aside d (d'.require a b) :=
  h.trans (Aside.require ha)

namespace Daemon

variable {d : Daemon}

theorem sendClient_frame (c : Client) (m : Msg) : Aside d (d.sendClient c m).1 :=
  Aside.entry rfl rfl rfl rfl rfl rfl rfl rfl

/-- A message goes out only while there is a scheduler. -/
theorem sendScheduler_frame (m : Msg) :
    Frame (fun o => d.scheduler.isSome ∧ ∃ ok, o = .toScheduler m ok) d (d.sendScheduler m).1 := by
  unfold sendScheduler
  split
  · exact .refl
  · rename_i hs
    have hsome : d.scheduler.isSome := by simpa [Option.isSome_iff_ne_none] using hs
    split
    · exact Frame.trans .asked (.note ⟨hsome, true, rfl⟩)
    · exact Frame.trans (Frame.trans .asked (.note ⟨hsome, false, rfl⟩)) .closeScheduler

theorem sendScheduler_aside (m : Msg) (hm : ∀ ok, (Obs.toScheduler m ok).aside) :
    Aside d (d.sendScheduler m).1 := by
  apply (sendScheduler_frame m).mono
  rintro o ⟨-, ok, rfl⟩
  exact hm ok

/-! ## The environments -/

theorem makeDir_frame (dirname : Str) (existsOk : Bool) : Aside d (d.makeDir dirname existsOk).1 := by
  have hnote : Aside d { (d.asked.note (.path .create dirname)) with
      disk := (d.disk.mkdir (Path.normalise dirname) (d.ask ≠ 0)).1 } :=
    Aside.entry rfl rfl rfl rfl rfl rfl rfl rfl
  unfold makeDir
  dsimp only
  split
  · exact hnote.trans .asked
  · exact hnote

theorem startInstallEnvironment_frame (target name : Str) (next : Option Msg) :
    Aside d (d.startInstallEnvironment target name next).1 := by
  unfold startInstallEnvironment
  split
  · exact .refl
  · split
    · dsimp only
      split
      · exact makeDir_frame _ _
      · split
        · exact (makeDir_frame _ _).trans (makeDir_frame _ _)
        · exact ((makeDir_frame _ _).trans (makeDir_frame _ _)).trans .asked
    · exact .refl

theorem finalizeInstallEnvironment_frame (target : Str) :
    Aside d (d.finalizeInstallEnvironment target).1 :=
  Aside.entry rfl rfl rfl rfl rfl rfl rfl rfl

theorem removeEnvironmentFiles_frame (env : Str) : Aside d (d.removeEnvironmentFiles env) := by
  unfold removeEnvironmentFiles
  dsimp only
  split
  · exact .asked
  · exact Aside.entry rfl rfl rfl rfl rfl rfl rfl rfl

theorem removeNativeEnvironmentFiles_frame (env : Str) :
    Aside d (d.removeNativeEnvironmentFiles env) := by
  unfold removeNativeEnvironmentFiles
  split
  · exact .refl
  · split
    · exact Aside.entry rfl rfl rfl rfl rfl rfl rfl rfl
    · exact .asked

theorem verifyEnv_frame (c : Client) (target env : Str) :
    Aside d (d.verifyEnv c target env).1 := by
  unfold verifyEnv
  dsimp only
  split
  · exact .ite (fun _ => sendClient_frame _ _) fun _ => .refl
  · split
    · exact .ite (fun _ => sendClient_frame _ _) fun _ => .refl
    · exact Aside.entry rfl rfl rfl rfl rfl rfl rfl rfl

theorem handleConnection_frame (job : CompileJob) : Aside d (d.handleConnection job).1 := by
  unfold handleConnection
  split
  · exact .asked
  · dsimp only
    split
    · exact Aside.entry rfl rfl rfl rfl rfl rfl rfl rfl
    · exact .asked

theorem reannounceEnvironments_frame : Aside d d.reannounceEnvironments.1 :=
  sendScheduler_aside _ fun _ => rfl

theorem maybeStats_frame (forceCheck : Bool) : Aside d (d.maybeStats forceCheck).1 := by
  unfold maybeStats
  dsimp only
  split
  · have hsent : ∀ m, Aside d
        (sendScheduler { d.asked.asked with lastStat := d.now } (.stats m)).1 := by
      intro m
      have hasked : Aside d { d.asked.asked with lastStat := d.now } :=
        Aside.same rfl rfl rfl rfl rfl rfl rfl
      exact hasked.trans (sendScheduler_aside _ fun _ => rfl)
    split
    · split
      · exact hsent _
      · exact (hsent _).trans (Aside.same rfl rfl rfl rfl rfl rfl rfl)
    · exact Aside.same rfl rfl rfl rfl rfl rfl rfl
  · exact .refl

theorem removeNativeEnvironment_frame (key : Str) : Aside d (d.removeNativeEnvironment key) := by
  unfold removeNativeEnvironment
  dsimp only
  have h : ∀ b, Aside d (((d.require .nativeKey (key ≠ [])).removeNativeEnvironmentFiles key).require
      .nativeSize b) := by
    intro b
    exact ((Aside.require rfl).trans (removeNativeEnvironmentFiles_frame key)).trans (Aside.require rfl)
  apply (h _).trans
  exact
    { clients := rfl, fd2client := rfl, newClientId := rfl, maxKids := rfl, scheduler := id
      nativeKey := fun hk => (AList.mem_erase.mp hk).2
      log := ⟨[], rfl, by simp⟩ }

theorem removeEnvironment_frame (key : Str) : Aside d (d.removeEnvironment key) := by
  unfold removeEnvironment
  dsimp only
  have h : ∀ b, Aside d (((d.require .environmentKey (key ≠ [])).removeEnvironmentFiles key).require
      .environmentSize b) := by
    intro b
    exact ((Aside.require rfl).trans (removeEnvironmentFiles_frame key)).trans (Aside.require rfl)
  exact (h _).trans (Aside.same rfl rfl rfl rfl rfl rfl rfl)

theorem evict_frame (now : ℤ) (newEnv : Str) : Aside d (d.evict now newEnv).1 := by
  unfold evict
  split
  · exact .refl
  · dsimp only
    have hseen : ∀ (p : Prop) [Decidable p],
        Aside d (if p then (d.require .cacheJob false).crash else d).asked := by
      intro p _
      exact (Frame.ite (fun _ => (Aside.require rfl).trans .crash) fun _ => .refl : Aside d _).trans
        .asked
    split
    · exact hseen _
    · split
      · exact (hseen _).trans (removeNativeEnvironment_frame _)
      · exact (hseen _).trans (removeEnvironment_frame _)

theorem checkCacheLoop_frame (now : ℤ) (newEnv : Str) (fuel : ℕ) :
    Aside d (checkCacheLoop now newEnv fuel d) := by
  induction fuel generalizing d with
  | zero => exact .refl
  | succ fuel ih =>
    unfold checkCacheLoop
    dsimp only
    split
    · exact (evict_frame now newEnv).trans ih
    · exact evict_frame now newEnv

theorem checkCacheSize_frame (newEnv : Str) : Aside d (d.checkCacheSize newEnv) :=
  checkCacheLoop_frame _ newEnv _

theorem addKid_frame : Aside d d.addKid := Aside.same rfl rfl rfl rfl rfl rfl rfl

theorem dropKid_frame : Aside d d.dropKid := Aside.same rfl rfl rfl rfl rfl rfl rfl

theorem useReceived_frame (key : Str) : Aside d (d.useReceived key) :=
  Aside.same rfl rfl rfl rfl rfl rfl rfl

end Daemon

end Icecream.Iceccd
