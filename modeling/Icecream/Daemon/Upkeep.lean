import Icecream.Daemon.Books

/-!
# What an event does to the books

Where the handlers of an event have the cache cut, start the creation of an environment
or enter one, and what an invariant of the books has to survive for that.
-/

namespace Icecream.Iceccd

open Icecream.Comm

/-- The record of a client whose environment is being unpacked -/
def Client.transferring (c : Client) (key : Str) : Client :=
  { c with
    status := .toInstall, outfile := key,
    pipeToChild := true, pipeFromChild := true, childPid := true }

/-- The statuses without a child and without an environment to wait for -/
def Status.free : Status → Bool
  | .toInstall | .waitInstall | .waitForChild | .waitCreateEnv => false
  | _ => true

/-- The record changes, but not in what it says of children and environments. -/
structure Client.Same (c c₁ : Client) : Prop where
  clientId : c₁.clientId = c.clientId
  pipeFromChild : c₁.pipeFromChild = c.pipeFromChild
  childPid : c₁.childPid = c.childPid
  pending : c₁.pendingCreateEnv = c.pendingCreateEnv
  status : c₁.status = c.status ∨ (c.Installing ∧ c₁.Installing)

/-- The client turns to something else, whatever it was doing. -/
structure Client.Moves (c c₁ : Client) : Prop where
  clientId : c₁.clientId = c.clientId
  pipeFromChild : c₁.pipeFromChild = c.pipeFromChild
  childPid : c₁.childPid = c.childPid
  pending : c₁.pendingCreateEnv = c.pendingCreateEnv
  free : c₁.status.free

/-- The messages that make a client turn to something else -/
def moves : Msg → Bool
  | .compileFile _ | .getCS _ | .jobLocalBegin _ | .jobDone _ => true
  | _ => false

def Client.creating (c : Client) (key : Str) : Client :=
  { c with status := .waitCreateEnv, pendingCreateEnv := key }

namespace Daemon

def chunkCuts (d : Daemon) (c : Client) (m : Msg) : List (Daemon × Str) :=
  let d := d.requireChunk c
  match m with
  | .fileChunk chunk => if chunk.len = 0 ∨ d.ask ≠ 0 then [] else d.asked.endCuts c
  | .endMsg =>
    if c.childPid then []
    else
      let c := { c with pipeToChild := false }
      [((d.put c).settled c false, c.outfile)]
  | _ => d.endCuts c

def startTransfer (d : Daemon) (c : Client) (m : EnvTransferMsg) (next : Option Msg) :
    Daemon × Bool :=
  (d.requireIdle c).startInstallEnvironment (d.transferTarget m) m.name next

def transferCuts (d : Daemon) (c : Client) (m : EnvTransferMsg) (next : Option Msg) :
    List (Daemon × Str) :=
  let key := envKey (d.transferTarget m) m.name
  let r := d.startTransfer c m next
  if r.2 = false then (r.1.removeEnvironmentFiles key).endCuts c
  else (r.1.addKid.put (c.transferring key)).chunkCuts (c.transferring key) (next.getD .endMsg)

def requireCompiler (d : Daemon) (c : Client) (m : GetNativeEnvMsg) : Daemon :=
  d.require .getNativeEnvCompiler
    ((Services.getCCompiler (nativeCompiler c m.compiler)).isSome ∧
      (Services.getCppCompiler (nativeCompiler c m.compiler)).isSome)

/-- The times that a request for a native environment compares -/
def timesFor (d : Daemon) (c : Client) (m : GetNativeEnvMsg) : Option (List (Str × ℤ)) :=
  d.filetimes ((Services.getCCompiler (nativeCompiler c m.compiler)).getD [])
    ((Services.getCppCompiler (nativeCompiler c m.compiler)).getD []) m.extrafiles

def keyFor (c : Client) (m : GetNativeEnvMsg) : Str :=
  nativeKey m ((Services.getCCompiler (nativeCompiler c m.compiler)).getD [])

def nativeCuts (d : Daemon) (c : Client) (m : GetNativeEnvMsg) : List (Daemon × Str) :=
  let d := d.requireCompiler c m
  if (d.timesFor c m).isNone then (d.asked.sendClient c .endMsg).1.endCuts c else []

/-- The key under which an entry that needs a rebuild is looked for -/
def staleKey (d : Daemon) (c : Client) (m : GetNativeEnvMsg) : Option Str :=
  let d := d.requireCompiler c m
  match d.timesFor c m with
  | none => none
  | some times =>
    if d.asked.needsRebuild (d.asked.native (keyFor c m)) times then
      some (d.asked.native (keyFor c m)).name
    else none

/-- The state in which a request finds that its environment has to be created -/
def creation (d : Daemon) (c : Client) (m : GetNativeEnvMsg) : Option Daemon :=
  let d := d.requireCompiler c m
  match d.timesFor c m with
  | none => none
  | some times =>
    let d := d.asked.dropStale (keyFor c m) times
    if (d.native (keyFor c m)).name ≠ [] then none else some d

def attending (d : Daemon) (c : Client) : Daemon :=
  d.require .activityStatus (c.status ≠ .toCompile ∧ c.status ≠ .waitInstall)

def activityCuts (d : Daemon) (c : Client) (msg next : Option Msg) : List (Daemon × Str) :=
  let d := d.attending c
  match msg with
  | none => d.endCuts c
  | some m =>
    if c.status = .toInstall then d.chunkCuts c m
    else match m with
      | .getNativeEnv m => d.nativeCuts c m
      | .transferEnv m => d.transferCuts c m next
      | .compileFile _ | .getCS _ | .jobLocalBegin _ | .jobDone _ | .verifyEnv _
      | .blacklistHostEnv _ => []
      | .endMsg => d.endCuts c
      | _ => (d.sendClient c .endMsg).1.endCuts c

def useCSCuts (d : Daemon) (m : UseCSMsg) : List (Daemon × Str) :=
  match d.clients.findByClientId m.clientId with
  | none => []
  | some c =>
    if m.hostname = d.remoteName ∧ m.port = d.daemonPort then []
    else
      let c := { c with
        usecsmsg := some ⟨m.jobId, m.hostname, m.port, m.hostPlatform, 1, 1, m.matchedJobId⟩ }
      let r := (d.put c).sendClient c (.useCS m)
      if r.2 then [] else r.1.endCuts c

def unpacked (d : Daemon) (c : Client) : Daemon :=
  (d.requireInstalling c).dropKid.put { c with childPid := false, pipeFromChild := false }

def installCuts (d : Daemon) (c : Client) (success : Bool) : List (Daemon × Str) :=
  let c' := { c with childPid := false, pipeFromChild := false }
  if success = false then [((d.unpacked c).settled c' true, c.outfile)]
  else if c.pipeToChild then []
  else [((d.unpacked c).settled c' false, c.outfile)]

def refuseCuts (key : Str) : ℕ → Daemon → List (Daemon × Str)
  | 0, _ => []
  | fuel + 1, d =>
    match d.clients.list.find? fun c => c.pendingCreateEnv = key with
    | none => []
    | some c =>
      let d := (d.sendClient c .endMsg).1
      d.endCuts c ++ refuseCuts key fuel (d.handleEnd c 121)

/-- The entry of an environment that has been created, before the cache is cut -/
def entered (d : Daemon) (key : Str) (env : NativeEnvironment) (size : UInt64) : Daemon :=
  d.setNative key { env with lastUse := d.now, size := size }

def createCuts (d : Daemon) (key output : Str) : List (Daemon × Str) :=
  let r := d.finishCreateEnv (d.native key).name output
  let env := { d.native key with name := r.1, createEnvPipe := false }
  let d := (d.requireNative key).addNative key env r.2
  if r.2 = 0 then refuseCuts key d.clients.list.length d else [(d.entered key env r.2, r.1)]

/-- What a turn of `handle_old_request` has to keep: `I` up to the fork of a compile child,
and `J` from there -/
theorem handleOldRequest_rule {I J : Daemon → Prop} {d : Daemon}
    (hstill : ∀ {k k' : Daemon}, Still k k' → I k → I k')
    (hafter : ∀ {k k' : Daemon}, Still k k' → J k → J k')
    (hkept : ∀ {k : Daemon}, I k → J k)
    (hend : ∀ {k : Daemon} {c : Client} (x : Int32),
      c.status = .linkJob ∨ c.status = .pendingUseCS ∨ c.status = .toCompile →
      c ∈ k.clients.list → I k → I (k.handleEnd c x))
    (hwork : ∀ {k : Daemon} {c : Client}, c.status = .linkJob ∨ c.status = .pendingUseCS →
      c ∈ k.clients.list → I k → I (k.put { c with status := .clientWork }))
    (hused : ∀ {k : Daemon} {key : Str}, I k → I (k.useReceived key))
    (hfork : ∀ {k : Daemon} {c : Client} {job : CompileJob}, d.StartsCompile c → c.job = some job →
      ((d.useReceived (jobKey job)).handleConnection job).2 → c ∈ k.clients.list → I k →
      J (k.addKid.put { c with status := .waitForChild, pipeFromChild := true, childPid := true }))
    (hd : I d) : J d.handleOldRequest.1 := by
  unfold handleOldRequest
  split
  · exact hkept hd
  · rename_i hroom
    split
    · rename_i c hearliest
      obtain ⟨hc, hlink⟩ := getEarliestClient_mem hearliest
      unfold startLocalJob
      dsimp only
      have hsent := Still.sendClient (d := d) c (.jobLocalBegin { stime := d.stime })
      have hmem := hc
      rw [← hsent.list] at hmem
      have hstart := hstill hsent hd
      split
      · exact hkept (hend 112 (.inl hlink) hmem hstart)
      · exact hkept (hstill ((Still.reserve _).trans (.sendScheduler _))
          (hwork (.inl hlink) hmem hstart))
    · rename_i hlink
      split
      · rename_i c hearliest
        obtain ⟨hc, hpending⟩ := getEarliestClient_mem hearliest
        unfold startPending
        split
        · exact hkept (hstill .crash hd)
        · rename_i m _
          dsimp only
          have hsent := Still.sendClient (d := d) c (.useCS m)
          have hmem := hc
          rw [← hsent.list] at hmem
          have hstart := hstill hsent hd
          split
          · exact hkept (hstill (.reserve _) (hwork (.inr hpending) hmem hstart))
          · exact hkept (hend 129 (.inr (.inl hpending)) hmem hstart)
      · rename_i hpending
        split
        · exact hkept hd
        · rename_i hload
          split
          · rename_i c hearliest
            obtain ⟨hc, hto⟩ := getEarliestClient_mem hearliest
            have hstarts : d.StartsCompile c :=
              ⟨not_not.mp hroom, hlink, hpending, not_le.mp hload, hearliest⟩
            unfold startCompile
            split
            · exact hkept (hstill .crash hd)
            · rename_i job hjob
              dsimp only
              have hforked := Still.handleConnection (d := d.useReceived (jobKey job)) job
              have hreceived : I (d.useReceived (jobKey job)) := hused hd
              have hstart := hstill hforked hreceived
              have hmem : c ∈ ((d.useReceived (jobKey job)).handleConnection job).1.clients.list := by
                rw [hforked.list]
                exact hc
              split
              · rename_i hok
                exact hafter (.sendScheduler _) (hfork hstarts hjob hok hmem hstart)
              · exact hkept (hend 117 (.inr (.inr hto)) hmem hstart)
          · exact hkept hd

end Daemon

namespace EventLoop

/-- The client that an event makes the loop attend to, what its channel gives and what a
handler that reads on gets -/
def attends (s : EventLoop) (e : Event) : Option (Client × Option Msg × Option Msg) :=
  match e, s.phase with
  | .collect (some m) next, .collecting (fd :: _) _ _ =>
    (s.daemon.clients.findByFd fd).bind fun c =>
      if c.status = .toCompile ∨ c.status = .waitForChild ∨ c.status = .waitInstall then none
      else some (c, m, next)
  | .clientMsg m next, .accepted _ fd =>
    (s.daemon.clients.findByFd fd).map fun c => (c, m, next)
  | .clientMsg m next, .visiting _ _ (fd :: _) fds _ =>
    (s.daemon.clients.findByFd fd).bind fun c =>
      if fd ∈ fds ∧ c.status ≠ .toCompile then some (c, m, next) else none
  | _, _ => none

/-- The client whose child's pipe is looked at -/
def visited (s : EventLoop) : Option Client :=
  match s.phase with
  | .visiting _ false (fd :: _) _ _ => s.daemon.clients.findByFd fd
  | _ => none

/-- Where an event has the cache cut, and the key that is spared -/
def cuts (s : EventLoop) (e : Event) : List (Daemon × Str) :=
  match e with
  | .schedulerMsg (some (.useCS m)) => (s.daemon.note (.fromScheduler (.useCS m))).useCSCuts m
  | .installDone success =>
    s.visited.toList.flatMap fun c => s.daemon.installCuts c success
  | .createEnvDone key output => s.daemon.createCuts key output
  | _ => (s.attends e).toList.flatMap fun p => s.daemon.activityCuts p.1 p.2.1 p.2.2

/-- The client whose transfer an event brings to a good end -/
def completes (s : EventLoop) (e : Event) : Option Client :=
  match e with
  | .installDone true => s.visited.filter fun c => ¬ c.pipeToChild
  | _ => ((s.attends e).filter fun p =>
      p.2.1 = some .endMsg ∧ p.1.status = .toInstall ∧ ¬ p.1.childPid).map Prod.fst

/-- The scheduler's answer reaches the record of the client. -/
def heeds (s : EventLoop) (e : Event) : Prop :=
  match e with
  | .schedulerMsg (some (.useCS m)) =>
    (m.hostname = s.daemon.remoteName ∧ m.port = s.daemon.daemonPort) ∨ s.daemon.ask ≠ 0
  | _ => True

instance (s : EventLoop) (e : Event) : Decidable (s.heeds e) := by
  unfold heeds
  split <;> infer_instance

/-- The client that an event makes turn to something else -/
inductive Turns (s : EventLoop) (e : Event) (c : Client) : Prop
  | message {m : Msg} {next : Option Msg} : s.attends e = some (c, some m, next) →
      c.status ≠ .toInstall → moves m → Turns s e c
  | work : e = .oldRequest → c.status = .linkJob ∨ c.status = .pendingUseCS → Turns s e c
  | answer : s.answered e = some c → s.heeds e → Turns s e c

/-- A client is ended that may be waiting for its child. -/
def LosesChild (s : EventLoop) (e : Event) : Prop :=
  (∃ p ∈ s.attends e, p.1.status = .waitForChild) ∨
    ∃ c ∈ s.answered e, c.status = .waitForChild ∧ ¬ s.heeds e

/-- A request for a native environment that does not fail on a missing file -/
def Requests (s : EventLoop) (e : Event) (c : Client) (m : GetNativeEnvMsg) : Prop :=
  (∃ next, s.attends e = some (c, some (.getNativeEnv m), next)) ∧ c.status ≠ .toInstall ∧
    (s.daemon.timesFor c m).isSome

end EventLoop

namespace EventLoop

/-- The call that an event comes to, and the daemon it leaves -/
inductive Does (s : EventLoop) (e : Event) : Daemon → Prop
  | still {d' : Daemon} : Still s.daemon d' → Does s e d'
  | oldRequest {d' : Daemon} : e = .oldRequest → Still s.daemon.handleOldRequest.1 d' → Does s e d'
  | activity {c : Client} {msg next : Option Msg} {d' : Daemon} :
      s.attends e = some (c, msg, next) → c ∈ s.daemon.clients.list →
      Still (s.daemon.handleActivity c msg next).1 d' → Does s e d'
  | scheduler {m : Msg} {d' : Daemon} : e = .schedulerMsg (some m) →
      Still (s.daemon.handleScheduler m).1 d' → Does s e d'
  | clear {d₁ : Daemon} : Still s.daemon d₁ → Does s e d₁.clearChildren
  | accept (place fd protocol : ℕ) : s.daemon.newClientId + 1 < 2 ^ 31 →
      place ≤ s.daemon.clients.list.length → Does s e (s.daemon.addClient place fd protocol)
  | compileDone {c : Client} (stat : Option JobStat) : c ∈ s.daemon.clients.list →
      c.status = .waitForChild → c.pipeFromChild → Does s e (s.daemon.handleCompileDone c stat).1
  | installDone {c : Client} {success : Bool} : e = .installDone success → s.visited = some c →
      c ∈ s.daemon.clients.list → c.Installing → c.pipeFromChild →
      Does s e (s.daemon.handleEnvInstallChildDone c success).1
  | createEnvDone {key output : Str} {d' : Daemon} : e = .createEnvDone key output →
      (s.daemon.native key).createEnvPipe → Does s e d'

theorem collected_still (d : Daemon) (fd : ℕ) (status : Status) (selected : Bool)
    (todo fds pipes : List ℕ) : Still d (collected d fd status selected todo fds pipes).daemon := by
  unfold collected
  dsimp only
  split
  · split
    · exact .note _ rfl
    · exact .refl
  · exact .refl

theorem afterActivity_still (r : Daemon × Bool) (fd : ℕ) (stay leave : Phase) :
    Still r.1 (afterActivity r fd stay leave).daemon := by
  unfold afterActivity
  split
  · exact .refl
  · split
    · exact .note _ rfl
    · exact .refl

theorem step_does {s t : EventLoop} {e : Event} (h : step s e = some t) : Does s e t.daemon := by
  have hclose : ∀ d : Daemon, Still d d.closeScheduler :=
    fun _ => .of_eq rfl rfl rfl rfl rfl rfl rfl
  cases step_leads h with
  | reconnect => exact .still (.reconnect _)
  | oldRequest => exact .oldRequest rfl .refl
  | answered hphase hd =>
    subst hd
    exact .oldRequest rfl (Still.ite (.maybeStats false) .refl)
  | filled | pollNothing | pollReady | schedulerRead | acceptFailed | visit | acceptedRead
  | clientRead => exact .still .refl
  | listed => exact .still (collected_still _ _ _ _ _ _ _)
  | @handled m next fd todo fds pipes c hphase hc hno =>
    have ha : s.attends (.collect (some m) next) = some (c, m, next) := by
      simp only [attends, hphase, hc, Option.bind_some, if_neg hno]
    exact .activity ha (findByFd_mem hc) (collected_still _ _ _ _ _ _ _)
  | pollError => exact .still (hclose _)
  | schedulerGone => exact .clear (hclose _)
  | schedulerRefused => exact .scheduler rfl (hclose _)
  | schedulerLost => exact .scheduler rfl .crash
  | schedulerMsg => exact .scheduler rfl .refl
  | accept hphase hfd hid hplace => exact .accept _ _ _ hid hplace
  | @greeted m next had fd c hphase hc =>
    have ha : s.attends (.clientMsg m next) = some (c, m, next) := by
      simp only [attends, hphase, hc, Option.map_some]
    exact .activity ha (findByFd_mem hc) (afterActivity_still _ _ _ _)
  | @clientMsg m next had piped fd todo fds pipes c hphase hc hok =>
    have ha : s.attends (.clientMsg m next) = some (c, m, next) := by
      simp only [attends, hphase, hc, Option.bind_some, if_pos hok]
    exact .activity ha (findByFd_mem hc) (afterActivity_still _ _ _ _)
  | compileDone hphase hc hok => exact .compileDone _ (findByFd_mem hc) hok.1 hok.2.1
  | @installDone success had fd todo fds pipes c hphase hc hok =>
    have hvisited : s.visited = some c := by simp only [visited, hphase, hc]
    exact .installDone rfl hvisited (findByFd_mem hc) hok.1 hok.2.1
  | createEnvDone hphase hpipe => exact .createEnvDone rfl hpipe
  | passDone =>
    dsimp only
    split
    · exact .clear .refl
    · exact .still .refl
  | unpack => exact .still (.entry (o := .path .extract _) rfl rfl rfl rfl rfl rfl rfl rfl)

end EventLoop

/-- What an invariant of the books has to survive at event `e` -/
structure Upkeep (I : Daemon → Prop) (s : EventLoop) (e : Event) : Prop where
  still {d d' : Daemon} : Still d d' → I d → I d'
  cut {d : Daemon} {key : Str} : (d, key) ∈ s.cuts e → I d → I (d.checkCacheSize key)
  leave {d : Daemon} {c : Client} : c ∈ d.clients.list → ¬ c.Installing →
    (c.status = .waitForChild → s.LosesChild e) → I d → I (d.erase c)
  stop {d : Daemon} {c : Client} : c ∈ d.clients.list → c.Installing → I d →
    I ((d.stopped c).put c.transferOver)
  keep {d : Daemon} {c c₁ : Client} : c ∈ d.clients.list → c.Same c₁ → I d → I (d.put c₁)
  turn {d : Daemon} {c c₁ : Client} : s.Turns e c → c ∈ d.clients.list → c.Moves c₁ → I d →
    I (d.put c₁)
  install {d : Daemon} {c : Client} {t : ℤ} : s.completes e = some c →
    s.daemon.diskSize c.outfile ≠ 0 → d.cacheSize = s.daemon.cacheSize →
    d.receivedEnvironments = s.daemon.receivedEnvironments → I d →
    I (d.install c.outfile (s.daemon.diskSize c.outfile) t)
  start {d : Daemon} {c : Client} {key : Str} {m : EnvTransferMsg} {next : Option Msg} :
    s.attends e = some (c, some (.transferEnv m), next) → c.status ≠ .toInstall →
    ((s.daemon.attending c).startTransfer c m next).2 → c ∈ d.clients.list → I d →
    I (d.addKid.put (c.transferring key))
  answer {d : Daemon} {c : Client} {m : GetNativeEnvMsg} {t : ℤ} : s.Requests e c m →
    c ∈ d.clients.list → I d →
    I ((d.setNative (Daemon.keyFor c m) { d.native (Daemon.keyFor c m) with lastUse := t }).put
      { c with status := .gotNative, pendingCreateEnv := [] })
  refuse {d : Daemon} {c : Client} {m : GetNativeEnvMsg} : s.Requests e c m →
    c ∈ d.clients.list → I d →
    I ((d.setNative (Daemon.keyFor c m) (d.native (Daemon.keyFor c m))).erase c)
  stale {d : Daemon} {c : Client} {m : GetNativeEnvMsg} {key : Str} : s.Requests e c m →
    (s.daemon.attending c).staleKey c m = some key → Still s.daemon d → I d →
    I (d.forgetNative key)
  create {d : Daemon} {c : Client} {m : GetNativeEnvMsg} {times : List (Str × ℤ)} :
    s.Requests e c m → (s.daemon.attending c).creation c m = some d → c ∈ d.clients.list → I d →
    I ((d.put (c.creating (Daemon.keyFor c m))).startCreateEnv (Daemon.keyFor c m) times)
  used {d : Daemon} {key : Str} : I d → I (d.useReceived key)
  removed {d : Daemon} {key : Str} : I d → I (d.forgetReceived key)
  fork {d : Daemon} {c : Client} : e = .oldRequest → c ∈ d.clients.list →
    c.status = .toCompile → I d →
    I (d.addKid.put { c with status := .waitForChild, pipeFromChild := true, childPid := true })
  compiled {d : Daemon} {c : Client} : c ∈ d.clients.list → c.status = .waitForChild →
    c.pipeFromChild → I d → I ((d.requireCompiling c).dropKid.erase c)
  unpacked {d : Daemon} {c : Client} : c ∈ d.clients.list → c.Installing → c.pipeFromChild →
    I d → I (d.unpacked c)
  created {key output : Str} {t : EventLoop} : e = .createEnvDone key output →
    (s.daemon.native key).createEnvPipe → EventLoop.next s e = some t → I s.daemon → I t.daemon
  clear {d : Daemon} : I d → I d.clearChildren
  accept (place fd protocol : ℕ) : s.daemon.newClientId + 1 < 2 ^ 31 →
    place ≤ s.daemon.clients.list.length → I s.daemon → I (s.daemon.addClient place fd protocol)

namespace Upkeep

open Daemon

variable {I : Daemon → Prop} {s : EventLoop} {e : Event} {d d' : Daemon} {c c₁ : Client} {m : Msg}

/-! ## The handlers -/

theorem ended (h : Upkeep I s e) (hc : c ∈ d.clients.list)
    (hchild : c.status = .waitForChild → s.LosesChild e)
    (hcut : ∀ p ∈ d.endCuts c, p ∈ s.cuts e) (hd : I d) (x : Int32) : I (d.handleEnd c x) := by
  apply handleEnd_rule h.still _ _ (fun p hp => h.cut (hcut p hp)) _ hc
  · exact fun hinst => h.leave hc hinst hchild hd
  · intro hinst n hn
    exact h.stop (by rwa [hn.list]) hinst (h.still hn hd)
  · intro n hmem hn
    exact h.leave hmem (by simp [Client.transferOver]) (by simp [Client.transferOver]) hn

theorem finish (h : Upkeep I s e) (hc : c ∈ d.clients.list) (hinst : c.Installing)
    (hcut : (d.settled c true, c.outfile) ∈ s.cuts e) (hd : I d) :
    I (d.finishTransferEnv c true).1 :=
  h.still (finishTransferEnv_still c true)
    (h.cut hcut (h.still (settled_cancelled c) (h.stop hc hinst hd)))

/-- A transfer comes to its good end: what is on the disk is entered. -/
theorem complete (h : Upkeep I s e) (hc : c ∈ d.clients.list) (hinst : c.Installing)
    (hchild : c.childPid = false) (hdone : ∃ c₀, s.completes e = some c₀ ∧ c₀.outfile = c.outfile)
    (hsize : d.diskSize c.outfile = s.daemon.diskSize c.outfile)
    (hcache : d.cacheSize = s.daemon.cacheSize)
    (hreceived : d.receivedEnvironments = s.daemon.receivedEnvironments)
    (hcut : (d.settled c false, c.outfile) ∈ s.cuts e) (hd : I d) :
    I (d.finishTransferEnv c false).1 := by
  obtain ⟨c₀, hdone, hout⟩ := hdone
  have hover : I (d.put c.transferOver) := by
    have hstopped := h.stop hc hinst hd
    rwa [stopped, hchild] at hstopped
  apply h.still (finishTransferEnv_still c false) (h.cut hcut _)
  rcases settled_finished (d := d) hchild with ⟨-, hstill⟩ | ⟨hne, t, hstill⟩
  · exact h.still hstill hover
  · apply h.still hstill
    rw [hsize] at hne ⊢
    rw [← hout] at hne ⊢
    exact h.install hdone hne hcache hreceived hover

theorem fileChunkEnv (h : Upkeep I s e) (hc : c ∈ d.clients.list) (hinst : c.Installing)
    (hcut : ∀ p ∈ d.chunkCuts c m, p ∈ s.cuts e)
    (hdone : m = .endMsg → c.childPid = false → s.completes e = some c ∧
      d.diskSize c.outfile = s.daemon.diskSize c.outfile ∧ d.cacheSize = s.daemon.cacheSize ∧
      d.receivedEnvironments = s.daemon.receivedEnvironments)
    (hd : I d) : I (d.handleFileChunkEnv c m).1 := by
  have hno : c.status ≠ .waitForChild := by
    rcases hinst with h | h <;> simp [h]
  have hreq : Still d (d.requireChunk c) := (Still.require _ _ rfl).trans (.require _ _ rfl)
  have hstart := h.still hreq hd
  have hmem : c ∈ (d.requireChunk c).clients.list := by rwa [hreq.list]
  unfold chunkCuts at hcut
  unfold handleFileChunkEnv
  dsimp only at hcut ⊢
  split
  · split
    · exact h.still .asked hstart
    · rename_i chunk hfail
      simp only [if_neg hfail] at hcut
      exact h.ended (d := (d.requireChunk c).asked) hmem (fun hw => absurd hw hno) hcut
        (h.still .asked hstart) 137
  · split
    · have hsame : c.Same { c with pipeToChild := false, status := .waitInstall } :=
        ⟨rfl, rfl, rfl, rfl, .inr ⟨hinst, .inr rfl⟩⟩
      exact h.keep hmem hsame hstart
    · rename_i hchild
      have hnone : c.childPid = false := by simpa using hchild
      rw [if_neg hchild] at hcut
      have hcut := hcut _ (List.mem_singleton_self _)
      obtain ⟨hcompletes, hsize, hcache, hreceived⟩ := hdone rfl hnone
      have hsame : c.Same { c with pipeToChild := false } := ⟨rfl, rfl, rfl, rfl, .inl rfl⟩
      have hdisk : (d.requireChunk c).diskSize c.outfile = d.diskSize c.outfile := by
        simp only [requireChunk, require_diskSize]
      exact h.complete (c := { c with pipeToChild := false }) (mem_put hmem rfl) hinst hnone
        ⟨c, hcompletes, rfl⟩ (hdisk.trans hsize) (hreq.cacheSize.trans hcache)
        (hreq.received.trans hreceived) hcut (h.keep hmem hsame hstart)
  · rename_i hnot₁ hnot₂
    apply h.ended hmem (fun hw => absurd hw hno) _ hstart
    revert hcut
    cases m <;> simp_all

theorem loses {x : Option Msg × Option Msg} (ha : s.attends e = some (c, x)) :
    c.status = .waitForChild → s.LosesChild e := fun hw => .inl ⟨_, ha, hw⟩

theorem attending_still (c : Client) : Still d (d.attending c) := Still.require _ _ rfl

theorem handleTransferEnv_eq (d : Daemon) (c : Client) (r : EnvTransferMsg) (next : Option Msg) :
    d.handleTransferEnv c r next =
      let key := envKey (d.transferTarget r) r.name
      let begun := d.startTransfer c r next
      if begun.2 = false then ((begun.1.removeEnvironmentFiles key).handleEnd c 144, false)
      else (begun.1.addKid.put (c.transferring key)).handleFileChunkEnv (c.transferring key)
        (next.getD .endMsg) := rfl

theorem transferEnv (h : Upkeep I s e) {r : EnvTransferMsg} {next : Option Msg}
    (ha : s.attends e = some (c, some (.transferEnv r), next)) (hopen : c.status ≠ .toInstall)
    (hc : c ∈ s.daemon.clients.list)
    (hcut : ∀ p ∈ (s.daemon.attending c).transferCuts c r next, p ∈ s.cuts e) (hd : I s.daemon) :
    I ((s.daemon.attending c).handleTransferEnv c r next).1 := by
  have hstarted : Still s.daemon ((s.daemon.attending c).startTransfer c r next).1 :=
    ((attending_still c).trans ((Still.require _ _ rfl).trans (.require _ _ rfl))).trans
      (.startInstallEnvironment _ _ _)
  have hmem : c ∈ ((s.daemon.attending c).startTransfer c r next).1.clients.list := by
    rwa [hstarted.list]
  have hready := h.still hstarted hd
  unfold transferCuts at hcut
  rw [handleTransferEnv_eq]
  dsimp only at hcut ⊢
  by_cases hok : ((s.daemon.attending c).startTransfer c r next).2 = false
  · rw [if_pos hok] at hcut ⊢
    have hfiles : Still _ _ := Still.removeEnvironmentFiles
      (d := ((s.daemon.attending c).startTransfer c r next).1)
      (envKey ((s.daemon.attending c).transferTarget r) r.name)
    have hmem' := hmem
    rw [← hfiles.list] at hmem'
    exact h.ended hmem' (loses ha) hcut (h.still hfiles hready) 144
  · rw [if_neg hok] at hcut ⊢
    have hput : I (Daemon.put _ (c.transferring
        (envKey ((s.daemon.attending c).transferTarget r) r.name))) :=
      h.start ha hopen (by simpa using hok) hmem hready
    exact h.fileChunkEnv (mem_put (d := Daemon.addKid _) hmem rfl) (.inl rfl) hcut
      (fun _ hno => absurd hno (by simp [Client.transferring])) hput

/-! ## Native environments -/

theorem require_timesFor (a : Assertion) (b : Bool) (r : GetNativeEnvMsg) :
    (d.require a b).timesFor c r = d.timesFor c r := by
  unfold require
  split <;> rfl

theorem finishGetNativeEnv_told {key : Str} (hok : (d.finishGetNativeEnv c key).2 = true) :
    ∃ t, Still ((d.setNative key { d.native key with lastUse := t }).put
      { c with status := .gotNative, pendingCreateEnv := [] }) (d.finishGetNativeEnv c key).1 := by
  have hreq : Still d (d.requireCreating c key) := (Still.require _ _ rfl).trans (.require _ _ rfl)
  unfold finishGetNativeEnv at hok ⊢
  dsimp only at hok ⊢
  split at hok
  · simp at hok
  · rename_i hsent
    rw [if_neg hsent]
    have hstill := (hreq.setNative key (d.native key)).trans
      (.sendClient c (.useNativeEnv (d.native key).name))
    have htwice : ∀ t, Still (d.setNative key { d.native key with lastUse := t })
        ((d.setNative key (d.native key)).setNative key { d.native key with lastUse := t }) :=
      fun t => Still.of_eq rfl rfl (AList.insert_insert _) rfl rfl rfl rfl
    exact ⟨_, ((htwice _).trans (hstill.setNative key _)).put _⟩

theorem finishGetNativeEnv_lost {key : Str} (hc : ¬ c.Installing)
    (hfail : (d.finishGetNativeEnv c key).2 = false) :
    Still ((d.setNative key (d.native key)).erase c) (d.finishGetNativeEnv c key).1 := by
  have hreq : Still d (d.requireCreating c key) := (Still.require _ _ rfl).trans (.require _ _ rfl)
  unfold finishGetNativeEnv at hfail ⊢
  dsimp only at hfail ⊢
  split at hfail
  · rename_i hsent
    rw [if_pos hsent]
    have hstill := (hreq.setNative key (d.native key)).trans
      (.sendClient c (.useNativeEnv (d.native key).name))
    exact (hstill.erase c).trans (handleEnd_plain hc 138)
  · simp at hfail

theorem handleGetNativeEnv_eq (d : Daemon) (c : Client) (r : GetNativeEnvMsg) :
    d.handleGetNativeEnv c r =
      match (d.requireCompiler c r).timesFor c r with
      | none => (d.requireCompiler c r).asked.refuseNativeEnv c
      | some times =>
        let d := (d.requireCompiler c r).asked.dropStale (keyFor c r) times
        let c₁ := c.creating (keyFor c r)
        if (d.native (keyFor c r)).name ≠ [] then
          (d.put c₁).finishGetNativeEnv c₁ (keyFor c r)
        else ((d.put c₁).startCreateEnv (keyFor c r) times, true) := rfl

theorem getNativeEnv (h : Upkeep I s e) {r : GetNativeEnvMsg} {next : Option Msg}
    (ha : s.attends e = some (c, some (.getNativeEnv r), next)) (hopen : c.status ≠ .toInstall)
    (hc : c ∈ s.daemon.clients.list)
    (hcut : ∀ p ∈ (s.daemon.attending c).nativeCuts c r, p ∈ s.cuts e) (hd : I s.daemon) :
    I ((s.daemon.attending c).handleGetNativeEnv c r).1 := by
  have hready : Still s.daemon ((s.daemon.attending c).requireCompiler c r) :=
    (attending_still c).trans (.require _ _ rfl)
  have htimes : ((s.daemon.attending c).requireCompiler c r).timesFor c r =
      s.daemon.timesFor c r := by
    simp only [requireCompiler, attending, require_timesFor]
  have hcreation : ∀ times, s.daemon.timesFor c r = some times →
      let d := ((s.daemon.attending c).requireCompiler c r).asked.dropStale (keyFor c r) times
      (d.native (keyFor c r)).name = [] → (s.daemon.attending c).creation c r = some d := by
    intro times hsome d hname
    unfold creation
    simp only [htimes, hsome]
    rw [if_neg (by simpa using hname)]
  have hstale : ∀ times, s.daemon.timesFor c r = some times →
      let d := ((s.daemon.attending c).requireCompiler c r).asked
      d.needsRebuild (d.native (keyFor c r)) times →
      (s.daemon.attending c).staleKey c r = some (d.native (keyFor c r)).name := by
    intro times hsome d hneeds
    unfold staleKey
    simp only [htimes, hsome]
    exact if_pos hneeds
  rw [handleGetNativeEnv_eq]
  simp only [nativeCuts, htimes] at hcut ⊢
  have hmem : c ∈ ((s.daemon.attending c).requireCompiler c r).asked.clients.list := by
    change c ∈ ((s.daemon.attending c).requireCompiler c r).clients.list
    rwa [hready.list]
  generalize (s.daemon.attending c).requireCompiler c r = n at *
  have hasked := hready.trans .asked
  cases hsome : s.daemon.timesFor c r with
  | none =>
    rw [hsome] at hcut
    have hsent : Still n.asked (n.asked.sendClient c .endMsg).1 := .sendClient _ _
    exact h.ended (d := (n.asked.sendClient c .endMsg).1) hmem (loses ha) hcut
      (h.still (hasked.trans hsent) hd) 122
  | some times =>
    have hreq : s.Requests e c r := ⟨⟨next, ha⟩, hopen, by simp [hsome]⟩
    have hdropped : I (n.asked.dropStale (keyFor c r) times) ∧
        c ∈ (n.asked.dropStale (keyFor c r) times).clients.list := by
      rw [(dropStale_frame _ _).clients]
      constructor
      · unfold dropStale
        split
        · rename_i hneeds
          exact h.still (removeNativeEnvironment_still _)
            (h.stale hreq (hstale times hsome hneeds) (hasked.trans .asked)
              (h.still (hasked.trans .asked) hd))
        · exact h.still hasked hd
      · exact hmem
    have hcreation := hcreation times hsome
    obtain ⟨hd, hc⟩ := hdropped
    dsimp only at hcreation ⊢
    generalize n.asked.dropStale (keyFor c r) times = k at hcreation hd hc ⊢
    split
    · by_cases hok : ((k.put (c.creating (keyFor c r))).finishGetNativeEnv
          (c.creating (keyFor c r)) (keyFor c r)).2 = true
      · obtain ⟨t, hstill⟩ := finishGetNativeEnv_told hok
        have hsame : Still ((k.setNative (keyFor c r)
              { k.native (keyFor c r) with lastUse := t }).put
              { c with status := .gotNative, pendingCreateEnv := [] })
            (((k.put (c.creating (keyFor c r))).setNative (keyFor c r)
              { k.native (keyFor c r) with lastUse := t }).put
              { c with status := .gotNative, pendingCreateEnv := [] }) :=
          Still.of_eq (Records.replace_replace rfl) rfl rfl rfl rfl rfl rfl
        exact h.still (hsame.trans hstill) (h.answer hreq hc hd)
      · have hidle : ¬ (c.creating (keyFor c r)).Installing := by simp [Client.creating]
        have hstill := finishGetNativeEnv_lost hidle (by simpa using hok)
        have hsame : Still ((k.setNative (keyFor c r) (k.native (keyFor c r))).erase c)
            (((k.put (c.creating (keyFor c r))).setNative (keyFor c r)
              (k.native (keyFor c r))).erase (c.creating (keyFor c r))) :=
          Still.of_eq Records.remove_replace rfl rfl rfl rfl rfl rfl
        exact h.still (hsame.trans hstill) (h.refuse hreq hc hd)
    · rename_i hname
      exact h.create hreq (hcreation (by simpa using hname)) hc hd

/-! ## Messages -/

theorem jobMessage (h : Upkeep I s e) {next : Option Msg}
    (ha : s.attends e = some (c, some m, next)) (hopen : c.status ≠ .toInstall)
    (hm : moves m) (hc : c ∈ d.clients.list) (hmoves : c.Moves c₁) (hd : I d) : I (d.put c₁) :=
  h.turn (.message ha hopen hm) hc hmoves hd

theorem compileFile (h : Upkeep I s e) {job : CompileJob} {next : Option Msg}
    (ha : s.attends e = some (c, some (.compileFile job), next)) (hopen : c.status ≠ .toInstall)
    (hc : c ∈ d.clients.list) (hd : I d) : I (d.handleCompileFile c job).1 := by
  unfold handleCompileFile
  dsimp only
  split
  · rename_i hwork
    have hreq : Still d (d.require .compileFileClient (job.environmentVersion = str "__client")) :=
      .require _ _ rfl
    have hmem := hc
    rw [← hreq.list] at hmem
    have hmoves : c.Moves { c with job := some job } := ⟨rfl, rfl, rfl, rfl, by simp [hwork, Status.free]⟩
    exact h.still (.sendScheduler _) (h.jobMessage ha hopen rfl hmem hmoves (h.still hreq hd))
  · exact h.jobMessage ha hopen rfl hc ⟨rfl, rfl, rfl, rfl, rfl⟩ hd

theorem getCS (h : Upkeep I s e) {r : GetCSMsg} {next : Option Msg}
    (ha : s.attends e = some (c, some (.getCS r), next)) (hopen : c.status ≠ .toInstall)
    (hc : c ∈ d.clients.list) (hd : I d) : I (d.handleGetCS c r).1 := by
  unfold handleGetCS
  dsimp only
  split
  · exact h.jobMessage ha hopen rfl hc ⟨rfl, rfl, rfl, rfl, rfl⟩ hd
  · exact h.still (.sendScheduler _)
      (h.jobMessage ha hopen rfl hc ⟨rfl, rfl, rfl, rfl, rfl⟩ hd)

theorem jobDone (h : Upkeep I s e) {r : JobDoneMsg} {next : Option Msg}
    (ha : s.attends e = some (c, some (.jobDone r), next)) (hopen : c.status ≠ .toInstall)
    (hc : c ∈ d.clients.list) (hd : I d) : I (d.handleJobDone c r).1 := by
  have hready : Still d ((if c.status = .clientWork then d.release (d.weight c) else d).require
      .jobDoneId (r.jobId = c.jobId)) := (Still.ite (.release _) .refl).trans (.require _ _ rfl)
  have hmem := hc
  rw [← hready.list] at hmem
  exact h.still (.sendScheduler _)
    (h.jobMessage ha hopen rfl hmem ⟨rfl, rfl, rfl, rfl, rfl⟩ (h.still hready hd))

theorem cuts_attends {p : Client × Option Msg × Option Msg} (ha : s.attends e = some p) :
    s.cuts e = s.daemon.activityCuts p.1 p.2.1 p.2.2 := by
  cases e <;> simp_all [EventLoop.attends, EventLoop.cuts]

theorem completes_attends {next : Option Msg}
    (ha : s.attends e = some (c, some .endMsg, next)) (hinst : c.status = .toInstall)
    (hchild : c.childPid = false) : s.completes e = some c := by
  cases e <;> simp_all [EventLoop.attends, EventLoop.completes]

theorem activity (h : Upkeep I s e) {msg next : Option Msg}
    (ha : s.attends e = some (c, msg, next)) (hc : c ∈ s.daemon.clients.list) (hd : I s.daemon) :
    I (s.daemon.handleActivity c msg next).1 := by
  have hcut : ∀ p ∈ s.daemon.activityCuts c msg next, p ∈ s.cuts e := fun p hp =>
    cuts_attends ha ▸ hp
  have hready : Still s.daemon (s.daemon.attending c) := attending_still c
  have hmem : c ∈ (s.daemon.attending c).clients.list := by rwa [hready.list]
  have hhere := h.still hready hd
  have hfold : s.daemon.require .activityStatus
      (c.status ≠ .toCompile ∧ c.status ≠ .waitInstall) = s.daemon.attending c := rfl
  unfold activityCuts at hcut
  unfold handleActivity
  rw [hfold]
  dsimp only at hcut ⊢
  cases msg with
  | none => exact h.ended hmem (loses ha) hcut hhere 118
  | some m =>
    dsimp only at hcut ⊢
    by_cases hinst : c.status = .toInstall
    · rw [if_pos hinst] at hcut ⊢
      apply h.fileChunkEnv hmem (.inl hinst) hcut _ hhere
      rintro rfl hchild
      exact ⟨completes_attends ha hinst hchild, require_diskSize _ _ _, hready.cacheSize,
        hready.received⟩
    · rw [if_neg hinst] at hcut ⊢
      have hsent : Still s.daemon ((s.daemon.attending c).sendClient c .endMsg).1 :=
        hready.trans (.sendClient _ _)
      have hstill := h.still hsent hd
      have hsentMem : c ∈ ((s.daemon.attending c).sendClient c .endMsg).1.clients.list := by
        rwa [hsent.list]
      have hchild := loses ha
      generalize ((s.daemon.attending c).sendClient c .endMsg).1 = k at hcut hstill hsentMem ⊢
      cases m with
      | getNativeEnv r => exact h.getNativeEnv ha hinst hc hcut hd
      | transferEnv r => exact h.transferEnv ha hinst hc hcut hd
      | compileFile job => exact h.compileFile ha hinst hmem hhere
      | getCS r => exact h.getCS ha hinst hmem hhere
      | jobLocalBegin r => exact h.jobMessage ha hinst rfl hmem ⟨rfl, rfl, rfl, rfl, rfl⟩ hhere
      | jobDone r => exact h.jobDone ha hinst hmem hhere
      | verifyEnv r => exact h.still ((Still.verifyEnv _ _ _).trans (.sendClient _ _)) hhere
      | blacklistHostEnv r => exact h.still (.sendScheduler _) hhere
      | endMsg => exact h.ended hmem (loses ha) hcut hhere 119
      | _ => exact h.ended hsentMem hchild hcut hstill 120

/-! ## Jobs and children -/

theorem endCuts_plain (hc : ¬ c.Installing) : ∀ p ∈ d.endCuts c, p ∈ s.cuts e := by
  unfold endCuts
  rw [if_neg hc]
  simp

theorem oldRequest (h : Upkeep I s e) (he : e = .oldRequest) (hd : I s.daemon) :
    I s.daemon.handleOldRequest.1 := by
  apply handleOldRequest_rule h.still h.still id _ _ h.used _ hd
  · intro k c x hstatus hc hk
    have hinst : ¬ c.Installing := by rcases hstatus with h | h | h <;> simp [h]
    have hwait : c.status ≠ .waitForChild := by rcases hstatus with h | h | h <;> simp [h]
    exact h.ended hc (fun hw => absurd hw hwait) (endCuts_plain hinst) hk x
  · intro k c hstatus hc hk
    exact h.turn (.work he hstatus) hc ⟨rfl, rfl, rfl, rfl, rfl⟩ hk
  · intro k c job hstart _ _ hc hk
    exact h.fork he hc hstart.mem.2 hk

theorem compileDone (h : Upkeep I s e) (stat : Option JobStat) (hc : c ∈ d.clients.list)
    (hwait : c.status = .waitForChild) (hpipe : c.pipeFromChild)
    (hlive : ¬ (d.handleCompileDone c stat).1.crashed) (hd : I d) :
    I (d.handleCompileDone c stat).1 := by
  have hgone := h.compiled hc hwait hpipe hd
  unfold handleCompileDone at hlive ⊢
  dsimp only at hlive ⊢
  generalize d.requireCompiling c = n at *
  split at hlive
  · simp [crash] at hlive
  · rename_i job _
    dsimp only
    generalize hk : n.dropKid.put { c with pipeFromChild := false } = k at *
    have herase : Still (n.dropKid.erase c) (k.erase { c with pipeFromChild := false }) := by
      subst hk
      exact .of_eq Records.remove_replace rfl rfl rfl rfl rfl rfl
    have hused : I ((k.useReceived (jobKey job)).erase { c with pipeFromChild := false }) :=
      h.used (h.still herase hgone)
    have hdropped : ∀ x, I (((k.useReceived (jobKey job)).dropDamaged x (jobKey job)).erase
        { c with pipeFromChild := false }) := by
      intro x
      unfold dropDamaged
      split
      · have hremoved := (removeEnvironment_still (d := k.useReceived (jobKey job))
          (jobKey job)).trans .reannounceEnvironments
        exact h.still ((forgetReceived_erase _).trans (hremoved.erase _)) (h.removed hused)
      · exact hused
    have hinst : ¬ ({ c with pipeFromChild := false } : Client).Installing := by simp [hwait]
    exact h.still (((Still.sendScheduler _).erase _).trans (handleEnd_plain hinst _)) (hdropped _)

theorem installDone (h : Upkeep I s e) {success : Bool} (he : e = .installDone success)
    (hvisited : s.visited = some c) (hc : c ∈ s.daemon.clients.list) (hinst : c.Installing)
    (hpipe : c.pipeFromChild) (hd : I s.daemon) :
    I (s.daemon.handleEnvInstallChildDone c success).1 := by
  have hready : I (s.daemon.unpacked c) := h.unpacked hc hinst hpipe hd
  have hcut : ∀ p ∈ s.daemon.installCuts c success, p ∈ s.cuts e := by
    intro p hp
    simp only [he, EventLoop.cuts, hvisited, Option.toList_some, List.flatMap_cons,
      List.flatMap_nil, List.append_nil]
    exact hp
  have hmem : { c with childPid := false, pipeFromChild := false } ∈
      (s.daemon.unpacked c).clients.list := by
    apply mem_put (c := c)
    · have hreq := requireInstalling_frame (d := s.daemon) (c := c)
      change c ∈ (s.daemon.requireInstalling c).clients.list
      rwa [hreq.clients]
    · rfl
  unfold installCuts at hcut
  unfold handleEnvInstallChildDone
  dsimp only at hcut ⊢
  change I (if success = false then (s.daemon.unpacked c).finishTransferEnv _ true
    else if c.pipeToChild then ((s.daemon.unpacked c).require _ _, true)
    else (s.daemon.unpacked c).finishTransferEnv _ false).1
  cases success with
  | false => exact h.finish hmem hinst (hcut _ (List.mem_singleton_self _)) hready
  | true =>
    rw [if_neg (by simp)] at hcut ⊢
    split
    · exact h.still (.require _ _ rfl) hready
    · rename_i hclosed
      rw [if_neg hclosed] at hcut
      have hdisk : (s.daemon.requireInstalling c).diskSize c.outfile =
          s.daemon.diskSize c.outfile := by
        simp only [requireInstalling, require_diskSize]
      have hstore : (s.daemon.requireInstalling c).cacheSize = s.daemon.cacheSize ∧
          (s.daemon.requireInstalling c).receivedEnvironments =
            s.daemon.receivedEnvironments := by
        simp only [requireInstalling, require_cacheSize, require_received, and_self]
      have hcompletes : s.completes e = some c := by
        simp [he, EventLoop.completes, hvisited, Option.filter, hclosed]
      exact h.complete hmem hinst rfl ⟨c, hcompletes, rfl⟩ hdisk hstore.1 hstore.2
        (hcut _ (List.mem_singleton_self _)) hready

/-! ## Answers of the scheduler -/

theorem returned (h : Upkeep I s e) {jobId : UInt32} (hd : I d) : I (d.sendScheduler (.jobDone
    (jobDoneMsg jobId 107 JobDoneMsg.fromSubmitter d.clients.size))).1 :=
  h.still (.sendScheduler _) hd

theorem useCS (h : Upkeep I s e) {r : UseCSMsg} (he : e = .schedulerMsg (some (.useCS r)))
    (hd : I s.daemon) :
    I ((s.daemon.note (.fromScheduler (.useCS r))).schedulerUseCS r).1 := by
  have hnoted : Still s.daemon (s.daemon.note (.fromScheduler (.useCS r))) := Still.note _ rfl
  have hd := h.still hnoted hd
  have hcut : ∀ p ∈ (s.daemon.note (.fromScheduler (.useCS r))).useCSCuts r, p ∈ s.cuts e := by
    intro p hp
    simpa only [he, EventLoop.cuts] using hp
  have hanswered : s.answered e =
      (s.daemon.note (.fromScheduler (.useCS r))).clients.findByClientId r.clientId := by
    rw [he]
    rfl
  have hheeds : s.heeds e ↔ (r.hostname = (s.daemon.note (.fromScheduler (.useCS r))).remoteName ∧
      r.port = (s.daemon.note (.fromScheduler (.useCS r))).daemonPort) ∨
      (s.daemon.note (.fromScheduler (.useCS r))).ask ≠ 0 := by
    rw [he]
    exact Iff.rfl
  generalize s.daemon.note (.fromScheduler (.useCS r)) = n at *
  unfold useCSCuts at hcut
  unfold schedulerUseCS
  cases hfind : n.clients.findByClientId r.clientId with
  | none => exact h.returned hd
  | some c =>
    rw [hfind] at hcut hanswered
    have hc := Steps.findByClientId_mem hfind
    dsimp only at hcut ⊢
    by_cases hhost : r.hostname = n.remoteName ∧ r.port = n.daemonPort
    · rw [if_pos hhost]
      exact h.turn (.answer hanswered (hheeds.mpr (.inl hhost))) hc ⟨rfl, rfl, rfl, rfl, rfl⟩ hd
    · rw [if_neg hhost] at hcut ⊢
      generalize hc' : ({ c with
          usecsmsg := some ⟨r.jobId, r.hostname, r.port, r.hostPlatform, 1, 1, r.matchedJobId⟩ } :
          Client) = c' at *
      have hsame : c.Same c' := by
        subst hc'
        exact ⟨rfl, rfl, rfl, rfl, .inl rfl⟩
      have hsent := Still.sendClient (d := n.put c') c' (.useCS r)
      by_cases hok : ((n.put c').sendClient c' (.useCS r)).2 = true
      · rw [if_pos hok]
        have hask : (n.put c').ask ≠ 0 := by simpa [sendClient] using hok
        have hmoves : c.Moves { c' with status := .waitCompile, jobId := r.jobId } := by
          subst hc'
          exact ⟨rfl, rfl, rfl, rfl, rfl⟩
        have hput := hsent.put { c' with status := .waitCompile, jobId := r.jobId }
        rw [put_put (by rfl)] at hput
        subst hc'
        exact h.still hput (h.turn (.answer hanswered (hheeds.mpr (.inr hask))) hc hmoves hd)
      · rw [if_neg hok] at hcut ⊢
        have hmem : c' ∈ ((n.put c').sendClient c' (.useCS r)).1.clients.list := by
          rw [hsent.list]
          exact mem_put hc hsame.clientId
        have hask : ¬ (n.put c').ask ≠ 0 := by simpa [sendClient] using hok
        have hstatus : c'.status = c.status := by
          subst hc'
          rfl
        apply h.ended hmem _ hcut (h.still hsent (h.keep hc hsame hd))
        intro hw
        refine .inr ⟨c, hanswered, hstatus ▸ hw, fun hheed => ?_⟩
        rcases hheeds.mp hheed with hown | hsome
        · exact hhost hown
        · exact hask hsome

theorem noCS (h : Upkeep I s e) {r : NoCSMsg} (he : e = .schedulerMsg (some (.noCS r)))
    (hd : I s.daemon) :
    I ((s.daemon.note (.fromScheduler (.noCS r))).schedulerNoCS r).1 := by
  have hnoted : Still s.daemon (s.daemon.note (.fromScheduler (.noCS r))) := Still.note _ rfl
  have hd := h.still hnoted hd
  unfold schedulerNoCS
  cases hfind : (s.daemon.note (.fromScheduler (.noCS r))).clients.findByClientId r.clientId with
  | none => exact h.returned hd
  | some c =>
    have hanswered : s.answered e = some c := by
      rw [he]
      exact hfind
    have hheeds : s.heeds e := by
      rw [he]
      trivial
    exact h.turn (.answer hanswered hheeds) (Steps.findByClientId_mem hfind)
      ⟨rfl, rfl, rfl, rfl, rfl⟩ hd

theorem scheduler (h : Upkeep I s e) {m : Msg} (he : e = .schedulerMsg (some m))
    (hd : I s.daemon) : I (s.daemon.handleScheduler m).1 := by
  have hheard : I (s.daemon.note (.fromScheduler m)) := h.still (.note _ rfl) hd
  unfold handleScheduler
  cases m with
  | ping =>
    dsimp only
    split
    · exact h.still (.sendScheduler _) hheard
    · exact hheard
  | useCS r => exact h.useCS he hd
  | noCS r => exact h.noCS he hd
  | getInternals => exact h.still (Still.asked.trans (.sendScheduler _)) hheard
  | csConf r =>
    have hconf : Still (s.daemon.note (.fromScheduler (.csConf r)))
        ((s.daemon.note (.fromScheduler (.csConf r))).handleCsConf r) :=
      .of_eq rfl rfl rfl rfl rfl rfl rfl
    exact h.still hconf hheard
  | _ => exact hheard

/-- The step rule for the books -/
theorem step (h : Upkeep I s e) {t : EventLoop} (hn : EventLoop.next s e = some t)
    (hd : I s.daemon) : I t.daemon := by
  have hdoes := EventLoop.step_does (EventLoop.next_step hn)
  have hlive : ¬ t.daemon.crashed := by
    simpa using (Option.filter_eq_some_iff.mp hn).2
  generalize hd' : t.daemon = d' at hdoes hlive ⊢
  cases hdoes with
  | still hs => exact h.still hs hd
  | oldRequest he hs => exact h.still hs (h.oldRequest he hd)
  | activity ha hc hs => exact h.still hs (h.activity ha hc hd)
  | scheduler he hs => exact h.still hs (h.scheduler he hd)
  | clear hs => exact h.clear (h.still hs hd)
  | accept place fd protocol hid hplace => exact h.accept place fd protocol hid hplace hd
  | compileDone stat hc hwait hpipe => exact h.compileDone stat hc hwait hpipe hlive hd
  | installDone he hvisited hc hinst hpipe => exact h.installDone he hvisited hc hinst hpipe hd
  | createEnvDone he hpipe => exact hd' ▸ h.created he hpipe hn hd

end Upkeep

end Icecream.Iceccd
