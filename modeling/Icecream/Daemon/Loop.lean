import Icecream.Daemon.Handlers
import Icecream.Library.Transition

/-!
# The event loop

`reconnect` and `answer_client_requests`, cut at the points where the outside world
decides how they go on: what a channel holds, which descriptors `poll` returns, what a
child has written. `fds` and `pipes` are the clients' descriptors in the poll set.
-/

namespace Icecream.Iceccd

open Icecream.Comm

inductive Phase
  /-- before `reconnect` -/
  | connecting
  /-- in the loop of `handle_old_request` -/
  | requests
  /-- filling the poll set -/
  | collecting (todo fds pipes : List ℕ)
  | polling (fds pipes : List ℕ)
  /-- reading the scheduler's messages -/
  | scheduled (had : Bool) (fds pipes : List ℕ)
  /-- reading the messages of a client just accepted -/
  | accepted (had : Bool) (fd : ℕ)
  /-- at the first client of `todo`; `piped` once its child's pipe has been looked at -/
  | visiting (had piped : Bool) (todo fds pipes : List ℕ)
  /-- after the clients or the accepted one; only the former go on with the native ones -/
  | natives (had visited : Bool)
  deriving DecidableEq

inductive PollResult
  | error | nothing | ready
  deriving DecidableEq

inductive Event
  /-- what `try_get_scheduler` finds: the protocol and our own address -/
  | reconnect (found : Option (ℕ × Str))
  | oldRequest
  /-- the next client of the poll set, with a message if its channel holds one -/
  | collect (buffered : Option (Option Msg)) (next : Option Msg)
  | poll (result : PollResult)
  | schedulerMsg (m : Option Msg)
  | schedulerRead
  | accept (place fd protocol : ℕ)
  | acceptFailed
  | visit
  | clientMsg (m next : Option Msg)
  | clientRead
  | compileDone (stat : Option JobStat)
  | installDone (success : Bool)
  | createEnvDone (key output : Str)
  | passDone
  /-- an unpacking child writes an archive entry -/
  | unpack (fd : ℕ) (entry : Str) (size : ℕ) (executable : Bool)
  deriving DecidableEq

structure EventLoop where
  daemon : Daemon
  phase : Phase

namespace Daemon

def login (d : Daemon) : LoginMsg :=
  { port := d.daemonPort, nodename := d.nodename, hostPlatform := d.machineName,
    supportedFeatures := d.supportedFeatures, envs := d.availableEnvironments,
    maxKids := d.maxKids, noremote := d.noremote, chrootPossible := d.chrootPossible }

def connect (d : Daemon) (protocol : ℕ) (name : Str) : Daemon :=
  { d.note .connected with
    scheduler := some protocol, remoteName := name, currentLoad := -1000, lastStat := d.now }

def reconnect (d : Daemon) (found : Option (ℕ × Str)) : Daemon :=
  match d.scheduler, found with
  | none, some (protocol, name) =>
    let d := d.connect protocol name
    (d.sendScheduler (.login d.login)).1
  | _, _ => d

/-- A client of the last accepted connection, at its place among the pointers. -/
def addClient (d : Daemon) (place fd protocol : ℕ) : Daemon :=
  let id := d.newClientId + 1
  let c : Client := { clientId := id, fd := fd, protocol := protocol }
  { d with
    newClientId := id
    clients := { d.clients with list := d.clients.list.insertIdx place c }
    fd2client := (d.fd2client.filter fun e => e.1 < fd) ++ (fd, id) ::
      d.fd2client.filter fun e => fd < e.1 }

/-- A message of the scheduler; the result is false when its channel is to be closed. -/
def handleScheduler (d : Daemon) (m : Msg) : Daemon × Bool :=
  let d := d.note (.fromScheduler m)
  match m with
  | .ping =>
    if d.scheduler.any fun protocol => protocol < 27 then d.sendScheduler .ping else (d, true)
  | .useCS m => d.schedulerUseCS m
  | .noCS m => d.schedulerNoCS m
  | .getInternals => d.schedulerGetInternals
  | .csConf m => (d.handleCsConf m, true)
  | _ => (d, false)

end Daemon

/-- The statuses in which the loop stops reading a client's messages. -/
def Status.paused (s : Status) : Bool := s = .toCompile ∨ s = .waitForChild ∨ s = .waitInstall

namespace EventLoop

open Daemon

/-- After a true result the loop looks at the client's status. -/
def afterActivity (r : Daemon × Bool) (fd : ℕ) (stay leave : Phase) : EventLoop :=
  if r.2 = false then ⟨r.1, leave⟩
  else match r.1.clients.findByFd fd with
    | none => ⟨r.1.note .readAfterFree, leave⟩
    | some c => ⟨r.1, if c.status.paused then leave else stay⟩

/-- The poll set's entries of one client whose status was `status` at the start. -/
def collected (d : Daemon) (fd : ℕ) (status : Status) (selected : Bool)
    (todo fds pipes : List ℕ) : EventLoop :=
  let watches := status = .waitForChild ∨ status = .toInstall ∨ status = .waitInstall
  let fds := if selected then fd :: fds else fds
  match d.clients.findByFd fd with
  | none => ⟨if watches then d.note .readAfterFree else d, .collecting todo fds pipes⟩
  | some c =>
    ⟨d, .collecting todo fds (if watches ∧ c.pipeFromChild then fd :: pipes else pipes)⟩

def collect (d : Daemon) (buffered : Option (Option Msg)) (next : Option Msg) (fd : ℕ)
    (todo fds pipes : List ℕ) : Option EventLoop :=
  match d.clients.findByFd fd with
  | none => none
  | some c =>
    if c.status = .toCompile then some (collected d fd c.status true todo fds pipes)
    else if c.status = .waitForChild ∨ c.status = .waitInstall then
      some (collected d fd c.status false todo fds pipes)
    else match buffered with
      | none => some (collected d fd c.status true todo fds pipes)
      | some m =>
        let r := d.handleActivity c m next
        some (collected r.1 fd c.status r.2 todo fds pipes)

def step (s : EventLoop) : Event → Option EventLoop
  | .reconnect found =>
    if s.phase = .connecting then some ⟨s.daemon.reconnect found, .requests⟩ else none
  | .oldRequest =>
    if s.phase = .requests then
      let r := s.daemon.handleOldRequest
      if r.2 then some ⟨r.1, .requests⟩
      else
        let d := if r.1.scheduler.isSome then (r.1.maybeStats false).1 else r.1
        some ⟨d, .collecting (d.fd2client.map Prod.fst) [] []⟩
    else none
  | .collect buffered next =>
    match s.phase with
    | .collecting [] fds pipes => some ⟨s.daemon, .polling fds pipes⟩
    | .collecting (fd :: todo) fds pipes =>
      collect s.daemon buffered next fd todo fds pipes
    | _ => none
  | .poll result =>
    match s.phase with
    | .polling fds pipes =>
      match result with
      | .error => some ⟨s.daemon.closeScheduler, .connecting⟩
      | .nothing => some ⟨s.daemon, .connecting⟩
      | .ready => some ⟨s.daemon, .scheduled s.daemon.scheduler.isSome fds pipes⟩
    | _ => none
  | .schedulerMsg m =>
    match s.phase with
    | .scheduled true fds pipes =>
      match m with
      | none => some ⟨s.daemon.closeScheduler.clearChildren, .connecting⟩
      | some m =>
        let r := s.daemon.handleScheduler m
        if r.2 = false then some ⟨r.1.closeScheduler, .connecting⟩
        -- the loop reads from the channel again, which may be gone by now
        else if r.1.scheduler.isNone then some ⟨r.1.crash, s.phase⟩
        else some ⟨r.1, .scheduled true fds pipes⟩
    | _ => none
  | .schedulerRead =>
    match s.phase with
    | .scheduled had fds pipes =>
      some ⟨s.daemon, .visiting had false (s.daemon.fd2client.map Prod.fst) fds pipes⟩
    | _ => none
  | .accept place fd protocol =>
    match s.phase with
    | .scheduled had _ _ =>
      if s.daemon.clients.findByFd fd = none ∧ s.daemon.newClientId + 1 < 2 ^ 31 ∧
          place ≤ s.daemon.clients.list.length then
        some ⟨s.daemon.addClient place fd protocol, .accepted had fd⟩
      else none
    | _ => none
  | .acceptFailed =>
    match s.phase with
    | .scheduled _ _ _ => some ⟨s.daemon, .connecting⟩
    | _ => none
  | .clientMsg m next =>
    match s.phase with
    | .accepted had fd =>
      (s.daemon.clients.findByFd fd).map fun c =>
        afterActivity (s.daemon.handleActivity c m next) fd s.phase (.natives had false)
    | .visiting had _ (fd :: todo) fds pipes =>
      (s.daemon.clients.findByFd fd).bind fun c =>
        if fd ∈ fds ∧ c.status ≠ .toCompile then
          some (afterActivity (s.daemon.handleActivity c m next) fd
            (.visiting had true (fd :: todo) fds pipes) (.visiting had false todo fds pipes))
        else none
    | _ => none
  | .clientRead =>
    match s.phase with
    | .accepted had _ => some ⟨s.daemon, .natives had false⟩
    | .visiting had _ (_ :: todo) fds pipes => some ⟨s.daemon, .visiting had false todo fds pipes⟩
    | _ => none
  | .compileDone stat =>
    match s.phase with
    | .visiting _ false (fd :: _) _ pipes =>
      (s.daemon.clients.findByFd fd).bind fun c =>
        if c.status = .waitForChild ∧ c.pipeFromChild ∧ fd ∈ pipes then
          some ⟨(s.daemon.handleCompileDone c stat).1, .connecting⟩
        else none
    | _ => none
  | .installDone success =>
    match s.phase with
    | .visiting had false (fd :: todo) fds pipes =>
      (s.daemon.clients.findByFd fd).bind fun c =>
        if (c.status = .toInstall ∨ c.status = .waitInstall) ∧ c.pipeFromChild ∧ fd ∈ pipes then
          let r := s.daemon.handleEnvInstallChildDone c success
          some ⟨r.1, if r.2 then .visiting had true (fd :: todo) fds pipes else .connecting⟩
        else none
    | _ => none
  | .visit =>
    match s.phase with
    | .visiting had _ [] _ _ => some ⟨s.daemon, .natives had true⟩
    | _ => none
  | .createEnvDone key output =>
    match s.phase with
    | .natives had true =>
      if (s.daemon.native key).createEnvPipe then
        let r := s.daemon.createEnvFinished key output
        let d := if r.2 then r.1
          else { r.1 with nativeEnvironments := r.1.nativeEnvironments.erase key }
        some ⟨d, .natives had true⟩
      else none
    | _ => none
  | .passDone =>
    match s.phase with
    | .natives had _ =>
      some ⟨if had ∧ s.daemon.scheduler.isNone then s.daemon.clearChildren else s.daemon,
        .connecting⟩
    | _ => none
  | .unpack fd entry size executable =>
    (s.daemon.clients.findByFd fd).bind fun c =>
      if c.childPid ∧ (c.status = .toInstall ∨ c.status = .waitInstall) then
        let path := targetDir s.daemon.envbasedir c.outfile ++ Path.slash :: entry
        some { s with daemon := { s.daemon.note (.path .extract path) with
          disk := s.daemon.disk.write (Path.normalise path) size executable } }
      else none

/-- A step that crashes the daemon is none. -/
def next (s : EventLoop) (e : Event) : Option EventLoop :=
  (step s e).filter fun t => ¬ t.daemon.crashed

/-- The daemon as it enters `working_loop`: nothing but its settings. -/
structure Init (s : EventLoop) : Prop where
  phase : s.phase = .connecting
  clients : s.daemon.clients = {}
  fd2client : s.daemon.fd2client = []
  received : s.daemon.receivedEnvironments = ∅
  native : s.daemon.nativeEnvironments = ∅
  cacheSize : s.daemon.cacheSize = 0
  newClientId : s.daemon.newClientId = 0
  scheduler : s.daemon.scheduler = none
  currentKids : s.daemon.currentKids = 0
  disk : s.daemon.disk = [⟨Path.normalise s.daemon.envbasedir, true, 0, false⟩]
  log : s.daemon.log = []
  crashed : s.daemon.crashed = false

def system : Transition.System EventLoop Event where
  init := Init
  next := next

/-- A host on which the n-th question is answered by `answer n`, and every file is missing. -/
def plainHost (answer : ℕ → ℕ) : Host where
  answer := answer
  clock := fun _ => 0
  mtime := fun _ _ => none
  readable := fun _ _ => false
  report := fun _ => []
  stats := fun _ => ⟨0, 0, 0, 0, 0, 0⟩

def started (answer : ℕ → ℕ) (maxKids : UInt32) : EventLoop where
  daemon :=
    { envbasedir := str "/e", machineName := str "x", daemonPort := 10245, maxSchedulerPong := 3
      maxSchedulerPing := 39, maxKids := maxKids, cacheSizeLimit := 100
      disk := [⟨Path.normalise (str "/e"), true, 0, false⟩], host := plainHost answer }
  phase := .connecting

theorem started_init (answer : ℕ → ℕ) (maxKids : UInt32) : (started answer maxKids).Init :=
  ⟨rfl, rfl, rfl, rfl, rfl, rfl, rfl, rfl, rfl, rfl, rfl, rfl⟩

/-- Up to the poll, with `clients` of them in the poll set and nothing in their channels. -/
def polling (clients : ℕ) : List Event :=
  .oldRequest :: List.replicate (clients + 1) (.collect none none) ++ [.poll .ready]

/-- A new client on `fd` and what it sends at once. -/
def accepting (fd : ℕ) (ms : List Msg) : List Event :=
  .accept 0 fd 45 :: ms.map fun m => .clientMsg (some m) none

/-- The rest of a pass that accepted a client, up to the requests of the next one. -/
def again : List Event := [.clientRead, .passDone, .reconnect none]

/-- The client on `fd`, the only one in the poll set, sends. -/
def sending (ms : List Msg) : List Event :=
  .schedulerRead :: ms.map fun m => .clientMsg (some m) none

end EventLoop

end Icecream.Iceccd
