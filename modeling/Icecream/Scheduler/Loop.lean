import Icecream.Scheduler.Handlers
import Icecream.Library.Transition

/-!
# The main loop

`main` of `scheduler/scheduler.cpp`, cut at the points where the outside world decides
how it goes on. A loop over `fd2cs` keeps the descriptor of its next entry, which is
what the saved iterator points to.
-/

namespace Icecream.IceccScheduler

open Icecream.Comm
open Icecream.Services

inductive Phase
  /-- before `prune_servers` -/
  | pruning
  | emptying
  /-- the buffered messages of `cur`, then the entry at `it` -/
  | buffered (cur it : Option ℕ)
  /-- in `poll`, with the servers whose connection tests are watched -/
  | polling (tests : List ℕ)
  /-- accepting daemons and monitors, and reading what `cur` sends at once -/
  | accepting (cur : Option ℕ) (tests : List ℕ)
  /-- the same for a control connection -/
  | controlling (cur : Option ℕ) (tests : List ℕ)
  | broadcasts (tests : List ℕ)
  /-- reading from `cur`, then the entry at `it` -/
  | visiting (cur it : Option ℕ) (tests : List ℕ)
  | testing (tests : List ℕ)
  /-- `main` has returned. -/
  | stopped
  deriving DecidableEq

inductive Event
  | prune
  | emptyQueue
  /-- `get_msg` on the connection being read; `none` when it is at its end -/
  | activity (m : Option Msg)
  /-- nothing more to read -/
  | idle
  /-- the loop takes its next entry -/
  | advance
  | pollFailed
  | pollInterrupted
  | poll
  /-- a connection that agreed on a protocol -/
  | accept (fd address : ℕ) (name : Str) (protocol : ℕ) (maximumRemoteProtocol : ℤ)
  | accepted
  | acceptControl (fd address : ℕ) (name : Str)
  | controlled
  | datagram (buf : Bytes)
  | noDatagram
  /-- the activity loop ends because all descriptors have been seen -/
  | visited
  | tested (connected : Bool)
  deriving DecidableEq

structure Loop where
  scheduler : Scheduler
  phase : Phase

namespace Scheduler

/-! ## `prune_servers` -/

def maxSchedulerPing : ℤ := 36
def maxSchedulerPong : ℤ := 3
def maxBusyInstalling : ℤ := 120

def timeOffsetTable : List ℤ := [2, 4, 8, 16, 32, 64, 128, 256, 512, 1024, 2048, 4096]

/-- `table_size` counts bytes; behind the table lies what the host answers. -/
def updateInConnectivity (s : Scheduler) (cid : ℕ) (acceptingIn : Bool) : Scheduler :=
  let c := s.conn cid
  if acceptingIn then
    s.asked.put { c with
      acceptingInConnection := true
      inConnAttempt := if c.acceptingInConnection then c.inConnAttempt else 0
      nextConnTime := s.now + 60
      connecting := false }
  else
    s.asked.put { c with
      acceptingInConnection := false
      nextConnTime := s.now + timeOffsetTable.getD c.inConnAttempt s.ask
      inConnAttempt := if c.inConnAttempt < 95 then c.inConnAttempt + 1 else c.inConnAttempt
      connecting := false }

/-- The host answers 0 for a connection that is refused, 1 for one that succeeds at once
and something else for one in progress. -/
def startInConnectionTest (s : Scheduler) (cid : ℕ) : Scheduler :=
  let c := s.conn cid
  if c.noRemote ∨ c.connecting ∨ s.now < c.nextConnTime then s
  else
    let answer := s.ask
    let s := s.asked.put { c with connecting := true }
    let s := if answer = 0 then s.updateInConnectivity cid false
      else if answer = 1 then s.updateInConnectivity cid (s.ask ≠ 0)
      else s
    s.asked.put { s.conn cid with lastConnStartTime := s.now }

def pruneControl (s : Scheduler) (cid : ℕ) : Except Fault Scheduler := do
  s.touch cid
  if maxSchedulerPing ≤ s.now - (s.conn cid).lastTalk then s.handleEnd cid else return s

/-- A daemon older than version 27 that has not talked for a long time. -/
def pingServer (s : Scheduler) (cid : ℕ) : Except Fault Scheduler := do
  let c := s.conn cid
  if s.now - c.lastTalk < maxSchedulerPing then return s
  else if c.maxJobs < 0 then s.handleEnd cid
  else
    let r ← (s.put { c with maxJobs := -c.maxJobs }).send cid .ping
    if r.2 then
      return r.1.asked.put { r.1.conn cid with
        lastTalk := r.1.now - maxSchedulerPing + 2 * maxSchedulerPong }
    else r.1.handleEnd cid

def pruneServer (s : Scheduler) (cid : ℕ) : Except Fault Scheduler := do
  s.touch cid
  let s := s.startInConnectionTest cid
  let c := s.conn cid
  if c.busyInstalling ≠ 0 ∧ maxBusyInstalling ≤ s.now - c.busyInstalling then s.handleEnd cid
  else if 27 ≤ c.protocol then return s
  else s.pingServer cid

def pruneServers (s : Scheduler) : Except Fault Scheduler := do
  let s ← s.controls.foldlM pruneControl s.asked
  s.css.foldlM pruneServer s

/-! ## Connections -/

def insertFd (fd cid : ℕ) (l : List (ℕ × ℕ)) : List (ℕ × ℕ) :=
  (l.filter fun e => e.1 < fd) ++ (fd, cid) :: l.filter fun e => fd < e.1

/-- `new CompileServer` and its entry in `fd2cs` -/
def addConn (s : Scheduler) (c : CompileServer) : Scheduler :=
  { s.asked with
    newCid := s.newCid + 1
    conns := c :: s.conns
    fd2cs := insertFd c.fd c.cid s.fd2cs }

def accept (s : Scheduler) (fd address : ℕ) (name : Str) (protocol : ℕ)
    (maximumRemoteProtocol : ℤ) : Scheduler :=
  s.addConn
    { cid := s.newCid, fd := fd, name := name, address := address, protocol := protocol
      maximumRemoteProtocol := maximumRemoteProtocol, lastTalk := s.now }

/-- A control connection, which is logged in from the start. -/
def acceptControl (s : Scheduler) (fd address : ℕ) (name : Str) :
    Except Fault (Scheduler × Bool) := do
  let cid := s.newCid
  let s := s.addConn
    { cid := cid, fd := fd, name := name, address := address, protocol := 0
      maximumRemoteProtocol := 0, lastTalk := s.now, type := .line, state := .loggedIn }
  let s := s.require .controlListed (cid ∉ s.controls)
  let r ← { s with controls := s.controls ++ [cid] }.sendText cid
  if r.2 then return r else return (← r.1.handleEnd cid, false)

/-! ## Other schedulers -/

/-- `handle_end` on the first element until there is none. -/
def endServers : ℕ → Scheduler → Except Fault Scheduler
  | 0, s => pure s
  | fuel + 1, s =>
    match s.css with
    | [] => pure s
    | cid :: _ => do endServers fuel (← s.handleEnd cid)

def endMonitors : ℕ → Scheduler → Except Fault Scheduler
  | 0, s => pure s
  | fuel + 1, s =>
    match s.monitors with
    | [] => pure s
    | cid :: _ => do endMonitors fuel (← s.handleEnd cid)

def disconnectAll (s : Scheduler) : Except Fault Scheduler := do
  let s ← endServers s.css.length s
  endMonitors s.monitors.length s

/-- Whether the other scheduler has a better version, or the same and started earlier. -/
def preferred (other : SchedulerVersion) (self : Announcer) : Bool :=
  self.version < other.protocol ∨ (other.protocol = self.version ∧ other.time < self.starttime)

def handleSchedulerAnnounce (s : Scheduler) (buf : Bytes) : Except Fault Scheduler :=
  let other := getSchedulerVersionData buf
  if 36 ≤ other.protocol ∧ other.netname = s.settings.self.netname ∧
      preferred other s.settings.self ∧ ¬ s.settings.persistentClients then s.disconnectAll
  else pure s

/-- The answer to a daemon changes nothing here. -/
def handleDatagram (s : Scheduler) (buf : Bytes) : Except Fault Scheduler :=
  if isSchedulerVersion buf then s.handleSchedulerAnnounce buf else pure s

/-! ## Iterators of `fd2cs` -/

def beginFd (s : Scheduler) : Option ℕ := s.fd2cs.head?.map Prod.fst

/-- The connection at a saved iterator; `none` when its entry has been erased. -/
def entryAt (s : Scheduler) (fd : ℕ) : Option ℕ :=
  (s.fd2cs.find? fun e => e.1 = fd).map Prod.snd

def nextFd (s : Scheduler) (fd : ℕ) : Option ℕ :=
  (s.fd2cs.find? fun e => fd < e.1).map Prod.fst

end Scheduler

namespace Loop

open Scheduler

/-- What is being read from: the phase without it. -/
def current : Phase → Option (ℕ × Phase)
  | .buffered (some cid) it => some (cid, .buffered none it)
  | .accepting (some cid) tests => some (cid, .accepting none tests)
  | .controlling (some cid) tests => some (cid, .controlling none tests)
  | .visiting (some cid) it tests => some (cid, .visiting none it tests)
  | _ => none

/-- `++it` after the entry at `fd` has been read -/
def advance (s : Scheduler) (fd : ℕ) (phase : Option ℕ → Option ℕ → Phase) : Except Fault Loop :=
  match s.entryAt fd with
  | none => throw .readAfterFree
  | some cid => pure ⟨s, phase (some cid) (s.nextFd fd)⟩

/-- The servers with a connection test under way -/
def watched (s : Scheduler) : List ℕ := s.css.filter fun cid => (s.conn cid).connecting

/-- The channel of a control connection holds nothing but lines. -/
def delivers (s : Scheduler) (cid : ℕ) : Option Msg → Bool
  | none => true
  | some (.text _) => true
  | some _ => (s.conn cid).type ≠ .line

/-- A server of `cs_in_tsts` -/
def finishTest (s : Scheduler) (cid : ℕ) (connected : Bool) : Except Fault Scheduler :=
  if cid ∉ s.css then pure s
  else do
    s.touch cid
    return if (s.conn cid).connecting then s.updateInConnectivity cid connected else s

def step (l : Loop) : Event → Option (Except Fault Loop)
  | .prune =>
    if l.phase = .pruning then some do return ⟨← l.scheduler.pruneServers, .emptying⟩ else none
  | .emptyQueue =>
    if l.phase = .emptying then some do
      let r ← l.scheduler.emptyQueue
      return ⟨r.1, if r.2 then .emptying else .buffered none r.1.beginFd⟩
    else none
  | .activity m =>
    (current l.phase).bind fun (cid, rest) =>
      if delivers l.scheduler cid m then some do
        let r ← l.scheduler.handleActivity cid m
        return ⟨r.1, if r.2 then l.phase else rest⟩
      else none
  | .idle =>
    (current l.phase).map fun (cid, rest) => do
      l.scheduler.touch cid
      return ⟨l.scheduler, rest⟩
  | .advance =>
    match l.phase with
    | .buffered none none => some do
      l.scheduler.css.forM l.scheduler.touch
      return ⟨l.scheduler, .polling (watched l.scheduler)⟩
    | .buffered none (some fd) => some (advance l.scheduler fd .buffered)
    | .visiting none none tests => some (pure ⟨l.scheduler, .testing tests⟩)
    | .visiting none (some fd) tests =>
      some (advance l.scheduler fd fun cur it => .visiting cur it tests)
    | _ => none
  | .pollFailed =>
    match l.phase with
    | .polling _ => some (pure ⟨l.scheduler, .stopped⟩)
    | _ => none
  | .pollInterrupted =>
    match l.phase with
    | .polling _ => some (pure ⟨l.scheduler, .pruning⟩)
    | _ => none
  | .poll =>
    match l.phase with
    | .polling tests => some (pure ⟨l.scheduler, .accepting none tests⟩)
    | _ => none
  | .accept fd address name protocol maximumRemoteProtocol =>
    match l.phase with
    | .accepting none tests =>
      if l.scheduler.conns.all fun c => c.fd ≠ fd then
        some (pure ⟨l.scheduler.accept fd address name protocol maximumRemoteProtocol,
          .accepting (some l.scheduler.newCid) tests⟩)
      else none
    | _ => none
  | .accepted =>
    match l.phase with
    | .accepting none tests => some (pure ⟨l.scheduler, .controlling none tests⟩)
    | _ => none
  | .acceptControl fd address name =>
    match l.phase with
    | .controlling none tests =>
      if l.scheduler.conns.all fun c => c.fd ≠ fd then some do
        let r ← l.scheduler.acceptControl fd address name
        return ⟨r.1, if r.2 then .controlling (some l.scheduler.newCid) tests else .pruning⟩
      else none
    | _ => none
  | .controlled =>
    match l.phase with
    | .controlling none tests => some (pure ⟨l.scheduler, .broadcasts tests⟩)
    | _ => none
  | .datagram buf =>
    match l.phase with
    | .broadcasts tests => some do
      let s ← l.scheduler.handleDatagram buf
      return ⟨s, .visiting none s.beginFd tests⟩
    | _ => none
  | .noDatagram =>
    match l.phase with
    | .broadcasts tests => some (pure ⟨l.scheduler, .visiting none l.scheduler.beginFd tests⟩)
    | _ => none
  | .visited =>
    match l.phase with
    | .visiting none _ tests => some (pure ⟨l.scheduler, .testing tests⟩)
    | _ => none
  | .tested connected =>
    match l.phase with
    | .testing [] => some (pure ⟨l.scheduler, .pruning⟩)
    | .testing (cid :: tests) => some do
      return ⟨← finishTest l.scheduler cid connected, .testing tests⟩
    | _ => none

/-- A step that the scheduler does not survive is none. -/
def next (l : Loop) (e : Event) : Option Loop := (step l e).bind Except.toOption

theorem next_emptyQueue {l l' : Loop} (hnext : l.next .emptyQueue = some l') :
    ∃ again, l.scheduler.emptyQueue = .ok (l'.scheduler, again) := by
  obtain ⟨x, hx, hok⟩ := Option.bind_eq_some_iff.mp hnext
  simp only [step, Option.ite_none_right_eq_some, Option.some.injEq] at hx
  obtain ⟨-, rfl⟩ := hx
  cases hr : l.scheduler.emptyQueue with
  | error f =>
    rw [hr] at hok
    cases hok
  | ok r =>
    rw [hr] at hok
    cases hok
    exact ⟨r.2, rfl⟩

theorem next_activity {l l' : Loop} {msg : Option Msg} {cid : ℕ} {rest : Phase}
    (hcurrent : current l.phase = some (cid, rest)) (hnext : l.next (.activity msg) = some l') :
    ∃ b, l.scheduler.handleActivity cid msg = .ok (l'.scheduler, b) := by
  obtain ⟨x, hx, hok⟩ := Option.bind_eq_some_iff.mp hnext
  simp only [step, hcurrent, Option.bind_some, Option.ite_none_right_eq_some,
    Option.some.injEq] at hx
  obtain ⟨-, rfl⟩ := hx
  cases hr : l.scheduler.handleActivity cid msg with
  | error f =>
    rw [hr] at hok
    cases hok
  | ok r =>
    rw [hr] at hok
    cases hok
    exact ⟨r.2, rfl⟩

/-- The scheduler as it enters its loop: nothing but its settings. -/
structure Init (l : Loop) : Prop where
  phase : l.phase = .pruning
  conns : l.scheduler.conns = []
  fd2cs : l.scheduler.fd2cs = []
  css : l.scheduler.css = []
  monitors : l.scheduler.monitors = []
  controls : l.scheduler.controls = []
  blockCss : l.scheduler.blockCss = []
  newJobId : l.scheduler.newJobId = 0
  heap : l.scheduler.heap = []
  jobs : l.scheduler.jobs = []
  jobRequests : l.scheduler.jobRequests = []
  allJobStats : l.scheduler.allJobStats = []
  cumJobStats : l.scheduler.cumJobStats = {}
  hostIdCounter : l.scheduler.hostIdCounter = 0
  log : l.scheduler.log = []

def system : Transition.System Loop Event where
  init := Init
  next := next

/-- A host on which the n-th question is answered by `answer n` and time stands still. -/
def plainHost (answer : ℕ → ℕ) : Host where
  answer := answer
  clock := fun _ => 1
  report := fun _ => []
  speed := fun _ _ => 0
  smoothed := fun _ st => st.outputSize

/-- The settings of a scheduler of this version that is told nothing. -/
def plainSettings : Settings where
  self :=
    { version := protocolVersion, starttime := 0, netname := str "ICECREAM"
      current := by decide, plain := by decide }

def started (answer : ℕ → ℕ) : Loop where
  scheduler := { settings := plainSettings, host := plainHost answer }
  phase := .pruning

theorem started_init (answer : ℕ → ℕ) : (started answer).Init :=
  ⟨rfl, rfl, rfl, rfl, rfl, rfl, rfl, rfl, rfl, rfl, rfl, rfl, rfl, rfl, rfl⟩

end Loop

end Icecream.IceccScheduler
