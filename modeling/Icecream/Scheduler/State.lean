import Mathlib.Data.List.AList
import Mathlib.Data.Rat.Defs
import Icecream.Library.Fault
import Icecream.Library.Records
import Icecream.Services.Broadcast

/-!
# The scheduler's state

`CompileServer`, `Job` and the globals of `scheduler/scheduler.cpp`. A pointer is a
number that is never given out twice, and the heap holds the objects not yet deleted,
so that `jobs`, `css` and the other containers can hold what is gone. The log has the
newest entry first.
-/

namespace Icecream.IceccScheduler

open Icecream.Comm (Str str Msg Environments)

inductive ConnState
  | connected | loggedIn
  deriving DecidableEq

inductive ConnType
  | unknown | daemon | monitor | line
  deriving DecidableEq

inductive JobState
  | pending | waitingForCS | compiling
  deriving DecidableEq

structure JobStat where
  outputSize : UInt64 := 0
  compileTimeReal : UInt64 := 0
  compileTimeUser : UInt64 := 0
  compileTimeSys : UInt64 := 0
  jobId : UInt32 := 0
  deriving DecidableEq

namespace JobStat

def add (l r : JobStat) : JobStat where
  outputSize := l.outputSize + r.outputSize
  compileTimeReal := l.compileTimeReal + r.compileTimeReal
  compileTimeUser := l.compileTimeUser + r.compileTimeUser
  compileTimeSys := l.compileTimeSys + r.compileTimeSys
  jobId := 0

def sub (l r : JobStat) : JobStat where
  outputSize := l.outputSize - r.outputSize
  compileTimeReal := l.compileTimeReal - r.compileTimeReal
  compileTimeUser := l.compileTimeUser - r.compileTimeUser
  compileTimeSys := l.compileTimeSys - r.compileTimeSys
  jobId := 0

end JobStat

/-- `ptr` is the object's address, `submitter` and `server` those of connections. -/
structure Job where
  ptr : ℕ
  id : UInt32
  submitter : ℕ
  localClientId : UInt32 := 0
  state : JobState := .pending
  server : Option ℕ := none
  environments : Environments := []
  targetPlatform : Str := []
  masterJobFor : List ℕ := []
  argFlags : UInt32 := 0
  preferredHost : Str := []
  minimalHostVersion : ℤ := 0
  requiredFeatures : UInt32 := 0
  niceness : ℤ := 0
  deriving DecidableEq

structure LocalJobInfo where
  id : UInt32 := 0
  fulljob : Bool := false
  deriving DecidableEq

/-- `cid` is the object's address and `address` the peer's, as `eq_ip` compares it. -/
structure CompileServer where
  cid : ℕ
  fd : ℕ
  name : Str
  address : ℕ
  protocol : ℕ
  maximumRemoteProtocol : ℤ
  lastTalk : ℤ := 0
  remotePort : UInt32 := 0
  hostId : UInt32 := 0
  nodeName : Str := []
  busyInstalling : ℤ := 0
  hostPlatform : Str := []
  load : UInt32 := 1000
  maxJobs : ℤ := 0
  noRemote : Bool := false
  jobList : List ℕ := []
  state : ConnState := .connected
  type : ConnType := .unknown
  chrootPossible : Bool := false
  supportedFeatures : UInt32 := 0
  clientCount : ℤ := 0
  submittedJobsCount : ℤ := 0
  lastPickedId : UInt32 := 0
  compilerVersions : Environments := []
  lastCompiledJobs : List JobStat := []
  lastRequestedJobs : List JobStat := []
  cumCompiled : JobStat := {}
  cumRequested : JobStat := {}
  clientLocalMap : AList (fun _ : UInt32 => LocalJobInfo) := ∅
  blacklist : AList (fun _ : ℕ => Environments) := ∅
  connecting : Bool := false
  inConnAttempt : ℕ := 0
  nextConnTime : ℤ := 0
  lastConnStartTime : ℤ := 0
  acceptingInConnection : Bool := true
  deriving DecidableEq

structure JobRequestsGroup where
  l : List ℕ
  submitter : ℕ
  niceness : ℤ
  deriving DecidableEq

inductive SchedulerAlgorithmName
  | none | undefined | random | roundRobin | leastBusy | fastest
  deriving DecidableEq

/-- Memory of a deleted connection or job is used, or a null pointer. -/
inductive Fault
  | readAfterFree | jobReadAfterFree | nullPointer
  deriving DecidableEq

/-- What the operating system answers to the n-th question and what time it is then.
The two float computations, `server_speed` and the smoothing of `add_job_stats`, are
parameters, and so are the texts that only people read. -/
structure Host where
  answer : ℕ → ℕ
  clock : ℕ → ℤ
  report : ℕ → Str
  speed : CompileServer → Option Job → ℚ
  smoothed : CompileServer → JobStat → UInt64

structure Settings where
  self : Services.Announcer
  persistentClients : Bool := false
  algorithm : SchedulerAlgorithmName := .fastest
  submissionWeight : ℕ := 0

inductive Assertion
  | newJobId | emptyQueue | hostId | monitorListed | controlListed | niceness
  deriving DecidableEq

inductive Obs
  | received (cid : ℕ) (m : Option Msg)
  | sent (cid : ℕ) (m : Msg) (ok : Bool)
  | ended (cid : ℕ)
  | assertionFailed (a : Assertion)
  deriving DecidableEq

structure Scheduler where
  settings : Settings
  conns : List CompileServer := []
  fd2cs : List (ℕ × ℕ) := []
  css : List ℕ := []
  monitors : List ℕ := []
  controls : List ℕ := []
  blockCss : List Str := []
  newJobId : UInt32 := 0
  heap : List Job := []
  jobs : List (UInt32 × ℕ) := []
  jobRequests : List JobRequestsGroup := []
  allJobStats : List JobStat := []
  cumJobStats : JobStat := {}
  hostIdCounter : UInt32 := 0
  newPtr : ℕ := 0
  newCid : ℕ := 0
  host : Host
  calls : ℕ := 0
  log : List Obs := []

namespace Scheduler

/-! ## The machine -/

def ask (s : Scheduler) : ℕ := s.host.answer s.calls

def now (s : Scheduler) : ℤ := s.host.clock s.calls

def text (s : Scheduler) : Str := s.host.report s.calls

def asked (s : Scheduler) : Scheduler := { s with calls := s.calls + 1 }

def note (s : Scheduler) (o : Obs) : Scheduler := { s with log := o :: s.log }

def require (s : Scheduler) (a : Assertion) (holds : Bool) : Scheduler :=
  if holds then s else s.note (.assertionFailed a)

/-! ## Objects -/

def live (s : Scheduler) (cid : ℕ) : Bool := s.conns.any fun c => c.cid = cid

/-- The object at an address; nothing is known of one that is gone. -/
def conn (s : Scheduler) (cid : ℕ) : CompileServer :=
  (s.conns.find? fun c => c.cid = cid).getD
    { cid := cid, fd := 0, name := [], address := 0, protocol := 0, maximumRemoteProtocol := 0 }

/-- A connection is used. -/
def touch (s : Scheduler) (cid : ℕ) : Except Fault Unit :=
  if s.live cid then pure () else throw .readAfterFree

def put (s : Scheduler) (c : CompileServer) : Scheduler :=
  { s with conns := Records.replace CompileServer.cid c s.conns }

/-- `fd2cs.erase(cs->fd)` and `delete cs` -/
def free (s : Scheduler) (cid : ℕ) : Scheduler :=
  { s.note (.ended cid) with
    fd2cs := s.fd2cs.filter fun e => e.1 ≠ (s.conn cid).fd
    conns := Records.remove CompileServer.cid cid s.conns }

def liveJob (s : Scheduler) (ptr : ℕ) : Bool := s.heap.any fun j => j.ptr = ptr

def job (s : Scheduler) (ptr : ℕ) : Job :=
  (s.heap.find? fun j => j.ptr = ptr).getD { ptr := ptr, id := 0, submitter := 0 }

def touchJob (s : Scheduler) (ptr : ℕ) : Except Fault Unit :=
  if s.liveJob ptr then pure () else throw .jobReadAfterFree

def putJob (s : Scheduler) (j : Job) : Scheduler :=
  { s with heap := Records.replace Job.ptr j s.heap }

/-- `delete job`, whose destructor counts at the submitter. -/
def freeJob (s : Scheduler) (ptr : ℕ) : Except Fault Scheduler := do
  let submitter := (s.job ptr).submitter
  s.touch submitter
  let c := s.conn submitter
  return { s.put { c with submittedJobsCount := c.submittedJobsCount - 1 } with
    heap := Records.remove Job.ptr ptr s.heap }

/-- `jobs.erase(id)` -/
def eraseJob (s : Scheduler) (id : UInt32) : Scheduler :=
  { s with jobs := s.jobs.filter fun e => e.1 ≠ id }

/-- `jobs.find(id)` -/
def findJob (s : Scheduler) (id : UInt32) : Option ℕ :=
  (s.jobs.find? fun e => e.1 = id).map Prod.snd

def setBusyInstalling (s : Scheduler) (cid : ℕ) (time : ℤ) : Except Fault Scheduler := do
  s.touch cid
  return s.put { s.conn cid with busyInstalling := time }

def removeJob (s : Scheduler) (cid ptr : ℕ) : Except Fault Scheduler := do
  s.touch cid
  return s.put { s.conn cid with jobList := (s.conn cid).jobList.filter (· ≠ ptr) }

def setClientCount (s : Scheduler) (cid : ℕ) (count : UInt32) : Except Fault Scheduler := do
  s.touch cid
  return s.put { s.conn cid with clientCount := count.toInt32.toInt }

/-! ## Sending -/

def send (s : Scheduler) (cid : ℕ) (m : Msg) : Except Fault (Scheduler × Bool) := do
  s.touch cid
  return (s.asked.note (.sent cid m (s.ask ≠ 0)), s.ask ≠ 0)

end Scheduler

end Icecream.IceccScheduler
