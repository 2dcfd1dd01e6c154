import Mathlib.Data.List.AList
import Mathlib.Data.List.Sort
import Icecream.Daemon.Disk
import Icecream.Library.Records

/-!
# The daemon's state

`Client`, `Clients` and `Daemon` of `daemon/main.cpp`, with the machine around them:
the answers of the operating system, the files below the environment directory, and
a log of what the daemon sent, received and asserted, newest entry first. Release
builds compile assertions out, so a failing one is an entry of the log and the code
goes on.
-/

namespace Icecream.Iceccd

open Icecream.Comm (Str str Msg UseCSMsg CompileJob)

inductive Status
  | unknown | gotNative | pendingUseCS | jobDone | linkJob | toInstall | waitInstall
  | toCompile | waitForCS | waitCompile | clientWork | waitForChild | waitCreateEnv
  deriving DecidableEq

/-- `clientId` names the record: the code's maps are keyed by channel and descriptor.
A descriptor or pid field is true while the source's is not -1. -/
structure Client where
  clientId : ℕ
  fd : ℕ
  protocol : ℕ
  status : Status := .unknown
  jobId : UInt32 := 0
  outfile : Str := []
  usecsmsg : Option UseCSMsg := none
  job : Option CompileJob := none
  niceness : UInt32 := 0
  pipeFromChild : Bool := false
  pipeToChild : Bool := false
  childPid : Bool := false
  fulljob : Bool := false
  pendingCreateEnv : Str := []
  deriving DecidableEq

/-- In the order of the pointer-keyed map, which is any order. -/
structure Clients where
  list : List Client := []
  activeProcesses : UInt32 := 0
  deriving DecidableEq

namespace Clients

def findByClientId (clients : Clients) (id : UInt32) : Option Client :=
  clients.list.find? fun c => c.clientId = id.toNat

def findByFd (clients : Clients) (fd : ℕ) : Option Client :=
  clients.list.find? fun c => c.fd = fd

def size (clients : Clients) : UInt32 := UInt32.ofNat clients.list.length

/-- One record of the scan: the best so far, its client id (0 at first) and niceness. -/
def earlier (s : Status) (best : Option Client × ℕ × UInt32) (c : Client) :
    Option Client × ℕ × UInt32 :=
  if c.status = s ∧ (best.2.1 = 0 ∨ c.clientId < best.2.1) ∧ c.niceness < best.2.2 then
    (some c, c.clientId, c.niceness)
  else best

def getEarliestClient (clients : Clients) (s : Status) : Option Client :=
  (clients.list.foldl (earlier s) (none, 0, 4294967295)).1

end Clients

structure NativeEnvironment where
  name : Str := []
  filetimes : List (Str × ℤ) := []
  lastUse : ℤ := 0
  size : UInt64 := 0
  createEnvPipe : Bool := false
  deriving DecidableEq

structure ReceivedEnvironment where
  lastUse : ℤ := 0
  size : UInt64 := 0
  deriving DecidableEq

/-- What the operating system answers to the n-th question, and what time it is then. -/
structure Host where
  answer : ℕ → ℕ
  clock : ℕ → ℤ
  mtime : ℕ → Str → Option ℤ
  readable : ℕ → Str → Bool
  report : ℕ → Str
  stats : ℕ → Comm.StatsMsg

/-- The assertions of the handlers. -/
inductive Assertion
  | transferEnvStatus | transferEnvPipes | fileChunkStatus | fileChunkPipe
  | installDoneStatus | installDonePid | installDonePipe | installDoneKids | installDoneOpen
  | finishOutfile | finishStatus | finishCancelFrom | finishCancelTo | finishCancelPid
  | finishKids | cacheJob | nativeKey | nativeSize | environmentKey | environmentSize
  | getNativeEnvCompiler | finishNativeStatus | finishNativeKey | createEnvEntry | createEnvPipe
  | jobDoneId | compileDoneStatus | compileDonePid | compileDonePipe | compileDoneKids
  | compileFileClient | endClientId | endStatus | clearedFds | activityStatus
  deriving DecidableEq

inductive PathUse
  | create | extract | chroot | remove
  deriving DecidableEq

inductive Obs
  | connected
  | fromScheduler (m : Msg)
  | toScheduler (m : Msg) (ok : Bool)
  | toClient (clientId : ℕ) (m : Msg) (ok : Bool)
  | ended (status : Status) (jobId : UInt32)
  | assertionFailed (a : Assertion)
  | wrapped
  | path (use : PathUse) (path : Str)
  | unlinked (path : Str)
  | readAfterFree
  deriving DecidableEq

structure Daemon where
  clients : Clients := {}
  fd2client : List (ℕ × ℕ) := []
  receivedEnvironments : AList (fun _ : Str => ReceivedEnvironment) := ∅
  nativeEnvironments : AList (fun _ : Str => NativeEnvironment) := ∅
  envbasedir : Str
  machineName : Str
  nodename : Str := []
  noremote : Bool := false
  chrootPossible : Bool := true
  cacheSize : UInt64 := 0
  newClientId : ℕ := 0
  remoteName : Str := []
  lastStat : ℤ := 0
  currentLoad : ℤ := -1000
  scheduler : Option ℕ := none
  daemonPort : UInt32
  supportedFeatures : UInt32 := 0
  maxSchedulerPong : UInt32
  maxSchedulerPing : UInt32
  currentKids : UInt32 := 0
  maxKids : UInt32
  cacheSizeLimit : UInt64
  disk : Disk
  host : Host
  calls : ℕ := 0
  log : List Obs := []
  crashed : Bool := false

namespace Daemon

/-! ## The machine -/

def ask (d : Daemon) : ℕ := d.host.answer d.calls

def now (d : Daemon) : ℤ := d.host.clock d.calls

/-- `time(0)` in a message. -/
def stime (d : Daemon) : UInt32 := UInt32.ofNat d.now.toNat

def asked (d : Daemon) : Daemon := { d with calls := d.calls + 1 }

def note (d : Daemon) (o : Obs) : Daemon := { d with log := o :: d.log }

def require (d : Daemon) (a : Assertion) (holds : Bool) : Daemon :=
  if holds then d else d.note (.assertionFailed a)

/-- A null pointer is dereferenced, or a dead iterator is advanced. -/
def crash (d : Daemon) : Daemon := { d with crashed := true }

/-! ## Client records -/

def put (d : Daemon) (c : Client) : Daemon :=
  { d with clients := { d.clients with
      list := Records.replace Client.clientId c d.clients.list } }

def erase (d : Daemon) (c : Client) : Daemon :=
  { d with clients := { d.clients with
      list := Records.remove Client.clientId c.clientId d.clients.list } }

/-- `std::max((unsigned int)1, max_kids)` -/
def slots (d : Daemon) : UInt32 := max 1 d.maxKids

/-- What the code takes as the share of `c` in `active_processes`. -/
def weight (d : Daemon) (c : Client) : UInt32 := if c.fulljob then d.slots else 1

def reserve (d : Daemon) (n : UInt32) : Daemon :=
  { d with clients := { d.clients with activeProcesses := d.clients.activeProcesses + n } }

def release (d : Daemon) (n : UInt32) : Daemon :=
  { d with
    clients := { d.clients with activeProcesses := d.clients.activeProcesses - n }
    log := if d.clients.activeProcesses < n then .wrapped :: d.log else d.log }

def addKid (d : Daemon) : Daemon := { d with currentKids := d.currentKids + 1 }

def dropKid (d : Daemon) : Daemon := { d with currentKids := d.currentKids - 1 }

/-! ## Sending -/

def sendClient (d : Daemon) (c : Client) (m : Msg) : Daemon × Bool :=
  (d.asked.note (.toClient c.clientId m (d.ask ≠ 0)), d.ask ≠ 0)

def closeScheduler (d : Daemon) : Daemon := { d with scheduler := none }

def sendScheduler (d : Daemon) (m : Msg) : Daemon × Bool :=
  if d.scheduler.isNone then (d, false)
  else if d.ask ≠ 0 then (d.asked.note (.toScheduler m true), true)
  else ((d.asked.note (.toScheduler m false)).closeScheduler, false)

end Daemon

end Icecream.Iceccd
