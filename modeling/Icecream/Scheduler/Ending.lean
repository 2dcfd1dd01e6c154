import Icecream.Scheduler.Servers

/-!
# The end of a connection

`notify_monitors` and `handle_end` of `scheduler/scheduler.cpp`. Each can call the
other: a monitor that cannot be told is ended, and the end of a daemon is told to the
monitors. What is ended from inside `notify_monitors` is a monitor, for which
`handle_end` tells nobody.
-/

namespace Icecream.IceccScheduler

open Icecream.Comm (Str str Msg JobDoneMsg StatsMsg)

namespace Scheduler

/-- `handle_end` of a monitor -/
def endMonitor (s : Scheduler) (cid : ℕ) : Except Fault Scheduler := do
  s.touch cid
  let s := s.require .monitorListed (cid ∈ s.monitors)
  return { s with monitors := s.monitors.filter (· ≠ cid) }.free cid

/-- One turn of the loop of `notify_monitors`: a monitor that blocks is closed. -/
def notify (m : Msg) (s : Scheduler) (cid : ℕ) : Except Fault Scheduler := do
  let r ← s.send cid m
  if r.2 then return r.1 else r.1.endMonitor cid

def notifyMonitors (s : Scheduler) (m : Msg) : Except Fault Scheduler :=
  s.monitors.foldlM (notify m) s

def handleMonitorStats (s : Scheduler) (cid : ℕ) : Except Fault Scheduler :=
  if s.monitors = [] then pure s
  else do
    s.touch cid
    s.asked.notifyMonitors (.monStats ⟨(s.conn cid).hostId, s.text⟩)

/-- `JobDoneMsg(id, 255)` -/
def lostMsg (id : UInt32) : Msg := .monJobDone { jobId := id, exitcode := 255 }

/-- A job of a request group whose submitter is gone. -/
def dropQueued (s : Scheduler) (ptr : ℕ) : Except Fault Scheduler := do
  s.touchJob ptr
  let j := s.job ptr
  let s ← s.notifyMonitors (lostMsg j.id)
  let s ← (match j.server with
    | some server => s.setBusyInstalling server 0
    | none => pure s)
  (s.eraseJob j.id).freeJob ptr

def dropGroups (s : Scheduler) (cid : ℕ) : Except Fault Scheduler := do
  let mine := s.jobRequests.filter fun g => g.submitter = cid
  let s ← (mine.flatMap JobRequestsGroup.l).foldlM dropQueued s
  return { s with jobRequests := s.jobRequests.filter fun g => g.submitter ≠ cid }

/-- The server of a job that goes with `cid` has one job less and installs nothing. -/
def leaveServer (s : Scheduler) (cid : ℕ) (j : Job) : Except Fault Scheduler :=
  match j.server with
  | some server => do
    let s ← (if server ≠ cid then s.removeJob server j.ptr else pure s)
    s.setBusyInstalling server 0
  | none => pure s

/-- A job that goes with `cid`, its submitter or its server. -/
def dropJob (cid : ℕ) (s : Scheduler) (e : UInt32 × ℕ) : Except Fault Scheduler := do
  let j := s.job e.2
  let s ← s.notifyMonitors (lostMsg j.id)
  let s ← s.leaveServer cid j
  (s.eraseJob e.1).freeJob e.2

/-- One turn of the loop over `jobs`. -/
def dropAssigned (cid : ℕ) (s : Scheduler) (e : UInt32 × ℕ) : Except Fault Scheduler := do
  s.touchJob e.2
  let j := s.job e.2
  if j.server = some cid ∨ j.submitter = cid then dropJob cid s e else return s

/-- `eraseCSFromBlacklist` on one of the servers left -/
def forgetBlacklist (cid : ℕ) (s : Scheduler) (other : ℕ) : Except Fault Scheduler := do
  s.touch other
  return s.put { s.conn other with blacklist := (s.conn other).blacklist.erase cid }

/-- `handle_end` of a daemon, up to the deletion of its record -/
def endDaemon (s : Scheduler) (cid : ℕ) : Except Fault Scheduler := do
  let s ← s.notifyMonitors (.monStats ⟨(s.conn cid).hostId, str "State:Offline\n"⟩)
  let s := { s with css := s.css.filter (· ≠ cid) }
  let s ← s.dropGroups cid
  let s ← s.jobs.foldlM (dropAssigned cid) s
  s.css.foldlM (forgetBlacklist cid) s

def handleEnd (s : Scheduler) (cid : ℕ) : Except Fault Scheduler := do
  s.touch cid
  match (s.conn cid).type with
  | .monitor => s.endMonitor cid
  | .daemon =>
    let s ← s.endDaemon cid
    return s.free cid
  | .line =>
    let r ← s.send cid (.text (str "200 Good Bye!"))
    return { r.1 with controls := r.1.controls.filter (· ≠ cid) }.free cid
  | .unknown => return s.free cid

end Scheduler

end Icecream.IceccScheduler
