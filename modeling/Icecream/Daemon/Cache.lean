import Icecream.Daemon.Environment

/-!
# The environment cache

`reannounce_environments`, `maybe_stats`, `check_cache_size` and the two removals of
`daemon/main.cpp`.
-/

namespace Icecream.Iceccd

open Icecream.Comm (Str str Msg StatsMsg)
open Icecream.Path

def byKey {V : Type} (m : AList (fun _ : Str => V)) : List (Str × V) :=
  (m.entries.map fun e => (e.1, e.2)).insertionSort fun a b => a.1 ≤ b.1

namespace Daemon

def reannounceEnvironments (d : Daemon) : Daemon × Bool :=
  d.sendScheduler (.login
    { port := 0, nodename := d.nodename, supportedFeatures := d.supportedFeatures,
      envs := d.availableEnvironments, chrootPossible := d.chrootPossible })

/-- What `fill_stats` and the load of the moment give, and the disk test of the code. -/
def statsMsg (d : Daemon) (bavail bsize : ℕ) : StatsMsg :=
  let needed := (d.maxKids + 1 - d.currentKids).toNat * 25 * 1024 * 1024 / bsize
  let filled := d.host.stats d.calls
  if bavail < needed then { filled with load := 1000 } else filled

def maybeStats (d : Daemon) (forceCheck : Bool) : Daemon × Bool :=
  let now := d.now
  if (d.maxSchedulerPong.toNat : ℤ) * 1000 ≤ now - d.lastStat ∨ forceCheck then
    let msg := d.asked.asked.statsMsg d.ask d.asked.ask
    let load : ℤ := msg.load.toNat
    let d : Daemon := { d.asked.asked with lastStat := now }
    if 100 ≤ (load - d.currentLoad).natAbs ∨ (load = 1000 ∧ d.currentLoad ≠ 1000) ∨
        (load ≠ 1000 ∧ d.currentLoad = 1000) then
      let r := d.sendScheduler (.stats msg)
      if r.2 = false then (r.1, false) else ({ r.1 with currentLoad := load }, true)
    else ({ d with currentLoad := load }, true)
  else (d, true)

def removeNativeEnvironment (d : Daemon) (key : Str) : Daemon :=
  let d := d.require .nativeKey (key ≠ [])
  let d := d.removeNativeEnvironmentFiles key
  let env := (d.nativeEnvironments.lookup key).getD {}
  let d := d.require .nativeSize (env.size ≤ d.cacheSize)
  { d with
    cacheSize := d.cacheSize - env.size
    nativeEnvironments := d.nativeEnvironments.erase key }

def removeEnvironment (d : Daemon) (key : Str) : Daemon :=
  let d := d.require .environmentKey (key ≠ [])
  let d := d.removeEnvironmentFiles key
  let env := (d.receivedEnvironments.lookup key).getD {}
  let d := d.require .environmentSize (env.size ≤ d.cacheSize)
  { d with
    cacheSize := d.cacheSize - env.size
    receivedEnvironments := d.receivedEnvironments.erase key }

/-! ## What `check_cache_size` removes -/

structure Oldest where
  key : Str := []
  time : ℤ

def jobKey (job : Comm.CompileJob) : Str := envKey job.targetPlatform job.environmentVersion

/-- The statuses whose clients may be using an environment. -/
def usesEnvironment (c : Client) : Bool :=
  c.status = .toCompile ∨ c.status = .toInstall ∨ c.status = .waitInstall ∨
    c.status = .waitForChild

def inUse (d : Daemon) (key : Str) : Bool :=
  d.clients.list.any fun c => usesEnvironment c ∧ c.job.any fun j => jobKey j = key

/-- A client without a job is inspected for the environment of its job. -/
def jobMissing (d : Daemon) : Bool :=
  d.clients.list.any fun c => usesEnvironment c ∧ c.job.isNone

/-- The scan of the received environments, in key order. The flag says that the
clients have been inspected. -/
def oldestReceived (d : Daemon) (now : ℤ) (best : Oldest) :
    List (Str × ReceivedEnvironment) → Oldest × Bool
  | [] => (best, false)
  | (key, env) :: rest =>
    if ¬ d.disk.isExecutable
        (normalise (targetDir d.envbasedir key ++ str "/usr/bin/as")) then
      -- force removing this one
      ({ key := key, time := 0 }, false)
    else if env.lastUse < best.time ∧ 200 < now - env.lastUse then
      let r := oldestReceived d now
        (if d.inUse key then best else { key := key, time := env.lastUse }) rest
      (r.1, true)
    else oldestReceived d now best rest

def keepTimeout (d : Daemon) (env : NativeEnvironment) : ℤ :=
  if env.createEnvPipe then 365 * 24 * 60 * 60
  else if d.nativeEnvironments.entries.length < 5 then 24 * 60 * 60 else 200

def oldestNative (d : Daemon) (now : ℤ) (best : Oldest) :
    List (Str × NativeEnvironment) → Oldest
  | [] => best
  | (key, env) :: rest =>
    if env.name ≠ [] ∧ ¬ d.host.readable d.calls env.name then { key := key, time := 0 }
    else if env.lastUse < best.time ∧ d.keepTimeout env < now - env.lastUse then
      oldestNative d now { key := key, time := env.lastUse } rest
    else oldestNative d now best rest

/-- One turn of the loop of `check_cache_size`, which was entered at `now`, and whether it
goes on. -/
def evict (d : Daemon) (now : ℤ) (newEnv : Str) : Daemon × Bool :=
  if d.cacheSize ≤ d.cacheSizeLimit then (d, false)
  else
    let received := d.oldestReceived now { time := d.now + 90000 } (byKey d.receivedEnvironments)
    let native := d.oldestNative now { time := received.1.time } (byKey d.nativeEnvironments)
    let d := if received.2 ∧ d.jobMissing then (d.require .cacheJob false).crash else d
    let d := d.asked
    if (received.1.key = [] ∨ received.1.key = newEnv) ∧
        (native.key = [] ∨ native.key = newEnv) then (d, false)
    else if native.key ≠ [] then (d.removeNativeEnvironment native.key, true)
    else (d.removeEnvironment received.1.key, true)

def checkCacheLoop (now : ℤ) (newEnv : Str) : ℕ → Daemon → Daemon
  | 0, d => d
  | fuel + 1, d =>
    let r := d.evict now newEnv
    if r.2 then checkCacheLoop now newEnv fuel r.1 else r.1

-- Every turn that goes on removes an entry.
def checkCacheSize (d : Daemon) (newEnv : Str) : Daemon :=
  checkCacheLoop d.now newEnv
    (d.receivedEnvironments.entries.length + d.nativeEnvironments.entries.length + 1) d

end Daemon

end Icecream.Iceccd
