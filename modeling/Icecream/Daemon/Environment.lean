import Icecream.Daemon.State

/-!
# Environments on disk

The functions of `daemon/environment.cpp` and `daemon/serve.cpp` as the parent
process sees them, with the paths that it or its child hands to the system.
-/

namespace Icecream.Iceccd

open Icecream.Comm (Str str Msg)
open Icecream.Path

/-- `basename + "/target=" + target` -/
def targetDir (basename target : Str) : Str := basename ++ str "/target=" ++ target

/-- `target + "/" + name`, the key of an environment. -/
def envKey (target name : Str) : Str := target ++ slash :: name

/-- `isascii`, not `isspace`, not a slash, and `isprint`. -/
def legalChar (c : UInt8) : Bool := 33 ≤ c ∧ c ≤ 126 ∧ c ≠ slash

/-- What `/bin/rm -rf --` does with an operand: it skips one whose last component is
a dot or a double dot, and the root. -/
def rmRf (disk : Disk) (operand : Str) : Disk :=
  let last := ((components operand).filter (· ≠ [])).getLast?
  if last = some dot ∨ last = some dotDot ∨ normalise operand = [] then disk
  else disk.removeTree (normalise operand)

namespace Daemon

/-- The parent creates a directory and gives it to the compile user. -/
def makeDir (d : Daemon) (dirname : Str) (existsOk : Bool) : Daemon × Bool :=
  let r := d.disk.mkdir (normalise dirname) (d.ask ≠ 0)
  let d' := { (d.asked.note (.path .create dirname)) with disk := r.1 }
  if r.2 = .made ∨ (r.2 = .exists ∧ existsOk) then (d'.asked, d'.ask ≠ 0)
  else (d', false)

/-- `next` is what `get_msg(30)` returns. The result says whether the unpacking child
has been started. -/
def startInstallEnvironment (d : Daemon) (target name : Str) (next : Option Msg) :
    Daemon × Bool :=
  if name = [] ∨ ¬ name.all legalChar then (d, false)
  else match next with
    | some (.fileChunk _) =>
      let dirname := targetDir d.envbasedir target
      let r := d.makeDir dirname true
      if r.2 = false then (r.1, false)
      else
        let r' := r.1.makeDir (dirname ++ slash :: name) false
        if r'.2 = false then (r'.1, false)
        else (r'.1.asked, r'.1.ask ≠ 0)
    | _ => (d, false)

/-- The size found, after the environment got its `tmp`. -/
def finalizeInstallEnvironment (d : Daemon) (target : Str) : Daemon × UInt64 :=
  let dirname := targetDir d.envbasedir target
  let tmpdir := dirname ++ str "/tmp"
  let disk := (d.disk.mkdir (normalise tmpdir) (d.ask ≠ 0)).1
  ({ (d.asked.note (.path .create tmpdir)) with disk := disk },
    UInt64.ofNat (disk.sumupDir (normalise dirname)))

def removeEnvironmentFiles (d : Daemon) (env : Str) : Daemon :=
  let dirname := targetDir d.envbasedir env
  if d.ask = 0 then d.asked
  else { (d.asked.note (.path .remove dirname)) with disk := rmRf d.disk dirname }

def removeNativeEnvironmentFiles (d : Daemon) (env : Str) : Daemon :=
  if env = [] then d
  else if (d.host.mtime d.calls env).isSome then d.asked.note (.unlinked env)
  else d.asked

/-- Whether the child that runs the environment's `bin/true` succeeded. -/
def verifyEnv (d : Daemon) (c : Client) (target env : Str) : Daemon × Bool :=
  let complain (d : Daemon) := if 23 ≤ c.protocol then (d.sendClient c (.statusText [])).1 else d
  if target = [] ∨ env = [] then (complain d, false)
  else
    let dirname := targetDir d.envbasedir target ++ slash :: env
    if ¬ d.disk.isExecutable (normalise (dirname ++ str "/bin/true")) then (complain d, false)
    else
      let d := d.note (.path .chroot dirname)
      (d.asked, d.ask ≠ 0)

/-- Whether the compile child has been forked; the child goes to the job's environment. -/
def handleConnection (d : Daemon) (job : Comm.CompileJob) : Daemon × Bool :=
  if d.ask = 0 then (d.asked, false)
  else
    let dirname := targetDir d.envbasedir job.targetPlatform ++ slash :: job.environmentVersion
    if job.environmentVersion ≠ [] ∧
        d.disk.isExecutable (normalise (dirname ++ str "/usr/bin/as")) then
      (d.asked.note (.path .chroot dirname), true)
    else (d.asked, true)

/-- The environments a login announces: those with an assembler. -/
def availableEnvironments (d : Daemon) : Comm.Environments :=
  (d.disk.map Node.path).dedup.filterMap fun p =>
    match p.drop (normalise d.envbasedir).length with
    | [t, env, usr, bin, as] =>
      if normalise d.envbasedir <+: p ∧ str "target=" <+: t ∧ usr = str "usr" ∧ bin = str "bin" ∧
          as = str "as" ∧ d.disk.isExecutable p then
        some (t.drop (str "target=").length, env)
      else none
    | _ => none

end Daemon

end Icecream.Iceccd
