import Mathlib.Algebra.GroupWithZero.Nat
import Icecream.Comm.Message
import Icecream.Library.Path

/-!
# Files

The files the daemon looks at, by normalised path. A directory that only leads to a
file is not recorded: it exists because the file does.
-/

namespace Icecream.Iceccd

open Icecream.Comm (Str)
open Icecream.Path (Name normalise)

structure Node where
  path : List Name
  dir : Bool
  size : ℕ := 0
  executable : Bool := false
  deriving DecidableEq

abbrev Disk := List Node

inductive MkdirResult
  | made
  | exists
  | failed
  deriving DecidableEq

namespace Disk

def has (disk : Disk) (p : List Name) : Bool := disk.any fun n => p <+: n.path

def isExecutable (disk : Disk) (p : List Name) : Bool :=
  disk.any fun n => n.path = p ∧ n.executable

/-- `mkdir`; `permitted` is false when the system refuses for a reason of its own. -/
def mkdir (disk : Disk) (p : List Name) (permitted : Bool) : Disk × MkdirResult :=
  if disk.has p then (disk, .exists)
  else if disk.has p.dropLast ∧ permitted then (⟨p, true, 0, false⟩ :: disk, .made)
  else (disk, .failed)

def removeTree (disk : Disk) (p : List Name) : Disk :=
  disk.filter fun n => ¬ p <+: n.path

/-- The archive writer's file: it replaces what has the same path. -/
def write (disk : Disk) (p : List Name) (size : ℕ) (executable : Bool) : Disk :=
  ⟨p, false, size, executable⟩ :: disk.filter fun n => n.path ≠ p

def sumupDir (disk : Disk) (p : List Name) : ℕ :=
  ((disk.filter fun n => p <+: n.path ∧ n.dir = false).map Node.size).sum

end Disk

end Icecream.Iceccd
