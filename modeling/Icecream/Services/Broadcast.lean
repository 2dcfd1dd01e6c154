import Mathlib.Data.List.Basic
import Icecream.Comm.Message
import Icecream.Library.Word

/-!
# Discovery datagrams

`Broadcasts` and the formats of `DiscoverSched` in `services/comm.cpp`. The answers to
daemons older than version 38 are in the order of a little endian host.
-/

namespace Icecream.Services

open Icecream.Comm (Bytes Str protocolVersion minProtocolVersion)

/-- What a scheduler tells of itself. Its version fits into a `char` and is one of those
whose announcements are read, and its netname is a C string. -/
structure Announcer where
  version : ℕ
  starttime : Int64
  netname : Str
  current : 38 ≤ version ∧ version < 128
  plain : (0 : UInt8) ∉ netname

def broadBuflen : ℕ := 268
def broadBuflenOld2 : ℕ := 32
def broadBuflenOld1 : ℕ := 16

/-- Up to the first zero. -/
def cString (b : Bytes) : Str := b.takeWhile (· ≠ 0)

/-- `snprintf(buf + offset, len - offset, "%s", netname)` behind `head` in a buffer of
zeros of which the last stays zero. -/
def filledTo (len : ℕ) (head : Bytes) (netname : Str) : Bytes :=
  let b := head ++ netname.take (len - head.length - 1)
  b ++ List.replicate (len - b.length) 0

def timeLow (t : Int64) : UInt32 := t.toUInt64.toUInt32

def timeHigh (t : Int64) : UInt32 := (t.toUInt64 >>> 32).toUInt32

def timeOf (high low : UInt32) : Int64 :=
  ((high.toUInt64 <<< 32) ||| low.toUInt64).toInt64

def littleEndian (n : ℕ) (x : ℕ) : Bytes := (List.range n).map fun i => UInt8.ofNat (x / 256 ^ i)

def littleEndianValue (b : Bytes) : ℕ := b.foldr (fun x n => x.toNat + 256 * n) 0

/-! ## Announcements -/

/-- The datagram for schedulers older than version 38; `none` when the length of the
netname is not positive as a `char` and its buffer is overrun or cannot be had. -/
def oldSchedulerVersionData (a : Announcer) : Option Bytes :=
  let length := (Int8.ofNat a.netname.length).toInt
  if length ≤ 0 then none
  else
    let name := a.netname.take (length.toNat - 1)
    some ([73, 67, 69, UInt8.ofNat a.version] ++
      (littleEndian 8 a.starttime.toUInt64.toNat ++ UInt8.ofNat length.toNat ::
        (name ++ List.replicate (length.toNat - name.length) 0)))

def schedulerVersionData (a : Announcer) : Bytes :=
  filledTo broadBuflen ([73, 67, 70, UInt8.ofNat a.version] ++
    (Word.bytes (timeHigh a.starttime) ++ Word.bytes (timeLow a.starttime))) a.netname

def isSchedulerVersion (buf : Bytes) : Bool :=
  buf.length = broadBuflen ∧ buf.take 3 = [73, 67, 70]

structure SchedulerVersion where
  protocol : ℕ
  time : Int64
  netname : Str
  deriving DecidableEq

def getSchedulerVersionData (buf : Bytes) : SchedulerVersion where
  protocol := (buf.getD 3 0).toNat
  time := timeOf (Word.value (buf.drop 4)) (Word.value (buf.drop 8))
  netname := cString (buf.drop 12)

/-! ## Questions and answers -/

def isSchedulerDiscovery (buf : Bytes) : Bool := buf.length = 1

/-- `buf[0]` as the `char` it is -/
def daemonVersion (buf : Bytes) : ℤ := (buf.getD 0 0).toInt8.toInt

/-- The answer of `a` to a daemon of version `version`. -/
def prepareBroadcastReply (a : Announcer) (version : UInt8) : Bytes :=
  if version.toInt8.toInt < 33 then filledTo broadBuflenOld1 [version + 1] a.netname
  else if version.toInt8.toInt < 38 then
    filledTo (if version.toInt8.toInt < 36 then broadBuflenOld2 else broadBuflen)
      ((version + 2) :: (littleEndian 4 a.version ++ littleEndian 8 a.starttime.toUInt64.toNat))
      a.netname
  else filledTo broadBuflen
    ((version + 3) :: (Word.bytes (UInt32.ofNat a.version) ++
      (Word.bytes (timeHigh a.starttime) ++ Word.bytes (timeLow a.starttime)))) a.netname

/-- `get_broad_answer`: whether a datagram is an answer, and its last byte made zero. -/
def getBroadAnswer (buf : Bytes) : Option Bytes :=
  let mark : ℤ := (buf.getD 0 0).toInt8.toInt - protocolVersion
  if (buf.length = broadBuflenOld1 ∧ mark = 1) ∨ (buf.length = broadBuflenOld2 ∧ mark = 2) ∨
      (buf.length = broadBuflen ∧ (mark = 2 ∨ mark = 3)) then
    some (buf.dropLast ++ [0])
  else none

structure BroadData where
  name : Str
  version : ℤ
  startTime : Int64
  deriving DecidableEq

/-- `none` where the code aborts. -/
def getBroadData (buf : Bytes) : Option BroadData :=
  let mark : ℤ := (buf.getD 0 0).toInt8.toInt - protocolVersion
  if mark = 1 then some ⟨cString (buf.drop 1), 32, 0⟩
  else if mark = 2 then
    some ⟨cString (buf.drop 13),
      (UInt32.ofNat (littleEndianValue ((buf.drop 1).take 4))).toInt32.toInt,
      (UInt64.ofNat (littleEndianValue ((buf.drop 5).take 8))).toInt64⟩
  else if mark = 3 then
    some ⟨cString (buf.drop 13), (Word.value (buf.drop 1)).toInt32.toInt,
      timeOf (Word.value (buf.drop 5)) (Word.value (buf.drop 9))⟩
  else none

end Icecream.Services
