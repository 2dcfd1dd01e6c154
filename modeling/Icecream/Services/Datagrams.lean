import Icecream.Services.Discovery
import Icecream.Library.Block

/-!
# The buffers of discovery

The datagrams of `Broadcasts` and `DiscoverSched` as they are written into buffers, for hosts of
either byte order and daemons of every version: what is written stays within its buffer and is
read as it was meant, but for netnames whose length is not positive as a `char` and for daemon
versions whose mark is not a `char`.
-/

namespace Icecream.Services

open Icecream.Comm (Bytes Str minProtocolVersion)

/-- The order of the bytes of a number in a host's memory -/
inductive Order
  | little | big
  deriving DecidableEq

namespace Order

def bytes (n x : ℕ) : Order → Bytes
  | little => littleEndian n x
  | big => (littleEndian n x).reverse

def value (b : Bytes) : Order → ℕ
  | little => littleEndianValue b
  | big => littleEndianValue b.reverse

end Order

/-- `memset(buf + i, 0, n)` -/
def memset (i n : ℕ) (buf : Bytes) : Option Bytes := Block.write i (List.replicate n 0) buf

/-- `strncpy(buf + i, s, n)`, which fills up with zeros -/
def strncpy (i : ℕ) (s : Str) (n : ℕ) (buf : Bytes) : Option Bytes :=
  if i + n ≤ buf.length then
    some (Block.overwrite buf i (s.take n ++ List.replicate (n - s.length) 0))
  else none

/-- `snprintf(buf + i, n, "%s", s)` -/
def snprintf (i n : ℕ) (s : Str) (buf : Bytes) : Option Bytes :=
  Block.write i (s.take (n - 1) ++ [0]) buf

/-! ## Writing -/

namespace Broadcasts

/-- For older schedulers than version 38. A buffer of a negative size cannot be had. -/
def oldVersion (order : Order) (junk : ℕ → UInt8) (a : Announcer) : Option Bytes :=
  let lengthNetname := Int8.ofNat a.netname.length
  let schedbuflen := 13 + lengthNetname.toInt
  if schedbuflen < 0 then none
  else do
    let buf ← Block.write 0 [73] (Block.enlarge junk [] schedbuflen.toNat)
    let buf ← Block.write 1 [67] buf
    let buf ← Block.write 2 [69] buf
    let buf ← Block.write 3 [UInt8.ofNat a.version] buf
    let buf ← Block.write 4 (order.bytes 8 a.starttime.toUInt64.toNat) buf
    let buf ← Block.write 12 [lengthNetname.toUInt8] buf
    -- the number of bytes is a `size_t`
    let buf ← strncpy 13 a.netname ((lengthNetname.toInt - 1) % 2 ^ 64).toNat buf
    Block.write (schedbuflen - 1).toNat [0] buf

def latestVersion (junk : ℕ → UInt8) (a : Announcer) : Option Bytes := do
  let buf ← memset 0 broadBuflen (Block.enlarge junk [] broadBuflen)
  let buf ← Block.write 0 [73] buf
  let buf ← Block.write 1 [67] buf
  let buf ← Block.write 2 [70] buf
  let buf ← Block.write 3 [UInt8.ofNat a.version] buf
  let buf ← Block.write 4 (Word.bytes (timeHigh a.starttime)) buf
  let buf ← Block.write 8 (Word.bytes (timeLow a.starttime)) buf
  let buf ← snprintf 12 (broadBuflen - 12) a.netname buf
  Block.write (broadBuflen - 1) [0] buf

/-- The datagrams that are sent -/
def broadcastSchedulerVersion (order : Order) (junk : ℕ → UInt8) (a : Announcer) :
    Option (Bytes × Bytes) := do
  let old ← oldVersion order junk a
  let latest ← latestVersion junk a
  some (old, latest)

end Broadcasts

namespace Announcer

/-- `prepareBroadcastReply` in the buffer that the daemon's version has been received in: the
buffer, and how much of it is the answer -/
def prepareReply (a : Announcer) (order : Order) (buf : Bytes) : Option (Bytes × ℕ) :=
  let mark := (buf.getD 0 0).toInt8
  if mark.toInt < 33 then do
    let buf ← Block.write 0 [(mark + 1).toUInt8] buf
    let buf ← memset 1 (broadBuflenOld1 - 1) buf
    let buf ← snprintf 1 (broadBuflenOld1 - 1) a.netname buf
    let buf ← Block.write (broadBuflenOld1 - 1) [0] buf
    some (buf, broadBuflenOld1)
  else if mark.toInt < 38 then do
    -- versions 33 to 35 and 36 to 37 differ in the size
    let size := if mark.toInt < 36 then broadBuflenOld2 else broadBuflen
    let buf ← Block.write 0 [(mark + 2).toUInt8] buf
    let buf ← memset 1 (size - 1) buf
    let buf ← Block.write 1 (order.bytes 4 a.version) buf
    let buf ← Block.write 5 (order.bytes 8 a.starttime.toUInt64.toNat) buf
    let buf ← snprintf 13 (size - 13) a.netname buf
    let buf ← Block.write (size - 1) [0] buf
    some (buf, size)
  else do
    let buf ← Block.write 0 [(mark + 3).toUInt8] buf
    let buf ← memset 1 (broadBuflen - 1) buf
    let buf ← Block.write 1 (Word.bytes (UInt32.ofNat a.version)) buf
    let buf ← Block.write 5 (Word.bytes (timeHigh a.starttime)) buf
    let buf ← Block.write 9 (Word.bytes (timeLow a.starttime)) buf
    let buf ← snprintf 13 (broadBuflen - 13) a.netname buf
    let buf ← Block.write (broadBuflen - 1) [0] buf
    some (buf, broadBuflen)

end Announcer

/-! ## Reading -/

/-- A daemon, whose version is sent as a `char` -/
structure Asker where
  version : ℕ
  order : Order
  small : version < 128

namespace Asker

/-- `get_broad_answer`: the datagram is received into `buf2`. -/
def getBroadAnswer (d : Asker) (datagram buf2 : Bytes) : Option Bytes :=
  let data := datagram.take broadBuflen
  let buf2 := Block.overwrite buf2 0 data
  let mark : ℤ := (buf2.getD 0 0).toInt8.toInt - d.version
  if (data.length = broadBuflenOld1 ∧ mark = 1) ∨ (data.length = broadBuflenOld2 ∧ mark = 2) ∨
      (data.length = broadBuflen ∧ (mark = 2 ∨ mark = 3)) then
    Block.write (data.length - 1) [0] buf2
  else none

/-- `none` where the code aborts. -/
def getBroadData (d : Asker) (buf : Bytes) : Option BroadData :=
  let mark : ℤ := (buf.getD 0 0).toInt8.toInt - d.version
  if mark = 1 then some ⟨cString (buf.drop 1), 32, 0⟩
  else if mark = 2 then
    some ⟨cString (buf.drop 13),
      (UInt32.ofNat (d.order.value (Block.slice buf 1 4))).toInt32.toInt,
      (UInt64.ofNat (d.order.value (Block.slice buf 5 8))).toInt64⟩
  else if mark = 3 then
    some ⟨cString (buf.drop 13), (Word.value (buf.drop 1)).toInt32.toInt,
      timeOf (Word.value (buf.drop 5)) (Word.value (buf.drop 9))⟩
  else none

end Asker

/-! ## Numbers and strings in a buffer -/

theorem littleEndian_length (n x : ℕ) : (littleEndian n x).length = n := by
  rw [littleEndian, List.length_map, List.length_range]

theorem littleEndianValue_littleEndian (n x : ℕ) :
    littleEndianValue (littleEndian n x) = x % 256 ^ n := by
  induction n generalizing x with
  | zero => exact (Nat.mod_one x).symm
  | succ n ih =>
    have hbytes : littleEndian (n + 1) x = UInt8.ofNat x :: littleEndian n (x / 256) := by
      simp only [littleEndian, List.range_succ_eq_map, List.map_cons, List.map_map, pow_zero,
        Nat.div_one, List.cons.injEq, true_and]
      refine List.map_congr_left fun i _ => ?_
      simp only [Function.comp_apply, Nat.succ_eq_add_one]
      rw [pow_succ', Nat.div_div_eq_div_mul]
    have hvalue : littleEndianValue (littleEndian (n + 1) x) =
        (UInt8.ofNat x).toNat + 256 * littleEndianValue (littleEndian n (x / 256)) := by
      rw [hbytes]
      rfl
    have hlow : (UInt8.ofNat x).toNat = x % 256 := UInt8.toNat_ofNat'
    rw [hvalue, ih, hlow, pow_succ', Nat.mod_mul]

namespace Order

@[simp] theorem bytes_length (o : Order) (n x : ℕ) : (o.bytes n x).length = n := by
  cases o with
  | little => exact littleEndian_length n x
  | big => exact (List.length_reverse ..).trans (littleEndian_length n x)

/-- Hosts of one order read what they write. -/
theorem value_bytes (o : Order) {n x : ℕ} (hx : x < 256 ^ n) : o.value (o.bytes n x) = x := by
  have hlittle : littleEndianValue (littleEndian n x) = x := by
    rw [littleEndianValue_littleEndian, Nat.mod_eq_of_lt hx]
  cases o with
  | little => exact hlittle
  | big =>
    rw [bytes, value, List.reverse_reverse]
    exact hlittle

end Order

theorem toInt8_toInt (x : UInt8) :
    x.toInt8.toInt = if x.toNat < 128 then (x.toNat : ℤ) else x.toNat - 256 := by
  have hbits := x.toBitVec.toInt_eq_toNat_cond
  have hnat : x.toBitVec.toNat = x.toNat := rfl
  have hint : x.toInt8.toInt = x.toBitVec.toInt := rfl
  rw [hint, hbits, hnat]
  split <;> split <;> omega

theorem memset_behind {i n : ℕ} {front back : Bytes} (hi : front.length = i)
    (hroom : n ≤ back.length) :
    memset i n (front ++ back) = some (front ++ (List.replicate n 0 ++ back.drop n)) := by
  rw [memset, Block.write_behind hi (by rwa [List.length_replicate]), List.length_replicate,
    List.append_assoc]

theorem strncpy_behind {i n : ℕ} {s : Str} {front back : Bytes} (hi : front.length = i)
    (hroom : n ≤ back.length) : strncpy i s n (front ++ back) =
      some (front ++ (s.take n ++ List.replicate (n - s.length) 0) ++ back.drop n) := by
  have hlen : (s.take n ++ List.replicate (n - s.length) (0 : UInt8)).length = n := by
    rw [List.length_append, List.length_take, List.length_replicate]
    omega
  have hwrite : Block.write i (s.take n ++ List.replicate (n - s.length) 0) (front ++ back) = _ :=
    Block.write_behind hi (hlen.trans_le hroom)
  rw [Block.write, hlen] at hwrite
  exact hwrite

theorem strncpy_length {i n : ℕ} {s : Str} {buf buf' : Bytes} (h : strncpy i s n buf = some buf') :
    i + n ≤ buf.length := by
  rw [strncpy] at h
  split at h
  · assumption
  · cases h

namespace Broadcasts

variable {order : Order} {junk : ℕ → UInt8} {a : Announcer}

/-- `strncpy` is told to fill more than there is. -/
theorem oldVersion_none (h : (Int8.ofNat a.netname.length).toInt ≤ 0) :
    oldVersion order junk a = none := by
  have hlow := (Int8.ofNat a.netname.length).le_toInt
  simp only [oldVersion]
  split
  · rfl
  · next hsize =>
    generalize (Int8.ofNat a.netname.length) = c at *
    have hlength := Block.enlarge_length junk [] (13 + c.toInt).toNat
    refine Option.eq_none_iff_forall_ne_some.mpr fun buf hbuf => ?_
    simp only [Option.bind_eq_bind, Option.bind_eq_some_iff] at hbuf
    obtain ⟨b₀, h₀, b₁, h₁, b₂, h₂, b₃, h₃, b₄, h₄, b₅, h₅, b₆, h₆, -⟩ := hbuf
    have hfits := strncpy_length h₆
    rw [(Block.write_length h₅).2, (Block.write_length h₄).2, (Block.write_length h₃).2,
      (Block.write_length h₂).2, (Block.write_length h₁).2, (Block.write_length h₀).2] at hfits
    simp at hlength
    omega


theorem oldVersion_some {n : ℕ} (h : (Int8.ofNat a.netname.length).toInt = n + 1) :
    oldVersion order junk a = some ([73, 67, 69, UInt8.ofNat a.version] ++
      (order.bytes 8 a.starttime.toUInt64.toNat ++ (Int8.ofNat a.netname.length).toUInt8 ::
        (a.netname.take n ++ List.replicate (n - a.netname.length) 0 ++ [0]))) := by
  have hhigh := (Int8.ofNat a.netname.length).toInt_lt
  have hsize : ((n : ℤ) + 1 - 1) % 2 ^ 64 = n := by omega
  have hlast : (13 + ((n : ℤ) + 1) - 1).toNat = 13 + n := by omega
  have htotal : (13 + ((n : ℤ) + 1)).toNat = 14 + n := by omega
  have hlength := Block.enlarge_length junk [] (14 + n)
  simp only [oldVersion, h]
  rw [if_neg (by omega), hsize, hlast, htotal]
  generalize Block.enlarge junk [] (14 + n) = buf at hlength
  rw [List.length_nil, Nat.zero_max] at hlength
  rw [← List.nil_append buf]
  simp (disch := (simp [hlength] <;> omega)) only [Option.bind_eq_bind, Block.write_behind,
    strncpy_behind, Option.bind_some]
  rw [List.drop_eq_nil_of_le (by simp [hlength]; omega)]
  simp

theorem oldVersion_fits (order : Order) (junk : ℕ → UInt8)
    (h : 0 < (Int8.ofNat a.netname.length).toInt) : ∃ old, oldVersion order junk a = some old := by
  obtain ⟨n, hn⟩ := Int.eq_ofNat_of_zero_le (Int.sub_nonneg_of_le h)
  exact ⟨_, oldVersion_some (n := n) (by omega)⟩

/-- On a little endian host -/
theorem oldVersion_little : oldVersion .little junk a = oldSchedulerVersionData a := by
  simp only [oldSchedulerVersionData]
  split
  · next hlen => exact oldVersion_none hlen
  · next hlen =>
    obtain ⟨n, hpred⟩ := Int.eq_ofNat_of_zero_le (Int.sub_nonneg_of_le (Int.not_le.mp hlen))
    have hn : (Int8.ofNat a.netname.length).toInt = n + 1 := by omega
    have hnat : ((n : ℤ) + 1).toNat = n + 1 := by omega
    have hbyte : (Int8.ofNat a.netname.length).toUInt8 = UInt8.ofNat (n + 1) := by
      have hvalue := toInt8_toInt (Int8.ofNat a.netname.length).toUInt8
      have hhigh := (Int8.ofNat a.netname.length).toInt_lt
      have hbyte := (Int8.ofNat a.netname.length).toUInt8.toNat_lt
      rw [Int8.toInt8_toUInt8, hn] at hvalue
      apply UInt8.toNat_inj.mp
      rw [UInt8.toNat_ofNat']
      split at hvalue <;> omega
    have hzeros : n + 1 - (a.netname.take n).length = n - a.netname.length + 1 := by
      rw [List.length_take]
      omega
    rw [oldVersion_some hn, hn, hnat, Nat.add_sub_cancel, hzeros, List.replicate_succ', hbyte,
      List.append_assoc]
    rfl

end Broadcasts

/-! ## Netnames -/

/-- The last byte is made zero once more. -/
theorem filledTo_last {i len : ℕ} {head : Bytes} (name : Str) (rest : Bytes)
    (hi : i + 1 = len) (h : head.length < len) :
    Block.write i [0] (filledTo len head name ++ rest) = some (filledTo len head name ++ rest) := by
  obtain ⟨k, heq, hlen⟩ := filledTo_eq name h
  have hlast : (filledTo len head name).getLast? = some 0 := by
    rw [heq, List.replicate_succ', ← List.append_assoc, ← List.append_assoc, List.getLast?_concat]
  rw [List.getLast?_eq_getElem?, hlen, ← hi, Nat.add_sub_cancel] at hlast
  apply Block.write_same
  rw [← hi] at hlen ⊢
  rw [List.getElem?_append_left (by omega), hlast]

theorem snprintf_filledTo {i n k : ℕ} {head : Bytes} (name : Str) (rest : Bytes)
    (hi : head.length = i) (hk : k = n) (hn : 0 < n) :
    snprintf i n name (head ++ (List.replicate k 0 ++ rest)) =
      some (filledTo (i + n) head name ++ rest) := by
  have hname : (name.take (n - 1)).length ≤ n - 1 := List.length_take_le _ _
  rw [snprintf, filledTo, hi, hk, Nat.add_sub_cancel_left]
  generalize name.take (n - 1) = t at hname
  have hlen : (t ++ [(0 : UInt8)]).length = t.length + 1 := by
    rw [List.length_append, List.length_singleton]
  have hzeros : i + n - (head ++ t).length = n - (t ++ [(0 : UInt8)]).length + 1 := by
    rw [List.length_append, hlen]
    omega
  rw [Block.write_filled hi (by omega), hzeros, List.replicate_succ]
  simp only [List.append_assoc, List.nil_append, List.cons_append]

namespace Broadcasts

variable {order : Order} {junk : ℕ → UInt8} {a : Announcer}

theorem latestVersion_eq : latestVersion junk a = some (schedulerVersionData a) := by
  have hlength := Block.enlarge_length junk [] broadBuflen
  have hhigh := Word.bytes_length (timeHigh a.starttime)
  have hlow := Word.bytes_length (timeLow a.starttime)
  simp only [latestVersion, schedulerVersionData]
  generalize Block.enlarge junk [] broadBuflen = buf at hlength
  generalize Word.bytes (timeHigh a.starttime) = high at hhigh
  generalize Word.bytes (timeLow a.starttime) = low at hlow
  rw [List.length_nil, Nat.zero_max] at hlength
  have hsize : broadBuflen = 268 := rfl
  rw [hsize] at hlength
  rw [← List.nil_append buf, hsize]
  simp (disch := simp [hlength, hhigh, hlow]) only [Option.bind_eq_bind, Option.bind_some,
    memset_behind, Block.write_filled, snprintf_filledTo, filledTo_last]
  rw [List.drop_eq_nil_of_le hlength.le, List.append_nil]
  simp only [List.nil_append, List.cons_append]

end Broadcasts
namespace Announcer

/-- How large the answer to a daemon is, and what stands before the netname -/
def replySize (v : UInt8) : ℕ :=
  if v.toInt8.toInt < 33 then broadBuflenOld1
  else if v.toInt8.toInt < 36 then broadBuflenOld2 else broadBuflen

def replyHead (a : Announcer) (order : Order) (v : UInt8) : Bytes :=
  if v.toInt8.toInt < 33 then [v + 1]
  else if v.toInt8.toInt < 38 then
    (v + 2) :: (order.bytes 4 a.version ++ order.bytes 8 a.starttime.toUInt64.toNat)
  else (v + 3) :: (Word.bytes (UInt32.ofNat a.version) ++
    (Word.bytes (timeHigh a.starttime) ++ Word.bytes (timeLow a.starttime)))

/-- On a little endian host -/
theorem filledTo_reply (a : Announcer) (v : UInt8) :
    filledTo (replySize v) (a.replyHead .little v) a.netname = prepareBroadcastReply a v := by
  rw [replySize, replyHead, prepareBroadcastReply]
  split_ifs with h₃₃ h₃₈ h₃₆ h₃₆
  · rfl
  · rfl
  · omega
  · rfl
  · rfl

theorem prepareReply_eq (a : Announcer) (order : Order) (v : UInt8) {rest : Bytes}
    (hrest : rest.length = broadBuflen) : a.prepareReply order (v :: rest) =
      some (filledTo (replySize v) (a.replyHead order v) a.netname ++ rest.drop (replySize v - 1),
        replySize v) := by
  have hmark : (v :: rest).getD 0 0 = v := rfl
  have hversion := Word.bytes_length (UInt32.ofNat a.version)
  have hhigh := Word.bytes_length (timeHigh a.starttime)
  have hlow := Word.bytes_length (timeLow a.starttime)
  simp only [prepareReply, hmark, replySize, replyHead]
  generalize Word.bytes (UInt32.ofNat a.version) = version at hversion
  generalize Word.bytes (timeHigh a.starttime) = high at hhigh
  generalize Word.bytes (timeLow a.starttime) = low at hlow
  have hsize : broadBuflen = 268 := rfl
  have hold₁ : broadBuflenOld1 = 16 := rfl
  have hold₂ : broadBuflenOld2 = 32 := rfl
  rw [hsize] at hrest
  have hmarked : ∀ x : UInt8, Block.write 0 [x] (v :: rest) = some ([x] ++ rest) := fun x => by
    rw [Block.write, if_pos (by simp)]
    rfl
  rw [hsize, hold₁, hold₂]
  split_ifs with h₃₃ h₃₈ h₃₆ h₃₆
  · simp (disch := simp [hrest]) only [Option.bind_eq_bind, Option.bind_some, hmarked,
      memset_behind, snprintf_filledTo, filledTo_last]
    rfl
  · simp (disch := simp [hrest]) only [Option.bind_eq_bind, Option.bind_some, hmarked,
      memset_behind, Block.write_filled, snprintf_filledTo, filledTo_last]
    rfl
  · simp (disch := simp [hrest]) only [Option.bind_eq_bind, Option.bind_some, hmarked,
      memset_behind, Block.write_filled, snprintf_filledTo, filledTo_last]
    rfl
  · omega
  · simp (disch := simp [hrest, hversion, hhigh, hlow]) only [Option.bind_eq_bind,
      Option.bind_some, hmarked, memset_behind, Block.write_filled, snprintf_filledTo,
      filledTo_last]
    rw [List.append_assoc, List.append_assoc]
    rfl

end Announcer

/-! ## Being read -/

/-- What a datagram consists of, in a buffer -/
theorem filledTo_read (len n : ℕ) (head name rest : Bytes) (hn : len - head.length = n + 1) :
    ∃ more, filledTo len head name ++ rest = head ++ (name.take n ++ 0 :: more) := by
  obtain ⟨k, heq, -⟩ := filledTo_eq name (show head.length < len by omega)
  refine ⟨List.replicate k 0 ++ rest, ?_⟩
  rw [heq, hn, Nat.add_sub_cancel, List.replicate_succ]
  simp only [List.append_assoc, List.cons_append]

namespace Asker

/-- What `get_broad_answer` accepts -/
def Accepts (d : Asker) (len : ℕ) (mark : UInt8) : Prop :=
  (len = broadBuflenOld1 ∧ mark.toInt8.toInt - d.version = 1) ∨
    (len = broadBuflenOld2 ∧ mark.toInt8.toInt - d.version = 2) ∨
    (len = broadBuflen ∧ (mark.toInt8.toInt - d.version = 2 ∨ mark.toInt8.toInt - d.version = 3))

instance (d : Asker) (len : ℕ) (mark : UInt8) : Decidable (d.Accepts len mark) :=
  inferInstanceAs (Decidable (_ ∨ _))

theorem getBroadAnswer_filledTo (d : Asker) {len : ℕ} {mark : UInt8} {fields : Bytes} (name : Str)
    (buf2 : Bytes) (hlen : len ≤ broadBuflen) (hfields : fields.length + 1 < len) :
    d.getBroadAnswer (filledTo len (mark :: fields) name) buf2 =
      if d.Accepts len mark then some (filledTo len (mark :: fields) name ++ buf2.drop len)
      else none := by
  have hhead : (mark :: fields).length < len := hfields
  obtain ⟨k, heq, hlength⟩ := filledTo_eq name hhead
  have hdata : (filledTo len (mark :: fields) name).take broadBuflen =
      filledTo len (mark :: fields) name := List.take_of_length_le (hlength.trans_le hlen)
  have hbuf : Block.overwrite buf2 0 (filledTo len (mark :: fields) name) =
      filledTo len (mark :: fields) name ++ buf2.drop len := by
    rw [Block.overwrite, hlength, Nat.zero_add]
    rfl
  have hmark : (filledTo len (mark :: fields) name ++ buf2.drop len).getD 0 0 = mark := by
    rw [heq]
    rfl
  have hlast := filledTo_last name (buf2.drop len) (show len - 1 + 1 = len by omega) hhead
  simp only [getBroadAnswer]
  rw [hdata, hlength, hbuf, hmark, hlast]
  rfl

variable {d : Asker} {mark : UInt8} {name : Str}

theorem getBroadData_old (hmark : mark.toInt8.toInt - d.version = 1) (hname : (0 : UInt8) ∉ name)
    (more : Bytes) : d.getBroadData ([mark] ++ (name ++ 0 :: more)) = some ⟨name, 32, 0⟩ := by
  have hfirst : ([mark] ++ (name ++ 0 :: more)).getD 0 0 = mark := rfl
  have hrest : ([mark] ++ (name ++ 0 :: more)).drop 1 = name ++ 0 :: more := rfl
  simp only [getBroadData]
  rw [hfirst, if_pos hmark, hrest, cString_terminated hname]

/-- Between hosts of one byte order -/
theorem getBroadData_native (hmark : mark.toInt8.toInt - d.version = 2)
    (hname : (0 : UInt8) ∉ name) {version : ℕ} (hversion : version < 128) (starttime : Int64)
    (more : Bytes) : d.getBroadData ((mark :: (d.order.bytes 4 version ++
        d.order.bytes 8 starttime.toUInt64.toNat)) ++ (name ++ 0 :: more)) =
      some ⟨name, version, starttime⟩ := by
  have hfour := d.order.bytes_length 4 version
  have height := d.order.bytes_length 8 starttime.toUInt64.toNat
  have hvalue := d.order.value_bytes (n := 4) (x := version) (by omega)
  have htime := d.order.value_bytes (n := 8) starttime.toUInt64.toNat_lt
  generalize d.order.bytes 4 version = vs at *
  generalize d.order.bytes 8 starttime.toUInt64.toNat = ts at *
  have hbuf : (mark :: (vs ++ ts)) ++ (name ++ 0 :: more) = mark :: (vs ++ (ts ++ (name ++ 0 :: more))) := by
    simp only [List.cons_append, List.append_assoc]
  have hslice₁ : Block.slice (mark :: (vs ++ (ts ++ (name ++ 0 :: more)))) 1 4 = vs := by
    rw [Block.slice, List.drop_succ_cons, List.drop_zero, ← hfour, List.take_left]
  have hslice₂ : Block.slice (mark :: (vs ++ (ts ++ (name ++ 0 :: more)))) 5 8 = ts := by
    rw [Block.slice, List.drop_succ_cons, ← hfour, List.drop_left, ← height, List.take_left]
  have hdrop : (mark :: (vs ++ (ts ++ (name ++ 0 :: more)))).drop 13 = name ++ 0 :: more := by
    have htotal : (vs ++ ts).length = 12 := by rw [List.length_append, hfour, height]
    rw [List.drop_succ_cons, ← List.append_assoc, ← htotal, List.drop_left]
  have hfirst : (mark :: (vs ++ (ts ++ (name ++ 0 :: more)))).getD 0 0 = mark := rfl
  simp only [getBroadData]
  rw [hbuf, hfirst, hmark, if_neg (by decide), if_pos rfl, hslice₁, hslice₂, hdrop, hvalue, htime,
    cString_terminated hname, UInt32.toInt32_ofNat', Int32.toInt_ofNat_of_lt (by omega),
    UInt64.ofNat_toNat, Int64.toInt64_toUInt64]

theorem getBroadData_latest (hmark : mark.toInt8.toInt - d.version = 3)
    (hname : (0 : UInt8) ∉ name) {version : ℕ} (hversion : version < 128) (starttime : Int64)
    (more : Bytes) : d.getBroadData ((mark :: (Word.bytes (UInt32.ofNat version) ++
        (Word.bytes (timeHigh starttime) ++ Word.bytes (timeLow starttime)))) ++
          (name ++ 0 :: more)) = some ⟨name, version, starttime⟩ := by
  have hvalue := Word.value_bytes (UInt32.ofNat version) (Word.bytes (timeHigh starttime) ++
    (Word.bytes (timeLow starttime) ++ (name ++ 0 :: more)))
  have hhigh := Word.value_bytes (timeHigh starttime) (Word.bytes (timeLow starttime) ++
    (name ++ 0 :: more))
  have hlow := Word.value_bytes (timeLow starttime) (name ++ 0 :: more)
  have hfirst : ((mark :: (Word.bytes (UInt32.ofNat version) ++ (Word.bytes (timeHigh starttime) ++
      Word.bytes (timeLow starttime)))) ++ (name ++ 0 :: more)).getD 0 0 = mark := rfl
  have hdrop : ((mark :: (Word.bytes (UInt32.ofNat version) ++ (Word.bytes (timeHigh starttime) ++
      Word.bytes (timeLow starttime)))) ++ (name ++ 0 :: more)).drop 13 = name ++ 0 :: more := rfl
  simp only [getBroadData]
  rw [hfirst, hmark, if_neg (by decide), if_neg (by decide), if_pos rfl, hdrop,
    cString_terminated hname, Option.some.injEq, BroadData.mk.injEq]
  refine ⟨rfl, ?_, ?_⟩
  · refine (congrArg (fun x => x.toInt32.toInt) hvalue).trans ?_
    rw [UInt32.toInt32_ofNat', Int32.toInt_ofNat_of_lt (by omega)]
  · exact (congrArg₂ timeOf hhigh hlow).trans (timeOf_high_low starttime)

theorem reads_old (hmark : mark.toInt8.toInt - d.version = 1) (hname : (0 : UInt8) ∉ name)
    (buf2 : Bytes) : (d.getBroadAnswer (filledTo broadBuflenOld1 [mark] name) buf2).bind
      d.getBroadData = some ⟨name.take 14, 32, 0⟩ := by
  obtain ⟨more, hmore⟩ := filledTo_read broadBuflenOld1 14 [mark] name
    (buf2.drop broadBuflenOld1) rfl
  rw [getBroadAnswer_filledTo d name buf2 (by decide) (by decide), if_pos (.inl ⟨rfl, hmark⟩),
    Option.bind_some, hmore, getBroadData_old hmark fun hmem => hname (List.mem_of_mem_take hmem)]

theorem reads_native {len : ℕ} (hlen : len = broadBuflenOld2 ∨ len = broadBuflen)
    (hmark : mark.toInt8.toInt - d.version = 2) (hname : (0 : UInt8) ∉ name) {version : ℕ}
    (hversion : version < 128) (starttime : Int64) (buf2 : Bytes) :
    (d.getBroadAnswer (filledTo len (mark :: (d.order.bytes 4 version ++
      d.order.bytes 8 starttime.toUInt64.toNat)) name) buf2).bind d.getBroadData =
        some ⟨name.take (len - 14), version, starttime⟩ := by
  have haccepts : d.Accepts len mark :=
    .inr (hlen.imp (fun hold => ⟨hold, hmark⟩) fun hnew => ⟨hnew, .inl hmark⟩)
  have hsize : 32 ≤ len ∧ len ≤ broadBuflen := by
    rw [broadBuflenOld2, broadBuflen] at *
    omega
  obtain ⟨more, hmore⟩ := filledTo_read len (len - 14) (mark :: (d.order.bytes 4 version ++
    d.order.bytes 8 starttime.toUInt64.toNat)) name (buf2.drop len) (by
      rw [List.length_cons, List.length_append, d.order.bytes_length, d.order.bytes_length]
      omega)
  rw [getBroadAnswer_filledTo d name buf2 hsize.2 (by
      rw [List.length_append, d.order.bytes_length, d.order.bytes_length]
      omega), if_pos haccepts, Option.bind_some, hmore,
    getBroadData_native hmark (fun hmem => hname (List.mem_of_mem_take hmem)) hversion]

theorem reads_latest (hmark : mark.toInt8.toInt - d.version = 3) (hname : (0 : UInt8) ∉ name)
    {version : ℕ} (hversion : version < 128) (starttime : Int64) (buf2 : Bytes) :
    (d.getBroadAnswer (filledTo broadBuflen (mark :: (Word.bytes (UInt32.ofNat version) ++
      (Word.bytes (timeHigh starttime) ++ Word.bytes (timeLow starttime)))) name) buf2).bind
        d.getBroadData = some ⟨name.take 254, version, starttime⟩ := by
  obtain ⟨more, hmore⟩ := filledTo_read broadBuflen 254
    (mark :: (Word.bytes (UInt32.ofNat version) ++
      (Word.bytes (timeHigh starttime) ++ Word.bytes (timeLow starttime)))) name
    (buf2.drop broadBuflen) rfl
  rw [getBroadAnswer_filledTo d name buf2 le_rfl (by simp [broadBuflen]),
    if_pos (.inr (.inr ⟨rfl, .inr hmark⟩)), Option.bind_some, hmore,
    getBroadData_latest hmark (fun hmem => hname (List.mem_of_mem_take hmem)) hversion]

end Asker

theorem toInt8_mark {v k : ℕ} (h : v + k < 128) :
    (UInt8.ofNat v + UInt8.ofNat k).toInt8.toInt = v + k := by
  have hsum : (UInt8.ofNat v + UInt8.ofNat k).toNat = v + k := by
    rw [UInt8.toNat_add, UInt8.toNat_ofNat', UInt8.toNat_ofNat']
    omega
  rw [toInt8_toInt, hsum, if_pos h]
  exact Nat.cast_add v k

namespace Asker

/-- `sendSchedulerDiscovery` -/
def question (d : Asker) : Bytes := [UInt8.ofNat d.version]

theorem toInt8_version (d : Asker) : (UInt8.ofNat d.version).toInt8.toInt = d.version := by
  have hsmall := d.small
  have hnat : (UInt8.ofNat d.version).toNat = d.version := by
    rw [UInt8.toNat_ofNat']
    omega
  rw [toInt8_toInt, hnat, if_pos hsmall]

end Asker

namespace Announcer

theorem replyHead_length (a : Announcer) (order : Order) (v : UInt8) :
    (a.replyHead order v).length < replySize v := by
  rw [replyHead, replySize]
  split_ifs with h₃₃ h₃₈ h₃₆ h₃₆
  · simp [broadBuflenOld1]
  · simp [broadBuflenOld2]
  · simp [broadBuflen]
  · omega
  · simp [broadBuflen]

/-- What a daemon is to be told: the netname as far as there is room for it, and before version 33
nothing else -/
def told (a : Announcer) (version : ℕ) : BroadData :=
  if version < 33 then ⟨a.netname.take 14, 32, 0⟩
  else ⟨a.netname.take (if version < 36 then 18 else 254), a.version, a.starttime⟩

theorem answer_read (a : Announcer) {order : Order} {d : Asker} (hd : d.version < 125)
    (horder : d.version < 38 → d.order = order) (buf2 : Bytes) :
    (d.getBroadAnswer (filledTo (replySize (UInt8.ofNat d.version))
      (a.replyHead order (UInt8.ofNat d.version)) a.netname) buf2).bind d.getBroadData =
        some (a.told d.version) := by
  have hmark : ∀ k ≤ 3, (UInt8.ofNat d.version + UInt8.ofNat k).toInt8.toInt - d.version = k := by
    intro k hk
    rw [toInt8_mark (by omega)]
    omega
  rw [replySize, replyHead, told, d.toInt8_version]
  by_cases h₃₃ : d.version < 33
  · have hold : (d.version : ℤ) < 33 := by omega
    rw [if_pos hold, if_pos hold, if_pos h₃₃]
    exact Asker.reads_old (hmark 1 (by decide)) a.plain buf2
  · have hnew : ¬ (d.version : ℤ) < 33 := by omega
    rw [if_neg hnew, if_neg hnew, if_neg h₃₃]
    by_cases h₃₈ : d.version < 38
    · have hnative : (d.version : ℤ) < 38 := by omega
      rw [if_pos hnative, ← horder h₃₈]
      by_cases h₃₆ : d.version < 36
      · have hshort : (d.version : ℤ) < 36 := by omega
        rw [if_pos hshort, if_pos h₃₆]
        exact Asker.reads_native (.inl rfl) (hmark 2 (by decide)) a.plain a.current.2 a.starttime buf2
      · have hlong : ¬ (d.version : ℤ) < 36 := by omega
        rw [if_neg hlong, if_neg h₃₆]
        exact Asker.reads_native (.inr rfl) (hmark 2 (by decide)) a.plain a.current.2 a.starttime buf2
    · have hlatest : ¬ (d.version : ℤ) < 38 := by omega
      have hlong : ¬ (d.version : ℤ) < 36 := by omega
      rw [if_neg hlatest, if_neg hlong, if_neg (show ¬ d.version < 36 by omega)]
      exact Asker.reads_latest (hmark 3 (by decide)) a.plain a.current.2 a.starttime buf2

/-- The mark of the answer is not a `char`. -/
theorem answer_unread (a : Announcer) (order : Order) {d : Asker} (hd : 125 ≤ d.version)
    (buf2 : Bytes) :
    d.getBroadAnswer (filledTo (replySize (UInt8.ofNat d.version))
      (a.replyHead order (UInt8.ofNat d.version)) a.netname) buf2 = none := by
  have hsmall := d.small
  have hlatest : ¬ (d.version : ℤ) < 38 := by omega
  have hlong : ¬ (d.version : ℤ) < 36 := by omega
  have hnew : ¬ (d.version : ℤ) < 33 := by omega
  have hthree : (UInt8.ofNat d.version + 3).toNat = d.version + 3 := by
    rw [UInt8.toNat_add, UInt8.toNat_ofNat']
    change (d.version % 2 ^ 8 + 3) % 2 ^ 8 = _
    omega
  have hmark : (UInt8.ofNat d.version + 3).toInt8.toInt - d.version = -253 := by
    rw [toInt8_toInt, hthree, if_neg (by omega)]
    omega
  rw [replySize, replyHead, d.toInt8_version, if_neg hnew, if_neg hlong, if_neg hnew,
    if_neg hlatest, Asker.getBroadAnswer_filledTo d a.netname buf2 le_rfl (by simp [broadBuflen]),
    if_neg]
  rw [Asker.Accepts, hmark]
  decide

end Announcer

def icecream : Announcer := ⟨45, 1000, [73, 67, 69, 67, 82, 69, 65, 77], by decide, by decide⟩

def unnamed : Announcer := ⟨45, 1000, [], by decide, by decide⟩

def asker35 : Asker := ⟨35, .big, by decide⟩

def asker125 : Asker := ⟨125, .little, by decide⟩

end Icecream.Services
