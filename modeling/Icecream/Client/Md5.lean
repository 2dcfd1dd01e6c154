import Icecream.Comm.Message
import Icecream.Library.Absorption
import Icecream.Library.Block
import Mathlib.Tactic

/-!
# Digests of object files

`md5_append` takes a file in pieces, as `md5_for_file` reads it; the digest is that of the file.
-/

namespace Icecream.Client.Md5

open Icecream.Comm (Bytes Str str)
open Icecream.Absorption

/-! ## `md5_process` -/

/-- `abcd` -/
structure Words where
  a : UInt32
  b : UInt32
  c : UInt32
  d : UInt32
  deriving DecidableEq

def fnF (x y z : UInt32) : UInt32 := (x &&& y) ||| (~~~x &&& z)

def fnG (x y z : UInt32) : UInt32 := (x &&& z) ||| (y &&& ~~~z)

def fnH (x y z : UInt32) : UInt32 := x ^^^ y ^^^ z

def fnI (x y z : UInt32) : UInt32 := y ^^^ (x ||| ~~~z)

def rotateLeft (x n : UInt32) : UInt32 := (x <<< n) ||| (x >>> (32 - n))

/-- `SET` with its function. The next one names the registers in the order that is left. -/
def set (fn : UInt32 → UInt32 → UInt32 → UInt32) (x : List UInt32) (w : Words)
    (op : ℕ × UInt32 × UInt32) : Words :=
  let t := w.a + fn w.b w.c w.d + x.getD op.1 0 + op.2.2
  ⟨w.d, rotateLeft t op.2.1 + w.b, w.b, w.c⟩

def round1 : List (ℕ × UInt32 × UInt32) :=
  [(0, 7, 0xd76aa478), (1, 12, 0xe8c7b756), (2, 17, 0x242070db), (3, 22, 0xc1bdceee),
    (4, 7, 0xf57c0faf), (5, 12, 0x4787c62a), (6, 17, 0xa8304613), (7, 22, 0xfd469501),
    (8, 7, 0x698098d8), (9, 12, 0x8b44f7af), (10, 17, 0xffff5bb1), (11, 22, 0x895cd7be),
    (12, 7, 0x6b901122), (13, 12, 0xfd987193), (14, 17, 0xa679438e), (15, 22, 0x49b40821)]

def round2 : List (ℕ × UInt32 × UInt32) :=
  [(1, 5, 0xf61e2562), (6, 9, 0xc040b340), (11, 14, 0x265e5a51), (0, 20, 0xe9b6c7aa),
    (5, 5, 0xd62f105d), (10, 9, 0x02441453), (15, 14, 0xd8a1e681), (4, 20, 0xe7d3fbc8),
    (9, 5, 0x21e1cde6), (14, 9, 0xc33707d6), (3, 14, 0xf4d50d87), (8, 20, 0x455a14ed),
    (13, 5, 0xa9e3e905), (2, 9, 0xfcefa3f8), (7, 14, 0x676f02d9), (12, 20, 0x8d2a4c8a)]

def round3 : List (ℕ × UInt32 × UInt32) :=
  [(5, 4, 0xfffa3942), (8, 11, 0x8771f681), (11, 16, 0x6d9d6122), (14, 23, 0xfde5380c),
    (1, 4, 0xa4beea44), (4, 11, 0x4bdecfa9), (7, 16, 0xf6bb4b60), (10, 23, 0xbebfbc70),
    (13, 4, 0x289b7ec6), (0, 11, 0xeaa127fa), (3, 16, 0xd4ef3085), (6, 23, 0x04881d05),
    (9, 4, 0xd9d4d039), (12, 11, 0xe6db99e5), (15, 16, 0x1fa27cf8), (2, 23, 0xc4ac5665)]

def round4 : List (ℕ × UInt32 × UInt32) :=
  [(0, 6, 0xf4292244), (7, 10, 0x432aff97), (14, 15, 0xab9423a7), (5, 21, 0xfc93a039),
    (12, 6, 0x655b59c3), (3, 10, 0x8f0ccc92), (10, 15, 0xffeff47d), (1, 21, 0x85845dd1),
    (8, 6, 0x6fa87e4f), (15, 10, 0xfe2ce6e0), (6, 15, 0xa3014314), (13, 21, 0x4e0811a1),
    (4, 6, 0xf7537e82), (11, 10, 0xbd3af235), (2, 15, 0x2ad7d2bb), (9, 21, 0xeb86d391)]

/-- `X`: the bytes of the block in the order of a machine that has the lowest one first -/
def words : ℕ → Bytes → List UInt32
  | 0, _ => []
  | n + 1, xp =>
    ((xp.getD 0 0).toUInt32 + ((xp.getD 1 0).toUInt32 <<< 8) + ((xp.getD 2 0).toUInt32 <<< 16) +
      ((xp.getD 3 0).toUInt32 <<< 24)) :: words n (xp.drop 4)

def process (abcd : Words) (data : Bytes) : Words :=
  let x := words 16 data
  let w := round4.foldl (set fnI x) (round3.foldl (set fnH x) (round2.foldl (set fnG x)
    (round1.foldl (set fnF x) abcd)))
  ⟨abcd.a + w.a, abcd.b + w.b, abcd.c + w.c, abcd.d + w.d⟩

/-! ## The state -/

/-- `md5_state_t` -/
structure State where
  count0 : UInt32
  count1 : UInt32
  abcd : Words
  buf : Bytes

def initial : Words := ⟨0x67452301, 0xefcdab89, 0x98badcfe, 0x10325476⟩

/-- `md5_init`, with what the buffer happens to hold -/
def init (junk : Fin 64 → UInt8) : State := ⟨0, 0, initial, List.ofFn junk⟩

/-- The full blocks of what is left, and the final partial block -/
def fullBlocks (s : State) (data : Bytes) : State :=
  { s with abcd := absorb process 64 s.abcd data, buf := Block.overwrite s.buf 0 (rest 64 data) }

/-- The message length, updated -/
def State.counts (s : State) (nbytes : ℕ) : State :=
  let nbits := UInt32.ofNat (nbytes <<< 3)
  let count1 := s.count1 + UInt32.ofNat (nbytes >>> 29)
  { s with
    count0 := s.count0 + nbits
    count1 := if s.count0 + nbits < nbits then count1 + 1 else count1 }

/-- The initial partial block, with what follows when it is full -/
def partialBlock (s : State) (offset : ℕ) (data : Bytes) : State :=
  let copy := if 64 < offset + data.length then 64 - offset else data.length
  let buf := Block.overwrite s.buf offset (data.take copy)
  if offset + copy < 64 then { s with buf := buf }
  else fullBlocks { s with abcd := process s.abcd buf, buf := buf } (data.drop copy)

def append (s : State) (data : Bytes) : State :=
  let offset := ((s.count0 >>> 3) &&& 63).toNat
  if data = [] then s
  else if offset = 0 then fullBlocks (s.counts data.length) data
  else partialBlock (s.counts data.length) offset data

/-- The four bytes of a word, the lowest one first -/
def wordBytes (w : UInt32) : Bytes :=
  [w.toUInt8, (w >>> 8).toUInt8, (w >>> 16).toUInt8, (w >>> 24).toUInt8]

def Words.bytes (w : Words) : Bytes := wordBytes w.a ++ wordBytes w.b ++ wordBytes w.c ++ wordBytes w.d

def pad : Bytes := 0x80 :: List.replicate 63 0

def finish (s : State) : Bytes :=
  let data := wordBytes s.count0 ++ wordBytes s.count1
  let s := append s (pad.take ((((55 : UInt32) - (s.count0 >>> 3)) &&& 63).toNat + 1))
  (append s data).abcd.bytes

/-! ## `md5_for_file` -/

def hexDigit (n : UInt8) : UInt8 := if n < 10 then 48 + n else 87 + n

/-- `%02x` -/
def hex (b : UInt8) : Str := [hexDigit (b >>> 4), hexDigit (b &&& 15)]

/-- What `fread` has returned of the file, if it could be opened -/
def md5ForFile (junk : Fin 64 → UInt8) : Option (List Bytes) → Str
  | none => []
  | some reads => (finish (reads.foldl append (init junk))).flatMap hex

/-! ## The digest of a message -/

/-- The message with its padding and its length in bits -/
def padded (m : Bytes) : Bytes :=
  m ++ 0x80 :: List.replicate ((119 - m.length % 64) % 64) 0 ++
    wordBytes (UInt32.ofNat (8 * m.length)) ++ wordBytes (UInt32.ofNat (8 * m.length / 2 ^ 32))

def digest (m : Bytes) : Bytes := (absorb process 64 initial (padded m)).bytes

/-! ## The state after a message -/

/-- What is known of the state after a message: its length in bits, the blocks that were full, and
what is left of it in the buffer -/
structure Holds (s : State) (m : Bytes) : Prop where
  count : s.count0.toNat + 2 ^ 32 * s.count1.toNat = 8 * m.length % 2 ^ 64
  abcd : s.abcd = absorb process 64 initial m
  room : s.buf.length = 64
  buf : s.buf.take (m.length % 64) = rest 64 m

theorem init_holds (junk : Fin 64 → UInt8) : Holds (init junk) [] :=
  ⟨rfl, rfl, List.length_ofFn, rfl⟩

theorem counts_count {s : State} {m data : Bytes} (h : Holds s m) (hsize : data.length < 2 ^ 28) :
    (s.counts data.length).count0.toNat + 2 ^ 32 * (s.counts data.length).count1.toNat =
      8 * (m ++ data).length % 2 ^ 64 := by
  have hcount := h.count
  have hlow := s.count0.toNat_lt
  have hhigh := s.count1.toNat_lt
  have hbits : (UInt32.ofNat (data.length <<< 3)).toNat = 8 * data.length := by
    rw [UInt32.toNat_ofNat', Nat.shiftLeft_eq]
    omega
  have hnone : UInt32.ofNat (data.length >>> 29) = 0 := by
    rw [Nat.shiftRight_eq_div_pow, Nat.div_eq_of_lt (by omega)]
    rfl
  have hsum : (s.counts data.length).count0.toNat = (s.count0.toNat + 8 * data.length) % 2 ^ 32 := by
    rw [State.counts, UInt32.toNat_add, hbits]
  rw [List.length_append, hsum, State.counts, hnone]
  simp only [UInt32.lt_iff_toNat_lt, UInt32.toNat_add, hbits, UInt32.add_zero]
  split_ifs with hcarry
  · rw [UInt32.toNat_add]
    simp only [UInt32.toNat_one]
    omega
  · omega

/-- Where the next byte goes -/
theorem Holds.offset {s : State} {m : Bytes} (h : Holds s m) :
    ((s.count0 >>> 3) &&& 63).toNat = m.length % 64 := by
  have hcount := h.count
  have hhigh := s.count1.toNat_lt
  have hmask : (63 : UInt32).toNat = 2 ^ 6 - 1 := rfl
  have hshift : (3 : UInt32).toNat % 32 = 3 := rfl
  rw [UInt32.toNat_and, hmask, Nat.and_two_pow_sub_one_eq_mod, UInt32.toNat_shiftRight, hshift,
    Nat.shiftRight_eq_div_pow]
  omega

theorem overwrite_zero {β : Type*} (buf data : List β) :
    Block.overwrite buf 0 data = data ++ buf.drop data.length := by
  rw [Block.overwrite, List.take_zero, List.nil_append, Nat.zero_add]

theorem fullBlocks_holds {s : State} {m data : Bytes} (hroom : s.buf.length = 64)
    (hcount : s.count0.toNat + 2 ^ 32 * s.count1.toNat = 8 * m.length % 2 ^ 64)
    (habcd : absorb process 64 s.abcd data = absorb process 64 initial m)
    (hrest : rest 64 data = rest 64 m) : Holds (fullBlocks s data) m := by
  have hlength : (rest 64 data).length = m.length % 64 := by rw [hrest, rest_length]
  have hfits : 0 + (rest 64 data).length ≤ s.buf.length := by
    rw [hlength, hroom]
    omega
  refine ⟨hcount, habcd, ?_, ?_⟩
  · exact (Block.overwrite_length hfits).trans hroom
  · show (Block.overwrite s.buf 0 (rest 64 data)).take (m.length % 64) = rest 64 m
    rw [overwrite_zero, ← hlength, List.take_left, hrest]

/-- The buffer with more of the message -/
theorem overwrite_buf {s : State} {m : Bytes} (h : Holds s m) (data : Bytes)
    (hfits : m.length % 64 + data.length ≤ 64) :
    (Block.overwrite s.buf (m.length % 64) data).length = 64 ∧
      (Block.overwrite s.buf (m.length % 64) data).take (m.length % 64 + data.length) =
        rest 64 m ++ data := by
  have hroom : m.length % 64 + data.length ≤ s.buf.length := by rwa [h.room]
  refine ⟨(Block.overwrite_length hroom).trans h.room, ?_⟩
  rw [Block.overwrite, h.buf, ← rest_length, ← List.append_assoc, ← List.length_append, List.take_left]

theorem partialBlock_of_lt {s : State} {offset : ℕ} {data : Bytes} (h : offset + data.length < 64) :
    partialBlock s offset data = { s with buf := Block.overwrite s.buf offset data } := by
  have hcopy : ¬ 64 < offset + data.length := by omega
  rw [partialBlock, if_neg hcopy, List.take_length, if_pos h]

theorem partialBlock_of_le {s : State} {offset : ℕ} {data : Bytes} (hoffset : offset < 64)
    (h : 64 ≤ offset + data.length) :
    partialBlock s offset data =
      let buf := Block.overwrite s.buf offset (data.take (64 - offset))
      fullBlocks { s with abcd := process s.abcd buf, buf := buf } (data.drop (64 - offset)) := by
  have hcopy : (if 64 < offset + data.length then 64 - offset else data.length) = 64 - offset := by
    split_ifs <;> omega
  have hfull : ¬ offset + (64 - offset) < 64 := by omega
  rw [partialBlock, hcopy, if_neg hfull]

theorem append_holds {s : State} {m data : Bytes} (h : Holds s m) (hsize : data.length < 2 ^ 28) :
    Holds (append s data) (m ++ data) := by
  obtain ⟨habsorb, hrest⟩ := absorb_append process 64 (by decide) initial m data
  have hcount := counts_count h hsize
  have hlength := rest_length 64 m
  have hoffset : m.length % 64 < 64 := Nat.mod_lt _ (by decide)
  unfold append
  rw [h.offset]
  by_cases hnil : data = []
  · rwa [if_pos hnil, hnil, List.append_nil]
  rw [if_neg hnil]
  by_cases hzero : m.length % 64 = 0
  · have hnone : rest 64 m = [] := List.length_eq_zero_iff.mp (hlength.trans hzero)
    rw [hnone, List.nil_append] at habsorb hrest
    rw [if_pos hzero]
    refine fullBlocks_holds h.room hcount ?_ hrest.symm
    rw [habsorb, ← h.abcd]
    rfl
  rw [if_neg hzero]
  by_cases hshort : m.length % 64 + data.length < 64
  · obtain ⟨hroom, hbuf⟩ := overwrite_buf h data hshort.le
    have hfew : (rest 64 m ++ data).length < 64 := by rwa [List.length_append, hlength]
    rw [absorb_of_lt process 64 hfew] at habsorb
    rw [rest_of_lt 64 hfew] at hrest
    rw [partialBlock_of_lt hshort]
    refine ⟨hcount, ?_, hroom, ?_⟩
    · rw [habsorb, ← h.abcd]
      rfl
    · rw [hrest, ← hbuf]
      congr 1
      rw [List.length_append]
      omega
  · have hcopied : (data.take (64 - m.length % 64)).length = 64 - m.length % 64 :=
      List.length_take_of_le (by omega)
    obtain ⟨hroom, hbuf⟩ := overwrite_buf h (data.take (64 - m.length % 64)) (by omega)
    have hblock : (rest 64 m ++ data.take (64 - m.length % 64)).length = 64 := by
      rw [List.length_append, hlength, hcopied]
      omega
    have hwhole : Block.overwrite s.buf (m.length % 64) (data.take (64 - m.length % 64)) =
        rest 64 m ++ data.take (64 - m.length % 64) := by
      refine (List.take_of_length_le ?_).symm.trans hbuf
      rw [hroom, hcopied]
      omega
    have hcut : rest 64 m ++ data =
        (rest 64 m ++ data.take (64 - m.length % 64)) ++ data.drop (64 - m.length % 64) := by
      rw [List.append_assoc, List.take_append_drop]
    rw [hcut, absorb_block process 64 (by decide) hblock, ← hwhole, ← h.abcd] at habsorb
    rw [hcut, rest_block 64 (by decide) hblock] at hrest
    rw [partialBlock_of_le hoffset (by omega)]
    exact fullBlocks_holds hroom hcount habsorb.symm hrest.symm

theorem appends_holds {s : State} {m : Bytes} {pieces : List Bytes} (h : Holds s m)
    (hsize : ∀ piece ∈ pieces, piece.length < 2 ^ 28) :
    Holds (pieces.foldl append s) (m ++ pieces.flatten) := by
  induction pieces generalizing s m with
  | nil => rwa [List.flatten_nil, List.append_nil]
  | cons piece pieces ih =>
    obtain ⟨hpiece, hpieces⟩ := List.forall_mem_cons.mp hsize
    rw [List.foldl_cons, List.flatten_cons, ← List.append_assoc]
    exact ih (append_holds h hpiece) hpieces

/-! ## The digest -/

theorem padding {s : State} {m : Bytes} (h : Holds s m) :
    pad.take ((((55 : UInt32) - (s.count0 >>> 3)) &&& 63).toNat + 1) =
      0x80 :: List.replicate ((119 - m.length % 64) % 64) 0 := by
  have hcount := h.count
  have hlow := s.count0.toNat_lt
  have hmask : (63 : UInt32).toNat = 2 ^ 6 - 1 := rfl
  have hshift : (3 : UInt32).toNat % 32 = 3 := rfl
  have hlast : (55 : UInt32).toNat = 55 := rfl
  have hzeros : ((((55 : UInt32) - (s.count0 >>> 3)) &&& 63).toNat) = (119 - m.length % 64) % 64 := by
    rw [UInt32.toNat_and, hmask, Nat.and_two_pow_sub_one_eq_mod, UInt32.toNat_sub, hlast,
      UInt32.toNat_shiftRight, hshift, Nat.shiftRight_eq_div_pow]
    omega
  rw [hzeros, pad, List.take_succ_cons, List.take_replicate]
  congr 2
  omega

theorem lengthBytes {s : State} {m : Bytes} (h : Holds s m) :
    s.count0 = UInt32.ofNat (8 * m.length) ∧ s.count1 = UInt32.ofNat (8 * m.length / 2 ^ 32) := by
  have hcount := h.count
  have hlow := s.count0.toNat_lt
  have hhigh := s.count1.toNat_lt
  refine ⟨UInt32.toNat_inj.mp ?_, UInt32.toNat_inj.mp ?_⟩
  · rw [UInt32.toNat_ofNat']
    omega
  · rw [UInt32.toNat_ofNat']
    omega

/-- The padding and the length are two more pieces of the message. -/
theorem finish_eq {s : State} {m : Bytes} (h : Holds s m) : finish s = digest m := by
  obtain ⟨hlow, hhigh⟩ := lengthBytes h
  have hpad : (0x80 :: List.replicate ((119 - m.length % 64) % 64) 0 : Bytes).length < 2 ^ 28 := by
    rw [List.length_cons, List.length_replicate]
    omega
  have hsize : (wordBytes s.count0 ++ wordBytes s.count1).length < 2 ^ 28 :=
    (show 8 < 2 ^ 28 by decide)
  have hdone := append_holds (append_holds h hpad) hsize
  rw [finish, padding h, hdone.abcd, digest, padded, hlow, hhigh]
  simp only [List.append_assoc]

/-- The digest that `md5_for_file` returns is that of what the file holds, whatever way it is read and
whatever was on the stack. -/
theorem md5ForFile_eq (junk : Fin 64 → UInt8) {reads : List Bytes}
    (hsize : ∀ bs ∈ reads, bs.length ≤ 40000) :
    md5ForFile junk (some reads) = (digest reads.flatten).flatMap hex := by
  have hread : Holds (reads.foldl append (init junk)) ([] ++ reads.flatten) :=
    appends_holds (init_holds junk) fun bs hbs => (hsize bs hbs).trans_lt (by decide)
  exact congrArg (List.flatMap hex) (finish_eq hread)

theorem md5ForFile_eq_abc : md5ForFile (fun _ => 0) (some [str "a", str "bc"]) =
    (digest [str "a", str "bc"].flatten).flatMap hex :=
  md5ForFile_eq (fun _ => 0) (by decide)

example : md5ForFile (fun _ => 0) (some [str "a", str "bc"]) =
    str "900150983cd24fb0d6963f7d28e17f72" := by decide +kernel

end Icecream.Client.Md5
