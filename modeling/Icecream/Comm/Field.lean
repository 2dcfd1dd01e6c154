import Icecream.Library.Reader
import Icecream.Library.Word
import Icecream.Comm.Message

/-!
# Fields on the wire

`MsgChannel::operator<<` and `operator>>` for words, strings and lists of strings,
`write_environments` and `read_environments`, `writecompressed` and
`readcompressed`. A reader works on what has been received (`inofs - intogo` bytes)
and on the memory behind it, where a string without a terminating NUL is continued.
-/

namespace Icecream.Comm

/-! ## Writing -/

def writeUInt32 (x : UInt32) : Bytes := Word.bytes x

/-- The length counts the terminating NUL and is computed in 32 bits. -/
def writeString (s : Str) : Bytes :=
  let len : UInt32 := 1 + UInt32.ofNat s.length
  writeUInt32 len ++ (s ++ [0]).take len.toNat

def writeStrings (l : List Str) : Bytes :=
  writeUInt32 (UInt32.ofNat l.length) ++ l.flatMap writeString

def writeEnvironments (envs : Environments) : Bytes :=
  writeUInt32 (UInt32.ofNat envs.length) ++
    envs.flatMap fun env => writeString env.1 ++ writeString env.2

/-- A field that is there from version `x` on: `IS_PROTOCOL_VERSION(x, c)`. -/
def writeSince (protocol x : ℕ) (bs : Bytes) : Bytes := if x ≤ protocol then bs else []

def writeBool (b : Bool) : Bytes := writeUInt32 (if b then 1 else 0)

/-! ## Reading -/

def readUInt32 : Reader UInt8 UInt32 := fun w =>
  if 4 ≤ w.rest.length then (Word.value w.rest, { w with rest := w.rest.drop 4 })
  else (0, { w with short := true })

/-- The characters of a string up to its NUL, wherever that is. -/
def readChars (len : UInt32) : Reader UInt8 Str := fun w =>
  if len = 0 then ([], w)
  else if w.rest.length < len.toNat then ([], { w with short := true })
  else ((w.rest ++ w.beyond).takeWhile (· ≠ 0),
    { w with rest := w.rest.drop len.toNat, loose := w.loose || !w.rest.contains 0 })

def readString : Reader UInt8 Str := readUInt32 >>= readChars

def readStringsLoop : ℕ → Reader UInt8 (List Str)
  | 0 => pure []
  | n + 1 => fun w =>
    let s := readString w
    if s.2.rest = [] then ([s.1], { s.2 with short := s.2.short || n ≠ 0 })
    else
      let l := readStringsLoop n s.2
      (s.1 :: l.1, l.2)

def readStrings : Reader UInt8 (List Str) := readUInt32 >>= fun len => readStringsLoop len.toNat

def readEnvironmentsLoop : ℕ → Reader UInt8 Environments
  | 0 => pure []
  | n + 1 => do
    let plat ← readString
    let vers ← readString
    let envs ← readEnvironmentsLoop n
    pure ((plat, vers) :: envs)

def readEnvironments : Reader UInt8 Environments :=
  readUInt32 >>= fun count => readEnvironmentsLoop count.toNat

def readSince {α : Type} (protocol x : ℕ) (rd : Reader UInt8 α) (d : α) : Reader UInt8 α :=
  if x ≤ protocol then rd else pure d

def readBool : Reader UInt8 Bool := (fun x => x ≠ 0) <$> readUInt32

/-! ## Compressed chunks -/

/-- The functions of the two compression libraries. `ZSTD_decompress` is given the
room there is for its output, `lzo1x_decompress` is not. -/
structure Compression where
  lzoCompress : Bytes → Bytes
  lzoDecompress : Bytes → Option Bytes
  zstdCompress : Bytes → Bytes
  zstdDecompress : ℕ → Bytes → Option Bytes

/-- What the code relies on: decompressing undoes compressing, and there is no data
whose compressed form is empty or longer than what the bounds passed to the
libraries allow. -/
structure Compression.Lawful (k : Compression) : Prop where
  lzo : ∀ bs, k.lzoDecompress (k.lzoCompress bs) = some bs
  lzo_pos : ∀ bs, bs ≠ [] → k.lzoCompress bs ≠ []
  lzo_bound : ∀ bs, (k.lzoCompress bs).length ≤ bs.length + bs.length / 64 + 16 + 3
  zstd : ∀ n bs, bs.length ≤ n → k.zstdDecompress n (k.zstdCompress bs) = some bs
  zstd_pos : ∀ bs, bs ≠ [] → k.zstdCompress bs ≠ []
  zstd_bound : ∀ bs, (k.zstdCompress bs).length ≤ bs.length + bs.length / 256 + 64

def cLZO : UInt32 := 0
def cZSTD : UInt32 := 1

variable (k : Compression) (protocol : ℕ)

def compressed (buf : Bytes) : Bytes :=
  if 40 ≤ protocol then k.zstdCompress buf else k.lzoCompress buf

def writecompressed (buf : Bytes) (len : ℕ) : Bytes :=
  let out := compressed k protocol (buf.take len)
  writeUInt32 (UInt32.ofNat len) ++ (writeUInt32 (UInt32.ofNat out.length) ++
    (writeSince protocol 40 (writeUInt32 cZSTD) ++ out))

/-- The decompressed data and the length reported for it: after zstd that is the
length announced, after LZO the length produced, and 0 if decompression failed. -/
def uncompress (proto : UInt32) (ulen : ℕ) (data : Bytes) : Bytes × ℕ :=
  if ulen = 0 ∨ data = [] then ([], ulen)
  else if proto = cZSTD then
    match k.zstdDecompress ulen data with
    | some buf => (buf, ulen)
    | none => ([], 0)
  else
    match k.lzoDecompress data with
    | some buf => (buf, buf.length)
    | none => ([], 0)

/-- The part of `readcompressed` behind the header. Nothing is consumed when a
check fails, and `set_error` is called. -/
def readHunk (ulen clen proto : UInt32) : Reader UInt8 FileChunkMsg := fun w =>
  if proto ≠ cLZO ∧ proto ≠ cZSTD then (⟨[], 0, clen.toNat⟩, { w with failed := true })
  else if maxMsgSize < ulen.toNat ∨ (ulen ≠ 0 ∧ clen = 0) then
    (⟨[], 0, clen.toNat⟩, { w with failed := true })
  else if w.rest.length < clen.toNat then
    (⟨[], 0, clen.toNat⟩, { w with short := true, failed := true })
  else
    let u := uncompress k proto ulen.toNat (w.rest.take clen.toNat)
    (⟨u.1, u.2, clen.toNat⟩, { w with rest := w.rest.drop clen.toNat })

def readcompressed : Reader UInt8 FileChunkMsg := do
  let ulen ← readUInt32
  let clen ← readUInt32
  let proto ← readSince protocol 40 readUInt32 cLZO
  readHunk k ulen clen proto

/-! ## What is written is read back -/

/-- A string that fits its length field and has no NUL of its own. -/
structure Plain (s : Str) : Prop where
  nul : 0 ∉ s
  fits : s.length + 1 < 2 ^ 32

theorem Plain.nil : Plain [] := ⟨List.not_mem_nil, by norm_num⟩

theorem writeUInt32_length (x : UInt32) : (writeUInt32 x).length = 4 := rfl

theorem readUInt32_writeUInt32 (x : UInt32) :
    Reader.Decodes readUInt32 (writeUInt32 x) x := by
  intro r b
  have hlen : 4 ≤ (writeUInt32 x ++ r).length := by
    simp only [List.length_append, writeUInt32_length]
    omega
  rw [readUInt32, Window.fresh, if_pos hlen, List.drop_left' (writeUInt32_length x)]
  rw [writeUInt32, Word.value_bytes, Window.fresh]

theorem stringLength_toNat {s : Str} (hs : Plain s) :
    (1 + UInt32.ofNat s.length : UInt32).toNat = s.length + 1 := by
  have hfit := hs.fits
  rw [UInt32.toNat_add, Word.ofNat_toNat_of_lt (by omega)]
  simp only [UInt32.toNat_one]
  omega

theorem writeString_eq {s : Str} (hs : Plain s) :
    writeString s = writeUInt32 (1 + UInt32.ofNat s.length) ++ (s ++ [0]) := by
  rw [writeString, stringLength_toNat hs, List.take_of_length_le]
  simp

theorem readChars_decodes {s : Str} (hs : Plain s) :
    Reader.Decodes (readChars (1 + UInt32.ofNat s.length)) (s ++ [0]) s := by
  intro r b
  have hlen := stringLength_toNat hs
  have hne : (1 + UInt32.ofNat s.length : UInt32) ≠ 0 := by
    intro h
    rw [h] at hlen
    simp at hlen
  have hroom : ¬(s ++ [0] ++ r).length < (1 + UInt32.ofNat s.length : UInt32).toNat := by
    rw [hlen]
    simp only [List.length_append, List.length_cons, List.length_nil]
    omega
  have hvalue : (s ++ [0] ++ r ++ b).takeWhile (· ≠ 0) = s := by
    have hall : ∀ c ∈ s, decide (c ≠ 0) = true := by
      intro c hc
      have : c ≠ 0 := fun h => hs.nul (h ▸ hc)
      simpa using this
    rw [List.append_assoc, List.append_assoc, List.takeWhile_append_of_pos hall]
    simp
  have hdrop : (s ++ [0] ++ r).drop (1 + UInt32.ofNat s.length : UInt32).toNat = r :=
    List.drop_left' (by simp [hlen])
  simp only [readChars, Window.fresh, if_neg hne, if_neg hroom, hdrop, hvalue]
  simp

theorem readString_writeString {s : Str} (hs : Plain s) :
    Reader.Decodes readString (writeString s) s := by
  rw [writeString_eq hs]
  exact (readUInt32_writeUInt32 _).bind (readChars_decodes hs)

theorem writeString_ne_nil (s : Str) : writeString s ≠ [] := by
  simp [writeString, writeUInt32, Word.bytes]

theorem flatMap_writeString_eq_nil {l : List Str} (h : l.flatMap writeString = []) : l = [] := by
  cases l with
  | nil => rfl
  | cons s l =>
    rw [List.flatMap_cons] at h
    exact absurd (List.append_eq_nil_iff.mp h).1 (writeString_ne_nil s)

theorem readStringsLoop_succ (n : ℕ) (w : Window UInt8) :
    readStringsLoop (n + 1) w =
      if (readString w).2.rest = [] then
        ([(readString w).1],
          { (readString w).2 with short := (readString w).2.short || n ≠ 0 })
      else
        ((readString w).1 :: (readStringsLoop n (readString w).2).1,
          (readStringsLoop n (readString w).2).2) := rfl

theorem readStringsLoop_decodes {l : List Str} (hl : ∀ s ∈ l, Plain s) :
    Reader.Decodes (readStringsLoop l.length) (l.flatMap writeString) l := by
  induction l with
  | nil => exact Reader.Decodes.pure []
  | cons s l ih =>
    have hs := readString_writeString (hl s List.mem_cons_self)
    have hrest := ih fun s hs => hl s (List.mem_cons_of_mem _ hs)
    intro r b
    have hread := hs (l.flatMap writeString ++ r) b
    rw [List.flatMap_cons, List.append_assoc, List.length_cons, readStringsLoop_succ, hread]
    by_cases he : l.flatMap writeString ++ r = []
    · obtain ⟨hl', rfl⟩ := List.append_eq_nil_iff.mp he
      obtain rfl := flatMap_writeString_eq_nil hl'
      rfl
    · have hne : (Window.fresh (l.flatMap writeString ++ r) b).rest ≠ [] := he
      simp only [if_neg hne, hrest r b]

theorem readStrings_writeStrings {l : List Str} (hl : ∀ s ∈ l, Plain s)
    (hlen : l.length < 2 ^ 32) : Reader.Decodes readStrings (writeStrings l) l := by
  refine (readUInt32_writeUInt32 _).bind ?_
  rw [Word.ofNat_toNat_of_lt hlen]
  exact readStringsLoop_decodes hl

theorem readEnvironmentsLoop_decodes {envs : Environments}
    (henvs : ∀ env ∈ envs, Plain env.1 ∧ Plain env.2) :
    Reader.Decodes (readEnvironmentsLoop envs.length)
      (envs.flatMap fun env => writeString env.1 ++ writeString env.2) envs := by
  induction envs with
  | nil => exact Reader.Decodes.pure []
  | cons env envs ih =>
    have henv := henvs env List.mem_cons_self
    have hrest := ih fun env he => henvs env (List.mem_cons_of_mem _ he)
    rw [List.flatMap_cons, List.append_assoc]
    refine (readString_writeString henv.1).bind ?_
    refine (readString_writeString henv.2).bind ?_
    exact hrest.map fun envs => env :: envs

theorem readEnvironments_writeEnvironments {envs : Environments}
    (henvs : ∀ env ∈ envs, Plain env.1 ∧ Plain env.2) (hlen : envs.length < 2 ^ 32) :
    Reader.Decodes readEnvironments (writeEnvironments envs) envs := by
  refine (readUInt32_writeUInt32 _).bind ?_
  rw [Word.ofNat_toNat_of_lt hlen]
  exact readEnvironmentsLoop_decodes henvs

theorem readBool_writeBool (x : Bool) : Reader.Decodes readBool (writeBool x) x := by
  have h := (readUInt32_writeUInt32 (if x then 1 else 0)).map fun y => decide (y ≠ 0)
  cases x <;> exact h

theorem readSince_writeSince {α : Type} {protocol x : ℕ} {rd : Reader UInt8 α} {bs : Bytes}
    {a d : α} (h : x ≤ protocol → Reader.Decodes rd bs a) :
    Reader.Decodes (readSince protocol x rd d) (writeSince protocol x bs)
      (if x ≤ protocol then a else d) :=
  Reader.Decodes.ite h

theorem compressed_bound {k : Compression} (hk : k.Lawful) (protocol : ℕ) (buf : Bytes) :
    (compressed k protocol buf).length ≤ 2 * buf.length + 64 := by
  rw [compressed]
  split
  · have := hk.zstd_bound buf
    omega
  · have := hk.lzo_bound buf
    omega

theorem compressed_ne_nil {k : Compression} (hk : k.Lawful) (protocol : ℕ) {buf : Bytes}
    (hbuf : buf ≠ []) : compressed k protocol buf ≠ [] := by
  rw [compressed]
  split
  · exact hk.zstd_pos buf hbuf
  · exact hk.lzo_pos buf hbuf

def protoOf (protocol : ℕ) : UInt32 := if 40 ≤ protocol then cZSTD else cLZO

theorem uncompress_compressed {k : Compression} (hk : k.Lawful) (protocol : ℕ) (buf : Bytes) :
    uncompress k (protoOf protocol) buf.length (compressed k protocol buf) =
      (buf, buf.length) := by
  by_cases hbuf : buf = []
  · simp [uncompress, hbuf]
  · have hcond : ¬(buf.length = 0 ∨ compressed k protocol buf = []) := by
      simp [hbuf, compressed_ne_nil hk protocol hbuf]
    rw [uncompress, if_neg hcond]
    by_cases hp : 40 ≤ protocol
    · simp [protoOf, compressed, hp, hk.zstd buf.length buf le_rfl]
    · simp [protoOf, compressed, hp, hk.lzo buf, cLZO, cZSTD]

theorem readHunk_decodes {k : Compression} (hk : k.Lawful) (protocol : ℕ) {buf : Bytes}
    (hlen : buf.length ≤ maxMsgSize) :
    Reader.Decodes (readHunk k (UInt32.ofNat buf.length)
      (UInt32.ofNat (compressed k protocol buf).length) (protoOf protocol))
      (compressed k protocol buf)
      ⟨buf, buf.length, (compressed k protocol buf).length⟩ := by
  intro r b
  have hmax : maxMsgSize = 1048576 := rfl
  have hbound := compressed_bound hk protocol buf
  have hulen : (UInt32.ofNat buf.length).toNat = buf.length :=
    Word.ofNat_toNat_of_lt (by omega)
  have hclen : (UInt32.ofNat (compressed k protocol buf).length).toNat =
      (compressed k protocol buf).length := Word.ofNat_toNat_of_lt (by omega)
  have hproto : ¬(protoOf protocol ≠ cLZO ∧ protoOf protocol ≠ cZSTD) := by
    rw [protoOf]
    split <;> simp
  have hsize : ¬(maxMsgSize < (UInt32.ofNat buf.length).toNat ∨
      (UInt32.ofNat buf.length ≠ 0 ∧ UInt32.ofNat (compressed k protocol buf).length = 0)) := by
    rintro (h | ⟨hu, hc⟩)
    · omega
    · have hbuf : buf ≠ [] := by
        rintro rfl
        exact hu rfl
      rw [← UInt32.toNat_inj, hclen] at hc
      exact compressed_ne_nil hk protocol hbuf (List.length_eq_zero_iff.mp hc)
  have hroom : ¬(compressed k protocol buf ++ r).length <
      (UInt32.ofNat (compressed k protocol buf).length).toNat := by
    rw [hclen, List.length_append]
    omega
  rw [readHunk, if_neg hproto, if_neg hsize, Window.fresh, if_neg hroom]
  simp only [hclen, hulen, List.take_left, List.drop_left, uncompress_compressed hk protocol buf,
    Window.fresh]

theorem readcompressed_writecompressed {k : Compression} (hk : k.Lawful) (protocol : ℕ)
    {buf : Bytes} (hlen : buf.length ≤ maxMsgSize) :
    Reader.Decodes (readcompressed k protocol) (writecompressed k protocol buf buf.length)
      ⟨buf, buf.length, (compressed k protocol buf).length⟩ := by
  rw [writecompressed, List.take_length]
  refine (readUInt32_writeUInt32 _).bind ?_
  refine (readUInt32_writeUInt32 _).bind ?_
  exact (readSince_writeSince fun _ => readUInt32_writeUInt32 cZSTD).bind
    (readHunk_decodes hk protocol hlen)

end Icecream.Comm
