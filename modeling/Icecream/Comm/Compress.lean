import Icecream.Comm.Output

/-!
# Compressing into the output buffer

`writecompressed` puts a length word that it does not know yet, has the library compress right
into `msgbuf`, and writes the length over the word. Both libraries can fail.
-/

namespace Icecream.Comm

/-- The functions of the two libraries that compress. `lzo1x_1_compress` has no result where it
does not return LZO_E_OK. `ZSTD_compress` is given the room there is, and an error is a number
below the maximal error code: the `size_t` that is returned for it is its negative. -/
structure Compressor where
  lzoCompress : Bytes → Option Bytes
  zstdBound : ℕ → ℕ
  zstdCompress : ℕ → Bytes → Except ℕ Bytes

/-- What the libraries document: how much they can produce, and which results are errors. -/
structure Compressor.Documented (z : Compressor) : Prop where
  lzo : ∀ buf out, z.lzoCompress buf = some out → out.length ≤ buf.length + buf.length / 64 + 16 + 3
  bound : ∀ n, z.zstdBound n ≤ n + n / 256 + 64
  zstd : ∀ room buf out, z.zstdCompress room buf = .ok out → out.length ≤ room
  error : ∀ room buf e, z.zstdCompress room buf = .error e → 0 < e ∧ e < 120

def sizeT (n : ℕ) : ℕ := n % 2 ^ 64

namespace SendChannel

variable (z : Compressor) (protocol : ℕ) (junk : ℕ → UInt8)

def room (ch : SendChannel) (outLen : ℕ) : SendChannel :=
  { ch with
    msgbuf :=
      if ch.msgbuf.length ≤ ch.msgtogo + outLen then
        Block.enlarge junk ch.msgbuf (MsgChannel.roundUp (ch.msgtogo + outLen))
      else ch.msgbuf }

/-- The bound that room is made for -/
def outLen (inLen : ℕ) : ℕ :=
  if protocol < 40 then inLen + inLen / 64 + 16 + 3 else z.zstdBound inLen

/-- What the library puts into the buffer, and the length the code goes on with. After an error
of zstd it is set to 0, and then to the error. -/
def compress (buf : Bytes) : Bytes × ℕ :=
  if protocol < 40 then
    match z.lzoCompress buf with
    | some out => (out, out.length)
    | none => ([], 0)
  else
    match z.zstdCompress (outLen z protocol buf.length) buf with
    | .ok out => (out, out.length)
    | .error e => ([], 2 ^ 64 - e)

def writecompressed (ch : SendChannel) (buf : Bytes) : SendChannel × ℕ :=
  let ch := ch.writefull junk (writeUInt32 (UInt32.ofNat buf.length))
  let old := ch.msgtogo
  let ch := ch.writefull junk (writeUInt32 0)
  let ch := if 40 ≤ protocol then ch.writefull junk (writeUInt32 cZSTD) else ch
  let ch := ch.room junk (outLen z protocol buf.length)
  let out := compress z protocol buf
  ({ ch with
      msgbuf := Block.overwrite (Block.overwrite ch.msgbuf ch.msgtogo out.1) old
        (writeUInt32 (UInt32.ofNat out.2))
      msgtogo := sizeT (ch.msgtogo + out.2) }, out.2)

/-- The words in front of the compressed data -/
def headerLen : ℕ := if 40 ≤ protocol then 12 else 8

/-- The length word of what was appended to `ch` -/
def lengthWord (ch ch' : SendChannel) : UInt32 :=
  Word.value (Block.slice ch'.msgbuf (ch.msgtogo + 4) 4)

/-- What was buffered is still there, with as many bytes behind it as the length word says. -/
structure Appended (ch ch' : SendChannel) : Prop where
  inside : ch'.msgtogo ≤ ch'.msgbuf.length
  length : ch'.msgtogo = ch.msgtogo + headerLen protocol + (lengthWord ch ch').toNat
  earlier : Block.slice ch'.msgbuf 0 ch.msgtogo = Block.slice ch.msgbuf 0 ch.msgtogo

/-- The library does not fail, and its output fits the length word. -/
def Compresses (buf : Bytes) : Prop :=
  if protocol < 40 then ∀ out, z.lzoCompress buf = some out → out.length < 2 ^ 32
  else ∃ out, z.zstdCompress (z.zstdBound buf.length) buf = .ok out ∧ out.length < 2 ^ 32

/-! ## The bytes -/

variable {z}

theorem compress_room (hz : z.Documented) (buf : Bytes) :
    (compress z protocol buf).1.length ≤ outLen z protocol buf.length := by
  rw [compress, outLen]
  split
  · cases hout : z.lzoCompress buf with
    | none => exact Nat.zero_le _
    | some out => exact hz.lzo buf out hout
  · cases hout : z.zstdCompress (z.zstdBound buf.length) buf with
    | error e => exact Nat.zero_le _
    | ok out => exact hz.zstd _ buf out hout

theorem outLen_le (hz : z.Documented) (inLen : ℕ) :
    outLen z protocol inLen ≤ 2 * inLen + 64 := by
  have hbound := hz.bound inLen
  rw [outLen]
  split <;> omega

theorem room_filled {ch : SendChannel} (h : ch.msgtogo ≤ ch.msgbuf.length) (outLen : ℕ) :
    ch.msgtogo + outLen ≤ (ch.room junk outLen).msgbuf.length ∧
      Block.slice (ch.room junk outLen).msgbuf 0 ch.msgtogo =
        Block.slice ch.msgbuf 0 ch.msgtogo :=
  grown_block junk h

/-- `operator<<` of a word that is there from a version on -/
theorem writeSince_filled {ch : SendChannel} (h : ch.msgtogo ≤ ch.msgbuf.length) (word : UInt32) :
    let ch' := if 40 ≤ protocol then ch.writefull junk (writeUInt32 word) else ch
    ch'.msgtogo = ch.msgtogo + (writeSince protocol 40 (writeUInt32 word)).length ∧
      ch'.msgtogo ≤ ch'.msgbuf.length ∧
      Block.slice ch'.msgbuf 0 ch'.msgtogo =
        Block.slice ch.msgbuf 0 ch.msgtogo ++ writeSince protocol 40 (writeUInt32 word) := by
  intro ch'
  by_cases hsince : 40 ≤ protocol
  · have hch' : ch' = ch.writefull junk (writeUInt32 word) := if_pos hsince
    obtain ⟨hinside, hfilled⟩ := writefull_filled junk h (writeUInt32 word)
    rw [hch', writeSince, if_pos hsince]
    exact ⟨rfl, hinside, hfilled⟩
  · have hch' : ch' = ch := if_neg hsince
    rw [hch', writeSince, if_neg hsince]
    exact ⟨rfl, h, (List.append_nil _).symm⟩

theorem headerLen_eq (word : UInt32) :
    headerLen protocol = 8 + (writeSince protocol 40 (writeUInt32 word)).length := by
  rw [headerLen, writeSince]
  split
  · rfl
  · rfl

/-- What is in the block: the earlier bytes, the words and what the library has produced. -/
theorem writecompressed_filled (hz : z.Documented) {ch : SendChannel}
    (h : ch.msgtogo ≤ ch.msgbuf.length) (buf : Bytes) :
    let out := compress z protocol buf
    let ch' := (ch.writecompressed z protocol junk buf).1
    ch'.msgtogo = sizeT (ch.msgtogo + headerLen protocol + out.2) ∧
      ch.msgtogo + headerLen protocol + out.1.length ≤ ch'.msgbuf.length ∧
      Block.slice ch'.msgbuf 0 (ch.msgtogo + headerLen protocol + out.1.length) =
        Block.slice ch.msgbuf 0 ch.msgtogo ++ (writeUInt32 (UInt32.ofNat buf.length) ++
          (writeUInt32 (UInt32.ofNat out.2) ++
            (writeSince protocol 40 (writeUInt32 cZSTD) ++ out.1))) := by
  intro out ch'
  have hroom : out.1.length ≤ outLen z protocol buf.length := compress_room protocol hz buf
  obtain ⟨hfirst, hfilled₁⟩ :=
    writefull_filled junk h (writeUInt32 (UInt32.ofNat buf.length))
  set ch₁ := ch.writefull junk (writeUInt32 (UInt32.ofNat buf.length)) with hch₁
  obtain ⟨hsecond, hfilled₂⟩ := writefull_filled junk hfirst (writeUInt32 0)
  obtain ⟨htogo₃, hthird, hfilled₃⟩ := writeSince_filled protocol junk hsecond cZSTD
  set ch₂ := ch₁.writefull junk (writeUInt32 0) with hch₂
  set ch₃ := if 40 ≤ protocol then ch₂.writefull junk (writeUInt32 cZSTD) else ch₂ with hch₃
  obtain ⟨hgrown, hfilled₄⟩ := room_filled junk hthird (outLen z protocol buf.length)
  set ch₄ := ch₃.room junk (outLen z protocol buf.length) with hch₄
  have hend : ch₃.msgtogo = ch.msgtogo + headerLen protocol := by
    rw [htogo₃, headerLen_eq protocol cZSTD, ← Nat.add_assoc]
    rfl
  have hresult : ch' = { ch₄ with
      msgbuf := Block.overwrite (Block.overwrite ch₄.msgbuf ch₃.msgtogo out.1) ch₁.msgtogo
        (writeUInt32 (UInt32.ofNat out.2))
      msgtogo := sizeT (ch₃.msgtogo + out.2) } := rfl
  set earlier := Block.slice ch.msgbuf 0 ch.msgtogo with hearlier
  set inLen := writeUInt32 (UInt32.ofNat buf.length) with hinLen
  have hahead : (earlier ++ inLen).length = ch₁.msgtogo := by
    rw [List.length_append, hearlier, Block.slice_length (by omega)]
    rfl
  have hblock : (Block.overwrite ch₄.msgbuf ch₃.msgtogo out.1).length = ch₄.msgbuf.length :=
    Block.overwrite_length (by omega)
  have hdata : Block.slice (Block.overwrite ch₄.msgbuf ch₃.msgtogo out.1) 0
      (ch₃.msgtogo + out.1.length) = earlier ++ inLen ++ (writeUInt32 0 ++
        (writeSince protocol 40 (writeUInt32 cZSTD) ++ out.1)) := by
    have hover := Block.slice_overwrite ch₄.msgbuf out.1 0 ch₃.msgtogo (by omega)
    rw [Nat.zero_add] at hover
    rw [hover, hfilled₄, hfilled₃, hfilled₂, hfilled₁]
    simp only [List.append_assoc]
  have hpatched := Block.slice_patch hdata
    (show (writeUInt32 (UInt32.ofNat out.2)).length = (writeUInt32 0).length from rfl) (by omega)
  have height : ch₁.msgtogo + 4 ≤ ch₃.msgtogo := by
    rw [htogo₃]
    exact Nat.le_add_right _ _
  rw [hresult, ← hend]
  refine ⟨rfl, ?_, ?_⟩
  · change _ ≤ (Block.overwrite _ ch₁.msgtogo (writeUInt32 (UInt32.ofNat out.2))).length
    rw [Block.overwrite_length (by rw [writeUInt32_length]; omega), hblock]
    omega
  · rw [hahead] at hpatched
    rw [hpatched, List.append_assoc]

/-- The length word and the earlier bytes -/
theorem writecompressed_words (hz : z.Documented) {ch : SendChannel}
    (h : ch.msgtogo ≤ ch.msgbuf.length) (buf : Bytes) :
    lengthWord ch (ch.writecompressed z protocol junk buf).1 =
        UInt32.ofNat (compress z protocol buf).2 ∧
      Block.slice (ch.writecompressed z protocol junk buf).1.msgbuf 0 ch.msgtogo =
        Block.slice ch.msgbuf 0 ch.msgtogo := by
  obtain ⟨-, hinside, hfilled⟩ := writecompressed_filled protocol junk hz h buf
  set ch' := (ch.writecompressed z protocol junk buf).1 with hch'
  set out := compress z protocol buf with hout
  have hearlier : (Block.slice ch.msgbuf 0 ch.msgtogo).length = ch.msgtogo :=
    Block.slice_length (by omega)
  have hheader : headerLen protocol = 8 + (headerLen protocol - 8) := by
    rw [headerLen]
    split <;> rfl
  have hsplit : ch.msgtogo + headerLen protocol + out.1.length =
      ch.msgtogo + (4 + (4 + (headerLen protocol - 8 + out.1.length))) := by omega
  rw [hsplit, Block.slice_add, Nat.zero_add, Block.slice_add] at hfilled
  obtain ⟨hsame, hrest⟩ := List.append_inj hfilled
    ((Block.slice_length (by omega)).trans hearlier.symm)
  obtain ⟨-, htail⟩ := List.append_inj hrest (Block.slice_length (by omega))
  refine ⟨?_, hsame⟩
  rw [Block.slice_add] at htail
  obtain ⟨hword, -⟩ := List.append_inj htail (Block.slice_length (by omega))
  have hvalue := Word.value_bytes (UInt32.ofNat out.2) []
  rw [List.append_nil] at hvalue
  rw [lengthWord, hword, writeUInt32, hvalue]

theorem headerLen_le : headerLen protocol ≤ 12 := by
  rw [headerLen]
  split <;> decide

/-- The length gone on with is that of what was put into the buffer. -/
theorem appended_iff (hz : z.Documented) {ch : SendChannel} (h : ch.msgtogo ≤ ch.msgbuf.length)
    {buf : Bytes} (hmemory : ch.msgbuf.length + buf.length < 2 ^ 62)
    (hlen : (compress z protocol buf).2 = (compress z protocol buf).1.length) :
    Appended protocol ch (ch.writecompressed z protocol junk buf).1 ↔
      (compress z protocol buf).1.length < 2 ^ 32 := by
  obtain ⟨htogo, hinside, -⟩ := writecompressed_filled protocol junk hz h buf
  obtain ⟨hword, hearlier⟩ := writecompressed_words protocol junk hz h buf
  have hroom := compress_room protocol hz buf
  have hbound := outLen_le protocol hz buf.length
  have hheader := headerLen_le protocol
  have hsum : sizeT (ch.msgtogo + headerLen protocol + (compress z protocol buf).2) =
      ch.msgtogo + headerLen protocol + (compress z protocol buf).1.length := by
    rw [hlen, sizeT]
    exact Nat.mod_eq_of_lt (by omega)
  rw [hsum] at htogo
  rw [hlen] at hword
  constructor
  · intro happended
    have hcount := happended.length
    rw [htogo, hword, UInt32.toNat_ofNat'] at hcount
    have hmod := Nat.mod_lt (compress z protocol buf).1.length (show 0 < 2 ^ 32 by decide)
    omega
  · intro hfits
    refine ⟨?_, ?_, hearlier⟩
    · rw [htogo]
      exact hinside
    · rw [htogo, hword, Word.ofNat_toNat_of_lt hfits]

/-- Whatever the library does, the buffer is right exactly when zstd does not fail and the length
fits its word. -/
theorem writecompressed_appends_iff (hz : z.Documented) {ch : SendChannel}
    (h : ch.msgtogo ≤ ch.msgbuf.length) (buf : Bytes)
    (hmemory : ch.msgbuf.length + buf.length < 2 ^ 62) :
    Appended protocol ch (ch.writecompressed z protocol junk buf).1 ↔ Compresses z protocol buf := by
  have hgood := appended_iff protocol junk hz h hmemory
  obtain ⟨htogo, -, -⟩ := writecompressed_filled protocol junk hz h buf
  obtain ⟨hword, -⟩ := writecompressed_words protocol junk hz h buf
  by_cases hlzo : protocol < 40
  · rw [Compresses, if_pos hlzo]
    cases hout : z.lzoCompress buf with
    | some out =>
      have hcompress : compress z protocol buf = (out, out.length) := by
        simp only [compress, if_pos hlzo, hout]
      rw [hgood (by rw [hcompress]), hcompress]
      simp
    | none =>
      have hcompress : compress z protocol buf = ([], 0) := by
        simp only [compress, if_pos hlzo, hout]
      rw [hgood (by rw [hcompress]; rfl), hcompress]
      simp
  · rw [Compresses, if_neg hlzo]
    have hroom : outLen z protocol buf.length = z.zstdBound buf.length := if_neg hlzo
    cases hout : z.zstdCompress (z.zstdBound buf.length) buf with
    | ok out =>
      have hcompress : compress z protocol buf = (out, out.length) := by
        simp only [compress, if_neg hlzo, hroom, hout]
      rw [hgood (by rw [hcompress]), hcompress]
      simp
    | error e =>
      have hcompress : compress z protocol buf = ([], 2 ^ 64 - e) := by
        simp only [compress, if_neg hlzo, hroom, hout]
      obtain ⟨hpos, hmax⟩ := hz.error _ buf e hout
      constructor
      · intro happended
        -- `msgtogo` has gone back by `e`, or round the other end
        have hcount := happended.length
        rw [htogo, hword, hcompress, UInt32.toNat_ofNat', sizeT] at hcount
        dsimp only at hcount
        omega
      · intro hcompresses
        obtain ⟨out, hok, -⟩ := hcompresses
        cases hok

/-- Libraries that never fail -/
def Compressor.Succeeds (z : Compressor) (k : Compression) (buf : Bytes) : Prop :=
  z.lzoCompress buf = some (k.lzoCompress buf) ∧
    z.zstdCompress (z.zstdBound buf.length) buf = .ok (k.zstdCompress buf)

/-- What is appended when the library succeeds is the encoding that `readcompressed` decodes. -/
theorem writecompressed_encodes {k : Compression} (hz : z.Documented) {ch : SendChannel}
    (h : ch.msgtogo ≤ ch.msgbuf.length) {buf : Bytes}
    (hmemory : ch.msgbuf.length + buf.length < 2 ^ 62) (hk : Compressor.Succeeds z k buf) :
    Block.slice (ch.writecompressed z protocol junk buf).1.msgbuf 0
        (ch.writecompressed z protocol junk buf).1.msgtogo =
      Block.slice ch.msgbuf 0 ch.msgtogo ++ Comm.writecompressed k protocol buf buf.length := by
  obtain ⟨htogo, -, hfilled⟩ := writecompressed_filled protocol junk hz h buf
  have hroom := compress_room protocol hz buf
  have hbound := outLen_le protocol hz buf.length
  have hheader := headerLen_le protocol
  have hcompress : compress z protocol buf =
      (compressed k protocol buf, (compressed k protocol buf).length) := by
    by_cases hlzo : protocol < 40
    · simp only [compress, compressed, if_pos hlzo, if_neg (Nat.not_le.mpr hlzo), hk.1]
    · have hlen : outLen z protocol buf.length = z.zstdBound buf.length := if_neg hlzo
      simp only [compress, compressed, if_neg hlzo, if_pos (Nat.le_of_not_lt hlzo), hlen, hk.2]
  rw [hcompress] at htogo hfilled hroom
  have hsum : sizeT (ch.msgtogo + headerLen protocol + (compressed k protocol buf).length) =
      ch.msgtogo + headerLen protocol + (compressed k protocol buf).length := by
    dsimp only at hroom
    rw [sizeT]
    exact Nat.mod_eq_of_lt (by omega)
  dsimp only at htogo
  rw [htogo, hsum, hfilled, Comm.writecompressed, List.take_length]

/-! ## Two calls -/

/-- Stored blocks -/
def storing : Compressor where
  lzoCompress buf := some (Compression.stored.lzoCompress buf)
  zstdBound n := n + 9
  zstdCompress room buf :=
    if buf.length + 9 ≤ room then .ok (Compression.stored.zstdCompress buf) else .error 70

theorem storing_documented : storing.Documented where
  lzo buf out hout := by
    obtain rfl := Option.some.inj hout
    exact Compression.stored_lawful.lzo_bound buf
  bound n := by
    change n + 9 ≤ n + n / 256 + 64
    omega
  zstd room buf out hout := by
    simp only [storing] at hout
    split at hout
    · next hfits =>
      obtain rfl := Except.ok.inj hout
      simp only [Compression.stored, List.length_append, List.length_cons, List.length_nil]
      omega
    · cases hout
  error room buf e hout := by
    simp only [storing] at hout
    split at hout
    · cases hout
    · obtain rfl := Except.error.inj hout
      decide

/-- Nothing can be allocated. -/
def exhausted : Compressor where
  lzoCompress _ := none
  zstdBound n := n + 64
  zstdCompress _ _ := .error 64

/-- A hundred bytes wait to be sent. -/
def waiting : SendChannel := ⟨List.replicate 128 7, 0, 100, false⟩

theorem writecompressed_appends_iff_waiting :
    Appended 45 waiting (waiting.writecompressed storing 45 (fun _ => 0) [1, 2]).1 ↔
      Compresses storing 45 [1, 2] :=
  writecompressed_appends_iff 45 _ storing_documented (by decide +kernel) [1, 2] (by decide +kernel)

/-- After an error of zstd the length word is near 4 GiB, and the end of the buffer goes back into
what was waiting. -/
theorem writecompressed_retreats :
    let ch := (waiting.writecompressed exhausted 45 (fun _ => 0) [1, 2]).1
    lengthWord waiting ch = 0xffffffc0 ∧ ch.msgtogo = 48 ∧ ¬ Appended 45 waiting ch := by
  refine ⟨by decide +kernel, by decide +kernel, fun happended => ?_⟩
  exact absurd happended.length (by decide +kernel)

end SendChannel

end Icecream.Comm
