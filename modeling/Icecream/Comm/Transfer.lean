import Mathlib.Algebra.Order.BigOperators.Group.List
import Icecream.Comm.Intake

/-!
# Files sent in chunks

What `readcompressed` hands on of a chunk, and the two loops that put chunks together:
`receive_file` of the client writes them to a file, `work_it` of the daemon feeds them to the
compiler.
-/

namespace Icecream.Comm

open Connection

variable (k : Compression) (protocol : ℕ)

/-! ## One chunk -/

structure ChunkHeader where
  ulen : UInt32
  clen : UInt32
  proto : UInt32

def chunkHeader : Reader UInt8 ChunkHeader := do
  let ulen ← readUInt32
  let clen ← readUInt32
  let proto ← readSince protocol 40 readUInt32 cLZO
  pure ⟨ulen, clen, proto⟩

namespace ChunkHeader

/-- What `readcompressed` checks before it decompresses anything -/
structure Checked (h : ChunkHeader) (w : Window UInt8) : Prop where
  proto : h.proto = cLZO ∨ h.proto = cZSTD
  size : h.ulen.toNat ≤ maxMsgSize
  some : h.ulen ≠ 0 → h.clen ≠ 0
  received : h.clen.toNat ≤ w.rest.length

/-- The compressed data, as the library sees it -/
def produced (h : ChunkHeader) (w : Window UInt8) : Option Bytes :=
  if h.proto = cZSTD then k.zstdDecompress h.ulen.toNat (w.rest.take h.clen.toNat)
  else k.lzoDecompress (w.rest.take h.clen.toNat)

/-- Decompressing does not produce more than there is room for. -/
def Fits (h : ChunkHeader) (w : Window UInt8) : Prop :=
  ∀ buf, h.produced k w = some buf → buf.length ≤ h.ulen.toNat

/-- There is nothing to decompress, or all that was announced is produced. -/
def Restored (h : ChunkHeader) (w : Window UInt8) : Prop :=
  h.ulen = 0 ∨ h.Checked w ∧ (h.produced k w).map List.length = some h.ulen.toNat

/-- Decompressing fails or produces what was announced. -/
def Definite (h : ChunkHeader) (w : Window UInt8) : Prop :=
  ∀ buf, h.produced k w = some buf → buf.length = h.ulen.toNat

instance (h : ChunkHeader) (w : Window UInt8) : Decidable (h.Checked w) :=
  decidable_of_iff ((h.proto = cLZO ∨ h.proto = cZSTD) ∧ h.ulen.toNat ≤ maxMsgSize ∧
    (h.ulen ≠ 0 → h.clen ≠ 0) ∧ h.clen.toNat ≤ w.rest.length)
    ⟨fun hok => ⟨hok.1, hok.2.1, hok.2.2.1, hok.2.2.2⟩,
      fun hok => ⟨hok.proto, hok.size, hok.some, hok.received⟩⟩

instance (h : ChunkHeader) (w : Window UInt8) : Decidable (h.Restored k w) :=
  inferInstanceAs (Decidable (_ ∨ _ ∧ _))

/-- The chunk handed on has the length announced, and all of it was produced. -/
def Whole (h : ChunkHeader) (m : FileChunkMsg) : Prop :=
  m.len = h.ulen.toNat ∧ m.buffer.length = h.ulen.toNat

end ChunkHeader

theorem readcompressed_header (w : Window UInt8) :
    readcompressed k protocol w =
      readHunk k (chunkHeader protocol w).1.ulen (chunkHeader protocol w).1.clen
        (chunkHeader protocol w).1.proto (chunkHeader protocol w).2 := rfl

/-- A chunk that is not checked is handed on empty, and `set_error` has been called. -/
theorem readHunk_unchecked {h : ChunkHeader} {w : Window UInt8} (hbad : ¬ h.Checked w) :
    (readHunk k h.ulen h.clen h.proto w).1 = ⟨[], 0, h.clen.toNat⟩ ∧
      (readHunk k h.ulen h.clen h.proto w).2.failed = true := by
  rw [readHunk]
  split_ifs with hproto hsize hshort
  · exact ⟨rfl, rfl⟩
  · exact ⟨rfl, rfl⟩
  · exact ⟨rfl, rfl⟩
  · refine absurd ⟨?_, ?_, ?_, Nat.le_of_not_lt hshort⟩ hbad
    · by_contra hnone
      exact hproto ⟨fun heq => hnone (.inl heq), fun heq => hnone (.inr heq)⟩
    · exact Nat.le_of_not_lt fun hlarge => hsize (.inl hlarge)
    · exact fun hulen hclen => hsize (.inr ⟨hulen, hclen⟩)

theorem readHunk_checked {h : ChunkHeader} {w : Window UInt8} (hok : h.Checked w) :
    readHunk k h.ulen h.clen h.proto w =
      (⟨(uncompress k h.proto h.ulen.toNat (w.rest.take h.clen.toNat)).1,
        (uncompress k h.proto h.ulen.toNat (w.rest.take h.clen.toNat)).2, h.clen.toNat⟩,
        { w with rest := w.rest.drop h.clen.toNat }) := by
  have hproto : ¬ (h.proto ≠ cLZO ∧ h.proto ≠ cZSTD) :=
    fun hne => hok.proto.elim hne.1 hne.2
  have hsize : ¬ (maxMsgSize < h.ulen.toNat ∨ (h.ulen ≠ 0 ∧ h.clen = 0)) := by
    rintro (hlarge | ⟨hulen, hclen⟩)
    · exact Nat.not_lt.mpr hok.size hlarge
    · exact hok.some hulen hclen
  rw [readHunk, if_neg hproto, if_neg hsize, if_neg (Nat.not_lt.mpr hok.received)]

/-- The length handed on is the one produced, or the one announced after zstd. -/
theorem uncompress_produced {h : ChunkHeader} {w : Window UInt8} (hok : h.Checked w)
    (hulen : h.ulen ≠ 0) :
    uncompress k h.proto h.ulen.toNat (w.rest.take h.clen.toNat) =
      match h.produced k w with
      | some buf => (buf, if h.proto = cZSTD then h.ulen.toNat else buf.length)
      | none => ([], 0) := by
  have hannounced : h.ulen.toNat ≠ 0 := fun hzero => hulen (UInt32.toNat_inj.mp hzero)
  have hclen : h.clen.toNat ≠ 0 := fun hzero => hok.some hulen (UInt32.toNat_inj.mp hzero)
  have hdata : w.rest.take h.clen.toNat ≠ [] := by
    intro hnil
    have hlen := congrArg List.length hnil
    rw [List.length_take, Nat.min_eq_left hok.received] at hlen
    exact hclen hlen
  rw [uncompress, if_neg (by simp [hannounced, hdata]), ChunkHeader.produced]
  by_cases hzstd : h.proto = cZSTD
  · cases hbuf : k.zstdDecompress h.ulen.toNat (w.rest.take h.clen.toNat) <;>
      simp only [if_pos hzstd]
  · cases hbuf : k.lzoDecompress (w.rest.take h.clen.toNat) <;>
      simp only [if_neg hzstd]

theorem readHunk_whole (h : ChunkHeader) (w : Window UInt8) :
    h.Whole (readHunk k h.ulen h.clen h.proto w).1 ↔ h.Restored k w := by
  have hzero : h.ulen = 0 ↔ h.ulen.toNat = 0 := UInt32.toNat_inj.symm
  by_cases hok : h.Checked w
  · rw [readHunk_checked k hok]
    by_cases hulen : h.ulen = 0
    · have hnothing : uncompress k h.proto h.ulen.toNat (w.rest.take h.clen.toNat) =
          ([], h.ulen.toNat) := by
        rw [uncompress, if_pos (.inl (hzero.mp hulen))]
      rw [hnothing]
      exact ⟨fun _ => .inl hulen, fun _ => ⟨rfl, (hzero.mp hulen).symm⟩⟩
    · rw [uncompress_produced k hok hulen, ChunkHeader.Restored, ChunkHeader.Whole]
      cases hproduced : h.produced k w with
      | none =>
        have hannounced : h.ulen.toNat ≠ 0 := fun hz => hulen (hzero.mpr hz)
        simp [hulen, hannounced.symm]
      | some buf =>
        by_cases hzstd : h.proto = cZSTD
        · simp [hulen, hok, hzstd]
        · simp [hulen, hok, hzstd]
  · rw [(readHunk_unchecked k hok).1]
    constructor
    · intro hwhole
      exact .inl (hzero.mpr hwhole.1.symm)
    · intro hrestored
      rcases hrestored with hulen | ⟨hchecked, -⟩
      · exact ⟨(hzero.mp hulen).symm, (hzero.mp hulen).symm⟩
      · exact absurd hchecked hok

theorem chunkHeader_quiet (w : Window UInt8) : (chunkHeader protocol w).2.failed = w.failed := by
  have hwords : ∀ w : Window UInt8, (readUInt32 (readUInt32 w).2).2.failed = w.failed :=
    fun w => (readUInt32_quiet _).trans (readUInt32_quiet w)
  by_cases hproto : 40 ≤ protocol
  · have hlast : (chunkHeader protocol w).2 = (readUInt32 (readUInt32 (readUInt32 w).2).2).2 := by
      simp [chunkHeader, readSince, hproto]
    rw [hlast, readUInt32_quiet, hwords]
  · have hlast : (chunkHeader protocol w).2 = (readUInt32 (readUInt32 w).2).2 := by
      simp [chunkHeader, readSince, hproto]
    rw [hlast, hwords]

/-- A chunk is handed on whole or the channel is in ERROR, unless the chunk passes the checks and
does not decompress to what it announces. -/
theorem readcompressed_whole (w : Window UInt8) (hw : w.failed = false) :
    ((chunkHeader protocol w).1.Whole (readcompressed k protocol w).1 ∨
      (readcompressed k protocol w).2.failed = true) ↔
    ((chunkHeader protocol w).1.Checked (chunkHeader protocol w).2 →
      (chunkHeader protocol w).1.Restored k (chunkHeader protocol w).2) := by
  have hquiet := (chunkHeader_quiet protocol w).trans hw
  rw [readcompressed_header]
  generalize (chunkHeader protocol w).1 = h at *
  generalize (chunkHeader protocol w).2 = w' at *
  rw [readHunk_whole]
  by_cases hok : h.Checked w'
  · have hcalm : (readHunk k h.ulen h.clen h.proto w').2.failed = false := by
      rw [readHunk_checked k hok]
      exact hquiet
    simp [hok, hcalm]
  · simp [hok, (readHunk_unchecked k hok).2]

/-- A hunk that does not decompress is ignored: it is handed on empty. -/
theorem readHunk_ignored {h : ChunkHeader} {w : Window UInt8} (hulen : h.ulen ≠ 0)
    (hfailed : h.Checked w → h.produced k w = none) :
    (readHunk k h.ulen h.clen h.proto w).1 = ⟨[], 0, h.clen.toNat⟩ := by
  by_cases hok : h.Checked w
  · rw [readHunk_checked k hok, uncompress_produced k hok hulen, hfailed hok]
  · exact (readHunk_unchecked k hok).1

theorem ChunkHeader.Definite.restored {h : ChunkHeader} {w : Window UInt8} (hdef : h.Definite k w)
    (hrestored : ¬ h.Restored k w) : h.ulen ≠ 0 ∧ (h.Checked w → h.produced k w = none) := by
  rw [ChunkHeader.Restored, not_or] at hrestored
  refine ⟨hrestored.1, fun hok => ?_⟩
  cases hproduced : h.produced k w with
  | none => rfl
  | some buf =>
    refine absurd ⟨hok, ?_⟩ hrestored.2
    rw [hproduced, Option.map_some, hdef buf hproduced]

/-- A chunk is handed on whole, fails the channel, or is ignored. -/
theorem readcompressed_definite {w : Window UInt8}
    (hdef : (chunkHeader protocol w).1.Definite k (chunkHeader protocol w).2) :
    (chunkHeader protocol w).1.Whole (readcompressed k protocol w).1 ∨
      (readcompressed k protocol w).2.failed = true ∨
      (chunkHeader protocol w).1.produced k (chunkHeader protocol w).2 = none ∧
        (readcompressed k protocol w).1 = ⟨[], 0, (chunkHeader protocol w).1.clen.toNat⟩ := by
  rw [readcompressed_header]
  generalize (chunkHeader protocol w).1 = h at *
  generalize (chunkHeader protocol w).2 = w' at *
  by_cases hrestored : h.Restored k w'
  · exact .inl ((readHunk_whole k h w').mpr hrestored)
  · obtain ⟨hulen, hfailed⟩ := hdef.restored k hrestored
    by_cases hok : h.Checked w'
    · exact .inr (.inr ⟨hfailed hok, readHunk_ignored k hulen hfailed⟩)
    · exact .inr (.inl (readHunk_unchecked k hok).2)

/-! ## What a chunk holds -/

/-- The bytes of a chunk; `none` where nothing was written to the buffer -/
def FileChunkMsg.content (m : FileChunkMsg) : List (Option UInt8) :=
  (m.buffer.map some ++ List.replicate (m.len - m.buffer.length) none).take m.len

theorem content_length (m : FileChunkMsg) : m.content.length = m.len := by
  rw [FileChunkMsg.content, List.length_take, List.length_append, List.length_map,
    List.length_replicate]
  omega

theorem content_defined (m : FileChunkMsg) : none ∉ m.content ↔ m.len ≤ m.buffer.length := by
  constructor
  · intro hdefined
    by_contra hshort
    apply hdefined
    have hall : m.content = m.buffer.map some ++ List.replicate (m.len - m.buffer.length) none := by
      rw [FileChunkMsg.content, List.take_of_length_le]
      rw [List.length_append, List.length_map, List.length_replicate]
      omega
    rw [hall]
    exact List.mem_append_right _ (List.mem_replicate.mpr ⟨by omega, rfl⟩)
  · intro hlen hmem
    have hnone : m.len - m.buffer.length = 0 := by omega
    rw [FileChunkMsg.content, hnone, List.replicate_zero, List.append_nil] at hmem
    simpa using List.mem_of_mem_take hmem

/-- A chunk as it was received: the protocol version and what is behind the type -/
structure Chunk where
  protocol : ℕ
  body : Window UInt8

namespace Chunk

def header (c : Chunk) : ChunkHeader := (chunkHeader c.protocol c.body).1

def data (c : Chunk) : Window UInt8 := (chunkHeader c.protocol c.body).2

def message (c : Chunk) : FileChunkMsg := (readcompressed k c.protocol c.body).1

def announced (c : Chunk) : ℕ := c.header.ulen.toNat

def Restored (c : Chunk) : Prop := c.header.Restored k c.data

def Fits (c : Chunk) : Prop := c.header.Fits k c.data

def Definite (c : Chunk) : Prop := c.header.Definite k c.data

instance (c : Chunk) : Decidable (c.Restored k) :=
  inferInstanceAs (Decidable (c.header.Restored k c.data))

/-- The bytes that are handed on of `chunks` -/
def contents (chunks : List Chunk) : List (Option UInt8) :=
  chunks.flatMap fun c => (c.message k).content

/-- All the bytes that `chunks` announce, none of them undefined -/
def Complete (chunks : List Chunk) (file : List (Option UInt8)) : Prop :=
  file.length = (chunks.map announced).sum ∧ none ∉ file

theorem message_whole (c : Chunk) : c.header.Whole (c.message k) ↔ c.Restored k := by
  have hread := readHunk_whole k c.header c.data
  exact hread

/-- Nothing is handed on that was not announced. -/
theorem message_fits {c : Chunk} (h : c.Fits k) :
    (c.message k).len ≤ c.announced ∧ (c.message k).buffer.length ≤ c.announced := by
  have hmessage : c.message k =
      (readHunk k c.header.ulen c.header.clen c.header.proto c.data).1 := rfl
  rw [hmessage, announced]
  by_cases hok : c.header.Checked c.data
  · rw [readHunk_checked k hok]
    by_cases hulen : c.header.ulen = 0
    · rw [uncompress, if_pos (.inl (UInt32.toNat_inj.mpr hulen))]
      exact ⟨le_rfl, Nat.zero_le _⟩
    · rw [uncompress_produced k hok hulen]
      cases hproduced : c.header.produced k c.data with
      | none => exact ⟨Nat.zero_le _, Nat.zero_le _⟩
      | some buf =>
        have hlen := h buf hproduced
        dsimp only
        split
        · exact ⟨le_rfl, hlen⟩
        · exact ⟨hlen, hlen⟩
  · rw [(readHunk_unchecked k hok).1]
    exact ⟨Nat.zero_le _, Nat.zero_le _⟩

theorem contents_length (chunks : List Chunk) :
    (contents k chunks).length = (chunks.map fun c => (c.message k).len).sum := by
  induction chunks with
  | nil => rfl
  | cons c chunks ih =>
    rw [contents, List.flatMap_cons, List.length_append, content_length, List.map_cons,
      List.sum_cons, ← ih]
    rfl

theorem contents_defined (chunks : List Chunk) :
    none ∉ contents k chunks ↔ ∀ c ∈ chunks, (c.message k).len ≤ (c.message k).buffer.length := by
  rw [contents, List.mem_flatMap, not_exists]
  refine forall_congr' fun c => ?_
  rw [not_and, content_defined]

/-- Summands that are at most others have the same sum only if they are the same. -/
theorem lengths_sum {chunks : List Chunk}
    (hle : ∀ c ∈ chunks, (c.message k).len ≤ c.announced) :
    (chunks.map fun c => (c.message k).len).sum = (chunks.map announced).sum ↔
      ∀ c ∈ chunks, (c.message k).len = c.announced := by
  constructor
  · intro hsum c hc
    refine le_antisymm (hle c hc) (Nat.le_of_not_lt fun hlt => ?_)
    exact (List.sum_lt_sum _ _ hle ⟨c, hc, hlt⟩).ne hsum
  · intro hsame
    rw [List.map_congr_left hsame]

/-- What is put together of chunks is complete exactly when each of them is. -/
theorem complete_iff {chunks : List Chunk} (hfits : ∀ c ∈ chunks, c.Fits k) :
    Complete chunks (contents k chunks) ↔ ∀ c ∈ chunks, c.Restored k := by
  rw [Complete, contents_length, contents_defined,
    lengths_sum k fun c hc => (message_fits k (hfits c hc)).1]
  constructor
  · intro ⟨hlen, hdefined⟩ c hc
    have hbuffer := (message_fits k (hfits c hc)).2
    exact (message_whole k c).mp ⟨hlen c hc, le_antisymm hbuffer ((hlen c hc).symm.le.trans (hdefined c hc))⟩
  · intro hrestored
    have hwhole := fun c hc => (message_whole k c).mpr (hrestored c hc)
    exact ⟨fun c hc => (hwhole c hc).1, fun c hc => ((hwhole c hc).1.trans (hwhole c hc).2.symm).le⟩

theorem contents_restored {chunks : List Chunk} (hdef : ∀ c ∈ chunks, c.Definite k) :
    contents k chunks = contents k (chunks.filter fun c => c.Restored k) := by
  induction chunks with
  | nil => rfl
  | cons c chunks ih =>
    have hrest := ih fun c hc => hdef c (List.mem_cons_of_mem _ hc)
    by_cases hrestored : c.Restored k
    · rw [List.filter_cons_of_pos (by simpa using hrestored)]
      exact congrArg ((c.message k).content ++ ·) hrest
    · obtain ⟨hulen, hfailed⟩ := (hdef c List.mem_cons_self).restored k hrestored
      have hempty : c.message k = ⟨[], 0, c.header.clen.toNat⟩ := readHunk_ignored k hulen hfailed
      rw [List.filter_cons_of_neg (by simpa using hrestored), ← hrest, contents, List.flatMap_cons,
        hempty]
      rfl

/-- Of chunks that decompress or do not, those that do make up the whole. -/
theorem contents_complete {chunks : List Chunk} (hdef : ∀ c ∈ chunks, c.Definite k) :
    Complete (chunks.filter fun c => c.Restored k) (contents k chunks) := by
  have hfits : ∀ c ∈ chunks.filter fun c => c.Restored k, c.Fits k := fun c hc buf hbuf =>
    (hdef c (List.mem_of_mem_filter hc) buf hbuf).le
  rw [contents_restored k hdef, complete_iff k hfits]
  intro c hc
  simpa using (List.mem_filter.mp hc).2

end Chunk

/-! ## Chunks from a channel -/

theorem fill_type {t : MsgType} {fill : Reader UInt8 Msg}
    (h : fillFromChannel k protocol t = some fill) (w : Window UInt8) : (fill w).1.type = t := by
  cases t <;> first | cases h; done | (obtain rfl := Option.some.inj h; rfl)

theorem readMsg_chunk {w : Window UInt8} {m : FileChunkMsg}
    (h : (readMsg k protocol w).1 = some (.fileChunk m)) :
    m = (readcompressed k protocol (readUInt32 w).2).1 := by
  rw [readMsg_eq, Reader.bind_apply, readBody] at h
  cases hfill : (MsgType.ofCode (readUInt32 w).1).bind (fillFromChannel k protocol) with
  | none =>
    rw [hfill] at h
    cases h
  | some fill =>
    rw [hfill] at h
    have hread : (fill (readUInt32 w).2).1 = .fileChunk m := Option.some.inj h
    obtain ⟨t, -, ht⟩ := Option.bind_eq_some_iff.mp hfill
    have htype := fill_type k protocol ht (readUInt32 w).2
    rw [hread] at htype
    obtain rfl : MsgType.fileChunk = t := htype
    obtain rfl := Option.some.inj ht
    exact (Msg.fileChunk.inj hread).symm

namespace Connection

variable (p : Platform)

/-- The chunk that a channel with a message has, if it is one -/
def chunk (c : Connection) : Chunk := ⟨c.protocol.toNat, (readUInt32 c.ch.window).2⟩

variable {p}

theorem getMsg_chunk {onError : Connection → Connection} {c : Connection} {eofAllowed : Bool}
    {as : List Arrival} {m : FileChunkMsg}
    (h : (c.getMsg p onError eofAllowed as).1 = some (.fileChunk m)) :
    m = (c.waitForMsg p onError as).1.chunk.message p.compression := by
  have hframe : ∀ c : Connection, (c.takeFrame p onError).1 = some (.fileChunk m) →
      m = c.chunk.message p.compression := by
    intro c htake
    have hread := readMsg_chunk p.compression c.protocol.toNat (w := c.ch.window) (m := m)
    simp only [takeFrame] at htake
    split at htake
    · cases htake
    · next m' hm' =>
      obtain ⟨rfl, -⟩ := checkLength_some htake
      exact hread hm'
  simp only [getMsg] at h
  split at h
  · simp only [takeMsg] at h
    split_ifs at h
    · cases h
    · exact hframe _ h
  · cases h

end Connection

/-! ## `receive_file` -/

/-- One turn of the loop: what is read and whether `write` writes all of the chunk -/
structure Fetch where
  arrivals : List Arrival
  status : List Arrival := []
  written : Bool := true

/-- `failed` tells the number of the client's error. -/
inductive Receipt
  | waiting | failed (error : ℕ) | finished
  deriving DecidableEq

/-- `file` is what has been written, and `chunks` what it was written from. -/
structure Receiving where
  channel : Connection
  file : List (Option UInt8)
  chunks : List Chunk

def receiveFile (p : Platform) (closed renamed : Bool) : List Fetch → Receiving → Receipt × Receiving
  | [], r => (.waiting, r)
  | f :: fs, r =>
    let onError := setError p f.status
    let got := r.channel.getMsg p onError false f.arrivals
    match got.1 with
    | none => (.failed 19, { r with channel := got.2 })
    | some (.statusText _) => (.failed 23, { r with channel := got.2 })
    | some .endMsg =>
      (if closed && renamed then .finished else .failed 30, { r with channel := got.2 })
    | some (.fileChunk m) =>
      if f.written then
        receiveFile p closed renamed fs
          { channel := got.2
            file := r.file ++ m.content
            chunks := r.chunks ++ [(r.channel.waitForMsg p onError f.arrivals).1.chunk] }
      else (.failed 21, { r with channel := got.2 })
    | some _ => (.failed 20, { r with channel := got.2 })

theorem Chunk.contents_append (chunks : List Chunk) (c : Chunk) :
    Chunk.contents k (chunks ++ [c]) = Chunk.contents k chunks ++ (c.message k).content := by
  rw [contents, contents, List.flatMap_append, List.flatMap_singleton]

theorem receiveFile_contents (p : Platform) (closed renamed : Bool) (fs : List Fetch)
    {r : Receiving} (h : r.file = Chunk.contents p.compression r.chunks) :
    (receiveFile p closed renamed fs r).2.file =
      Chunk.contents p.compression (receiveFile p closed renamed fs r).2.chunks := by
  induction fs generalizing r with
  | nil => exact h
  | cons f fs ih =>
    rw [receiveFile]
    split
    · exact h
    · exact h
    · exact h
    · next m hm =>
      split
      · apply ih
        rw [Chunk.contents_append, ← getMsg_chunk hm, h]
      · exact h
    · exact h

/-! ## `work_it` -/

def exitCompilerCrashed : ℕ := 104
def exitIoError : ℕ := 107
def exitClientKilled : ℕ := 118

/-- Writing to the compiler -/
inductive StdinWrite
  | wrote (n : ℕ) | interrupted | failed

/-- What `poll` gives: whether the compiler takes input, and whether it has terminated -/
inductive Polled
  | timeout | interrupted | failed | ready (write : Option StdinWrite) (died : Bool)

structure WorkTurn where
  arrival : Arrival
  status : List Arrival := []
  polled : Polled

inductive WorkResult
  | running | failed | returned
  deriving DecidableEq

/-- The part of `work_it` that feeds the compiler. `fed` is what has been written to it, `chunks`
what that was taken from, and `lost` tells that writing has failed. -/
structure Feeding where
  client : Connection
  clientOpen : Bool
  inputComplete : Bool
  fcmsg : Option FileChunkMsg
  off : ℕ
  stdinOpen : Bool
  killed : Bool
  returnValue : ℕ
  fed : List (Option UInt8)
  chunks : List Chunk
  lost : Bool

namespace Feeding

variable (p : Platform)

def start (client : Connection) : Feeding :=
  ⟨client, true, false, none, 0, true, false, 0, [], [], false⟩

/-- The compiler is no longer needed. -/
def giveUp (s : Feeding) (returnValue : ℕ) : Feeding :=
  { s with returnValue := returnValue, clientOpen := false, killed := true, fcmsg := none }

/-- The client's next message -/
def fetch (s : Feeding) (t : WorkTurn) : Feeding :=
  if s.clientOpen ∧ s.fcmsg = none then
    let onError := setError p t.status
    let got := s.client.getMsg p onError true [t.arrival]
    let s' := { s with client := got.2 }
    match got.1 with
    | some m =>
      if s.inputComplete then s'.giveUp exitClientKilled
      else
        match m with
        | .endMsg => { s' with inputComplete := true, stdinOpen := false }
        | .fileChunk m =>
          { s' with
            fcmsg := some m
            off := 0
            chunks := s.chunks ++ [(s.client.waitForMsg p onError [t.arrival]).1.chunk] }
        | _ => { s'.giveUp exitIoError with inputComplete := true }
    | none =>
      if got.2.ch.atEof then { s'.giveUp exitIoError with inputComplete := true } else s'
  else s

/-- Input for a compiler that has closed it is thrown away. -/
def discard (s : Feeding) : Feeding := if s.stdinOpen then s else { s with fcmsg := none }

/-- Writes to the compiler; true where the loop is begun again -/
def write (s : Feeding) : Option StdinWrite → Feeding × Bool
  | none => (s, false)
  | some w =>
    match s.fcmsg, w with
    | none, _ => (s, false)
    | some _, .interrupted => (s, true)
    | some _, .failed =>
      ({ s with
        killed := true
        returnValue := if s.inputComplete then exitCompilerCrashed else s.returnValue
        fcmsg := none
        stdinOpen := false
        lost := true }, true)
    | some m, .wrote n =>
      let bytes := min n (m.len - s.off)
      let s := { s with
        fed := s.fed ++ (m.content.drop s.off).take bytes
        off := s.off + bytes }
      if s.off = m.len then
        ({ s with fcmsg := none, stdinOpen := s.stdinOpen && !s.inputComplete }, false)
      else (s, false)

/-- One turn of the loop. The death of the compiler is looked for once the input is complete. -/
def turn (s : Feeding) (t : WorkTurn) : WorkResult × Feeding :=
  let s := (s.fetch p t).discard
  match t.polled with
  | .timeout =>
    if s.inputComplete then (.failed, s)
    else (.running, { s.giveUp exitIoError with inputComplete := true })
  | .interrupted => (.running, s)
  | .failed => (.failed, s)
  | .ready w died =>
    let written := s.write w
    if written.2 then (.running, written.1)
    else if died && s.inputComplete then (.returned, written.1)
    else (.running, written.1)

def workIt : List WorkTurn → Feeding → WorkResult × Feeding
  | [], s => (.running, s)
  | t :: ts, s =>
    match s.turn p t with
    | (.running, s) => workIt ts s
    | r => r

/-! ### What the compiler is fed -/

/-- What is left of the chunk under way -/
def left (s : Feeding) : List (Option UInt8) :=
  match s.fcmsg with
  | some m => m.content.drop s.off
  | none => []

/-- The compiler has been fed all that was received, unless something has gone wrong. -/
structure Intact (s : Feeding) : Prop where
  fed : s.returnValue = 0 → s.lost = false →
    s.fed ++ s.left = Chunk.contents p.compression s.chunks
  complete : s.inputComplete = true → s.returnValue = 0 → s.fcmsg = none
  closed : s.stdinOpen = false → s.lost = true ∨ s.inputComplete = true

variable {p}

theorem start_intact (client : Connection) : (start client).Intact p where
  fed _ _ := rfl
  complete h := by cases h
  closed h := by cases h

theorem giveUp_intact {s : Feeding} (h : s.Intact p) {returnValue : ℕ} (hvalue : returnValue ≠ 0) :
    Intact p { s.giveUp returnValue with inputComplete := true } ∧
      Intact p (s.giveUp returnValue) :=
  ⟨⟨fun hzero => absurd hzero hvalue, fun _ _ => rfl, fun _ => .inr rfl⟩,
    ⟨fun hzero => absurd hzero hvalue, fun _ _ => rfl, h.closed⟩⟩

theorem fetch_intact {s : Feeding} (h : s.Intact p) (t : WorkTurn) : (s.fetch p t).Intact p := by
  rw [fetch]
  split
  · next hready =>
    obtain ⟨-, hnone⟩ := hready
    have hclient : ∀ client, Intact p { s with client := client } :=
      fun _ => ⟨h.fed, h.complete, h.closed⟩
    have hfed : s.returnValue = 0 → s.lost = false →
        s.fed = Chunk.contents p.compression s.chunks := by
      intro hvalue hlost
      have hall := h.fed hvalue hlost
      rwa [left, hnone, List.append_nil] at hall
    dsimp only
    split
    · next m hm =>
      split
      · exact (giveUp_intact (hclient _) (by decide)).2
      · next hincomplete =>
        split
        · refine ⟨fun hvalue hlost => ?_, fun _ _ => hnone, fun _ => .inr rfl⟩
          have hleft : left { s with
              client := (s.client.getMsg p (setError p t.status) true [t.arrival]).2
              inputComplete := true, stdinOpen := false } = [] := by
            simp only [left, hnone]
          rw [hleft, List.append_nil]
          exact hfed hvalue hlost
        · refine ⟨fun hvalue hlost => ?_, fun hcomplete => absurd hcomplete hincomplete, h.closed⟩
          rw [Chunk.contents_append, ← getMsg_chunk hm]
          exact congrArg (· ++ _) (hfed hvalue hlost)
        · exact (giveUp_intact (hclient _) (by decide)).1
    · split
      · exact (giveUp_intact (hclient _) (by decide)).1
      · exact hclient _
  · exact h

theorem discard_intact {s : Feeding} (h : s.Intact p) : s.discard.Intact p := by
  rw [discard]
  split
  · exact h
  · next hclosed =>
    have hstdin : s.stdinOpen = false := by simpa using hclosed
    refine ⟨fun hvalue hlost => ?_, fun _ _ => rfl, h.closed⟩
    have hcomplete : s.inputComplete = true :=
      (h.closed hstdin).resolve_left (by simp [show s.lost = false from hlost])
    have hall := h.fed hvalue hlost
    rw [left, h.complete hcomplete hvalue] at hall
    exact hall

theorem write_intact {s : Feeding} (h : s.Intact p) (w : Option StdinWrite) :
    (s.write w).1.Intact p := by
  cases w with
  | none => exact h
  | some w =>
    cases hchunk : s.fcmsg with
    | none =>
      simp only [write, hchunk]
      exact h
    | some m =>
      cases w with
      | interrupted =>
        simp only [write, hchunk]
        exact h
      | failed =>
        simp only [write, hchunk]
        exact ⟨fun _ hlost => (nomatch hlost), fun _ _ => rfl, fun _ => .inl rfl⟩
      | wrote n =>
        simp only [write, hchunk]
        set bytes := min n (m.len - s.off) with hbytes
        have hsplit : s.returnValue = 0 → s.lost = false →
            s.fed ++ (m.content.drop s.off).take bytes ++ m.content.drop (s.off + bytes) =
              Chunk.contents p.compression s.chunks := by
          intro hvalue hlost
          have hall := h.fed hvalue hlost
          rw [left, hchunk] at hall
          rw [List.append_assoc, ← List.drop_drop, List.take_append_drop]
          exact hall
        split
        · next hall =>
          refine ⟨fun hvalue hlost => ?_, fun _ _ => rfl, fun hclosed => ?_⟩
          · have hrest := hsplit hvalue hlost
            rw [hall, List.drop_of_length_le (content_length m).le] at hrest
            exact hrest
          · have hstdin : (s.stdinOpen && !s.inputComplete) = false := hclosed
            rcases Bool.and_eq_false_iff.mp hstdin with hopen | hcomplete
            · exact h.closed hopen
            · exact .inr (by simpa using hcomplete)
        · refine ⟨fun hvalue hlost => ?_, fun hcomplete hvalue => ?_, h.closed⟩
          · exact hsplit hvalue hlost
          · have hnone := h.complete hcomplete hvalue
            rw [hchunk] at hnone
            cases hnone

theorem write_complete (s : Feeding) (w : Option StdinWrite) :
    (s.write w).1.inputComplete = s.inputComplete := by
  cases w with
  | none => rfl
  | some w =>
    cases hchunk : s.fcmsg with
    | none => simp only [write, hchunk]
    | some m =>
      cases w with
      | interrupted => simp only [write, hchunk]
      | failed => simp only [write, hchunk]
      | wrote n =>
        simp only [write, hchunk]
        split <;> rfl

theorem turn_intact {s : Feeding} (h : s.Intact p) (t : WorkTurn) :
    (s.turn p t).2.Intact p ∧
      ((s.turn p t).1 = .returned → (s.turn p t).2.inputComplete = true) := by
  have hready := discard_intact (fetch_intact h t)
  rw [turn]
  generalize (s.fetch p t).discard = s at hready
  dsimp only
  split
  · split
    · exact ⟨hready, nofun⟩
    · exact ⟨(giveUp_intact hready (by decide)).1, nofun⟩
  · exact ⟨hready, nofun⟩
  · exact ⟨hready, nofun⟩
  · next w died _ =>
    have hwritten := write_intact hready w
    split_ifs with hagain hdied
    · exact ⟨hwritten, nofun⟩
    · refine ⟨hwritten, fun _ => ?_⟩
      rw [write_complete]
      exact (Bool.and_eq_true_iff.mp hdied).2
    · exact ⟨hwritten, nofun⟩

theorem workIt_intact (ts : List WorkTurn) {s : Feeding} (h : s.Intact p) :
    (workIt p ts s).2.Intact p ∧
      ((workIt p ts s).1 = .returned → (workIt p ts s).2.inputComplete = true) := by
  induction ts generalizing s with
  | nil => exact ⟨h, nofun⟩
  | cons t ts ih =>
    have hturn := turn_intact h t
    rw [workIt]
    split
    · next s' heq =>
      rw [heq] at hturn
      exact ih hturn.1
    · exact hturn

/-- A compiler that `work_it` returns from without an error was fed all that was received. -/
theorem workIt_contents {ts : List WorkTurn} {client : Connection} {s : Feeding}
    (hrun : workIt p ts (start client) = (.returned, s)) (hvalue : s.returnValue = 0)
    (hlost : s.lost = false) : s.fed = Chunk.contents p.compression s.chunks := by
  have hintact := workIt_intact ts (start_intact (p := p) client)
  rw [hrun] at hintact
  obtain ⟨hend, hcomplete⟩ := hintact
  have hall := hend.fed hvalue hlost
  rwa [left, hend.complete (hcomplete rfl) hvalue, List.append_nil] at hall

end Feeding

/-! ## Files in chunks -/

/-- A chunk is handed on whole or fails the channel, unless it passes the checks and does not
decompress to what it announces; and a file that is put together without an error is complete
exactly when each of its chunks decompresses to what it announces. -/
theorem chunks_whole_iff (p : Platform) :
    (∀ protocol w, w.failed = false →
      (((chunkHeader protocol w).1.Whole (readcompressed p.compression protocol w).1 ∨
        (readcompressed p.compression protocol w).2.failed = true) ↔
      ((chunkHeader protocol w).1.Checked (chunkHeader protocol w).2 →
        (chunkHeader protocol w).1.Restored p.compression (chunkHeader protocol w).2))) ∧
    (∀ closed renamed fs channel r,
      receiveFile p closed renamed fs ⟨channel, [], []⟩ = (.finished, r) →
      (∀ c ∈ r.chunks, c.Fits p.compression) →
      (Chunk.Complete r.chunks r.file ↔ ∀ c ∈ r.chunks, c.Restored p.compression)) ∧
    ∀ ts client s, Feeding.workIt p ts (Feeding.start client) = (.returned, s) →
      s.returnValue = 0 → s.lost = false → (∀ c ∈ s.chunks, c.Fits p.compression) →
      (Chunk.Complete s.chunks s.fed ↔ ∀ c ∈ s.chunks, c.Restored p.compression) := by
  refine ⟨fun protocol w hw => readcompressed_whole p.compression protocol w hw,
    fun closed renamed fs channel r hrun hfits => ?_, fun ts client s hrun hvalue hlost hfits => ?_⟩
  · have hfile := receiveFile_contents p closed renamed fs (r := ⟨channel, [], []⟩) rfl
    rw [hrun] at hfile
    rw [hfile]
    exact Chunk.complete_iff p.compression hfits
  · rw [Feeding.workIt_contents hrun hvalue hlost]
    exact Chunk.complete_iff p.compression hfits

/-- The frame of a chunk that announces `ulen` bytes and holds two, and the end of the file -/
def twoBytes (ulen : UInt32) : Bytes :=
  [27, MsgType.fileChunk.code, ulen, 11, cZSTD].flatMap Word.bytes ++
    Compression.stored.zstdCompress [1, 2] ++ [4, MsgType.endMsg.code].flatMap Word.bytes

/-- The two messages arrive at once, and the setup before them. -/
def receiving (bytes : Bytes) : Receipt × Receiving :=
  receiveFile plain true true [{ arrivals := [⟨.data bytes, []⟩] }, { arrivals := [] }]
    ⟨(agreed.perform plain setup).1, [], []⟩

-- one that announces four is filled up with what was in the buffer
example : (receiving (twoBytes 4)).2.file = [some 1, some 2, none, none] := by decide +kernel

end Icecream.Comm
