import Icecream.Comm.Channel
import Icecream.Comm.RoundTrip

/-!
# One message through a channel

`send_msg` puts the length of the encoded message in front of it, in 32 bits. A
channel that has received such a frame returns the message, whatever has arrived
behind it, and goes on with what follows.
-/

namespace Icecream.Comm

open MsgChannel

variable (k : Compression) (protocol : ℕ)

def frame (m : Msg) : Bytes :=
  writeUInt32 (UInt32.ofNat (m.sendToChannel k protocol).length) ++ m.sendToChannel k protocol

/-- The fields can be sent, and the encoded message fits its length word. -/
structure Msg.Framed (m : Msg) : Prop where
  sendable : m.Sendable
  fits : (m.sendToChannel k protocol).length < 2 ^ 32

theorem frame_length (m : Msg) :
    (frame k protocol m).length = 4 + (m.sendToChannel k protocol).length := by
  rw [frame, List.length_append, writeUInt32_length]

theorem writeUInt32_injective {x y : UInt32} (h : writeUInt32 x = writeUInt32 y) : x = y := by
  have hx := Word.value_bytes x []
  have hy := Word.value_bytes y []
  simp only [List.append_nil] at hx hy
  rw [← hx, ← hy]
  exact congrArg Word.value h

variable {k protocol}

/-- A channel with a message, and a frame in front of what it has and will get: the
message it has is that frame. -/
theorem pending_of_ahead {ch : MsgChannel} (h : ch.Ok) (hmsg : ch.instate = .hasMsg) {m : Msg}
    (hm : m.Framed k protocol) {later tail : Bytes}
    (hahead : ch.ahead ++ later = frame k protocol m ++ tail) :
    ch.inmsglen.toNat = (m.sendToChannel k protocol).length ∧
      ∃ rest, ch.pending = m.sendToChannel k protocol ++ rest ∧ rest ++ later = tail := by
  have hword : ch.ahead = writeUInt32 ch.inmsglen ++ ch.pending := by
    rw [ahead, hmsg]
  rw [hword, frame, List.append_assoc, List.append_assoc] at hahead
  obtain ⟨hlen, hbody⟩ := List.append_inj hahead rfl
  have hn : ch.inmsglen.toNat = (m.sendToChannel k protocol).length := by
    rw [writeUInt32_injective hlen]
    exact Word.ofNat_toNat_of_lt hm.fits
  have hle := h.hasMsg hmsg
  rw [hn] at hle
  have hsplit : ch.pending = m.sendToChannel k protocol ++
      ch.pending.drop (m.sendToChannel k protocol).length := by
    have htake := congrArg (List.take (m.sendToChannel k protocol).length) hbody
    rw [List.take_append_of_le_length hle, List.take_left] at htake
    conv_lhs => rw [← List.take_append_drop (m.sendToChannel k protocol).length ch.pending]
    rw [htake]
  refine ⟨hn, _, hsplit, ?_⟩
  rw [hsplit, List.append_assoc] at hbody
  exact List.append_cancel_left hbody

/-- Taking a sent message: it comes back as the peer sees it and what follows stays. -/
theorem takeMsg_frame (hk : k.Lawful) (junk : ℕ → UInt8) {ch : MsgChannel} (h : ch.Ok)
    (hmsg : ch.instate = .hasMsg) {m : Msg} (hm : m.Framed k protocol) {later tail : Bytes}
    (hahead : ch.ahead ++ later = frame k protocol m ++ tail) (allowed : Bool) :
    (takeMsg k protocol junk (setError k protocol junk) ch allowed).1 =
        some (m.normalised protocol k) ∧
      (takeMsg k protocol junk (setError k protocol junk) ch allowed).2.Ok ∧
      (takeMsg k protocol junk (setError k protocol junk) ch allowed).2.ahead ++ later = tail ∧
      (takeMsg k protocol junk (setError k protocol junk) ch allowed).2.instate ≠ .error := by
  obtain ⟨hlen, rest, hpend, htail⟩ := pending_of_ahead h hmsg hm hahead
  have hread : readMsg k protocol ch.window =
      (some (m.normalised protocol k), Window.fresh rest (ch.inbuf.drop ch.inofs)) := by
    rw [window, hpend]
    exact readMsg_decodes protocol hk hm.sendable rest _
  have hrest : (Window.fresh rest (ch.inbuf.drop ch.inofs)).rest =
      ch.pending.drop ch.inmsglen.toNat := by
    rw [hlen, hpend, List.drop_left]
    rfl
  obtain ⟨hsome, hok, hahead', -, herr⟩ := takeMsg_accept k protocol junk
    (setError k protocol junk) h hmsg allowed hread rfl hrest
  refine ⟨hsome, hok, ?_, herr⟩
  rw [hahead']
  exact htail

variable (k protocol)

/-- Decoding at a version what was encoded at that version consumes exactly the frame,
on every channel that holds it, and yields the message up to what the version does
not carry. -/
theorem received_as_sent (hk : k.Lawful) (m : Msg) (hm : m.Framed k protocol) :
    (∀ r b, readMsg k protocol (Window.fresh (m.sendToChannel k protocol ++ r) b) =
      (some (m.normalised protocol k), Window.fresh r b)) ∧
    ∀ (junk : ℕ → UInt8) (ch : MsgChannel) (tail socket : Bytes) (reads : List ReadEvent)
      (allowed : Bool), ch.Ok → ch.instate = .hasMsg → ch.ahead = frame k protocol m ++ tail →
      (getMsg k protocol junk ch socket reads allowed).1 = some (m.normalised protocol k) ∧
      (getMsg k protocol junk ch socket reads allowed).2.1.ahead = tail ∧
      (getMsg k protocol junk ch socket reads allowed).2.1.instate ≠ .error ∧
      (getMsg k protocol junk ch socket reads allowed).2.2 = socket := by
  refine ⟨fun r b => readMsg_decodes protocol hk hm.sendable r b, ?_⟩
  intro junk ch tail socket reads allowed hok hmsg hahead
  have hget := getMsg_hasMsg k protocol junk hmsg socket reads allowed
  have hahead' : ch.ahead ++ [] = frame k protocol m ++ tail := by
    rw [List.append_nil, hahead]
  obtain ⟨hsome, -, htail, herr⟩ := takeMsg_frame hk junk hok hmsg hm hahead' allowed
  rw [hget]
  rw [List.append_nil] at htail
  exact ⟨hsome, htail, herr, rfl⟩

/-! ## Stored blocks

What the libraries make of a few bytes that cannot be compressed: zstd a single
segment with one raw block, LZO one run of literals and the end marker. -/

def Compression.stored : Compression where
  zstdCompress bs :=
    [40, 181, 47, 253, 32, UInt8.ofNat bs.length, UInt8.ofNat (8 * bs.length + 1), 0, 0] ++ bs
  zstdDecompress n data := if (data.drop 9).length ≤ n then some (data.drop 9) else none
  lzoCompress bs := [UInt8.ofNat (17 + bs.length)] ++ bs ++ [17, 0, 0]
  lzoDecompress data := some ((data.drop 1).take (data.length - 4))

theorem Compression.stored_lawful : Compression.stored.Lawful where
  lzo bs := by
    simp [Compression.stored]
  lzo_pos bs _ := by
    simp [Compression.stored]
  lzo_bound bs := by
    simp only [Compression.stored, List.length_append, List.length_cons, List.length_nil]
    omega
  zstd n bs h := by
    simp [Compression.stored, h]
  zstd_pos bs _ := by
    simp [Compression.stored]
  zstd_bound bs := by
    simp only [Compression.stored, List.length_append, List.length_cons, List.length_nil]
    omega

/-- A channel that has received the frame of `m` and nothing else. -/
def holding (m : Msg) : MsgChannel where
  inbuf := frame k protocol m
  inofs := (frame k protocol m).length
  intogo := 4
  instate := .hasMsg
  inmsglen := UInt32.ofNat (m.sendToChannel k protocol).length
  eof := false

theorem holding_pending (m : Msg) :
    (holding k protocol m).pending = m.sendToChannel k protocol := by
  have hlen := frame_length k protocol m
  change Block.slice (frame k protocol m) 4 ((frame k protocol m).length - 4) = _
  rw [Block.slice, frame, List.drop_left' (writeUInt32_length _), List.take_of_length_le]
  rw [List.length_append, writeUInt32_length]
  omega

theorem holding_ahead (m : Msg) : (holding k protocol m).ahead = frame k protocol m := by
  change writeUInt32 _ ++ (holding k protocol m).pending = _
  rw [holding_pending]
  rfl

theorem holding_ok {m : Msg} (hm : m.Framed k protocol) : (holding k protocol m).Ok where
  order := by
    change 4 ≤ (frame k protocol m).length
    rw [frame_length]
    omega
  inside := le_rfl
  needLen := nofun
  fillBuf := nofun
  hasMsg _ := by
    rw [holding_pending]
    exact (Word.ofNat_toNat_of_lt hm.fits).le

theorem received_as_sent_chunk :
    let m : Msg := .fileChunk { buffer := [1, 2, 3], len := 3 }
    readMsg Compression.stored 45 (Window.fresh (m.sendToChannel Compression.stored 45) []) =
        (some (.fileChunk { buffer := [1, 2, 3], len := 3, compressed := 12 }),
          Window.fresh [] []) ∧
      (getMsg Compression.stored 45 (fun _ => 0) (holding Compression.stored 45 m) [] []
        false).1 = some (.fileChunk { buffer := [1, 2, 3], len := 3, compressed := 12 }) := by
  have hm : Msg.Framed Compression.stored 45 (.fileChunk { buffer := [1, 2, 3], len := 3 }) :=
    ⟨⟨rfl, by decide⟩, by decide⟩
  have h := received_as_sent Compression.stored 45 Compression.stored_lawful _ hm
  have hahead := holding_ahead Compression.stored 45 (.fileChunk { buffer := [1, 2, 3], len := 3 })
  exact ⟨h.1 [] [], (h.2 (fun _ => 0) _ [] [] [] false (holding_ok _ _ hm) rfl
    (by rw [hahead, List.append_nil])).1⟩

/-! ## Where sender and receiver disagree -/

def clangJob : CompileJob := { language := langCXX, compilerName := str "clang" }

def anyHostRequest : GetCSMsg := { lang := langC, minimalHostVersion := -1 }

/-- A length that wraps to 0 is taken for the empty string. -/
theorem readString_wrapped {s : Str} (hs : s.length = 2 ^ 32 - 1) :
    Reader.Decodes readString (writeString s) [] := by
  have hlen : (1 + UInt32.ofNat s.length : UInt32) = 0 := by
    rw [hs]
    decide
  have hwrite : writeString s = writeUInt32 0 ++ [] := by
    rw [writeString, hlen]
    simp
  rw [hwrite]
  refine (readUInt32_writeUInt32 0).bind fun r b => ?_
  rw [readChars, if_pos rfl]
  rfl

/-- A message as long as its length word counts is announced as empty. -/
theorem frame_wrapped {s : Str} (hs : Plain s) (hlen : s.length = 2 ^ 32 - 9) :
    ((Msg.statusText s).sendToChannel k protocol).length = 2 ^ 32 ∧
      (frame k protocol (.statusText s)).take 4 = [0, 0, 0, 0] := by
  have hsend : (Msg.statusText s).sendToChannel k protocol =
      writeUInt32 MsgType.statusText.code ++ writeString s := rfl
  have hpayload : ((Msg.statusText s).sendToChannel k protocol).length = 2 ^ 32 := by
    rw [hsend, writeString_eq hs]
    simp only [List.length_append, writeUInt32_length, List.length_cons, List.length_nil]
    omega
  refine ⟨hpayload, ?_⟩
  rw [frame, hpayload]
  exact List.take_left' rfl

theorem readMsg_of_fill {t : MsgType} {fill : Reader UInt8 Msg} {bs : Bytes} {m : Msg}
    (hfill : fillFromChannel k protocol t = some fill) (h : Reader.Decodes fill bs m) :
    Reader.Decodes (readMsg k protocol) (writeUInt32 t.code ++ bs) (some m) := by
  refine (readUInt32_writeUInt32 _).bind ?_
  rw [MsgType.ofCode_code, Option.bind_some, hfill]
  exact h.map some

/-- Four ways in which what arrives is not what was sent: the flag a peer before
version 30 is given for clang, a negative minimal version, a string as long as its
length field counts, and a message as long as its length word counts. -/
theorem not_received_as_sent :
    (readMsg Compression.stored 21
        (Window.fresh ((Msg.compileFile clangJob).sendToChannel Compression.stored 21) [])).1 =
      some (.compileFile { clangJob with
        compilerName := [], flags := [(str "clang", .argRemote)] }) ∧
    (readMsg Compression.stored 34
        (Window.fresh ((Msg.getCS anyHostRequest).sendToChannel Compression.stored 34) [])).1 =
      some (.getCS { anyHostRequest with minimalHostVersion := 0 }) ∧
    (∀ s : Str, s = List.replicate (2 ^ 32 - 1) 65 →
      (readMsg Compression.stored 45
        (Window.fresh ((Msg.statusText s).sendToChannel Compression.stored 45) [])).1 =
      some (.statusText [])) ∧
    (∀ s : Str, s = List.replicate (2 ^ 32 - 9) 65 →
      ((Msg.statusText s).sendToChannel Compression.stored 45).length = 2 ^ 32 ∧
        (frame Compression.stored 45 (.statusText s)).take 4 = [0, 0, 0, 0]) := by
  have hclang : (Msg.compileFile clangJob).Sendable :=
    ⟨nofun, by decide, Plain.nil, Plain.nil, Plain.nil, Plain.nil, Plain.nil⟩
  have hany : (Msg.getCS anyHostRequest).Sendable :=
    ⟨nofun, by decide, Plain.nil, Plain.nil, Plain.nil⟩
  refine ⟨?_, ?_, ?_, ?_⟩
  · rw [(readMsg_decodes 21 Compression.stored_lawful hclang).alone []]
    rfl
  · rw [(readMsg_decodes 34 Compression.stored_lawful hany).alone []]
    rfl
  · intro s hs
    have hlen : s.length = 2 ^ 32 - 1 := by rw [hs, List.length_replicate]
    have hsend : (Msg.statusText s).sendToChannel Compression.stored 45 =
        writeUInt32 MsgType.statusText.code ++ writeString s := rfl
    have hread := readMsg_of_fill Compression.stored 45 (t := .statusText) rfl
      ((readString_wrapped hlen).map Msg.statusText)
    rw [hsend, hread.alone []]
  · intro s hs
    have hlen : s.length = 2 ^ 32 - 9 := by rw [hs, List.length_replicate]
    have hplain : Plain s := by
      refine ⟨fun h => ?_, by omega⟩
      rw [hs] at h
      have hzero : (0 : UInt8) = 65 := List.eq_of_mem_replicate h
      exact absurd hzero (by decide)
    exact frame_wrapped _ _ hplain hlen

end Icecream.Comm
