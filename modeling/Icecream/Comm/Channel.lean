import Icecream.Library.Block
import Icecream.Comm.Codec

/-!
# The receiving half of a channel

`MsgChannel` after the protocol setup, on a binary channel: `read_a_bit`,
`update_state`, `chop_input`, `get_msg` and `set_error`. The block `inbuf` has
`inbuflen` cells, those from `intogo` up to `inofs` hold received data that no
message has consumed yet, and the cells behind keep what was there before.
-/

namespace Icecream.Comm

inductive InState
  | needLen | fillBuf | hasMsg | error
  deriving DecidableEq, Repr

structure MsgChannel where
  inbuf : Bytes
  inofs : ℕ
  intogo : ℕ
  instate : InState
  inmsglen : UInt32
  eof : Bool
  deriving DecidableEq, Repr

/-- What one call of `read` does: up to `n` bytes arrive, the end is seen, or it fails.
Nothing arrives where it would block. -/
inductive ReadEvent
  | arrive (n : ℕ) | eof | failure
  deriving DecidableEq, Repr

namespace MsgChannel

variable (k : Compression) (protocol : ℕ) (junk : ℕ → UInt8)

def hasMsg (ch : MsgChannel) : Bool := ch.eof || ch.instate = .hasMsg

def atEof (ch : MsgChannel) : Bool := ch.instate ≠ .hasMsg && ch.eof

def pending (ch : MsgChannel) : Bytes := Block.slice ch.inbuf ch.intogo (ch.inofs - ch.intogo)

def window (ch : MsgChannel) : Window UInt8 := Window.fresh ch.pending (ch.inbuf.drop ch.inofs)

def chopInput (ch : MsgChannel) : MsgChannel :=
  if 8192 < ch.intogo ∨ ch.inofs - ch.intogo ≤ 16 then
    { ch with
      inbuf := Block.overwrite ch.inbuf 0 ch.pending
      inofs := ch.inofs - ch.intogo
      intogo := 0 }
  else ch

/-- Buffers grow to multiples of 128. -/
def roundUp (n : ℕ) : ℕ := (n + 127) / 128 * 128

theorem roundUp_le (n : ℕ) : roundUp n ≤ n + 127 := Nat.div_mul_le_self _ _

theorem le_roundUp (n : ℕ) : n ≤ roundUp n := by
  rw [roundUp]
  omega

def fillBuf (ch : MsgChannel) : MsgChannel :=
  if ch.inmsglen.toNat ≤ ch.inofs - ch.intogo then { ch with instate := .hasMsg } else ch

def needLen (ch : MsgChannel) : MsgChannel :=
  if 4 ≤ ch.inofs - ch.intogo then
    let len := Word.value ch.pending
    let intogo := ch.intogo + 4
    fillBuf
      { ch with
        intogo := intogo
        inmsglen := len
        inbuf :=
          if ch.inbuf.length - intogo < len.toNat then
            Block.enlarge junk ch.inbuf (roundUp (len.toNat + intogo))
          else ch.inbuf
        instate := .fillBuf }
  else ch

/-- Returns false in state ERROR only, which `instate` tells as well. -/
def updateState (ch : MsgChannel) : MsgChannel :=
  match ch.instate with
  | .needLen => ch.needLen junk
  | .fillBuf => ch.fillBuf
  | .hasMsg => ch
  | .error => ch

def quietError (ch : MsgChannel) : MsgChannel :=
  if ch.instate = .error then ch else { ch with instate := .error, eof := true }

/-- `get_msg` once `wait_for_msg` has succeeded. -/
def takeMsg (setError : MsgChannel → MsgChannel) (ch : MsgChannel) (eofAllowed : Bool) :
    Option Msg × MsgChannel :=
  if ch.atEof then (none, if eofAllowed then ch else setError ch)
  else if !ch.hasMsg then (none, setError ch)
  else
    let r := readMsg k protocol ch.window
    let ch' : MsgChannel := { ch with intogo := ch.inofs - r.2.rest.length }
    match r.1 with
    | none => (none, setError ch')
    | some m =>
      -- `set_error` was called while the message was filled
      let ch' := if r.2.failed then setError ch' else ch'
      if ch'.intogo - ch.intogo ≠ ch'.inmsglen.toNat then (none, setError ch')
      else (some m, updateState junk { ch' with instate := .needLen })

/-- `set_error` looks for a last status message first; a nested call does not. -/
def setError (ch : MsgChannel) : MsgChannel :=
  if ch.instate = .error then ch
  else
    let ch := if ch.hasMsg then (takeMsg k protocol junk quietError ch true).2 else ch
    { ch with instate := .error, eof := true }

def makeRoom (ch : MsgChannel) : MsgChannel :=
  let ch := ch.chopInput
  if ch.inbuf.length - ch.inofs < 128 then
    { ch with inbuf := Block.enlarge junk ch.inbuf (roundUp (ch.inbuf.length + 128)) }
  else ch

/-- `read_a_bit` with the bytes that have arrived at the socket; what it leaves there
is returned. A failed read ends in ERROR, where the buffer is not looked at again. -/
def readABit (ch : MsgChannel) (e : ReadEvent) (socket : Bytes) : MsgChannel × Bytes :=
  let ch := ch.makeRoom junk
  if ch.eof then (updateState junk ch, socket)
  else match e with
    | .arrive n =>
      let data := socket.take (min n (ch.inbuf.length - ch.inofs))
      (updateState junk
        { ch with
          inbuf := Block.overwrite ch.inbuf ch.inofs data
          inofs := ch.inofs + data.length },
        socket.drop data.length)
    | .eof => (updateState junk { ch with eof := true }, socket)
    | .failure => (quietError (updateState junk ch), socket)

/-- `wait_for_msg`: one read, and more of them while `poll` reports data. -/
def waitForMsg (ch : MsgChannel) (socket : Bytes) : List ReadEvent → MsgChannel × Bytes
  | [] => (ch, socket)
  | e :: es =>
    if ch.instate = .error ∨ ch.hasMsg then (ch, socket)
    else
      let r := readABit junk ch e socket
      waitForMsg r.1 r.2 es

/-- A channel without a message is read at least once. -/
def atLeastOne (reads : List ReadEvent) : List ReadEvent :=
  if reads = [] then [.arrive 0] else reads

/-- `get_msg` with the reads it makes while it waits. -/
def getMsg (ch : MsgChannel) (socket : Bytes) (reads : List ReadEvent) (eofAllowed : Bool) :
    Option Msg × MsgChannel × Bytes :=
  let r := waitForMsg junk ch socket (atLeastOne reads)
  if r.1.instate = .error ∨ !r.1.hasMsg then (none, r)
  else
    let t := takeMsg k protocol junk (setError k protocol junk) r.1 eofAllowed
    (t.1, t.2, r.2)

/-! ## Cursors -/

/-- The cursors are in order and inside the block. -/
structure Cursors (ch : MsgChannel) : Prop where
  order : ch.intogo ≤ ch.inofs
  inside : ch.inofs ≤ ch.inbuf.length

/-- The state is what `update_state` makes of the data there is. -/
structure Ok (ch : MsgChannel) : Prop extends Cursors ch where
  needLen : ch.instate = .needLen → ch.pending.length < 4
  fillBuf : ch.instate = .fillBuf → ch.pending.length < ch.inmsglen.toNat
  hasMsg : ch.instate = .hasMsg → ch.inmsglen.toNat ≤ ch.pending.length

/-- Received data with the length word of the message under way put back in front. -/
def ahead (ch : MsgChannel) : Bytes :=
  match ch.instate with
  | .fillBuf | .hasMsg => writeUInt32 ch.inmsglen ++ ch.pending
  | _ => ch.pending

theorem Cursors.pending_length {ch : MsgChannel} (h : ch.Cursors) :
    ch.pending.length = ch.inofs - ch.intogo :=
  Block.slice_length (by have := h.order; have := h.inside; omega)

/-- The same data and state in another place of the block, or in another block. -/
structure Moved (ch ch' : MsgChannel) : Prop where
  cursors : ch'.Cursors
  pending : ch'.pending = ch.pending
  instate : ch'.instate = ch.instate
  inmsglen : ch'.inmsglen = ch.inmsglen
  eof : ch'.eof = ch.eof

theorem chopInput_moved {ch : MsgChannel} (h : ch.Cursors) : Moved ch ch.chopInput := by
  have hlen := h.pending_length
  have hord := h.order
  have hin := h.inside
  rw [chopInput]
  split
  · have hmove : Block.slice (Block.overwrite ch.inbuf 0 ch.pending) 0 ch.pending.length =
        ch.pending := Block.slice_overwrite_zero (by omega)
    have hblock : (Block.overwrite ch.inbuf 0 ch.pending).length = ch.inbuf.length :=
      Block.overwrite_length (by omega)
    rw [hlen] at hmove
    refine ⟨⟨Nat.zero_le _, ?_⟩, hmove, rfl, rfl, rfl⟩
    rw [hblock]
    exact (Nat.sub_le _ _).trans hin
  · exact ⟨h, rfl, rfl, rfl, rfl⟩

theorem enlarge_moved {ch : MsgChannel} (h : ch.Cursors) (n : ℕ) :
    Moved ch { ch with inbuf := Block.enlarge junk ch.inbuf n } := by
  have hord := h.order
  have hin := h.inside
  have hslice : Block.slice (Block.enlarge junk ch.inbuf n) ch.intogo (ch.inofs - ch.intogo) =
      ch.pending := Block.slice_enlarge junk n (by omega)
  refine ⟨⟨hord, ?_⟩, hslice, rfl, rfl, rfl⟩
  rw [Block.enlarge_length]
  exact hin.trans (le_max_left _ _)

theorem Moved.trans {ch ch' ch'' : MsgChannel} (h : Moved ch ch') (h' : Moved ch' ch'') :
    Moved ch ch'' :=
  ⟨h'.cursors, h'.pending.trans h.pending, h'.instate.trans h.instate,
    h'.inmsglen.trans h.inmsglen, h'.eof.trans h.eof⟩

theorem Moved.ahead {ch ch' : MsgChannel} (h : Moved ch ch') : ch'.ahead = ch.ahead := by
  rw [MsgChannel.ahead, MsgChannel.ahead, h.instate, h.pending, h.inmsglen]

/-! ## `update_state` -/

/-- Everything `update_state` needs to know about a channel. -/
structure Filled (ch : MsgChannel) : Prop extends Cursors ch where
  hasMsg : ch.instate = .hasMsg → ch.inmsglen.toNat ≤ ch.pending.length

theorem Ok.filled {ch : MsgChannel} (h : ch.Ok) : ch.Filled := ⟨h.toCursors, h.hasMsg⟩

theorem fillBuf_spec {ch : MsgChannel} (h : ch.Cursors) (hs : ch.instate = .fillBuf) :
    ch.fillBuf.Ok ∧ ch.fillBuf.ahead = ch.ahead ∧ ch.fillBuf.eof = ch.eof ∧
      ch.fillBuf.instate ≠ .error := by
  have hlen := h.pending_length
  rw [fillBuf]
  split
  · refine ⟨⟨⟨h.order, h.inside⟩, ?_, ?_, fun _ => ?_⟩, ?_, rfl, ?_⟩
    · intro h'
      cases h'
    · intro h'
      cases h'
    · change ch.inmsglen.toNat ≤ ch.pending.length
      omega
    · simp only [ahead, hs, pending]
    · intro h'
      cases h'
  · refine ⟨⟨h, ?_, fun _ => by omega, ?_⟩, rfl, rfl, ?_⟩
    · intro h'
      rw [hs] at h'
      cases h'
    · intro h'
      rw [hs] at h'
      cases h'
    · rw [hs]
      exact nofun

theorem needLen_spec {ch : MsgChannel} (h : ch.Cursors) (hs : ch.instate = .needLen) :
    (ch.needLen junk).Ok ∧ (ch.needLen junk).ahead = ch.ahead ∧ (ch.needLen junk).eof = ch.eof ∧
      (ch.needLen junk).instate ≠ .error := by
  have hlen := h.pending_length
  have hord := h.order
  have hin := h.inside
  rw [needLen]
  split
  next hfour =>
    set len := Word.value ch.pending with hlenw
    set taken : MsgChannel :=
      { ch with intogo := ch.intogo + 4, inmsglen := len, instate := .fillBuf } with htaken
    have hcur : taken.Cursors := ⟨by change ch.intogo + 4 ≤ ch.inofs; omega, hin⟩
    have hpend : taken.pending = ch.pending.drop 4 := by
      have hn : ch.inofs - ch.intogo = 4 + (ch.inofs - (ch.intogo + 4)) := by omega
      rw [pending, pending, hn, Block.drop_slice]
    have hahead : taken.ahead = ch.ahead := by
      have hword : writeUInt32 len = ch.pending.take 4 := by
        have htake : (ch.pending.take 4).length = 4 := by
          rw [List.length_take]
          omega
        rw [writeUInt32, hlenw, ← List.take_append_drop 4 ch.pending,
          Word.value_append (by omega), Word.bytes_value htake, List.take_append_drop]
      rw [ahead, ahead, hs]
      change writeUInt32 len ++ taken.pending = ch.pending
      rw [hpend, hword, List.take_append_drop]
    have hgrow : ∀ block : Bytes,
        (if ch.inbuf.length - (ch.intogo + 4) < len.toNat then
          Block.enlarge junk ch.inbuf (roundUp (len.toNat + (ch.intogo + 4)))
          else ch.inbuf) = block → Moved taken { taken with inbuf := block } := by
      rintro block rfl
      split
      · exact enlarge_moved junk hcur _
      · exact ⟨hcur, rfl, rfl, rfl, rfl⟩
    have hmoved := hgrow _ rfl
    obtain ⟨hok, ha, he, hne⟩ := fillBuf_spec hmoved.cursors hmoved.instate
    exact ⟨hok, ha.trans (hmoved.ahead.trans hahead), he.trans hmoved.eof, hne⟩
  next hfour =>
    refine ⟨⟨h, fun _ => by omega, ?_, ?_⟩, rfl, rfl, ?_⟩
    · intro h'
      rw [hs] at h'
      cases h'
    · intro h'
      rw [hs] at h'
      cases h'
    · rw [hs]
      simp

/-- `update_state` loses nothing and brings the state up to date. -/
theorem updateState_spec {ch : MsgChannel} (h : ch.Filled) :
    (updateState junk ch).Ok ∧ (updateState junk ch).ahead = ch.ahead ∧
      (updateState junk ch).eof = ch.eof ∧
      ((updateState junk ch).instate = .error ↔ ch.instate = .error) := by
  rw [updateState]
  cases hs : ch.instate with
  | needLen =>
    obtain ⟨hok, ha, he, hne⟩ := needLen_spec junk h.toCursors hs
    exact ⟨hok, ha, he, by simp [hne]⟩
  | fillBuf =>
    obtain ⟨hok, ha, he, hne⟩ := fillBuf_spec h.toCursors hs
    exact ⟨hok, ha, he, by simp [hne]⟩
  | hasMsg => exact ⟨⟨h.toCursors, by simp [hs], by simp [hs], h.hasMsg⟩, rfl, rfl, by simp [hs]⟩
  | error => exact ⟨⟨h.toCursors, by simp [hs], by simp [hs], by simp [hs]⟩, rfl, rfl, by simp [hs]⟩

/-! ## Reading -/

/-- Data that arrives is put behind the data there is. -/
theorem arrive_pending {ch : MsgChannel} (h : ch.Cursors) {data : Bytes}
    (hroom : ch.inofs + data.length ≤ ch.inbuf.length) :
    pending { ch with
      inbuf := Block.overwrite ch.inbuf ch.inofs data
      inofs := ch.inofs + data.length } = ch.pending ++ data := by
  have hord := h.order
  have hover := Block.slice_overwrite ch.inbuf data ch.intogo (ch.inofs - ch.intogo) (by omega)
  have hofs : ch.intogo + (ch.inofs - ch.intogo) = ch.inofs := by omega
  have hcount : ch.inofs + data.length - ch.intogo = ch.inofs - ch.intogo + data.length := by omega
  rw [hofs] at hover
  change Block.slice (Block.overwrite ch.inbuf ch.inofs data) ch.intogo
    (ch.inofs + data.length - ch.intogo) = ch.pending ++ data
  rw [hcount, hover, pending]

theorem arrive_filled {ch : MsgChannel} (h : ch.Ok) {data : Bytes}
    (hroom : ch.inofs + data.length ≤ ch.inbuf.length) :
    Filled { ch with
      inbuf := Block.overwrite ch.inbuf ch.inofs data
      inofs := ch.inofs + data.length } ∧
    ahead { ch with
      inbuf := Block.overwrite ch.inbuf ch.inofs data
      inofs := ch.inofs + data.length } = ch.ahead ++ data := by
  have hord := h.order
  have hpend := arrive_pending h.toCursors hroom
  set ch' : MsgChannel := { ch with
    inbuf := Block.overwrite ch.inbuf ch.inofs data, inofs := ch.inofs + data.length } with hch'
  constructor
  · refine ⟨⟨?_, ?_⟩, ?_⟩
    · change ch.intogo ≤ ch.inofs + data.length
      omega
    · change ch.inofs + data.length ≤ (Block.overwrite ch.inbuf ch.inofs data).length
      rw [Block.overwrite_length hroom]
      exact hroom
    · intro hs
      rw [hpend, List.length_append]
      exact (h.hasMsg hs).trans (Nat.le_add_right _ _)
  · rw [ahead, ahead, hpend]
    cases ch.instate <;> simp [hch']

theorem Moved.ok {ch ch' : MsgChannel} (h : Moved ch ch') (hok : ch.Ok) : ch'.Ok where
  toCursors := h.cursors
  needLen hs := by
    rw [h.pending]
    exact hok.needLen (h.instate ▸ hs)
  fillBuf hs := by
    rw [h.pending, h.inmsglen]
    exact hok.fillBuf (h.instate ▸ hs)
  hasMsg hs := by
    rw [h.pending, h.inmsglen]
    exact hok.hasMsg (h.instate ▸ hs)

theorem quietError_ok {ch : MsgChannel} (h : ch.Ok) : ch.quietError.Ok := by
  rw [quietError]
  split
  · exact h
  · exact ⟨⟨h.order, h.inside⟩, nofun, nofun, nofun⟩

theorem quietError_instate (ch : MsgChannel) : ch.quietError.instate = .error := by
  rw [quietError]
  split
  · assumption
  · rfl

/-- What a step on the receiving side that consumes no message does: unless the
channel fails, the data ahead and the data at the socket are the same together. -/
structure Received (ch : MsgChannel) (socket : Bytes) (r : MsgChannel × Bytes) : Prop where
  ok : r.1.Ok
  conserved : r.1.instate ≠ .error → r.1.ahead ++ r.2 = ch.ahead ++ socket

theorem makeRoom_moved {ch : MsgChannel} (h : ch.Cursors) : Moved ch (ch.makeRoom junk) := by
  have hchop := chopInput_moved h
  rw [makeRoom]
  split
  · exact hchop.trans (enlarge_moved junk hchop.cursors _)
  · exact hchop

theorem readABit_received {ch : MsgChannel} (h : ch.Ok) (e : ReadEvent) (socket : Bytes) :
    Received ch socket (readABit junk ch e socket) := by
  have hmoved := makeRoom_moved junk h.toCursors
  unfold readABit
  generalize ch.makeRoom junk = ch' at hmoved ⊢
  have hok := hmoved.ok h
  have hupdate := updateState_spec junk ⟨hok.toCursors, hok.hasMsg⟩
  dsimp only
  split
  · exact ⟨hupdate.1, fun _ => by rw [hupdate.2.1, hmoved.ahead]⟩
  · cases e with
    | arrive n =>
      have hroom : ch'.inofs + (socket.take (min n (ch'.inbuf.length - ch'.inofs))).length ≤
          ch'.inbuf.length := by
        have := hok.inside
        rw [List.length_take]
        omega
      obtain ⟨hfill, hahead⟩ := arrive_filled hok hroom
      have hspec := updateState_spec junk hfill
      refine ⟨hspec.1, fun _ => ?_⟩
      dsimp only
      rw [hspec.2.1, hahead, hmoved.ahead, List.append_assoc]
      congr 1
      rw [List.length_take]
      conv_rhs => rw [← List.take_append_drop (min n (ch'.inbuf.length - ch'.inofs)) socket]
      congr 1
      rcases Nat.le_total (min n (ch'.inbuf.length - ch'.inofs)) socket.length with hle | hle
      · rw [Nat.min_eq_left hle]
      · rw [Nat.min_eq_right hle, List.drop_of_length_le hle, List.drop_length]
    | eof =>
      have heof := updateState_spec junk
        (show Filled { ch' with eof := true } from ⟨⟨hok.order, hok.inside⟩, hok.hasMsg⟩)
      exact ⟨heof.1, fun _ => by
        dsimp only
        rw [heof.2.1]
        exact congrArg (· ++ socket) hmoved.ahead⟩
    | failure =>
      exact ⟨quietError_ok hupdate.1, fun hne => absurd (quietError_instate _) hne⟩

theorem Received.refl {ch : MsgChannel} (h : ch.Ok) (socket : Bytes) :
    Received ch socket (ch, socket) :=
  ⟨h, fun _ => rfl⟩

theorem updateState_error {ch : MsgChannel} (h : ch.instate = .error) :
    (updateState junk ch).instate = .error := by
  rw [updateState, h]
  exact h

theorem makeRoom_instate (ch : MsgChannel) : (ch.makeRoom junk).instate = ch.instate := by
  have hchop : ch.chopInput.instate = ch.instate := by
    rw [chopInput]
    split <;> rfl
  rw [makeRoom]
  split <;> exact hchop

theorem readABit_error {ch : MsgChannel} (h : ch.instate = .error) (e : ReadEvent)
    (socket : Bytes) : (readABit junk ch e socket).1.instate = .error := by
  have hroom : (ch.makeRoom junk).instate = .error := (makeRoom_instate junk ch).trans h
  unfold readABit
  generalize ch.makeRoom junk = ch' at hroom ⊢
  dsimp only
  split
  · exact updateState_error junk hroom
  · cases e with
    | arrive n => exact updateState_error junk hroom
    | eof => exact updateState_error junk hroom
    | failure => exact quietError_instate _

/-- Data arriving is no reason to fail, and no end. -/
theorem readABit_arrive {ch : MsgChannel} (h : ch.Ok) (hne : ch.instate ≠ .error) (n : ℕ)
    (socket : Bytes) :
    (readABit junk ch (.arrive n) socket).1.instate ≠ .error ∧
      (readABit junk ch (.arrive n) socket).1.eof = ch.eof := by
  have hmoved := makeRoom_moved junk h.toCursors
  have hok := hmoved.ok h
  have hne' : (ch.makeRoom junk).instate ≠ .error := by
    rw [hmoved.instate]
    exact hne
  unfold readABit
  generalize ch.makeRoom junk = ch' at hmoved hok hne' ⊢
  dsimp only
  split
  · obtain ⟨-, -, heof, herr⟩ := updateState_spec junk hok.filled
    exact ⟨fun h' => hne' (herr.mp h'), heof.trans hmoved.eof⟩
  · have hroom : ch'.inofs + (socket.take (min n (ch'.inbuf.length - ch'.inofs))).length ≤
        ch'.inbuf.length := by
      have := hok.inside
      rw [List.length_take]
      omega
    obtain ⟨hfill, -⟩ := arrive_filled hok hroom
    obtain ⟨-, -, heof, herr⟩ := updateState_spec junk hfill
    exact ⟨fun h' => hne' (herr.mp h'), heof.trans hmoved.eof⟩

theorem readABit_eof {ch : MsgChannel} (h : ch.Ok) (hne : ch.instate ≠ .error)
    (socket : Bytes) :
    (readABit junk ch .eof socket).1.instate ≠ .error ∧
      (readABit junk ch .eof socket).1.eof = true := by
  have hmoved := makeRoom_moved junk h.toCursors
  have hok := hmoved.ok h
  have hne' : (ch.makeRoom junk).instate ≠ .error := by
    rw [hmoved.instate]
    exact hne
  unfold readABit
  generalize ch.makeRoom junk = ch' at hmoved hok hne' ⊢
  dsimp only
  split
  · next heof' =>
    obtain ⟨-, -, heof, herr⟩ := updateState_spec junk hok.filled
    exact ⟨fun h' => hne' (herr.mp h'), heof.trans heof'⟩
  · obtain ⟨-, -, heof, herr⟩ := updateState_spec junk
      (show Filled { ch' with eof := true } from ⟨⟨hok.order, hok.inside⟩, hok.hasMsg⟩)
    exact ⟨fun h' => hne' (herr.mp h'), heof⟩

theorem readABit_nil (ch : MsgChannel) (e : ReadEvent) : (readABit junk ch e []).2 = [] := by
  unfold readABit
  dsimp only
  split
  · rfl
  · cases e <;> simp

theorem waitForMsg_nil (ch : MsgChannel) (reads : List ReadEvent) :
    (waitForMsg junk ch [] reads).2 = [] := by
  induction reads generalizing ch with
  | nil => rfl
  | cons e es ih =>
    rw [waitForMsg]
    split
    · rfl
    · dsimp only
      rw [readABit_nil]
      exact ih _

/-- While the calls succeed, waiting for a message only moves data. -/
theorem waitForMsg_received {ch : MsgChannel} (h : ch.Ok) (socket : Bytes)
    (reads : List ReadEvent) : Received ch socket (waitForMsg junk ch socket reads) := by
  induction reads generalizing ch socket with
  | nil => exact Received.refl h socket
  | cons e es ih =>
    rw [waitForMsg]
    split
    · exact Received.refl h socket
    · have hread := readABit_received junk h e socket
      have hrest := ih hread.ok (readABit junk ch e socket).2
      refine ⟨hrest.ok, fun hne => ?_⟩
      have hread' : (readABit junk ch e socket).1.instate ≠ .error := by
        intro he
        apply hne
        dsimp only
        cases es with
        | nil => exact he
        | cons e' es =>
          rw [waitForMsg, if_pos (.inl he)]
          exact he
      exact (hrest.conserved hne).trans (hread.conserved hread')

theorem waitForMsg_arrive {ch : MsgChannel} (h : ch.Ok) (hne : ch.instate ≠ .error)
    (socket : Bytes) (ns : List ℕ) :
    (waitForMsg junk ch socket (ns.map .arrive)).1.instate ≠ .error ∧
      (waitForMsg junk ch socket (ns.map .arrive)).1.eof = ch.eof := by
  induction ns generalizing ch socket with
  | nil => exact ⟨hne, rfl⟩
  | cons n ns ih =>
    rw [List.map_cons, waitForMsg]
    split
    · exact ⟨hne, rfl⟩
    · obtain ⟨hread, heof⟩ := readABit_arrive junk h hne n socket
      have hrest := ih (readABit_received junk h (.arrive n) socket).ok hread
        (readABit junk ch (.arrive n) socket).2
      exact ⟨hrest.1, hrest.2.trans heof⟩

/-! ## `get_msg` -/

theorem setError_instate (ch : MsgChannel) :
    (setError k protocol junk ch).instate = .error := by
  rw [setError]
  split
  · assumption
  · rfl

/-- A call of `get_msg` fails while it waits, finds the end of the stream where it is not
allowed, returns nothing, or takes a message from a channel that has one. -/
inductive Got (ch : MsgChannel) (socket : Bytes) (reads : List ReadEvent) (allowed : Bool) :
    Option Msg × MsgChannel × Bytes → Prop
  | broken {r : MsgChannel × Bytes} :
    r = waitForMsg junk ch socket reads → r.1.instate = .error →
    Got ch socket reads allowed (none, r)
  | ended {r : MsgChannel × Bytes} {ch' : MsgChannel} :
    r = waitForMsg junk ch socket reads → r.1.instate ≠ .hasMsg → r.1.instate ≠ .error →
    r.1.eof = true → allowed = false → ch'.instate = .error →
    Got ch socket reads allowed (none, ch', r.2)
  | nothing {r : MsgChannel × Bytes} :
    r = waitForMsg junk ch socket reads → r.1.instate ≠ .hasMsg → r.1.instate ≠ .error →
    (r.1.eof = true → allowed = true) → Got ch socket reads allowed (none, r)
  | taken {r : MsgChannel × Bytes} :
    r = waitForMsg junk ch socket reads → r.1.instate = .hasMsg →
    Got ch socket reads allowed
      ((takeMsg k protocol junk (setError k protocol junk) r.1 allowed).1,
        (takeMsg k protocol junk (setError k protocol junk) r.1 allowed).2, r.2)

theorem getMsg_got (ch : MsgChannel) (socket : Bytes) (reads : List ReadEvent) (allowed : Bool) :
    Got k protocol junk ch socket (atLeastOne reads) allowed
      (getMsg k protocol junk ch socket reads allowed) := by
  rw [getMsg]
  generalize hr : waitForMsg junk ch socket (atLeastOne reads) = r
  dsimp only
  by_cases herr : r.1.instate = .error
  · rw [if_pos (.inl herr)]
    exact .broken hr.symm herr
  · by_cases hmsg : r.1.instate = .hasMsg
    · rw [if_neg (by simp [hmsg, MsgChannel.hasMsg])]
      exact .taken hr.symm hmsg
    · by_cases heof : r.1.eof = true
      · rw [if_neg (by simp [herr, heof, MsgChannel.hasMsg]), takeMsg,
          if_pos (by simp [atEof, hmsg, heof])]
        cases allowed with
        | true => exact .nothing hr.symm hmsg herr fun _ => rfl
        | false => exact .ended hr.symm hmsg herr heof rfl (setError_instate k protocol junk r.1)
      · rw [if_pos (.inr (by simp [hmsg, heof, MsgChannel.hasMsg]))]
        exact .nothing hr.symm hmsg herr fun h => absurd h heof

theorem getMsg_hasMsg {ch : MsgChannel} (h : ch.instate = .hasMsg) (socket : Bytes)
    (reads : List ReadEvent) (allowed : Bool) :
    getMsg k protocol junk ch socket reads allowed =
      ((takeMsg k protocol junk (setError k protocol junk) ch allowed).1,
        (takeMsg k protocol junk (setError k protocol junk) ch allowed).2, socket) := by
  have hhas : ch.hasMsg = true := by simp [MsgChannel.hasMsg, h]
  have hwait : ∀ es, waitForMsg junk ch socket es = (ch, socket) := by
    intro es
    cases es with
    | nil => rfl
    | cons e es => rw [waitForMsg, if_pos (.inr hhas)]
  rw [getMsg, hwait]
  exact if_neg (by simp [h, hhas])

theorem getMsg_error {ch : MsgChannel} (h : ch.instate = .error) (socket : Bytes)
    (reads : List ReadEvent) (allowed : Bool) :
    getMsg k protocol junk ch socket reads allowed = (none, ch, socket) := by
  have hwait : ∀ es, waitForMsg junk ch socket es = (ch, socket) := by
    intro es
    cases es with
    | nil => rfl
    | cons e es => rw [waitForMsg, if_pos (.inl h)]
  rw [getMsg, hwait]
  exact if_pos (.inl h)

/-- A message decoded from exactly its frame is returned and its bytes are consumed. -/
theorem takeMsg_accept (setErr : MsgChannel → MsgChannel) {ch : MsgChannel} (h : ch.Ok)
    (hmsg : ch.instate = .hasMsg) (allowed : Bool) {m : Msg} {w : Window UInt8}
    (hread : readMsg k protocol ch.window = (some m, w)) (hfailed : w.failed = false)
    (hrest : w.rest = ch.pending.drop ch.inmsglen.toNat) :
    (takeMsg k protocol junk setErr ch allowed).1 = some m ∧
      (takeMsg k protocol junk setErr ch allowed).2.Ok ∧
      (takeMsg k protocol junk setErr ch allowed).2.ahead = w.rest ∧
      (takeMsg k protocol junk setErr ch allowed).2.eof = ch.eof ∧
      (takeMsg k protocol junk setErr ch allowed).2.instate ≠ .error := by
  have hlen := h.pending_length
  have hord := h.order
  have hin := h.inside
  have hn := h.hasMsg hmsg
  have hrestlen : w.rest.length = ch.inofs - ch.intogo - ch.inmsglen.toNat := by
    rw [hrest, List.length_drop, hlen]
  have hofs : ch.inofs - w.rest.length = ch.intogo + ch.inmsglen.toNat := by omega
  have hcheck : ¬(ch.inofs - w.rest.length - ch.intogo ≠ ch.inmsglen.toNat) := by omega
  have htake : takeMsg k protocol junk setErr ch allowed =
      (some m, updateState junk
        { ch with intogo := ch.intogo + ch.inmsglen.toNat, instate := .needLen }) := by
    rw [takeMsg, if_neg (by simp [atEof, hmsg]), if_neg (by simp [MsgChannel.hasMsg, hmsg])]
    simp only [hread, hfailed, Bool.false_eq_true, if_false, if_neg hcheck]
    rw [hofs]
  set ch' : MsgChannel :=
    { ch with intogo := ch.intogo + ch.inmsglen.toNat, instate := .needLen } with hch'
  have hcur : ch'.Cursors := ⟨by change ch.intogo + ch.inmsglen.toNat ≤ ch.inofs; omega, hin⟩
  have hpend : ch'.pending = w.rest := by
    have hcount : ch.inofs - ch.intogo =
        ch.inmsglen.toNat + (ch.inofs - (ch.intogo + ch.inmsglen.toNat)) := by omega
    rw [hrest, pending, pending, hcount, Block.drop_slice]
  obtain ⟨hok, hahead, heof, herr⟩ := updateState_spec junk (show ch'.Filled from ⟨hcur, nofun⟩)
  rw [htake]
  refine ⟨rfl, hok, hahead.trans hpend, heof, ?_⟩
  intro he
  cases herr.mp he

end MsgChannel

end Icecream.Comm
