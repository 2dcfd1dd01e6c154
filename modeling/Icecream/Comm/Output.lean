import Icecream.Comm.Frame

/-!
# The sending half of a channel

`send_msg`, `writefull`, `flush_writebuf` and `chop_output`. The block `msgbuf` has
`msgbuflen` cells; `msgtogo` bytes from `msgofs` on wait to be sent, while new data
is appended at `msgbuf + msgtogo`, which is behind them only as long as `msgofs` is 0.
-/

namespace Icecream.Comm

structure SendChannel where
  msgbuf : Bytes
  msgofs : ℕ
  msgtogo : ℕ
  error : Bool
  deriving DecidableEq, Repr

/-- What one call of `send` does: it takes up to `n` bytes, is interrupted, would block
(and `poll` then reports whether the socket became ready), or fails. -/
inductive SendEvent
  | sent (n : ℕ) | interrupted | wouldBlock (ready : Bool) | failure
  deriving DecidableEq, Repr

namespace SendChannel

variable (k : Compression) (protocol : ℕ) (junk : ℕ → UInt8) (maxWriteSize : ℕ)

def buffered (ch : SendChannel) : Bytes := Block.slice ch.msgbuf ch.msgofs ch.msgtogo

def chopOutput (ch : SendChannel) : SendChannel :=
  if 8192 < ch.msgofs ∨ ch.msgtogo ≤ 16 then
    { ch with msgbuf := Block.overwrite ch.msgbuf 0 ch.buffered, msgofs := 0 }
  else ch

def writefull (ch : SendChannel) (data : Bytes) : SendChannel :=
  let msgbuf :=
    if ch.msgbuf.length ≤ ch.msgtogo + data.length then
      Block.enlarge junk ch.msgbuf (MsgChannel.roundUp (ch.msgtogo + data.length))
    else ch.msgbuf
  { ch with
    msgbuf := Block.overwrite msgbuf ch.msgtogo data
    msgtogo := ch.msgtogo + data.length }

/-- Where `flush_writebuf` is: its own pointer into the buffer, what is left to send,
and what it has sent. -/
structure Flush where
  ofs : ℕ
  togo : ℕ
  written : Bytes

/-- The loop of `flush_writebuf`: `none` while it has not returned, otherwise whether
there was an error. -/
def flushLoop (msgbuf : Bytes) (blocking : Bool) : List SendEvent → Flush → Option (Bool × Flush)
  | [], f => if f.togo = 0 then some (false, f) else none
  | e :: events, f =>
    if f.togo = 0 then some (false, f)
    else match e with
      | .interrupted => flushLoop msgbuf blocking events f
      | .failure => some (true, f)
      | .wouldBlock ready =>
        if blocking && ready then flushLoop msgbuf blocking events f else some (true, f)
      | .sent n =>
        let ret := min n (min f.togo maxWriteSize)
        if ret = 0 then some (true, f)
        else flushLoop msgbuf blocking events
          ⟨f.ofs + ret, f.togo - ret, f.written ++ Block.slice msgbuf f.ofs ret⟩

/-- `flush_writebuf`, with the bytes it has written to the socket. -/
def flushWritebuf (ch : SendChannel) (blocking : Bool) (events : List SendEvent) :
    Option (Bool × SendChannel × Bytes) :=
  (flushLoop maxWriteSize ch.msgbuf blocking events ⟨ch.msgofs, ch.msgtogo, []⟩).map fun r =>
    let ch' := chopOutput { ch with msgofs := r.2.ofs, msgtogo := r.2.togo }
    (!r.1, { ch' with error := ch'.error || r.1 }, r.2.written)

/-- The encoding of a message behind a word that then gets its length. -/
def appendMsg (ch : SendChannel) (m : Msg) : SendChannel :=
  let ch := ch.chopOutput
  let old := ch.msgtogo
  let ch := (ch.writefull junk (writeUInt32 0)).writefull junk (m.sendToChannel k protocol)
  let outLen := ch.msgtogo - old - 4
  { ch with msgbuf := Block.overwrite ch.msgbuf old (writeUInt32 (UInt32.ofNat outLen)) }

/-- `send_msg` with the outcomes of the calls of `send` it makes; `none` if these are
not enough for it to return. -/
def sendMsg (ch : SendChannel) (m : Msg) (blocking bulkOnly : Bool) (events : List SendEvent) :
    Option (Bool × SendChannel × Bytes) :=
  if ch.error then some (false, ch, [])
  else
    let ch := ch.appendMsg k protocol junk m
    if bulkOnly && ch.msgtogo < 4096 then some (true, ch, [])
    else ch.flushWritebuf maxWriteSize blocking events

/-! ## What appending and flushing preserve -/

/-- Outside ERROR everything buffered starts at the front of the block, so that data
appended at `msgtogo` is appended to it. -/
structure Front (ch : SendChannel) : Prop where
  msgofs : ch.msgofs = 0
  inside : ch.msgtogo ≤ ch.msgbuf.length

theorem Front.buffered_length {ch : SendChannel} (h : ch.Front) :
    ch.buffered.length = ch.msgtogo :=
  Block.slice_length (by rw [h.msgofs, Nat.zero_add]; exact h.inside)

theorem chopOutput_front {ch : SendChannel} (hofs : ch.msgofs + ch.msgtogo ≤ ch.msgbuf.length)
    (hdone : ch.msgofs = 0 ∨ ch.msgtogo = 0) :
    ch.chopOutput.Front ∧ ch.chopOutput.buffered = ch.buffered ∧
      ch.chopOutput.msgtogo = ch.msgtogo ∧ ch.chopOutput.error = ch.error := by
  have hlen : ch.buffered.length = ch.msgtogo := Block.slice_length hofs
  rw [chopOutput]
  split
  · have hblock : (Block.overwrite ch.msgbuf 0 ch.buffered).length = ch.msgbuf.length :=
      Block.overwrite_length (by omega)
    have hmove : Block.slice (Block.overwrite ch.msgbuf 0 ch.buffered) 0 ch.buffered.length =
        ch.buffered := Block.slice_overwrite_zero (by omega)
    rw [hlen] at hmove
    refine ⟨⟨rfl, ?_⟩, hmove, rfl, rfl⟩
    change ch.msgtogo ≤ (Block.overwrite ch.msgbuf 0 ch.buffered).length
    rw [hblock]
    omega
  · next hcond =>
    have hfront : ch.msgofs = 0 := by omega
    exact ⟨⟨hfront, by omega⟩, rfl, rfl, rfl⟩

/-- A block is enlarged to have room for `n` cells, and keeps what it holds. -/
theorem grown_block {block : Bytes} {i n : ℕ} (hi : i ≤ block.length) :
    n ≤ (if block.length ≤ n then Block.enlarge junk block (MsgChannel.roundUp n)
        else block).length ∧
      Block.slice (if block.length ≤ n then Block.enlarge junk block (MsgChannel.roundUp n)
        else block) 0 i = Block.slice block 0 i := by
  split
  · refine ⟨?_, Block.slice_enlarge junk _ (by omega)⟩
    rw [Block.enlarge_length]
    exact (MsgChannel.le_roundUp _).trans (le_max_right _ _)
  · exact ⟨by omega, rfl⟩

/-- Data is put behind what is there, wherever that begins. -/
theorem writefull_filled {ch : SendChannel} (h : ch.msgtogo ≤ ch.msgbuf.length) (data : Bytes) :
    (ch.writefull junk data).msgtogo ≤ (ch.writefull junk data).msgbuf.length ∧
      Block.slice (ch.writefull junk data).msgbuf 0 (ch.writefull junk data).msgtogo =
        Block.slice ch.msgbuf 0 ch.msgtogo ++ data := by
  obtain ⟨hroom, hsame⟩ := grown_block junk (n := ch.msgtogo + data.length) h
  rw [writefull]
  generalize (if ch.msgbuf.length ≤ ch.msgtogo + data.length then
    Block.enlarge junk ch.msgbuf (MsgChannel.roundUp (ch.msgtogo + data.length))
    else ch.msgbuf) = block at hroom hsame
  have hover := Block.slice_overwrite block data 0 ch.msgtogo (by omega)
  rw [Nat.zero_add] at hover
  constructor
  · change ch.msgtogo + data.length ≤ (Block.overwrite block ch.msgtogo data).length
    rw [Block.overwrite_length hroom]
    exact hroom
  · change Block.slice (Block.overwrite block ch.msgtogo data) 0 (ch.msgtogo + data.length) = _
    rw [hover, hsame]

theorem writefull_front {ch : SendChannel} (h : ch.Front) (data : Bytes) :
    (ch.writefull junk data).Front ∧
      (ch.writefull junk data).buffered = ch.buffered ++ data ∧
      (ch.writefull junk data).error = ch.error := by
  obtain ⟨hinside, hfilled⟩ := writefull_filled junk h.inside data
  have hofs : (ch.writefull junk data).msgofs = 0 := h.msgofs
  refine ⟨⟨hofs, hinside⟩, ?_, rfl⟩
  rw [buffered, buffered, hofs, h.msgofs]
  exact hfilled

theorem writefull_msgtogo (ch : SendChannel) (data : Bytes) :
    (ch.writefull junk data).msgtogo = ch.msgtogo + data.length := rfl

theorem appendMsg_front {ch : SendChannel} (h : ch.Front) (m : Msg) :
    (ch.appendMsg k protocol junk m).Front ∧
      (ch.appendMsg k protocol junk m).buffered = ch.buffered ++ frame k protocol m ∧
      (ch.appendMsg k protocol junk m).error = ch.error := by
  obtain ⟨hchop, hbuf, htogo, herr⟩ := chopOutput_front
    (by rw [h.msgofs, Nat.zero_add]; exact h.inside) (.inl h.msgofs)
  obtain ⟨hword, hwbuf, hwerr⟩ := writefull_front junk hchop (writeUInt32 0)
  obtain ⟨hbody, hbbuf, hberr⟩ := writefull_front junk hword (m.sendToChannel k protocol)
  rw [appendMsg]
  generalize hch' : (ch.chopOutput.writefull junk (writeUInt32 0)).writefull junk
    (m.sendToChannel k protocol) = ch' at hbody hbbuf hberr
  have htogo' : ch'.msgtogo = ch.msgtogo + 4 + (m.sendToChannel k protocol).length := by
    rw [← hch', writefull_msgtogo, writefull_msgtogo, htogo, writeUInt32_length]
  have hin := hbody.inside
  have hlen := h.buffered_length
  dsimp only
  rw [htogo]
  have hpatch : (Block.overwrite ch'.msgbuf ch.msgtogo
      (writeUInt32 (UInt32.ofNat (ch'.msgtogo - ch.msgtogo - 4)))).length = ch'.msgbuf.length := by
    apply Block.overwrite_length
    rw [writeUInt32_length]
    omega
  refine ⟨⟨hbody.msgofs, ?_⟩, ?_, hberr.trans (hwerr.trans herr)⟩
  · dsimp only
    rw [hpatch]
    exact hin
  · set enc := m.sendToChannel k protocol with henc
    have hofs : ch'.msgofs = 0 := hbody.msgofs
    have hall : Block.slice ch'.msgbuf 0 ch'.msgtogo =
        ch.buffered ++ (writeUInt32 0 ++ enc) := by
      have hbuffered : Block.slice ch'.msgbuf 0 ch'.msgtogo = ch'.buffered := by
        rw [buffered, hofs]
      rw [hbuffered, hbbuf, hwbuf, hbuf, List.append_assoc]
    have hbytes : ch'.msgtogo - ch.msgtogo - 4 = enc.length := by omega
    have hover := Block.slice_patch hall
      (show (writeUInt32 (UInt32.ofNat enc.length)).length = (writeUInt32 0).length from rfl) hin
    rw [hlen] at hover
    change Block.slice (Block.overwrite ch'.msgbuf ch.msgtogo _) ch'.msgofs ch'.msgtogo = _
    rw [hofs, hbytes, hover]
    rfl

/-- The loop of a flush that returned without error has written everything. -/
theorem flushLoop_spec (msgbuf : Bytes) (blocking : Bool) (events : List SendEvent) (f : Flush)
    {f' : Flush} (h : flushLoop maxWriteSize msgbuf blocking events f = some (false, f')) :
    f'.togo = 0 ∧ f'.ofs = f.ofs + f.togo ∧
      f'.written = f.written ++ Block.slice msgbuf f.ofs f.togo := by
  induction events generalizing f with
  | nil =>
    unfold flushLoop at h
    split at h
    · next hzero =>
      obtain rfl : f = f' := by simpa using h
      simp [hzero, Block.slice]
    · cases h
  | cons e events ih =>
    unfold flushLoop at h
    split at h
    · next hzero =>
      obtain rfl : f = f' := by simpa using h
      simp [hzero, Block.slice]
    · cases e with
      | interrupted => exact ih f h
      | failure => simp at h
      | wouldBlock ready =>
        dsimp only at h
        split at h
        · exact ih f h
        · simp at h
      | sent n =>
        dsimp only at h
        split at h
        · simp at h
        · obtain ⟨hzero, hofs, hwritten⟩ := ih _ h
          have hle : min n (min f.togo maxWriteSize) ≤ f.togo :=
            (min_le_right _ _).trans (min_le_left _ _)
          generalize min n (min f.togo maxWriteSize) = ret at hofs hwritten hle
          have hsplit : f.togo = ret + (f.togo - ret) := by omega
          refine ⟨hzero, by rw [hofs]; dsimp only; omega, ?_⟩
          rw [hwritten, hsplit, Block.slice_add, List.append_assoc]
          dsimp only
          congr 4
          omega

theorem flushWritebuf_front {ch : SendChannel} (h : ch.Front) (blocking : Bool)
    (events : List SendEvent) {ok : Bool} {ch' : SendChannel} {written : Bytes}
    (hflush : ch.flushWritebuf maxWriteSize blocking events = some (ok, ch', written))
    (herr : ch'.error = false) :
    ch'.Front ∧ written ++ ch'.buffered = ch.buffered ∧ ch.error = false := by
  rw [flushWritebuf, Option.map_eq_some_iff] at hflush
  obtain ⟨⟨err, f⟩, hloop, heq⟩ := hflush
  simp only [Prod.mk.injEq] at heq
  obtain ⟨-, rfl, rfl⟩ := heq
  simp only [Bool.or_eq_false_iff] at herr
  obtain ⟨hcherr, rfl⟩ := herr
  obtain ⟨hzero, hofs, hwritten⟩ := flushLoop_spec maxWriteSize _ _ _ _ hloop
  have hin := h.inside
  have hmsgofs := h.msgofs
  have hroom : f.ofs + f.togo ≤ ch.msgbuf.length := by
    dsimp only at hofs
    omega
  obtain ⟨hfront, hbuf, -, herr⟩ : Front (chopOutput _) ∧ _ :=
    chopOutput_front (show SendChannel.msgofs { ch with msgofs := f.ofs, msgtogo := f.togo } + _ ≤ _
      from hroom) (.inr hzero)
  refine ⟨⟨hfront.msgofs, hfront.inside⟩, ?_, herr.symm.trans hcherr⟩
  have hempty : (chopOutput { ch with msgofs := f.ofs, msgtogo := f.togo }).buffered = [] := by
    rw [hbuf, buffered]
    simp [hzero, Block.slice]
  change f.written ++ (chopOutput { ch with msgofs := f.ofs, msgtogo := f.togo }).buffered = _
  rw [hempty, List.append_nil, hwritten]
  rfl

/-- A call of `send_msg` that leaves the channel out of ERROR has put one frame behind
what was buffered, and written bytes from the front. -/
theorem sendMsg_front {ch : SendChannel} (h : ch.Front) (m : Msg) (blocking bulkOnly : Bool)
    (events : List SendEvent) {ok : Bool} {ch' : SendChannel} {written : Bytes}
    (hsend : ch.sendMsg k protocol junk maxWriteSize m blocking bulkOnly events =
      some (ok, ch', written)) (herr : ch'.error = false) :
    ch'.Front ∧ written ++ ch'.buffered = ch.buffered ++ frame k protocol m ∧
      ch.error = false := by
  obtain ⟨happ, hbuf, happerr⟩ := appendMsg_front k protocol junk h m
  rw [sendMsg] at hsend
  split at hsend
  · next hcherr =>
    simp only [Option.some.injEq, Prod.mk.injEq] at hsend
    obtain ⟨-, rfl, -⟩ := hsend
    rw [hcherr] at herr
    cases herr
  · next hcherr =>
    have hno : ch.error = false := by simpa using hcherr
    dsimp only at hsend
    split at hsend
    · simp only [Option.some.injEq, Prod.mk.injEq] at hsend
      obtain ⟨-, rfl, rfl⟩ := hsend
      exact ⟨happ, hbuf, hno⟩
    · obtain ⟨hfront, hsame, -⟩ := flushWritebuf_front maxWriteSize happ blocking events hsend herr
      exact ⟨hfront, hsame.trans hbuf, hno⟩

end SendChannel

end Icecream.Comm
