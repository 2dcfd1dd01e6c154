import Icecream.Comm.Handshake
import Icecream.Comm.Output

/-!
# A channel as a whole

`MsgChannel` with both its halves, from the constructor on: the protocol setup, binary and
text channels, and `set_error`, which calls `get_msg` again for a last status message. What
the system calls give is part of each call.
-/

namespace Icecream.Comm

/-- `control` tells the characters below a blank: the sign of `char` is the platform's. -/
structure Platform where
  compression : Compression
  junk : ℕ → UInt8
  control : UInt8 → Bool
  maxWriteSize : ℕ

/-- What a call of `read` gives; nothing where it would block. -/
inductive Read
  | data (bytes : Bytes) | nothing | eof | failure
  deriving DecidableEq

/-- A call of `read`, and the calls of `send` of the answer in the protocol setup. -/
structure Arrival where
  read : Read
  sends : List SendEvent := []

/-- `wire` is what has been written, and `failed` tells that `set_error` has put the channel
into ERROR. -/
structure Connection extends Peer where
  textBased : Bool
  out : SendChannel
  wire : Bytes
  failed : Bool

namespace Connection

/-- `set_error` where it does not call `get_msg` -/
def quietError (c : Connection) : Connection :=
  if c.ch.instate = .error then c
  else { c with ch := { c.ch with instate := .error, eof := true }, failed := true }

variable (p : Platform)

/-! ## Calls of `set_error` left open -/

section

variable (onError : Connection → Connection)

/-- When nothing more is said of `send`, it fails. -/
def flushWritebuf (c : Connection) (blocking : Bool) (sends : List SendEvent) : Connection × Bool :=
  let r := (c.out.flushWritebuf p.maxWriteSize blocking (sends ++ [.failure])).getD (false, c.out, [])
  let c := { c with out := r.2.1, wire := c.wire ++ r.2.2 }
  (if r.1 then c else onError c, r.1)

/-- One turn of the loop in NEED_PROTO -/
def setupWord (c : Connection) (sends : List SendEvent) : Connection × Peer.Turn :=
  if c.protocol = 0 then (c, .failed)
  else
    let remote := versionValue c.ch.pending
    let c := { c with ch := { c.ch with intogo := c.ch.intogo + 4 } }
    if c.protocol = -1 then
      let c := { c with protocol := 0 }
      if remote < c.minimum ∨ 2 ^ 20 < remote then (onError c, .failed)
      else
        let agreed := min remote c.version
        let c := { c with
          maximumRemoteProtocol := remote, out := c.out.writefull p.junk (versionWord agreed) }
        let r := c.flushWritebuf p onError true sends
        if r.2 then ({ r.1 with protocol := -1 - agreed }, .again) else (onError r.1, .failed)
    else if c.protocol < -1 then
      let agreed := -(c.protocol + 1)
      if (remote : ℤ) ≠ agreed then (onError { c with protocol := 0 }, .failed)
      else ({ c with protocol := agreed, needProto := false }, .done)
    else (onError c, .failed)

def setupLoop (sends : List SendEvent) : ℕ → Connection → Connection × Bool
  | 0, c => (c, true)
  | fuel + 1, c =>
    if c.ch.inofs - c.ch.intogo < 4 then (c, true)
    else match c.setupWord p onError sends with
      | (c, .again) => setupLoop sends fuel c
      | (c, .done) => (c, true)
      | (c, .failed) => (c, false)

/-- NEED_LEN on a text channel: the line that is under way, up to a control character -/
def needLine (ch : MsgChannel) : MsgChannel :=
  if ch.instate = .needLen then
    match ch.pending.findIdx? p.control with
    | some n => { ch with inmsglen := UInt32.ofNat n, instate := .hasMsg }
    | none => { ch with inmsglen := UInt32.ofNat ch.pending.length }
  else ch

/-- `update_state` from NEED_LEN on -/
def advance (c : Connection) : Connection :=
  { c with ch := if c.textBased then needLine p c.ch else c.ch.updateState p.junk }

def updateState (c : Connection) (sends : List SendEvent) : Connection × Bool :=
  if c.ch.instate = .error then (c, false)
  else
    let r := if c.needProto then setupLoop p onError sends (c.ch.inofs - c.ch.intogo) c else (c, true)
    if r.1.needProto then r else (r.1.advance p, r.2)

/-- What a call of `read` with room for `n` bytes puts there -/
def Read.bytes (n : ℕ) : Read → Bytes
  | .data bytes => bytes.take n
  | _ => []

def readABit (c : Connection) (a : Arrival) : Connection × Bool :=
  let ch := c.ch.makeRoom p.junk
  let read := if ch.eof then .nothing else a.read
  let data := Read.bytes (ch.inbuf.length - ch.inofs) read
  let r := updateState p onError { c with ch := { ch with
    inbuf := Block.overwrite ch.inbuf ch.inofs data
    inofs := ch.inofs + data.length
    eof := ch.eof || read = .eof } } a.sends
  if read = .failure ∨ r.2 = false then
    (if r.1.needProto then r.1.quietError else onError r.1, false)
  else (r.1, true)

/-- The reads of `wait_for_msg`; the last one is followed by a timeout. -/
def waitLoop : List Arrival → Connection → Connection × Bool
  | [], c => (c, c.ch.hasMsg)
  | a :: as, c =>
    if c.ch.hasMsg then (c, true)
    else
      let r := c.readABit p onError a
      if r.2 = false then (onError r.1, false) else waitLoop as r.1

/-- One read is made in any case. -/
def waitForMsg (c : Connection) (as : List Arrival) : Connection × Bool :=
  if c.ch.instate = .error then (c, false)
  else waitLoop p onError (if as = [] then [⟨.nothing, []⟩] else as) c

/-- What `read_line` leaves behind the line: the control characters are skipped. -/
def takeLine (c : Connection) : Str × Connection :=
  let rest := c.ch.pending.drop c.ch.inmsglen.toNat
  (c.ch.pending.take c.ch.inmsglen.toNat,
    { c with ch := { c.ch with
      intogo := c.ch.intogo + c.ch.inmsglen.toNat + (rest.takeWhile p.control).length } })

/-- The end of `get_msg` for a message that was decoded: `read` bytes have been consumed. -/
def deliver (m : Msg) (c : Connection) : Option Msg × Connection :=
  (some m, advance p { c with ch := { c.ch with instate := .needLen } })

/-- What decoding has left of the window is still to be read. -/
def consume (rest : Bytes) (c : Connection) : Connection :=
  { c with ch := { c.ch with intogo := c.ch.inofs - rest.length } }

/-- The check behind a message that was decoded from `start` on -/
def checkLength (start : ℕ) (m : Msg) (c : Connection) : Option Msg × Connection :=
  if c.ch.intogo - start ≠ c.ch.inmsglen.toNat then (none, onError c) else deliver p m c

def takeFrame (c : Connection) : Option Msg × Connection :=
  let r := readMsg p.compression c.protocol.toNat c.ch.window
  let c' := c.consume r.2.rest
  match r.1 with
  | none => (none, onError c')
  | some m =>
    -- `set_error` was called while the message was filled
    checkLength p onError c.ch.intogo m (if r.2.failed then onError c' else c')

/-- `get_msg` once `wait_for_msg` has succeeded -/
def takeMsg (c : Connection) (eofAllowed : Bool) : Option Msg × Connection :=
  if c.ch.atEof then (none, if eofAllowed then c else onError c)
  else if !c.ch.hasMsg then (none, onError c)
  else if c.textBased then
    let line := c.takeLine p
    deliver p (.text line.1) line.2
  else c.takeFrame p onError

def getMsg (c : Connection) (eofAllowed : Bool) (as : List Arrival) : Option Msg × Connection :=
  let r := c.waitForMsg p onError as
  if r.2 then r.1.takeMsg p onError eofAllowed else (none, r.1)

/-- The loop of `wait_for_protocol`; the last read is followed by a timeout. -/
def protocolLoop : List Arrival → Connection → Connection × Bool
  | [], c => if c.needProto then (onError c, false) else (c, true)
  | a :: as, c =>
    if c.needProto = false then (c, true)
    else
      let r := c.readABit p onError a
      if r.2 = false ∨ r.1.ch.eof then (r.1, false) else protocolLoop as r.1

def waitForProtocol (c : Connection) (as : List Arrival) : Connection × Bool :=
  if c.protocol = 0 ∨ c.ch.instate = .error then (c, false) else protocolLoop p onError as c

/-- What `send_msg` appends to the output -/
def append (c : Connection) (m : Msg) : Connection :=
  { c with out :=
      if c.textBased then
        c.out.chopOutput.writefull p.junk (m.sendToChannel p.compression c.protocol.toNat)
      else c.out.appendMsg p.compression c.protocol.toNat p.junk m }

def sendMsg (c : Connection) (m : Msg) (blocking bulkOnly : Bool) (as : List Arrival)
    (sends : List SendEvent) : Connection × Bool :=
  if c.ch.instate = .error then (c, false)
  else
    let r := if c.needProto then c.waitForProtocol p onError as else (c, true)
    if r.2 = false then (r.1, false)
    else
      let c := r.1.append p m
      if bulkOnly && c.out.msgtogo < 4096 then (c, true) else c.flushWritebuf p onError blocking sends

end

/-! ## `set_error` -/

/-- `get_msg(2, true)` reads the arrivals of `status` for a last message. An error within it
does not make another such call. -/
def setError (status : List Arrival) (c : Connection) : Connection :=
  if c.ch.instate = .error then c
  else
    let c := (c.getMsg p quietError true status).2
    { c with ch := { c.ch with instate := .error, eof := true }, failed := true }

/-! ## The calls of the channel's users -/

/-- The constructor. A binary channel sends its version. -/
def create (version minimum : ℕ) (textBased : Bool) (sends : List SendEvent)
    (status : List Arrival) : Connection :=
  let c : Connection :=
    { version := version, minimum := minimum, protocol := if textBased then version else -1
      maximumRemoteProtocol := -1, needProto := !textBased
      ch := ⟨Block.enlarge p.junk [] 128, 0, 0, .needLen, 0, false⟩
      textBased := textBased, out := ⟨Block.enlarge p.junk [] 128, 0, 0, false⟩, wire := []
      failed := false }
  if textBased then c
  else
    let c := { c with out := c.out.writefull p.junk (versionWord version) }
    let r := c.flushWritebuf p (setError p status) true sends
    if r.2 then r.1 else setError p status { r.1 with protocol := 0 }

/-- The calls that change a channel. `status` is what a last status message is looked for in. -/
inductive Op
  | getMsg (eofAllowed : Bool) (as status : List Arrival)
  | sendMsg (m : Msg) (blocking bulkOnly : Bool) (as : List Arrival) (sends : List SendEvent)
      (status : List Arrival)
  | readABit (a : Arrival) (status : List Arrival)
  | waitForProtocol (as status : List Arrival)

/-- The message that a call returns, and whether it has sent one -/
structure Outcome where
  message : Option Msg := none
  sent : Bool := false
  deriving DecidableEq

def perform (c : Connection) : Op → Connection × Outcome
  | .getMsg eofAllowed as status =>
    let r := c.getMsg p (setError p status) eofAllowed as
    (r.2, { message := r.1 })
  | .sendMsg m blocking bulkOnly as sends status =>
    let r := c.sendMsg p (setError p status) m blocking bulkOnly as sends
    (r.1, { sent := r.2 })
  | .readABit a status => ((c.readABit p (setError p status) a).1, {})
  | .waitForProtocol as status => ((c.waitForProtocol p (setError p status) as).1, {})

def system : Transition.System Connection Op where
  init c := ∃ version minimum textBased sends status,
    c = create p version minimum textBased sends status
  next c op := some (c.perform p op).1

end Connection

/-- `read_a_bit` up to `update_state` -/
def MsgChannel.fill (junk : ℕ → UInt8) (ch : MsgChannel) (read : Read) : MsgChannel :=
  let ch := ch.makeRoom junk
  let read := if ch.eof then .nothing else read
  let data := Connection.Read.bytes (ch.inbuf.length - ch.inofs) read
  { ch with
    inbuf := Block.overwrite ch.inbuf ch.inofs data
    inofs := ch.inofs + data.length
    eof := ch.eof || read = .eof }

namespace Connection

theorem Read.bytes_le (n : ℕ) (read : Read) : (Read.bytes n read).length ≤ n := by
  cases read with
  | data bytes => exact List.length_take_le _ _
  | _ => exact Nat.zero_le _

end Connection

/-- There is room for what arrives. -/
theorem MsgChannel.fill_cursors (junk : ℕ → UInt8) {ch : MsgChannel} (h : ch.Cursors)
    (read : Read) : (ch.fill junk read).Cursors := by
  have hmoved := makeRoom_moved junk h
  have horder := hmoved.cursors.order
  have hin := hmoved.cursors.inside
  have hfree := Connection.Read.bytes_le ((ch.makeRoom junk).inbuf.length - (ch.makeRoom junk).inofs)
    (if (ch.makeRoom junk).eof then .nothing else read)
  refine ⟨horder.trans (Nat.le_add_right _ _), ?_⟩
  change (ch.makeRoom junk).inofs + _ ≤ (Block.overwrite _ _ _).length
  rw [Block.overwrite_length (by omega)]
  omega

namespace Connection

theorem readABit_fill {p : Platform} {onError : Connection → Connection} (c : Connection)
    (a : Arrival) : c.readABit p onError a =
      let r := updateState p onError { c with ch := c.ch.fill p.junk a.read } a.sends
      if (if (c.ch.makeRoom p.junk).eof then .nothing else a.read) = .failure ∨ r.2 = false then
        (if r.1.needProto then r.1.quietError else onError r.1, false)
      else (r.1, true) := rfl

/-! ## What the calls keep -/

/-- `P` is kept by what the calls are made of, `set_error` and the taking of messages apart. -/
structure Kept (p : Platform) (P : Connection → Prop) : Prop where
  written : ∀ {c : Connection} (out : SendChannel) (wire : Bytes), P c →
    P { c with out := out, wire := wire }
  agreed : ∀ {c : Connection} (protocol maximum : ℤ) (needProto : Bool), P c →
    P { c with protocol := protocol, maximumRemoteProtocol := maximum, needProto := needProto }
  word : ∀ {c : Connection}, 4 ≤ c.ch.inofs - c.ch.intogo → P c →
    P { c with ch := { c.ch with intogo := c.ch.intogo + 4 } }
  advance : ∀ {c : Connection}, P c → P (c.advance p)
  fill : ∀ {c : Connection} (read : Read), P c → P { c with ch := c.ch.fill p.junk read }
  quiet : ∀ {c : Connection}, P c → P c.quietError

section

variable {p : Platform} {P : Connection → Prop} {onError : Connection → Connection}
  (hP : Kept p P) (hend : ∀ c, P c → P (onError c))

include hP hend

theorem flushWritebuf_kept {c : Connection} (h : P c) (blocking : Bool) (sends : List SendEvent) :
    P (c.flushWritebuf p onError blocking sends).1 := by
  have hwritten := hP.written
    ((c.out.flushWritebuf p.maxWriteSize blocking (sends ++ [.failure])).getD (false, c.out, [])).2.1
    (c.wire ++
      ((c.out.flushWritebuf p.maxWriteSize blocking (sends ++ [.failure])).getD
        (false, c.out, [])).2.2) h
  simp only [flushWritebuf]
  split
  · exact hwritten
  · exact hend _ hwritten

theorem setupWord_kept {c : Connection} (h : P c) (hfour : 4 ≤ c.ch.inofs - c.ch.intogo)
    (sends : List SendEvent) : P (c.setupWord p onError sends).1 := by
  have hword := hP.word hfour h
  have hanswered := hP.agreed 0 (versionValue c.ch.pending) c.needProto (hP.written
    (c.out.writefull p.junk (versionWord (min (versionValue c.ch.pending) c.version))) c.wire hword)
  have hflush := flushWritebuf_kept hP hend hanswered true sends
  simp only [setupWord]
  split_ifs with hfirst hnew hrange hflushed hagreed hdiffer
  · exact h
  · exact hend _ (hP.agreed 0 c.maximumRemoteProtocol c.needProto hword)
  · exact hP.agreed _ _ _ hflush
  · exact hend _ hflush
  · exact hend _ (hP.agreed 0 c.maximumRemoteProtocol c.needProto hword)
  · exact hP.agreed _ c.maximumRemoteProtocol _ hword
  · exact hend _ hword

theorem setupLoop_kept {c : Connection} (h : P c) (sends : List SendEvent) (fuel : ℕ) :
    P (setupLoop p onError sends fuel c).1 := by
  induction fuel generalizing c with
  | zero => exact h
  | succ fuel ih =>
    simp only [setupLoop]
    split
    · exact h
    · next hfour =>
      have hword := setupWord_kept hP hend h (Nat.le_of_not_lt hfour) sends
      split
      · next c' heq => exact ih (by rwa [heq] at hword)
      · next c' heq => rwa [heq] at hword
      · next c' heq => rwa [heq] at hword

theorem updateState_kept {c : Connection} (h : P c) (sends : List SendEvent) :
    P (c.updateState p onError sends).1 := by
  have hsetup : P (if c.needProto then setupLoop p onError sends (c.ch.inofs - c.ch.intogo) c
      else (c, true)).1 := by
    split
    · exact setupLoop_kept hP hend h sends _
    · exact h
  simp only [updateState]
  split
  · exact h
  · generalize (if c.needProto then setupLoop p onError sends (c.ch.inofs - c.ch.intogo) c
      else (c, true)) = r at hsetup
    split
    · exact hsetup
    · exact hP.advance hsetup

theorem readABit_kept {c : Connection} (h : P c) (a : Arrival) :
    P (c.readABit p onError a).1 := by
  have hupdate : P (updateState p onError { c with ch := c.ch.fill p.junk a.read } a.sends).1 :=
    updateState_kept hP hend (hP.fill a.read h) a.sends
  rw [readABit_fill]
  generalize updateState p onError { c with ch := c.ch.fill p.junk a.read } a.sends = r at hupdate
  generalize (if (c.ch.makeRoom p.junk).eof then Read.nothing else a.read) = read
  dsimp only
  split_ifs
  · exact hP.quiet hupdate
  · exact hend _ hupdate
  · exact hupdate

theorem waitLoop_kept (as : List Arrival) {c : Connection} (h : P c) :
    P (waitLoop p onError as c).1 := by
  induction as generalizing c with
  | nil => exact h
  | cons a as ih =>
    have hread := readABit_kept hP hend h a
    simp only [waitLoop]
    split_ifs
    · exact h
    · exact hend _ hread
    · exact ih hread

theorem waitForMsg_kept {c : Connection} (h : P c) (as : List Arrival) :
    P (c.waitForMsg p onError as).1 := by
  simp only [waitForMsg]
  split
  · exact h
  · exact waitLoop_kept hP hend _ h

theorem protocolLoop_kept (as : List Arrival) {c : Connection} (h : P c) :
    P (protocolLoop p onError as c).1 := by
  induction as generalizing c with
  | nil =>
    simp only [protocolLoop]
    split_ifs
    · exact hend _ h
    · exact h
  | cons a as ih =>
    have hread := readABit_kept hP hend h a
    simp only [protocolLoop]
    split_ifs
    · exact h
    · exact hread
    · exact ih hread

theorem waitForProtocol_kept {c : Connection} (h : P c) (as : List Arrival) :
    P (c.waitForProtocol p onError as).1 := by
  simp only [waitForProtocol]
  split
  · exact h
  · exact protocolLoop_kept hP hend _ h

theorem sendMsg_kept {c : Connection} (h : P c) (m : Msg) (blocking bulkOnly : Bool)
    (as : List Arrival) (sends : List SendEvent) :
    P (c.sendMsg p onError m blocking bulkOnly as sends).1 := by
  have hwait : P (if c.needProto then c.waitForProtocol p onError as else (c, true)).1 := by
    split
    · exact waitForProtocol_kept hP hend h as
    · exact h
  simp only [sendMsg]
  generalize (if c.needProto then c.waitForProtocol p onError as else (c, true)) = r at hwait
  have happend : P (r.1.append p m) := hP.written _ r.1.wire hwait
  split_ifs
  · exact h
  · exact hwait
  · exact happend
  · exact flushWritebuf_kept hP hend happend blocking sends

end

end Connection

end Icecream.Comm
