import Icecream.Comm.Checked

/-!
# The cursors of a channel

The calls of a channel with the checked routines of the buffer. In whatever order they are
made, and whatever the peer sends, no check fails: the cursors stay in order and no difference
of two of them wraps.
-/

namespace Icecream.Comm

open Icecream.Checks

namespace Checked

variable (p : Platform) (decoder : ℕ → Script FieldOp FieldOp.Result (Option Msg))

def settled (c : Connection) : Option Connection :=
  (inOrder c.ch).map fun ch => { c with ch := ch }

/-- `read_a_bit` up to `update_state` -/
def fill (ch : MsgChannel) (read : Read) : Option MsgChannel := do
  let ch ← chopInput ch
  let count ← minus ch.inbuf.length ch.inofs
  let ch :=
    if count < 128 then
      { ch with inbuf := Block.enlarge p.junk ch.inbuf (MsgChannel.roundUp (ch.inbuf.length + 128)) }
    else ch
  let count ← minus ch.inbuf.length ch.inofs
  let data := Connection.Read.bytes count read
  inOrder { ch with
    inbuf := Block.overwrite ch.inbuf ch.inofs data
    inofs := ch.inofs + data.length
    eof := ch.eof || read = .eof }

/-- `read_line` -/
def takeLine (c : Connection) : Option (Str × Connection) :=
  if c.ch.inofs < c.ch.intogo then some ([], c)
  else
    let behind := c.ch.intogo + c.ch.inmsglen.toNat
    let blanks := (Block.slice c.ch.inbuf behind (c.ch.inofs - behind)).takeWhile p.control
    (inOrder { c.ch with intogo := behind + blanks.length }).map fun ch =>
      (Block.slice c.ch.inbuf c.ch.intogo c.ch.inmsglen.toNat, { c with ch := ch })

/-- `update_state` behind the protocol setup -/
def advance (c : Connection) : Option Connection := do
  let ch ← update p c.textBased c.ch
  settled { c with ch := ch }

def deliver (m : Msg) (c : Connection) : Option (Option Msg × Connection) :=
  (advance p { c with ch := { c.ch with instate := .needLen } }).map (some m, ·)

section

variable (onError : Connection → Option Connection)

def flushWritebuf (c : Connection) (blocking : Bool) (sends : List SendEvent) :
    Option (Connection × Bool) :=
  let r := (c.out.flushWritebuf p.maxWriteSize blocking (sends ++ [.failure])).getD (false, c.out, [])
  let c := { c with out := r.2.1, wire := c.wire ++ r.2.2 }
  if r.1 then some (c, true) else (onError c).map (·, false)

def setupWord (c : Connection) (sends : List SendEvent) : Option (Connection × Peer.Turn) :=
  if c.protocol = 0 then some (c, .failed)
  else
    let remote := versionValue (Block.slice c.ch.inbuf c.ch.intogo 4)
    let c := { c with ch := { c.ch with intogo := c.ch.intogo + 4 } }
    if c.protocol = -1 then
      let c := { c with protocol := 0 }
      if remote < c.minimum ∨ 2 ^ 20 < remote then (onError c).map (·, .failed)
      else
        let agreed := min remote c.version
        let c := { c with
          maximumRemoteProtocol := remote, out := c.out.writefull p.junk (versionWord agreed) }
        do
          let r ← flushWritebuf p onError c true sends
          if r.2 then some ({ r.1 with protocol := -1 - agreed }, .again)
          else (onError r.1).map (·, .failed)
    else if c.protocol < -1 then
      let agreed := -(c.protocol + 1)
      if (remote : ℤ) ≠ agreed then (onError { c with protocol := 0 }).map (·, .failed)
      else some ({ c with protocol := agreed, needProto := false }, .done)
    else (onError c).map (·, .failed)

def setupLoop (sends : List SendEvent) : ℕ → Connection → Option (Connection × Bool)
  | 0, c => (minus c.ch.inofs c.ch.intogo).map fun _ => (c, true)
  | fuel + 1, c => do
    let count ← minus c.ch.inofs c.ch.intogo
    if count < 4 then some (c, true)
    else
      let r ← setupWord p onError c sends
      match r.2 with
      | .again => setupLoop sends fuel r.1
      | .done => some (r.1, true)
      | .failed => some (r.1, false)

def updateState (c : Connection) (sends : List SendEvent) : Option (Connection × Bool) :=
  if c.ch.instate = .error then some (c, false)
  else do
    let r ←
      if c.needProto then setupLoop p onError sends (c.ch.inofs - c.ch.intogo) c else some (c, true)
    if r.1.needProto then (settled r.1).map (·, r.2) else (advance p r.1).map (·, r.2)

def readABit (c : Connection) (a : Arrival) : Option (Connection × Bool) :=
  let read := if c.ch.eof then .nothing else a.read
  do
    let ch ← fill p c.ch read
    let r ← updateState p onError { c with ch := ch } a.sends
    if read = .failure ∨ r.2 = false then
      let c ← if r.1.needProto then some r.1.quietError else onError r.1
      (settled c).map (·, false)
    else (settled r.1).map (·, true)

def waitLoop : List Arrival → Connection → Option (Connection × Bool)
  | [], c => some (c, c.ch.hasMsg)
  | a :: as, c =>
    if c.ch.hasMsg then some (c, true)
    else do
      let r ← readABit p onError c a
      if r.2 = false then (onError r.1).map (·, false) else waitLoop as r.1

def waitForMsg (c : Connection) (as : List Arrival) : Option (Connection × Bool) :=
  if c.ch.instate = .error then some (c, false)
  else waitLoop p onError (if as = [] then [⟨.nothing, []⟩] else as) c

def checkLength (start : ℕ) (m : Msg) (c : Connection) : Option (Option Msg × Connection) := do
  let count ← minus c.ch.intogo start
  if count ≠ c.ch.inmsglen.toNat then (onError c).map (none, ·) else deliver p m c

def takeFrame (c : Connection) : Option (Option Msg × Connection) := do
  let r ← (decoder c.protocol.toNat).runOn (field p) (c.ch, false)
  let c' := { c with ch := r.2.1 }
  match r.1 with
  | none => (onError c').map (none, ·)
  | some m =>
    let c' ← if r.2.2 then onError c' else some c'
    checkLength p onError c.ch.intogo m c'

def takeMsg (c : Connection) (eofAllowed : Bool) : Option (Option Msg × Connection) :=
  if c.ch.atEof then (if eofAllowed then some c else onError c).map (none, ·)
  else if !c.ch.hasMsg then (onError c).map (none, ·)
  else if c.textBased then do
    let line ← takeLine p c
    deliver p (.text line.1) line.2
  else takeFrame p decoder onError c

def getMsg (c : Connection) (eofAllowed : Bool) (as : List Arrival) :
    Option (Option Msg × Connection) := do
  let r ← waitForMsg p onError c as
  if r.2 then
    let t ← takeMsg p decoder onError r.1 eofAllowed
    (settled t.2).map (t.1, ·)
  else (settled r.1).map (none, ·)

def protocolLoop : List Arrival → Connection → Option (Connection × Bool)
  | [], c => if c.needProto then (onError c).map (·, false) else some (c, true)
  | a :: as, c =>
    if c.needProto = false then some (c, true)
    else do
      let r ← readABit p onError c a
      if r.2 = false ∨ r.1.ch.eof then some (r.1, false) else protocolLoop as r.1

def waitForProtocol (c : Connection) (as : List Arrival) : Option (Connection × Bool) :=
  if c.protocol = 0 ∨ c.ch.instate = .error then some (c, false) else protocolLoop p onError as c

def sendMsg (c : Connection) (m : Msg) (blocking bulkOnly : Bool) (as : List Arrival)
    (sends : List SendEvent) : Option (Connection × Bool) :=
  if c.ch.instate = .error then some (c, false)
  else do
    let r ← if c.needProto then waitForProtocol p onError c as else some (c, true)
    if r.2 = false then some (r.1, false)
    else
      let c := r.1.append p m
      if bulkOnly && c.out.msgtogo < 4096 then some (c, true)
      else flushWritebuf p onError c blocking sends

end

def quietError (c : Connection) : Option Connection := settled c.quietError

def setError (status : List Arrival) (c : Connection) : Option Connection :=
  if c.ch.instate = .error then some c
  else do
    let r ← getMsg p decoder quietError c true status
    settled { r.2 with ch := { r.2.ch with instate := .error, eof := true }, failed := true }

def create (version minimum : ℕ) (textBased : Bool) (sends : List SendEvent)
    (status : List Arrival) : Option Connection :=
  let c : Connection :=
    { version := version, minimum := minimum, protocol := if textBased then version else -1
      maximumRemoteProtocol := -1, needProto := !textBased
      ch := ⟨Block.enlarge p.junk [] 128, 0, 0, .needLen, 0, false⟩
      textBased := textBased, out := ⟨Block.enlarge p.junk [] 128, 0, 0, false⟩, wire := []
      failed := false }
  if textBased then settled c
  else
    let c := { c with out := c.out.writefull p.junk (versionWord version) }
    do
      let r ← flushWritebuf p (setError p decoder status) c true sends
      if r.2 then settled r.1 else setError p decoder status { r.1 with protocol := 0 }

def perform (c : Connection) : Connection.Op → Option (Connection × Connection.Outcome)
  | .getMsg eofAllowed as status =>
    (getMsg p decoder (setError p decoder status) c eofAllowed as).map fun r =>
      (r.2, { message := r.1 })
  | .sendMsg m blocking bulkOnly as sends status =>
    (sendMsg p (setError p decoder status) c m blocking bulkOnly as sends).map fun r =>
      (r.1, { sent := r.2 })
  | .readABit a status => (readABit p (setError p decoder status) c a).map fun r => (r.1, {})
  | .waitForProtocol as status =>
    (waitForProtocol p (setError p decoder status) c as).map fun r => (r.1, {})

/-- The decoder of each protocol version reads what `readMsg` does. -/
def Decodes : Prop :=
  ∀ n, (decoder n).run (FieldOp.exec p.compression) = readMsg p.compression n

theorem exists_decodes : ∃ decoder, Decodes p decoder := by
  choose decoder hdecoder using fun n => readMsg_spelled p.compression n
  exact ⟨decoder, hdecoder⟩

end Checked

/-! ## What a call leaves -/

namespace Connection

variable {p : Platform} {c : Connection}

/-- The cursors are in order. A text channel has neither a setup nor lengths, and the line that
it has is there. -/
structure Ordered (c : Connection) : Prop where
  cursors : c.ch.Cursors
  setup : c.textBased = true → c.needProto = false
  state : c.textBased = true → c.ch.instate ≠ .fillBuf
  line : c.textBased = true → c.ch.instate = .hasMsg →
    c.ch.inmsglen.toNat ≤ c.ch.inofs - c.ch.intogo

namespace Ordered

theorem binary (hbinary : c.textBased = false) (h : c.ch.Cursors) : c.Ordered :=
  ⟨h, by simp [hbinary], by simp [hbinary], by simp [hbinary]⟩

/-- Behind a message -/
theorem next (h : c.ch.Cursors) (hsetup : c.textBased = true → c.needProto = false) :
    Ordered { c with ch := { c.ch with instate := .needLen } } :=
  ⟨⟨h.order, h.inside⟩, hsetup, fun _ => nofun, fun _ => nofun⟩

theorem fail (h : c.Ordered) :
    Ordered { c with ch := { c.ch with instate := .error, eof := true }, failed := true } :=
  ⟨⟨h.cursors.order, h.cursors.inside⟩, h.setup, fun _ => nofun, fun _ => nofun⟩

theorem needLine (h : c.Ordered) : Ordered { c with ch := Connection.needLine p c.ch } := by
  have hlen := h.cursors.pending_length
  unfold Connection.needLine
  by_cases hstate : c.ch.instate = .needLen
  · rw [if_pos hstate]
    split
    · next n hfind =>
      obtain ⟨hn, -⟩ := List.findIdx?_eq_some_iff_getElem.mp hfind
      refine ⟨⟨h.cursors.order, h.cursors.inside⟩, h.setup, fun _ => nofun, fun _ _ => ?_⟩
      have hword : (UInt32.ofNat n).toNat ≤ n := Nat.mod_le _ _
      change (UInt32.ofNat n).toNat ≤ c.ch.inofs - c.ch.intogo
      omega
    · exact ⟨⟨h.cursors.order, h.cursors.inside⟩, h.setup, fun _ => by simp [hstate],
        fun _ => by simp [hstate]⟩
  · rw [if_neg hstate]
    exact h

theorem advance (h : c.Ordered) : (c.advance p).Ordered := by
  cases htext : c.textBased with
  | true =>
    have hsame : c.advance p = { c with ch := Connection.needLine p c.ch } := by
      simp [Connection.advance, htext]
    rw [hsame]
    exact h.needLine
  | false =>
    have hsame : (c.advance p).ch = c.ch.updateState p.junk := by simp [Connection.advance, htext]
    refine .binary htext ?_
    rw [hsame]
    exact MsgChannel.updateState_cursors p.junk h.cursors

theorem received (h : c.Ordered) (read : Read) :
    Ordered { c with ch := c.ch.fill p.junk read } where
  cursors := MsgChannel.fill_cursors p.junk h.cursors read
  setup := h.setup
  state htext hstate :=
    h.state htext ((MsgChannel.makeRoom_instate p.junk c.ch).symm.trans hstate)
  line htext hstate := by
    have hmoved := MsgChannel.makeRoom_moved p.junk h.cursors
    have hline := h.line htext ((MsgChannel.makeRoom_instate p.junk c.ch).symm.trans hstate)
    have hcount : (c.ch.makeRoom p.junk).inofs - (c.ch.makeRoom p.junk).intogo =
        c.ch.inofs - c.ch.intogo := by
      rw [← hmoved.cursors.pending_length, hmoved.pending, h.cursors.pending_length]
    change (c.ch.makeRoom p.junk).inmsglen.toNat ≤
      (c.ch.makeRoom p.junk).inofs + _ - (c.ch.makeRoom p.junk).intogo
    rw [hmoved.inmsglen]
    omega

theorem quietError (h : c.Ordered) : c.quietError.Ordered := by
  unfold Connection.quietError
  split
  · exact h
  · exact h.fail

end Ordered

/-! ## The cursor only goes on -/

theorem fillBuf_intogo (ch : MsgChannel) : ch.fillBuf.intogo = ch.intogo := by
  unfold MsgChannel.fillBuf
  split <;> rfl

theorem updateState_ahead (junk : ℕ → UInt8) (ch : MsgChannel) :
    ch.intogo ≤ (ch.updateState junk).intogo := by
  unfold MsgChannel.updateState
  cases ch.instate with
  | needLen =>
    simp only [MsgChannel.needLen]
    split
    · rw [fillBuf_intogo]
      exact Nat.le_add_right _ _
    · exact le_rfl
  | fillBuf => exact (fillBuf_intogo ch).ge
  | hasMsg => exact le_rfl
  | error => exact le_rfl

theorem needLine_intogo (ch : MsgChannel) : (needLine p ch).intogo = ch.intogo := by
  unfold needLine
  split
  · split <;> rfl
  · rfl

theorem advance_ahead (c : Connection) : c.ch.intogo ≤ (c.advance p).ch.intogo := by
  unfold advance
  dsimp only
  split
  · exact (needLine_intogo c.ch).ge
  · exact updateState_ahead p.junk c.ch

theorem quietError_intogo (c : Connection) : c.quietError.ch.intogo = c.ch.intogo := by
  unfold quietError
  split <;> rfl

theorem consume_ahead (h : c.ch.Cursors) : c.ch.intogo ≤
    (c.consume (readMsg p.compression c.protocol.toNat c.ch.window).2.rest).ch.intogo := by
  have hle := readMsg_le (p := p) h
  have horder := h.order
  simp only [consume]
  omega

theorem checkLength_ahead (start : ℕ) (m : Msg) (c : Connection) :
    c.ch.intogo ≤ (checkLength p quietError start m c).2.ch.intogo := by
  unfold checkLength
  split
  · exact (quietError_intogo c).ge
  · exact advance_ahead { c with ch := { c.ch with instate := .needLen } }

theorem takeMsg_ahead (h : c.ch.Cursors) (eofAllowed : Bool) :
    c.ch.intogo ≤ (c.takeMsg p quietError eofAllowed).2.ch.intogo := by
  have hquiet := (quietError_intogo c).ge
  unfold takeMsg
  split_ifs
  · exact le_rfl
  · exact hquiet
  · exact hquiet
  · have hline : c.ch.intogo ≤ (c.takeLine p).2.ch.intogo := by
      simp only [takeLine]
      omega
    exact hline.trans (advance_ahead { (c.takeLine p).2 with
      ch := { (c.takeLine p).2.ch with instate := .needLen } })
  · have hconsume := consume_ahead (p := p) h
    unfold takeFrame
    dsimp only
    generalize readMsg p.compression c.protocol.toNat c.ch.window = r at hconsume
    cases r.1 with
    | none => exact hconsume.trans (quietError_intogo _).ge
    | some m =>
      refine hconsume.trans (le_trans ?_ (checkLength_ahead c.ch.intogo m _))
      split
      · exact (quietError_intogo _).ge
      · exact le_rfl

end Connection

/-! ## No check fails -/

namespace Checked

open Connection (Ordered)

variable {p : Platform} {decoder : ℕ → Script FieldOp FieldOp.Result (Option Msg)}
  {checked : Connection → Option Connection} {onError : Connection → Connection} {c : Connection}

/-- An error handler with checks and the one that it stands for. The cursor is never put back
behind where it was in a message. -/
structure Handles (checked : Connection → Option Connection) (onError : Connection → Connection) :
    Prop where
  yields : ∀ {c : Connection}, c.Ordered → Yields Ordered (checked c) (onError c)
  ahead : ∀ {c : Connection}, c.Ordered → c.ch.instate = .hasMsg →
    c.ch.intogo ≤ (onError c).ch.intogo

theorem settled_yields (h : c.Ordered) : Yields Ordered (settled c) c := by
  unfold settled
  rw [inOrder_eq h.cursors]
  exact .pure h

theorem fill_eq {ch : MsgChannel} (h : ch.Cursors) (read : Read) :
    fill p ch (if ch.eof then .nothing else read) = some (ch.fill p.junk read) := by
  have hmoved := MsgChannel.makeRoom_moved p.junk h
  have hchop := (MsgChannel.chopInput_moved h).cursors
  have hroom : (if ch.chopInput.inbuf.length - ch.chopInput.inofs < 128 then
      { ch.chopInput with
        inbuf := Block.enlarge p.junk ch.chopInput.inbuf
          (MsgChannel.roundUp (ch.chopInput.inbuf.length + 128)) }
      else ch.chopInput) = ch.makeRoom p.junk := rfl
  unfold fill
  rw [chopInput_eq h]
  simp only [Option.bind_eq_bind, Option.bind_some]
  rw [minus_eq hchop.inside]
  simp only [Option.bind_some]
  rw [hroom, minus_eq hmoved.cursors.inside, ← hmoved.eof]
  exact inOrder_eq (MsgChannel.fill_cursors p.junk h read)

theorem advance_yields (h : c.Ordered) : Yields Ordered (advance p c) (c.advance p) := by
  unfold advance
  rw [update_eq h.cursors h.state]
  exact settled_yields h.advance

theorem deliver_yields (h : c.ch.Cursors) (hsetup : c.textBased = true → c.needProto = false)
    (m : Msg) : Yields (fun r => r.2.Ordered) (deliver p m c) (Connection.deliver p m c) :=
  (advance_yields (.next h hsetup)).map id

/-- The line is there, and what is skipped behind it is too. -/
theorem takeLine_eq (h : c.Ordered) (htext : c.textBased = true)
    (hstate : c.ch.instate = .hasMsg) :
    takeLine p c = some (c.takeLine p) ∧ (c.takeLine p).2.ch.Cursors := by
  have horder := h.cursors.order
  have hline := h.line htext hstate
  have hrest : Block.slice c.ch.inbuf (c.ch.intogo + c.ch.inmsglen.toNat)
      (c.ch.inofs - (c.ch.intogo + c.ch.inmsglen.toNat)) =
        c.ch.pending.drop c.ch.inmsglen.toNat := by
    have hcount : c.ch.inofs - c.ch.intogo =
        c.ch.inmsglen.toNat + (c.ch.inofs - (c.ch.intogo + c.ch.inmsglen.toNat)) := by omega
    rw [MsgChannel.pending, hcount, Block.drop_slice]
  have hblanks : ((c.ch.pending.drop c.ch.inmsglen.toNat).takeWhile p.control).length ≤
      c.ch.inofs - (c.ch.intogo + c.ch.inmsglen.toNat) := by
    refine (List.takeWhile_prefix _).length_le.trans ?_
    rw [List.length_drop, h.cursors.pending_length]
    omega
  have hcursors : (c.takeLine p).2.ch.Cursors := by
    refine ⟨?_, h.cursors.inside⟩
    simp only [Connection.takeLine]
    omega
  refine ⟨?_, hcursors⟩
  unfold takeLine
  rw [if_neg (by omega)]
  simp only [hrest, slice_pending hline]
  exact congrArg _ (inOrder_eq hcursors)

/-- How a turn of the setup leaves a channel: one that goes on is binary. -/
def Turned (r : Connection × Peer.Turn) : Prop :=
  r.1.Ordered ∧ (r.2 = .again → r.1.textBased = false)

theorem Turned.failed (h : c.Ordered) : Turned (c, .failed) := ⟨h, by simp⟩

theorem Turned.done (h : c.Ordered) : Turned (c, .done) := ⟨h, by simp⟩

section

variable (hon : Handles checked onError)

include hon

theorem flushWritebuf_yields (h : c.Ordered) (blocking : Bool) (sends : List SendEvent) :
    Yields (fun r => r.1.Ordered) (flushWritebuf p checked c blocking sends)
      (c.flushWritebuf p onError blocking sends) := by
  unfold flushWritebuf Connection.flushWritebuf
  dsimp only
  generalize (c.out.flushWritebuf p.maxWriteSize blocking (sends ++ [.failure])).getD
    (false, c.out, []) = r
  obtain ⟨flushed, out, wire⟩ := r
  have hout : Ordered { c with out := out, wire := c.wire ++ wire } :=
    ⟨h.cursors, h.setup, h.state, h.line⟩
  cases flushed with
  | true => exact .pure hout
  | false => exact (hon.yields hout).map id

theorem setupWord_yields (hbinary : c.textBased = false) (h : c.Ordered)
    (hfour : 4 ≤ c.ch.inofs - c.ch.intogo) (sends : List SendEvent) :
    Yields Turned (setupWord p checked c sends) (c.setupWord p onError sends) := by
  have hskip := (MsgChannel.skip_pending h.cursors hfour).1
  have hmoved : ∀ (protocol maximum : ℤ) needProto out, Ordered { c with
      protocol := protocol, maximumRemoteProtocol := maximum, needProto := needProto, out := out
      ch := { c.ch with intogo := c.ch.intogo + 4 } } :=
    fun _ _ _ _ => .binary hbinary hskip
  have hremote : versionValue (Block.slice c.ch.inbuf c.ch.intogo 4) = versionValue c.ch.pending := by
    rw [slice_pending hfour, versionValue, versionValue, List.take_take, min_self]
  have hfail : ∀ {c' : Connection}, c'.Ordered →
      Yields Turned ((checked c').map (·, .failed)) (onError c', .failed) := fun h' =>
    (hon.yields h').map Turned.failed
  unfold setupWord Connection.setupWord
  rw [hremote]
  refine .ite (fun _ => .pure (.failed h)) fun _ => ?_
  refine .ite (fun _ => ?_) fun _ => ?_
  · refine .ite (fun _ => hfail (hmoved ..)) fun _ => ?_
    refine (flushWritebuf_yields hon (hmoved 0 (versionValue c.ch.pending) c.needProto _) true
      sends).bind fun hflush => ?_
    refine .ite (fun hok => ?_) fun _ => hfail hflush
    obtain ⟨out, wire, hsame⟩ := Connection.flushWritebuf_ok hok
    refine .pure ⟨⟨hflush.cursors, hflush.setup, hflush.state, hflush.line⟩, fun _ => ?_⟩
    rw [hsame]
    exact hbinary
  · refine .ite (fun _ => ?_) fun _ => hfail (hmoved ..)
    exact .ite (fun _ => hfail (hmoved ..)) fun _ => .pure (.done (hmoved ..))

theorem setupLoop_yields (hbinary : c.textBased = false) (h : c.Ordered) (sends : List SendEvent)
    (fuel : ℕ) : Yields (fun r => r.1.Ordered) (setupLoop p checked sends fuel c)
      (Connection.setupLoop p onError sends fuel c) := by
  induction fuel generalizing c with
  | zero =>
    rw [setupLoop, minus_eq h.cursors.order]
    exact .pure h
  | succ fuel ih =>
    unfold setupLoop Connection.setupLoop
    refine .minus h.cursors.order (.ite (fun _ => .pure h) fun hword => ?_)
    refine (setupWord_yields hon hbinary h (not_lt.mp hword) sends).bind fun hturn => ?_
    generalize c.setupWord p onError sends = r at hturn
    obtain ⟨c', turn⟩ := r
    obtain ⟨hordered, hagain⟩ := hturn
    cases turn with
    | again => exact ih (hagain rfl) hordered
    | done => exact .pure hordered
    | failed => exact .pure hordered

theorem updateState_yields (h : c.Ordered) (sends : List SendEvent) :
    Yields (fun r => r.1.Ordered) (updateState p checked c sends)
      (c.updateState p onError sends) := by
  unfold updateState Connection.updateState
  refine .ite (fun _ => .pure h) fun _ => ?_
  have hrest : ∀ r : Connection × Bool, r.1.Ordered → Yields (fun r => r.1.Ordered)
      (if r.1.needProto then (settled r.1).map (·, r.2) else (advance p r.1).map (·, r.2))
      (if r.1.needProto then r else (r.1.advance p, r.2)) := fun r hordered =>
    .ite (fun _ => (settled_yields hordered).map id) fun _ => (advance_yields hordered).map id
  cases hproto : c.needProto with
  | true =>
    have hbinary : c.textBased = false := by
      by_contra htext
      simp [h.setup (by simpa using htext)] at hproto
    exact (setupLoop_yields hon hbinary h sends _).bind (hrest _)
  | false => exact hrest (c, true) h

theorem readABit_yields (h : c.Ordered) (a : Arrival) :
    Yields (fun r => r.1.Ordered) (readABit p checked c a) (c.readABit p onError a) := by
  have heof := (MsgChannel.makeRoom_moved p.junk h.cursors).eof
  rw [Connection.readABit_fill, heof]
  unfold readABit
  dsimp only
  rw [fill_eq h.cursors]
  simp only [Option.bind_eq_bind, Option.bind_some]
  refine (updateState_yields hon (h.received a.read) a.sends).bind fun hordered => ?_
  refine .ite (fun _ => ?_) fun _ => (settled_yields hordered).map id
  generalize Connection.updateState p onError _ a.sends = r at hordered
  cases r.1.needProto with
  | true => exact (settled_yields hordered.quietError).map id
  | false => exact (hon.yields hordered).bind fun hend => (settled_yields hend).map id

theorem waitLoop_yields (as : List Arrival) (h : c.Ordered) :
    Yields (fun r => r.1.Ordered) (waitLoop p checked as c)
      (Connection.waitLoop p onError as c) := by
  induction as generalizing c with
  | nil => exact .pure h
  | cons a as ih =>
    unfold waitLoop Connection.waitLoop
    refine .ite (fun _ => .pure h) fun _ => ?_
    refine (readABit_yields hon h a).bind fun hread => ?_
    exact .ite (fun _ => (hon.yields hread).map id) fun _ => ih hread

theorem waitForMsg_yields (h : c.Ordered) (as : List Arrival) :
    Yields (fun r => r.1.Ordered) (waitForMsg p checked c as) (c.waitForMsg p onError as) :=
  .ite (fun _ => .pure h) fun _ => waitLoop_yields hon _ h

/-! ## Messages -/

theorem checkLength_yields {start : ℕ} (hstart : start ≤ c.ch.intogo) (h : c.Ordered) (m : Msg) :
    Yields (fun r => r.2.Ordered) (checkLength p checked start m c)
      (Connection.checkLength p onError start m c) :=
  .minus hstart <| .ite (fun _ => (hon.yields h).map id) fun _ =>
    deliver_yields h.cursors h.setup m

theorem takeFrame_yields (hdecoder : Decodes p decoder) (hbinary : c.textBased = false)
    (h : c.Ordered) (hstate : c.ch.instate = .hasMsg) :
    Yields (fun r => r.2.Ordered) (takeFrame p decoder checked c) (c.takeFrame p onError) := by
  obtain ⟨s, hrun, halong⟩ := runOn_readMsg h.cursors (hdecoder c.protocol.toNat)
  unfold takeFrame Connection.takeFrame
  rw [hrun]
  simp only [Option.bind_eq_bind, Option.bind_some]
  generalize readMsg p.compression c.protocol.toNat c.ch.window = r at halong
  have hconsume : { c with ch := s.1 } = c.consume r.2.rest := by
    have hrest := halong.length
    have horder := halong.cursors.order
    have hofs : s.1.inofs = c.ch.inofs := by rw [halong.frame]
    have hcursor : c.ch.inofs - r.2.rest.length = s.1.intogo := by omega
    rw [Connection.consume, hcursor]
    exact congrArg (fun ch => { c with ch := ch }) halong.frame
  have hbehind : c.ch.intogo ≤ (c.consume r.2.rest).ch.intogo := by
    rw [← hconsume]
    exact halong.behind
  have hordered : (c.consume r.2.rest).Ordered := by
    rw [← hconsume]
    exact .binary hbinary halong.cursors
  rw [hconsume, ← halong.failed]
  cases r.1 with
  | none => exact (hon.yields hordered).map id
  | some m =>
    dsimp only
    cases hfailed : r.2.failed with
    | true =>
      refine (hon.yields hordered).bind fun hend => ?_
      exact checkLength_yields hon (hbehind.trans (hon.ahead hordered hstate)) hend m
    | false =>
      exact checkLength_yields hon hbehind hordered m

theorem takeMsg_yields (hdecoder : Decodes p decoder) (h : c.Ordered) (eofAllowed : Bool) :
    Yields (fun r => r.2.Ordered) (takeMsg p decoder checked c eofAllowed)
      (c.takeMsg p onError eofAllowed) := by
  unfold takeMsg Connection.takeMsg
  by_cases heof : c.ch.atEof = true
  · rw [if_pos heof, if_pos heof]
    cases eofAllowed with
    | true => exact .pure h
    | false => exact (hon.yields h).map id
  rw [if_neg heof, if_neg heof]
  by_cases hmsg : c.ch.hasMsg = true
  · have hstate := Connection.taken (by simpa using heof) hmsg
    simp only [hmsg, Bool.not_true, Bool.false_eq_true, if_false]
    refine .ite (fun htext => ?_) fun htext => ?_
    · obtain ⟨hline, hcursors⟩ := takeLine_eq (p := p) h htext hstate
      rw [hline]
      exact deliver_yields hcursors h.setup _
    · exact takeFrame_yields hon hdecoder (by simpa using htext) h hstate
  · simp only [hmsg, Bool.not_false, if_true]
    exact (hon.yields h).map id

theorem getMsg_yields (hdecoder : Decodes p decoder) (h : c.Ordered) (eofAllowed : Bool)
    (as : List Arrival) : Yields (fun r => r.2.Ordered) (getMsg p decoder checked c eofAllowed as)
      (c.getMsg p onError eofAllowed as) := by
  refine (waitForMsg_yields hon h as).bind fun hwait => ?_
  refine .ite (fun _ => ?_) fun _ => (settled_yields hwait).map id
  refine (takeMsg_yields hon hdecoder hwait eofAllowed).bind fun htake => ?_
  exact (settled_yields htake).map id

theorem protocolLoop_yields (as : List Arrival) (h : c.Ordered) :
    Yields (fun r => r.1.Ordered) (protocolLoop p checked as c)
      (Connection.protocolLoop p onError as c) := by
  induction as generalizing c with
  | nil => exact .ite (fun _ => (hon.yields h).map id) fun _ => .pure h
  | cons a as ih =>
    unfold protocolLoop Connection.protocolLoop
    refine .ite (fun _ => .pure h) fun _ => ?_
    refine (readABit_yields hon h a).bind fun hread => ?_
    exact .ite (fun _ => .pure hread) fun _ => ih hread

theorem waitForProtocol_yields (h : c.Ordered) (as : List Arrival) :
    Yields (fun r => r.1.Ordered) (waitForProtocol p checked c as)
      (c.waitForProtocol p onError as) :=
  .ite (fun _ => .pure h) fun _ => protocolLoop_yields hon as h

theorem sendMsg_yields (h : c.Ordered) (m : Msg) (blocking bulkOnly : Bool) (as : List Arrival)
    (sends : List SendEvent) :
    Yields (fun r => r.1.Ordered) (sendMsg p checked c m blocking bulkOnly as sends)
      (c.sendMsg p onError m blocking bulkOnly as sends) := by
  unfold sendMsg Connection.sendMsg
  refine .ite (fun _ => .pure h) fun _ => ?_
  have hsend : ∀ r : Connection × Bool, r.1.Ordered → Yields (fun r => r.1.Ordered)
      (if r.2 = false then some (r.1, false)
        else if bulkOnly && (r.1.append p m).out.msgtogo < 4096 then some (r.1.append p m, true)
        else flushWritebuf p checked (r.1.append p m) blocking sends)
      (if r.2 = false then (r.1, false)
        else if bulkOnly && (r.1.append p m).out.msgtogo < 4096 then (r.1.append p m, true)
        else (r.1.append p m).flushWritebuf p onError blocking sends) := by
    intro r hr
    have happend : (r.1.append p m).Ordered := ⟨hr.cursors, hr.setup, hr.state, hr.line⟩
    refine .ite (fun _ => .pure hr) fun _ => .ite (fun _ => .pure happend) fun _ => ?_
    exact flushWritebuf_yields hon happend blocking sends
  cases c.needProto with
  | true => exact (waitForProtocol_yields hon h as).bind (hsend _)
  | false => exact hsend (c, true) h

end

/-! ## `set_error` -/

theorem quietError_handles : Handles quietError Connection.quietError where
  yields h := settled_yields h.quietError
  ahead _ _ := (Connection.quietError_intogo _).ge

/-- The message that `set_error` looks for begins where the cursor is. -/
theorem setError_handles (hdecoder : Decodes p decoder) (status : List Arrival) :
    Handles (setError p decoder status) (Connection.setError p status) where
  yields h := by
    refine .ite (fun _ => .pure h) fun _ => ?_
    refine (getMsg_yields quietError_handles hdecoder h true status).bind fun hget => ?_
    exact settled_yields hget.fail
  ahead {c} h hstate := by
    have htake := Connection.takeMsg_ahead (p := p) h.cursors true
    unfold Connection.setError
    rw [if_neg (by simp [hstate]), Connection.getMsg, Connection.waitForMsg_hasMsg hstate]
    exact htake

/-! ## Runs -/

theorem create_yields (hdecoder : Decodes p decoder) (version minimum : ℕ) (textBased : Bool)
    (sends : List SendEvent) (status : List Arrival) :
    Yields Ordered (create p decoder version minimum textBased sends status)
      (Connection.create p version minimum textBased sends status) := by
  have hends := setError_handles hdecoder status
  have hnew : ∀ (protocol : ℤ) out wire, Ordered
      { version := version, minimum := minimum, protocol := protocol, maximumRemoteProtocol := -1
        needProto := !textBased, ch := ⟨Block.enlarge p.junk [] 128, 0, 0, .needLen, 0, false⟩
        textBased := textBased, out := out, wire := wire, failed := false } := fun _ _ _ =>
    ⟨⟨le_rfl, Nat.zero_le _⟩, fun htext => congrArg not htext, fun _ => nofun, fun _ => nofun⟩
  refine .ite (fun _ => settled_yields (hnew ..)) fun _ => ?_
  refine (flushWritebuf_yields hends (hnew ..) true sends).bind fun hflush => ?_
  refine .ite (fun _ => settled_yields hflush) fun _ => ?_
  exact hends.yields ⟨hflush.cursors, hflush.setup, hflush.state, hflush.line⟩

theorem perform_yields (hdecoder : Decodes p decoder) (h : c.Ordered) (op : Connection.Op) :
    Yields (fun r => r.1.Ordered) (perform p decoder c op) (c.perform p op) := by
  have hends := fun status => setError_handles hdecoder status
  cases op with
  | getMsg eofAllowed as status =>
    exact (getMsg_yields (hends status) hdecoder h eofAllowed as).map id
  | sendMsg m blocking bulkOnly as sends status =>
    exact (sendMsg_yields (hends status) h m blocking bulkOnly as sends).map id
  | readABit a status => exact (readABit_yields (hends status) h a).map id
  | waitForProtocol as status => exact (waitForProtocol_yields (hends status) h as).map id

theorem reachable_ordered (h : (Connection.system p).Reachable c) : c.Ordered := by
  obtain ⟨decoder, hdecoder⟩ := exists_decodes p
  refine h.invariant (fun c hinit => ?_) (fun c op c' hordered _ hnext => ?_)
  · obtain ⟨version, minimum, textBased, sends, status, rfl⟩ := hinit
    exact (create_yields hdecoder version minimum textBased sends status).holds
  · obtain rfl := Option.some.inj hnext
    exact (perform_yields hdecoder hordered op).holds

/-- A channel does the same with the checks, from its constructor on and whatever its peer and
the system calls do: wherever the cursors are moved they are in order behind, and no difference
of two of them wraps. -/
theorem cursors_in_order (p : Platform) : (∃ decoder, Decodes p decoder) ∧
    ∀ decoder, Decodes p decoder →
      (∀ version minimum textBased sends status,
        create p decoder version minimum textBased sends status =
          some (Connection.create p version minimum textBased sends status)) ∧
      ∀ c, (Connection.system p).Reachable c →
        c.ch.Cursors ∧ ∀ op, perform p decoder c op = some (c.perform p op) := by
  refine ⟨exists_decodes p, fun decoder hdecoder => ⟨?_, fun c h => ?_⟩⟩
  · intro version minimum textBased sends status
    exact (create_yields hdecoder version minimum textBased sends status).eq
  · have hordered := reachable_ordered h
    exact ⟨hordered.cursors, fun op => (perform_yields hdecoder hordered op).eq⟩

theorem cursors_in_order_agreed : ∃ decoder, Decodes Connection.plain decoder ∧
    Connection.agreed.ch.Cursors ∧
    perform Connection.plain decoder Connection.agreed Connection.setup =
      some (Connection.agreed.perform Connection.plain Connection.setup) := by
  obtain ⟨⟨decoder, hdecoder⟩, hall⟩ := cursors_in_order Connection.plain
  obtain ⟨hcursors, hperform⟩ := (hall decoder hdecoder).2 Connection.agreed
    (.init Connection.agreed_init)
  exact ⟨decoder, hdecoder, hcursors, hperform Connection.setup⟩

end Checked

end Icecream.Comm
