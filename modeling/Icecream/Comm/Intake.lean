import Icecream.Comm.Bounds
import Icecream.Comm.Errors

/-!
# What a channel keeps of what it has read

A binary channel once the protocol setup is over: whatever the system calls give, its buffer
holds what has been read and not yet taken, unless the channel is in ERROR.
-/

namespace Icecream.Comm.Connection

variable {p : Platform} {onError : Connection → Connection} {c : Connection}

/-- There is no call of `read` behind the end. -/
def attempt (p : Platform) (c : Connection) (a : Arrival) : Read :=
  if (c.ch.makeRoom p.junk).eof then .nothing else a.read

/-- What a call of `read_a_bit` reads -/
def arriving (p : Platform) (c : Connection) (a : Arrival) : Bytes :=
  let ch := c.ch.makeRoom p.junk
  Read.bytes (ch.inbuf.length - ch.inofs) (c.attempt p a)

/-- What has been read behind the message that a channel has -/
def remainder (c : Connection) : Bytes := c.ch.pending.drop c.ch.inmsglen.toNat

/-- Until `update_state` looks at it again -/
structure Shaped (c : Connection) : Prop where
  binary : c.textBased = false
  cursors : c.ch.Cursors
  setup : c.ch.instate = .needLen ∨ c.ch.instate = .error

/-- Messages begin once the setup is over. -/
structure Ready (c : Connection) : Prop where
  binary : c.textBased = false
  ok : c.needProto = false → c.ch.Ok
  cursors : c.ch.Cursors
  setup : c.needProto = true → c.ch.instate = .needLen ∨ c.ch.instate = .error

/-- Data has arrived that `update_state` has not looked at. -/
structure Fed (c : Connection) : Prop where
  binary : c.textBased = false
  filled : c.needProto = false → c.ch.Filled
  cursors : c.ch.Cursors
  setup : c.needProto = true → c.ch.instate = .needLen ∨ c.ch.instate = .error

theorem Fed.shaped (h : c.Fed) (hproto : c.needProto = true) : c.Shaped :=
  ⟨h.binary, h.cursors, h.setup hproto⟩

theorem Fed.stopped (h : c.Fed) (herror : c.ch.instate = .error) : c.Ready where
  binary := h.binary
  ok _ := ⟨h.cursors, by simp [herror], by simp [herror], by simp [herror]⟩
  cursors := h.cursors
  setup := h.setup

theorem Shaped.ready (h : c.Shaped) (hstate : c.needProto = true ∨ c.ch.instate = .error) :
    c.Ready where
  binary := h.binary
  ok hproto := by
    have herror := hstate.resolve_left (by simp [hproto])
    exact ⟨h.cursors, by simp [herror], by simp [herror], by simp [herror]⟩
  cursors := h.cursors
  setup _ := h.setup

theorem Ready.shaped (h : c.Ready) (hstate : c.needProto = true ∨ c.ch.instate = .error) :
    c.Shaped where
  binary := h.binary
  cursors := h.cursors
  setup := hstate.elim h.setup .inr

/-- Part of the message that there is may have been consumed. -/
structure Loose (c : Connection) : Prop where
  binary : c.textBased = false
  cursors : c.ch.Cursors
  setup : c.needProto = true → c.ch.instate = .needLen ∨ c.ch.instate = .error
  ok : c.ch.instate ≠ .hasMsg → c.needProto = false → c.ch.Ok

theorem Ready.loose (h : c.Ready) : c.Loose := ⟨h.binary, h.cursors, h.setup, fun _ => h.ok⟩

theorem Loose.ready (h : c.Loose) (hstate : c.ch.instate ≠ .hasMsg) : c.Ready :=
  ⟨h.binary, h.ok hstate, h.cursors, h.setup⟩

theorem Loose.agreed (h : c.Loose) (hstate : c.ch.instate = .hasMsg) : c.needProto = false := by
  by_contra hproto
  rcases h.setup (by simpa using hproto) with hsetup | hsetup <;> simp [hsetup] at hstate

/-- What a call leaves of a channel: the setup is not begun again. -/
structure Leads (c c' : Connection) : Prop where
  ready : c'.Ready
  setup : c.needProto = false → c'.needProto = false

theorem Ready.leads (h : c.Ready) : Leads c c := ⟨h, id⟩

theorem Leads.trans {c' c'' : Connection} (h : Leads c c') (h' : Leads c' c'') : Leads c c'' :=
  ⟨h'.ready, fun hproto => h'.setup (h.setup hproto)⟩

/-- `set_error` as it is called from within the channel -/
structure Ends (onError : Connection → Connection) : Prop where
  loose : ∀ c : Connection, c.Loose → Leads c (onError c)
  error : ∀ c : Connection, (onError c).ch.instate = .error

theorem Ends.leads (h : Ends onError) (c : Connection) (hc : c.Ready) : Leads c (onError c) :=
  h.loose c hc.loose

theorem Ends.ready (h : Ends onError) (c : Connection) (hc : c.Ready) : (onError c).Ready :=
  (h.leads c hc).ready

theorem Ends.shaped (h : Ends onError) (hc : c.Ready) : (onError c).Shaped :=
  (h.ready c hc).shaped (.inr (h.error c))

/-- The channel is put into ERROR. -/
theorem Loose.fail (h : c.Loose) :
    Ready { c with ch := { c.ch with instate := .error, eof := true }, failed := true } where
  binary := h.binary
  ok _ := ⟨⟨h.cursors.order, h.cursors.inside⟩, nofun, nofun, nofun⟩
  cursors := ⟨h.cursors.order, h.cursors.inside⟩
  setup _ := .inr rfl

theorem quietError_ends : Ends quietError where
  loose c h := by
    unfold quietError
    split
    · rename_i herror
      exact (h.ready (by simp [herror])).leads
    · exact ⟨h.fail, id⟩
  error c := by
    unfold quietError
    split
    · assumption
    · rfl

/-! ## `update_state` -/

theorem advance_ready (hbinary : c.textBased = false) (hproto : c.needProto = false)
    (hfilled : c.ch.Filled) : (c.advance p).Ready ∧ (c.advance p).ch.ahead = c.ch.ahead ∧
      ((c.advance p).ch.instate = .error ↔ c.ch.instate = .error) := by
  obtain ⟨hok, hahead, -, herror⟩ := MsgChannel.updateState_spec p.junk hfilled
  have hadvance : c.advance p = { c with ch := c.ch.updateState p.junk } := by
    simp [advance, hbinary]
  rw [hadvance]
  refine ⟨⟨hbinary, fun _ => hok, hok.toCursors, ?_⟩, hahead, herror⟩
  exact fun h => absurd (h.symm.trans hproto) (by decide)

theorem flushWritebuf_ok {blocking : Bool} {sends : List SendEvent}
    (hok : (c.flushWritebuf p onError blocking sends).2 = true) :
    ∃ out wire, (c.flushWritebuf p onError blocking sends).1 = { c with out := out, wire := wire } := by
  unfold flushWritebuf at hok ⊢
  dsimp only at hok ⊢
  rw [if_pos hok]
  exact ⟨_, _, rfl⟩

section

variable (hon : Ends onError)

include hon

theorem flushWritebuf_ready (h : c.Ready) (blocking : Bool) (sends : List SendEvent) :
    (c.flushWritebuf p onError blocking sends).1.Ready := by
  unfold flushWritebuf
  dsimp only
  have hout : ∀ out wire, Ready { c with out := out, wire := wire } := fun _ _ =>
    ⟨h.binary, h.ok, h.cursors, h.setup⟩
  split
  · exact hout _ _
  · exact hon.ready _ (hout _ _)

/-- How a turn of the setup leaves the channel -/
def Turned (r : Connection × Peer.Turn) : Prop :=
  match r.2 with
  | .again => r.1.Shaped ∧ r.1.needProto = true
  | .done => r.1.Shaped
  | .failed => r.1.Ready

theorem setupWord_turned (h : c.Shaped) (hproto : c.needProto = true) (sends : List SendEvent)
    (hword : ¬ c.ch.inofs - c.ch.intogo < 4) : Turned (c.setupWord p onError sends) := by
  have hmoved : ∀ (protocol maximum : ℤ) out, Shaped { c with
      protocol := protocol, maximumRemoteProtocol := maximum, out := out
      ch := { c.ch with intogo := c.ch.intogo + 4 } } := by
    intro protocol maximum out
    have horder : c.ch.intogo + 4 ≤ c.ch.inofs := by
      have := h.cursors.order
      omega
    exact ⟨h.binary, ⟨horder, h.cursors.inside⟩, h.setup⟩
  have hready : ∀ (protocol maximum : ℤ) out, Ready { c with
      protocol := protocol, maximumRemoteProtocol := maximum, out := out
      ch := { c.ch with intogo := c.ch.intogo + 4 } } :=
    fun protocol maximum out => (hmoved protocol maximum out).ready (.inl hproto)
  unfold setupWord
  dsimp only
  split_ifs with hfirst hnew hrange hflush hagreed hdiffer
  · exact h.ready (.inl hproto)
  · exact hon.ready _ (hready _ _ _)
  · obtain ⟨out, wire, hsame⟩ := flushWritebuf_ok hflush
    rw [hsame]
    refine ⟨?_, hproto⟩
    have hshape := hmoved 0 (versionValue c.ch.pending) out
    exact ⟨hshape.binary, hshape.cursors, hshape.setup⟩
  · exact hon.ready _ (flushWritebuf_ready hon (hready _ _ _) true sends)
  · exact hon.ready _ (hready _ _ _)
  · have hshape := hmoved (-(c.protocol + 1)) c.maximumRemoteProtocol c.out
    exact ⟨hshape.binary, hshape.cursors, hshape.setup⟩
  · exact hon.ready _ (hready _ _ _)

/-- A channel whose setup is over is in NEED_LEN or in ERROR. -/
theorem setupLoop_ready (h : c.Shaped) (hproto : c.needProto = true) (sends : List SendEvent)
    (fuel : ℕ) : (setupLoop p onError sends fuel c).1.Ready ∨
      (setupLoop p onError sends fuel c).1.Shaped := by
  induction fuel generalizing c with
  | zero => exact .inr h
  | succ fuel ih =>
    unfold setupLoop
    split
    · exact .inr h
    · rename_i hword
      have hturned := setupWord_turned (p := p) hon h hproto sends hword
      split
      · next c' heq =>
        rw [heq] at hturned
        exact ih hturned.1 hturned.2
      · next c' heq =>
        rw [heq] at hturned
        exact .inr hturned
      · next c' heq =>
        rw [heq] at hturned
        exact .inl hturned

theorem updateState_leads (h : c.Fed) (sends : List SendEvent) :
    Leads c (c.updateState p onError sends).1 := by
  unfold updateState
  split
  · rename_i herror
    exact ⟨h.stopped herror, id⟩
  · dsimp only
    cases hproto : c.needProto with
    | false =>
      simp only [Bool.false_eq_true, if_false, hproto]
      exact ⟨(advance_ready h.binary hproto (h.filled hproto)).1, fun _ => hproto⟩
    | true =>
      simp only [if_true]
      refine ⟨?_, fun h => absurd (hproto.symm.trans h) (by decide)⟩
      have hloop := setupLoop_ready hon (h.shaped hproto) hproto sends
        (c.ch.inofs - c.ch.intogo) (p := p)
      generalize setupLoop p onError sends (c.ch.inofs - c.ch.intogo) c = r at hloop
      split
      · rename_i hstill
        exact hloop.elim id fun hshape => hshape.ready (.inl hstill)
      · rename_i hover
        rw [Bool.not_eq_true] at hover
        rcases hloop with hready | hshape
        · exact (advance_ready hready.binary hover (hready.ok hover).filled).1
        · refine (advance_ready hshape.binary hover ⟨hshape.cursors, fun hmsg => ?_⟩).1
          rcases hshape.setup with hsetup | hsetup <;> simp [hsetup] at hmsg

/-! ## Reading -/

/-- What `read` has put behind the data -/
def received (p : Platform) (c : Connection) (a : Arrival) : Connection :=
  let ch := c.ch.makeRoom p.junk
  { c with ch := { ch with
    inbuf := Block.overwrite ch.inbuf ch.inofs (c.arriving p a)
    inofs := ch.inofs + (c.arriving p a).length
    eof := ch.eof || c.attempt p a = .eof } }

omit hon in
theorem arriving_fits (a : Arrival) (hc : c.ch.Cursors) :
    (c.ch.makeRoom p.junk).inofs + (c.arriving p a).length ≤ (c.ch.makeRoom p.junk).inbuf.length := by
  have hinside := (MsgChannel.makeRoom_moved p.junk hc).cursors.inside
  have hle : (c.arriving p a).length ≤
      (c.ch.makeRoom p.junk).inbuf.length - (c.ch.makeRoom p.junk).inofs := Read.bytes_le _ _
  omega

omit hon in
theorem received_filled (a : Arrival) (hok : c.ch.Ok) :
    (c.received p a).ch.Filled ∧ (c.received p a).ch.ahead = c.ch.ahead ++ c.arriving p a := by
  have hmoved := MsgChannel.makeRoom_moved p.junk hok.toCursors
  obtain ⟨hfilled, hahead⟩ := MsgChannel.arrive_filled (hmoved.ok hok) (arriving_fits a hok.toCursors)
  refine ⟨⟨⟨hfilled.order, hfilled.inside⟩, hfilled.hasMsg⟩, ?_⟩
  rw [← hmoved.ahead, ← hahead]
  rfl

omit hon in
theorem received_fed (a : Arrival) (h : c.Ready) : (c.received p a).Fed where
  binary := h.binary
  filled hproto := (received_filled a (h.ok hproto)).1
  cursors := MsgChannel.fill_cursors p.junk h.cursors a.read
  setup hproto := by
    have hsame := (MsgChannel.makeRoom_moved p.junk h.cursors).instate
    exact (h.setup hproto).imp hsame.trans hsame.trans

omit hon in
theorem readABit_received (c : Connection) (a : Arrival) : c.readABit p onError a =
    let r := (c.received p a).updateState p onError a.sends
    if c.attempt p a = .failure ∨ r.2 = false then
      (if r.1.needProto then r.1.quietError else onError r.1, false)
    else (r.1, true) := readABit_fill c a

theorem readABit_leads (h : c.Ready) (a : Arrival) : Leads c (c.readABit p onError a).1 := by
  have hupdate : Leads c ((c.received p a).updateState p onError a.sends).1 :=
    ⟨(updateState_leads hon (received_fed a h) a.sends).ready,
      (updateState_leads hon (received_fed a h) a.sends).setup⟩
  rw [readABit_received]
  dsimp only
  generalize (c.received p a).updateState p onError a.sends = r at hupdate
  split
  · split
    · exact hupdate.trans (quietError_ends.leads _ hupdate.ready)
    · exact hupdate.trans (hon.leads _ hupdate.ready)
  · exact hupdate

omit hon in
/-- A read that does not fail leaves `update_state` to look at what has arrived. -/
theorem readABit_goes (hend : ∀ c, (onError c).ch.instate = .error) {a : Arrival}
    (hstate : (c.readABit p onError a).1.ch.instate ≠ .error) :
    c.ch.instate ≠ .error ∧
      (c.readABit p onError a).1 = ((c.received p a).updateState p onError a.sends).1 := by
  rw [readABit_received] at hstate ⊢
  dsimp only at hstate ⊢
  split at hstate
  · split at hstate
    · exact absurd (quietError_ends.error _) hstate
    · exact absurd (hend _) hstate
  · next hgoes =>
    rw [if_neg hgoes]
    refine ⟨fun herror => hgoes (.inr ?_), rfl⟩
    have hreceived : (c.received p a).ch.instate = .error :=
      (MsgChannel.makeRoom_instate p.junk c.ch).trans herror
    rw [updateState, if_pos hreceived]

omit hon in
theorem updateState_received (hcalm : c.ch.instate ≠ .error) (hproto : c.needProto = false)
    (a : Arrival) (sends : List SendEvent) :
    (c.received p a).updateState p onError sends = ((c.received p a).advance p, true) := by
  have hreceived : (c.received p a).ch.instate ≠ .error := fun herror =>
    hcalm ((MsgChannel.makeRoom_instate p.junk c.ch).symm.trans herror)
  have hover : (c.received p a).needProto = false := hproto
  simp [updateState, hreceived, hover]

/-- A read that does not fail puts what has arrived behind the data. -/
theorem readABit_ahead (h : c.Ready) (hproto : c.needProto = false) (a : Arrival)
    (hstate : (c.readABit p onError a).1.ch.instate ≠ .error) :
    c.ch.instate ≠ .error ∧
      (c.readABit p onError a).1.ch.ahead = c.ch.ahead ++ c.arriving p a := by
  obtain ⟨hcalm, hread⟩ := readABit_goes hon.error hstate
  obtain ⟨hfilled, hahead⟩ := received_filled (p := p) a (h.ok hproto)
  rw [hread, updateState_received hcalm hproto]
  have hadvance := advance_ready (p := p) (c := c.received p a) h.binary hproto hfilled
  exact ⟨hcalm, hadvance.2.1.trans hahead⟩

theorem waitLoop_leads (as : List Arrival) (h : c.Ready) :
    Leads c (waitLoop p onError as c).1 := by
  induction as generalizing c with
  | nil => exact h.leads
  | cons a as ih =>
    have hread := readABit_leads (p := p) hon h a
    unfold waitLoop
    dsimp only
    split
    · exact h.leads
    · split
      · exact hread.trans (hon.leads _ hread.ready)
      · exact hread.trans (ih hread.ready)

theorem waitForMsg_leads (h : c.Ready) (as : List Arrival) :
    Leads c (c.waitForMsg p onError as).1 := by
  unfold waitForMsg
  split
  · exact h.leads
  · exact waitLoop_leads hon _ h

theorem protocolLoop_leads (as : List Arrival) (h : c.Ready) :
    Leads c (protocolLoop p onError as c).1 ∧
      ((protocolLoop p onError as c).2 = true → (protocolLoop p onError as c).1.needProto = false) := by
  induction as generalizing c with
  | nil =>
    unfold protocolLoop
    split
    · exact ⟨hon.leads c h, by simp⟩
    · rename_i hover
      exact ⟨h.leads, fun _ => by simpa using hover⟩
  | cons a as ih =>
    have hread := readABit_leads (p := p) hon h a
    unfold protocolLoop
    dsimp only
    split
    · rename_i hover
      exact ⟨h.leads, fun _ => hover⟩
    · split
      · exact ⟨hread, by simp⟩
      · obtain ⟨hleads, hsetup⟩ := ih hread.ready
        exact ⟨hread.trans hleads, hsetup⟩

/-! ## Taking a message -/

omit hon in
theorem deliver_leads (h : c.Loose) (hproto : c.needProto = false) (m : Msg) :
    Leads c (deliver p m c).2 ∧ (deliver p m c).2.ch.ahead = c.ch.pending ∧
      (deliver p m c).2.ch.instate ≠ .error := by
  have hfilled : MsgChannel.Filled { c.ch with instate := .needLen } :=
    ⟨⟨h.cursors.order, h.cursors.inside⟩, nofun⟩
  obtain ⟨hready, hahead, herror⟩ := advance_ready (p := p)
    (c := { c with ch := { c.ch with instate := .needLen } }) h.binary hproto hfilled
  exact ⟨⟨hready, fun _ => hproto⟩, hahead, fun hstate => by cases herror.mp hstate⟩

omit hon in
/-- Decoding takes from the front of what is there. -/
theorem readMsg_le (h : c.ch.Cursors) :
    (readMsg p.compression c.protocol.toNat c.ch.window).2.rest.length ≤ c.ch.inofs - c.ch.intogo := by
  have hsuffix := (readMsg_regular p.compression c.protocol.toNat).suffix c.ch.window
  exact hsuffix.length_le.trans_eq h.pending_length

omit hon in
theorem consume_loose (h : c.Loose) (hstate : c.ch.instate = .hasMsg) {rest : Bytes} :
    (c.consume rest).Loose where
  binary := h.binary
  cursors := ⟨Nat.sub_le _ _, h.cursors.inside⟩
  setup := h.setup
  ok hne := absurd hstate hne

theorem takeFrame_leads (h : c.Loose) (hstate : c.ch.instate = .hasMsg) :
    Leads c (c.takeFrame p onError).2 := by
  have hproto := h.agreed hstate
  unfold takeFrame
  dsimp only
  generalize readMsg p.compression c.protocol.toNat c.ch.window = r
  have hconsume : (c.consume r.2.rest).Loose := consume_loose h hstate
  cases r.1 with
  | none => exact ⟨(hon.loose _ hconsume).ready, (hon.loose _ hconsume).setup⟩
  | some m =>
    have hread : ∀ c' : Connection, c'.Loose → c'.needProto = false →
        Leads c (checkLength p onError c.ch.intogo m c').2 := by
      intro c' hc' hproto'
      unfold checkLength
      split
      · exact ⟨(hon.loose _ hc').ready, fun _ => (hon.loose _ hc').setup hproto'⟩
      · have hdeliver := (deliver_leads (p := p) hc' hproto' m).1
        exact ⟨hdeliver.ready, fun _ => hdeliver.setup hproto'⟩
    dsimp only
    split
    · exact hread _ (hon.loose _ hconsume).ready.loose ((hon.loose _ hconsume).setup hproto)
    · exact hread _ hconsume hproto

theorem takeMsg_leads (h : c.Loose) (eofAllowed : Bool) :
    Leads c (c.takeMsg p onError eofAllowed).2 := by
  unfold takeMsg
  split
  · rename_i heof
    have hready := h.ready (by simp_all [MsgChannel.atEof])
    dsimp only
    split
    · exact hready.leads
    · exact hon.loose c h
  · split
    · exact hon.loose c h
    · rename_i heof hmsg
      have hstate := taken (by simpa using heof) (by simpa using hmsg)
      rw [if_neg (by simp [h.binary])]
      exact takeFrame_leads hon h hstate

omit hon in
theorem waitForMsg_hasMsg (hstate : c.ch.instate = .hasMsg) (as : List Arrival) :
    c.waitForMsg p onError as = (c, true) := by
  have hmsg : c.ch.hasMsg = true := by simp [MsgChannel.hasMsg, hstate]
  have hloop : ∀ as, waitLoop p onError as c = (c, true) := by
    intro as
    cases as with
    | nil => simp [waitLoop, hmsg]
    | cons a as => simp [waitLoop, hmsg]
  rw [waitForMsg, if_neg (by simp [hstate]), hloop]

theorem getMsg_leads (h : c.Loose) (eofAllowed : Bool) (as : List Arrival) :
    Leads c (c.getMsg p onError eofAllowed as).2 := by
  by_cases hstate : c.ch.instate = .hasMsg
  · rw [getMsg, waitForMsg_hasMsg hstate]
    exact takeMsg_leads hon h eofAllowed
  · have hwait := waitForMsg_leads (p := p) hon (h.ready hstate) as
    unfold getMsg
    dsimp only
    split
    · exact hwait.trans (takeMsg_leads hon hwait.ready.loose eofAllowed)
    · exact hwait

omit hon in
/-- Decoding fails the channel on file chunks only. -/
theorem readMsg_quiet {w : Window UInt8} {m : Msg} (hm : ∀ chunk, m ≠ .fileChunk chunk)
    (hread : (readMsg p.compression c.protocol.toNat w).1 = some m) (hw : w.failed = false) :
    (readMsg p.compression c.protocol.toNat w).2.failed = false := by
  rw [readMsg_eq] at hread ⊢
  by_cases htype : (readUInt32 w).1 = MsgType.fileChunk.code
  · change (readBody _ _ (readUInt32 w).1 (readUInt32 w).2).1 = some m at hread
    rw [htype] at hread
    simp only [readBody, MsgType.ofCode_code, Option.bind_some, fillFromChannel] at hread
    exact absurd (Option.some.inj hread).symm (hm _)
  · have hbody := (readBody_paired p.compression c.protocol.toNat htype).quiet (readUInt32 w).2
    exact hbody.trans ((readUInt32_quiet w).trans hw)

omit hon in
theorem consume_pending (h : c.ch.Cursors) {rest : Bytes}
    (hlen : (c.consume rest).ch.intogo - c.ch.intogo = c.ch.inmsglen.toNat)
    (hrest : rest.length ≤ c.ch.inofs - c.ch.intogo) :
    (c.consume rest).ch.pending = c.remainder := by
  have horder := h.order
  change c.ch.inofs - rest.length - c.ch.intogo = c.ch.inmsglen.toNat at hlen
  change Block.slice c.ch.inbuf (c.ch.inofs - rest.length) (c.ch.inofs - (c.ch.inofs - rest.length)) =
    (Block.slice c.ch.inbuf c.ch.intogo (c.ch.inofs - c.ch.intogo)).drop c.ch.inmsglen.toNat
  have hfrom : c.ch.inofs - rest.length = c.ch.intogo + c.ch.inmsglen.toNat := by omega
  have hcount : c.ch.inofs - c.ch.intogo =
      c.ch.inmsglen.toNat + (c.ch.inofs - (c.ch.inofs - rest.length)) := by omega
  rw [hcount, Block.drop_slice, hfrom]

omit hon in
theorem checkLength_some {start : ℕ} {m m' : Msg}
    (hcheck : (checkLength p onError start m' c).1 = some m) : m' = m ∧
      c.ch.intogo - start = c.ch.inmsglen.toNat ∧ checkLength p onError start m' c = deliver p m' c := by
  unfold checkLength at hcheck ⊢
  split at hcheck
  · simp at hcheck
  · rename_i hlen
    exact ⟨Option.some.inj hcheck, not_not.mp hlen, if_neg hlen⟩

omit hon in
theorem takeFrame_behind (h : c.Ready) (hstate : c.ch.instate = .hasMsg) {m : Msg}
    (hm : ∀ chunk, m ≠ .fileChunk chunk) (htake : (c.takeFrame p onError).1 = some m) :
    (c.takeFrame p onError).2.ch.instate ≠ .error ∧
      (c.takeFrame p onError).2.ch.ahead = c.remainder := by
  have hproto := h.loose.agreed hstate
  have hle := readMsg_le (p := p) h.cursors
  have hquiet := fun h => readMsg_quiet (p := p) (c := c) (w := c.ch.window) hm h rfl
  unfold takeFrame at htake ⊢
  dsimp only at htake ⊢
  generalize readMsg p.compression c.protocol.toNat c.ch.window = r at *
  obtain ⟨got, w⟩ := r
  cases got with
  | none => simp at htake
  | some m' =>
    dsimp only at htake hquiet hle ⊢
    obtain ⟨rfl, hlen, hdeliver⟩ := checkLength_some htake
    have hfailed := hquiet rfl
    rw [hdeliver]
    rw [hfailed, if_neg (by simp)] at hlen ⊢
    have hpending := consume_pending h.cursors hlen hle
    obtain ⟨-, hahead, hcalm⟩ := deliver_leads (p := p) (consume_loose h.loose hstate) hproto m'
    exact ⟨hcalm, hahead.trans hpending⟩

omit hon in
/-- What is still to be read once a message is taken is what was read behind it. -/
theorem takeMsg_behind (h : c.Ready) {m : Msg} (hm : ∀ chunk, m ≠ .fileChunk chunk)
    {eofAllowed : Bool} (htake : (c.takeMsg p onError eofAllowed).1 = some m) :
    (c.takeMsg p onError eofAllowed).2.ch.instate ≠ .error ∧
      (c.takeMsg p onError eofAllowed).2.ch.ahead = c.remainder := by
  unfold takeMsg at htake ⊢
  split at htake
  · simp at htake
  · rename_i heof
    rw [if_neg heof]
    split at htake
    · simp at htake
    · rename_i hmsg
      have hstate := taken (by simpa using heof) (by simpa using hmsg)
      rw [if_neg hmsg]
      rw [if_neg (by simp [h.binary])] at htake ⊢
      exact takeFrame_behind h hstate hm htake

end

/-- `get_msg` leaves what was read behind the message that it returns. -/
theorem getMsg_behind (hon : Ends onError) (h : c.Ready) {m : Msg}
    (hm : ∀ chunk, m ≠ .fileChunk chunk) {eofAllowed : Bool} {as : List Arrival}
    (hget : (c.getMsg p onError eofAllowed as).1 = some m) :
    (c.getMsg p onError eofAllowed as).2.ch.instate ≠ .error ∧
      (c.getMsg p onError eofAllowed as).2.ch.ahead =
        (c.waitForMsg p onError as).1.remainder := by
  have hwait := (waitForMsg_leads (p := p) hon h as).ready
  unfold getMsg at hget ⊢
  dsimp only at hget ⊢
  split at hget
  · rename_i hok
    rw [if_pos hok]
    exact takeMsg_behind hwait hm hget
  · simp at hget

/-- `set_error` ends whatever is under way. -/
theorem setError_ends (status : List Arrival) : Ends (setError p status) where
  loose c h := by
    unfold setError
    split
    · rename_i herror
      exact (h.ready (by simp [herror])).leads
    · have hget := getMsg_leads (p := p) quietError_ends h true status
      exact ⟨hget.ready.loose.fail, hget.setup⟩
  error := setError_error status

theorem create_ready (version minimum : ℕ) (sends : List SendEvent) (status : List Arrival) :
    (create p version minimum false sends status).Ready := by
  have hends := setError_ends (p := p) status
  have hnew : ∀ (protocol : ℤ) out wire, Ready
      { version := version, minimum := minimum, protocol := protocol, maximumRemoteProtocol := -1
        needProto := true, ch := ⟨Block.enlarge p.junk [] 128, 0, 0, .needLen, 0, false⟩
        textBased := false, out := out, wire := wire, failed := false } := fun _ _ _ =>
    ⟨rfl, nofun, ⟨le_rfl, Nat.zero_le _⟩, fun _ => .inl rfl⟩
  unfold create
  simp only [Bool.not_false, Bool.false_eq_true, if_false]
  have hflush := flushWritebuf_ready (p := p) hends (hnew (-1)
    ((⟨Block.enlarge p.junk [] 128, 0, 0, false⟩ : SendChannel).writefull p.junk (versionWord version))
    []) true sends
  split
  · exact hflush
  · refine hends.ready _ ⟨hflush.binary, hflush.ok, hflush.cursors, hflush.setup⟩

/-- Once `wait_for_protocol` has succeeded -/
theorem waitForProtocol_ready (h : c.Ready) (as status : List Arrival)
    (hok : (c.waitForProtocol p (setError p status) as).2 = true) :
    (c.waitForProtocol p (setError p status) as).1.Ready ∧
      (c.waitForProtocol p (setError p status) as).1.needProto = false := by
  unfold waitForProtocol at hok ⊢
  split at hok
  · simp at hok
  · rename_i hgoes
    obtain ⟨hleads, hsetup⟩ := protocolLoop_leads (p := p) (setError_ends status) as h
    rw [if_neg hgoes]
    exact ⟨hleads.ready, hsetup hok⟩

end Icecream.Comm.Connection
