import Icecream.Comm.Intake

/-!
# The size of the input buffer

On a binary channel the calls do five things to the input buffer, in some order: `read_a_bit`
reads behind what is there, the decoders and the protocol setup consume, `update_state` takes
a length word and makes room, and `get_msg` and `set_error` change the state. Whatever the
order is, the size is bounded as long as the frames are and the data left unread is.
-/

namespace Icecream.Comm

/-- How much arrives, where there is room for it -/
def Read.count : Read → ℕ
  | .data bytes => bytes.length
  | _ => 0

theorem Connection.Read.bytes_le_count (n : ℕ) (r : Read) :
    (Connection.Read.bytes n r).length ≤ r.count := by
  cases r with
  | data bytes => exact List.length_take_le' _ _
  | _ => exact Nat.zero_le _

inductive InputEvent
  | read (r : Read)
  | consume (n : ℕ)
  /-- behind a message -/
  | next
  | update
  | error

namespace MsgChannel

variable (junk : ℕ → UInt8)

/-- The constructor's input buffer -/
def created : MsgChannel := ⟨Block.enlarge junk [] 128, 0, 0, .needLen, 0, false⟩

def inputNext (ch : MsgChannel) : InputEvent → Option MsgChannel
  | .read r => some (ch.fill junk r)
  | .consume n =>
    if n ≤ ch.inofs - ch.intogo then some { ch with intogo := ch.intogo + n } else none
  | .next => some { ch with instate := .needLen }
  | .update => some (ch.updateState junk)
  | .error => some { ch with instate := .error, eof := true }

def input : Transition.System MsgChannel InputEvent where
  init ch := ch = created junk
  next := inputNext junk

/-- The length word at the cursor -/
def announced (ch : MsgChannel) : ℕ := (Word.value ch.pending).toNat

/-- A length word is taken. -/
def Announces (ch : MsgChannel) : Prop := ch.instate = .needLen ∧ 4 ≤ ch.pending.length

/-- A frame that announces too much is rejected when its length is read. -/
def Rejects (ch : MsgChannel) : Prop :=
  ch.Announces → maxMsgSize < ch.announced → (ch.updateState junk).instate = .error

/-- Frames announce what they may, and at most `m` times as much is left unread. -/
def Modest (m : ℕ) (ch : MsgChannel) : InputEvent → Prop
  | .read r => ch.pending.length + r.count ≤ m * maxMsgSize
  | .update => ch.Announces → ch.announced ≤ maxMsgSize
  | _ => True

/-! ## Cursors -/

theorem created_cursors : (created junk).Cursors := ⟨le_rfl, Nat.zero_le _⟩

theorem fillBuf_cursors {ch : MsgChannel} (h : ch.Cursors) : ch.fillBuf.Cursors := by
  rw [fillBuf]
  split
  · exact ⟨h.order, h.inside⟩
  · exact h

theorem needLen_cursors {ch : MsgChannel} (h : ch.Cursors) : (ch.needLen junk).Cursors := by
  have hin := h.inside
  rw [needLen]
  split
  · next hfour =>
    have hgrown := Block.enlarge_length junk ch.inbuf
      (roundUp ((Word.value ch.pending).toNat + (ch.intogo + 4)))
    refine fillBuf_cursors ⟨?_, ?_⟩
    · dsimp only
      omega
    · dsimp only
      split <;> omega
  · exact h

theorem updateState_cursors {ch : MsgChannel} (h : ch.Cursors) :
    (ch.updateState junk).Cursors := by
  rw [updateState]
  cases ch.instate with
  | needLen => exact needLen_cursors junk h
  | fillBuf => exact fillBuf_cursors h
  | hasMsg => exact h
  | error => exact h

theorem inputNext_cursors {ch ch' : MsgChannel} (h : ch.Cursors) (e : InputEvent)
    (hnext : inputNext junk ch e = some ch') : ch'.Cursors := by
  cases e with
  | read r =>
    obtain rfl := Option.some.inj hnext
    exact fill_cursors junk h r
  | consume n =>
    have horder := h.order
    simp only [inputNext] at hnext
    split at hnext
    · obtain rfl := Option.some.inj hnext
      refine ⟨?_, h.inside⟩
      dsimp only
      omega
    · cases hnext
  | next =>
    obtain rfl := Option.some.inj hnext
    exact ⟨h.order, h.inside⟩
  | update =>
    obtain rfl := Option.some.inj hnext
    exact updateState_cursors junk h
  | error =>
    obtain rfl := Option.some.inj hnext
    exact ⟨h.order, h.inside⟩

theorem input_cursors {ok : MsgChannel → InputEvent → Prop} {ch : MsgChannel}
    (h : (input junk).Reaches ok ch) : ch.Cursors := by
  refine h.invariant (fun ch hinit => ?_) (fun ch e ch' hcursors _ hnext => ?_)
  · rw [hinit]
    exact created_cursors junk
  · exact inputNext_cursors junk hcursors e hnext

/-! ## Sizes -/

/-- The size of the buffer and what it depends on -/
structure Bounded (m : ℕ) (ch : MsgChannel) : Prop where
  unread : ch.inofs - ch.intogo ≤ m * maxMsgSize
  offset : ch.inofs ≤ m * maxMsgSize + 8192
  size : ch.inbuf.length ≤ (m + 2) * maxMsgSize
  announced : ch.inmsglen.toNat ≤ maxMsgSize

theorem size_room (m : ℕ) :
    m * maxMsgSize + 8192 + maxMsgSize + 512 ≤ (m + 2) * maxMsgSize := by
  have hmax : maxMsgSize = 1048576 := rfl
  rw [Nat.add_mul, hmax]
  omega

theorem created_bounded (m : ℕ) : Bounded m (created junk) where
  unread := Nat.zero_le _
  offset := Nat.zero_le _
  size := by
    have hroom := size_room m
    have hlen : (created junk).inbuf.length = 128 := Block.enlarge_length junk [] 128
    omega
  announced := Nat.zero_le _

/-- Compaction leaves what is unread, behind at most 8192 bytes. -/
theorem chopInput_offset (ch : MsgChannel) :
    ch.chopInput.inofs ≤ ch.inofs - ch.intogo + 8192 ∧
      ch.chopInput.inofs - ch.chopInput.intogo = ch.inofs - ch.intogo := by
  rw [chopInput]
  split
  · exact ⟨Nat.le_add_right _ _, Nat.sub_zero _⟩
  · next hstay =>
    constructor
    · omega
    · rfl

theorem chopInput_size {ch : MsgChannel} (h : ch.Cursors) :
    ch.chopInput.inbuf.length = ch.inbuf.length := by
  have hlen := h.pending_length
  have hin := h.inside
  rw [chopInput]
  split
  · exact Block.overwrite_length (by omega)
  · rfl

/-- The buffer grows to what `read` is to find room for behind the data. -/
theorem makeRoom_size {ch : MsgChannel} (h : ch.Cursors) :
    (ch.makeRoom junk).inbuf.length ≤ max ch.inbuf.length (ch.chopInput.inofs + 383) := by
  have hsize := chopInput_size h
  rw [makeRoom]
  split
  · have hround := roundUp_le (ch.chopInput.inbuf.length + 128)
    have hgrown := Block.enlarge_length junk ch.chopInput.inbuf
      (roundUp (ch.chopInput.inbuf.length + 128))
    dsimp only
    omega
  · omega

theorem makeRoom_offset (ch : MsgChannel) :
    (ch.makeRoom junk).inofs = ch.chopInput.inofs ∧
      (ch.makeRoom junk).intogo = ch.chopInput.intogo := by
  rw [makeRoom]
  split <;> exact ⟨rfl, rfl⟩

theorem fill_bounded {m : ℕ} {ch : MsgChannel} (hc : ch.Cursors) (h : Bounded m ch) (r : Read)
    (hr : ch.pending.length + r.count ≤ m * maxMsgSize) : Bounded m (ch.fill junk r) := by
  have hmoved := makeRoom_moved junk hc
  have hroom := size_room m
  have hgrown := makeRoom_size junk hc
  obtain ⟨hinofs, hintogo⟩ := makeRoom_offset junk ch
  obtain ⟨hoffset, hunread⟩ := chopInput_offset ch
  have hbefore := h.unread
  have hsize := h.size
  have hin := hmoved.cursors.inside
  have hnothing : ∀ ended : Bool, Read.count (if ended then .nothing else r) ≤ r.count := by
    intro ended
    cases ended with
    | true => exact Nat.zero_le _
    | false => exact le_rfl
  have hfree := Connection.Read.bytes_le
    ((ch.makeRoom junk).inbuf.length - (ch.makeRoom junk).inofs)
    (if (ch.makeRoom junk).eof then .nothing else r)
  have harrived := (Connection.Read.bytes_le_count
    ((ch.makeRoom junk).inbuf.length - (ch.makeRoom junk).inofs)
    (if (ch.makeRoom junk).eof then .nothing else r)).trans (hnothing _)
  set data := Connection.Read.bytes ((ch.makeRoom junk).inbuf.length - (ch.makeRoom junk).inofs)
    (if (ch.makeRoom junk).eof then .nothing else r) with hdata
  have hblock : (Block.overwrite (ch.makeRoom junk).inbuf (ch.makeRoom junk).inofs data).length =
      (ch.makeRoom junk).inbuf.length := Block.overwrite_length (by omega)
  rw [hc.pending_length] at hr
  refine ⟨?_, ?_, ?_, ?_⟩
  · change (ch.makeRoom junk).inofs + data.length - (ch.makeRoom junk).intogo ≤ _
    omega
  · change (ch.makeRoom junk).inofs + data.length ≤ _
    omega
  · change (Block.overwrite _ _ data).length ≤ _
    omega
  · change (ch.makeRoom junk).inmsglen.toNat ≤ maxMsgSize
    rw [hmoved.inmsglen]
    exact h.announced

theorem fillBuf_bounded {m : ℕ} {ch : MsgChannel} (h : Bounded m ch) : Bounded m ch.fillBuf := by
  rw [fillBuf]
  split
  · exact ⟨h.unread, h.offset, h.size, h.announced⟩
  · exact h

/-- Room is made for the frame behind what has been consumed. -/
theorem needLen_bounded {m : ℕ} {ch : MsgChannel} (hc : ch.Cursors) (h : Bounded m ch)
    (hlen : 4 ≤ ch.pending.length → ch.announced ≤ maxMsgSize) : Bounded m (ch.needLen junk) := by
  have hpending := hc.pending_length
  rw [needLen]
  split
  · next hfour =>
    have hannounced : (Word.value ch.pending).toNat ≤ maxMsgSize := hlen (by omega)
    have hround := roundUp_le ((Word.value ch.pending).toNat + (ch.intogo + 4))
    have hroom := size_room m
    have hunread := h.unread
    have hoffset := h.offset
    have hsize := h.size
    have hgrown := Block.enlarge_length junk ch.inbuf
      (roundUp ((Word.value ch.pending).toNat + (ch.intogo + 4)))
    refine fillBuf_bounded ⟨?_, hoffset, ?_, hannounced⟩
    · dsimp only
      omega
    · dsimp only
      split <;> omega
  · exact h

theorem updateState_bounded {m : ℕ} {ch : MsgChannel} (hc : ch.Cursors) (h : Bounded m ch)
    (hlen : ch.Announces → ch.announced ≤ maxMsgSize) : Bounded m (ch.updateState junk) := by
  rw [updateState]
  cases hs : ch.instate with
  | needLen => exact needLen_bounded junk hc h fun hfour => hlen ⟨hs, hfour⟩
  | fillBuf => exact fillBuf_bounded h
  | hasMsg => exact h
  | error => exact h

theorem inputNext_bounded {m : ℕ} {ch ch' : MsgChannel} (hc : ch.Cursors) (h : Bounded m ch)
    (e : InputEvent) (he : Modest m ch e) (hnext : inputNext junk ch e = some ch') :
    Bounded m ch' := by
  cases e with
  | read r =>
    obtain rfl := Option.some.inj hnext
    exact fill_bounded junk hc h r he
  | consume n =>
    have hunread := h.unread
    simp only [inputNext] at hnext
    split at hnext
    · obtain rfl := Option.some.inj hnext
      refine ⟨?_, h.offset, h.size, h.announced⟩
      dsimp only
      omega
    · cases hnext
  | next =>
    obtain rfl := Option.some.inj hnext
    exact ⟨h.unread, h.offset, h.size, h.announced⟩
  | update =>
    obtain rfl := Option.some.inj hnext
    exact updateState_bounded junk hc h he
  | error =>
    obtain rfl := Option.some.inj hnext
    exact ⟨h.unread, h.offset, h.size, h.announced⟩

theorem input_bounded {m : ℕ} {ch : MsgChannel} (h : (input junk).Reaches (Modest m) ch) :
    Bounded m ch := by
  induction h with
  | init hinit =>
    rw [hinit]
    exact created_bounded junk m
  | step e hreaches he hnext ih =>
    exact inputNext_bounded junk (input_cursors junk hreaches) ih e he hnext

/-- `update_state` warns of a length that is too large, and goes on. -/
theorem updateState_calm {ch : MsgChannel} (h : ch.instate ≠ .error) :
    (ch.updateState junk).instate ≠ .error := by
  have hfill : ∀ ch : MsgChannel, ch.instate ≠ .error → ch.fillBuf.instate ≠ .error := by
    intro ch h
    rw [fillBuf]
    split
    · simp
    · exact h
  rw [updateState]
  cases hs : ch.instate with
  | needLen =>
    simp only [needLen]
    split
    · exact hfill _ (by simp)
    · exact h
  | fillBuf => exact hfill ch h
  | hasMsg => exact h
  | error => exact absurd hs h

/-- Room is made for every frame. -/
theorem updateState_grows {ch : MsgChannel} (h : ch.Announces) :
    (ch.updateState junk).inmsglen = Word.value ch.pending ∧
      ch.announced ≤ (ch.updateState junk).inbuf.length := by
  have hfill : ∀ ch : MsgChannel,
      ch.fillBuf.inmsglen = ch.inmsglen ∧ ch.fillBuf.inbuf = ch.inbuf := by
    intro ch
    rw [fillBuf]
    split <;> exact ⟨rfl, rfl⟩
  have hfour : 4 ≤ ch.inofs - ch.intogo := h.2.trans (List.length_take_le _ _)
  have hgrown := Block.enlarge_length junk ch.inbuf
    (roundUp ((Word.value ch.pending).toNat + (ch.intogo + 4)))
  have hround := le_roundUp ((Word.value ch.pending).toNat + (ch.intogo + 4))
  have hstep : ch.updateState junk = ch.needLen junk := by rw [updateState, h.1]
  rw [hstep, needLen, if_pos hfour, (hfill _).1, (hfill _).2]
  refine ⟨rfl, ?_⟩
  rw [announced]
  dsimp only
  split <;> omega

theorem rejects_iff (ch : MsgChannel) :
    ch.Rejects junk ↔ (ch.Announces → ch.announced ≤ maxMsgSize) := by
  constructor
  · intro h hannounces
    by_contra hlarge
    have hcalm : ch.instate ≠ .error := by
      rw [hannounces.1]
      exact nofun
    exact updateState_calm junk hcalm (h hannounces (Nat.lt_of_not_le hlarge))
  · intro h hannounces hlarge
    exact absurd (h hannounces) (Nat.not_le.mpr hlarge)

end MsgChannel

/-! ## The calls of a channel -/

namespace Connection

variable {p : Platform}

/-- The calls so far have done nothing else to the input buffer. -/
def Made (p : Platform) (c : Connection) : Prop :=
  c.textBased = false → (MsgChannel.input p.junk).Reachable c.ch

theorem Made.event {c c' : Connection} (h : Made p c) (htext : c'.textBased = c.textBased)
    (e : InputEvent) (he : MsgChannel.inputNext p.junk c.ch e = some c'.ch) : Made p c' :=
  fun hbinary => .step e (h (htext ▸ hbinary)) trivial he

/-- In ERROR, or put into it -/
theorem Made.fail {c : Connection} (h : Made p c) (failed : Bool) :
    Made p { c with ch := { c.ch with instate := .error, eof := true }, failed := failed } :=
  h.event rfl .error rfl

theorem kept_made (p : Platform) : Kept p (Made p) where
  written _ _ h := h
  agreed _ _ _ h := h
  word hfour h := h.event rfl (.consume 4) (if_pos hfour)
  advance {c} h hbinary := by
    have htext : c.textBased = false := hbinary
    have hstep : (c.advance p).ch = c.ch.updateState p.junk := by simp [Connection.advance, htext]
    rw [hstep]
    exact .step .update (h htext) trivial rfl
  fill read h := h.event rfl (.read read) rfl
  quiet {c} h := by
    rw [quietError]
    split
    · exact h
    · exact h.fail true

theorem Made.cursors {c : Connection} (h : Made p c) (hbinary : c.textBased = false) :
    c.ch.Cursors := MsgChannel.input_cursors p.junk (h hbinary)

/-- `get_msg` goes on behind what it has consumed. -/
theorem consume_made {c : Connection} (h : Made p c) {rest : Bytes}
    (hrest : c.textBased = false → rest.length ≤ c.ch.inofs - c.ch.intogo) :
    Made p (c.consume rest) := by
  intro hbinary
  have hle := hrest hbinary
  have horder := (h.cursors hbinary).order
  have hstep : MsgChannel.inputNext p.junk c.ch
      (.consume (c.ch.inofs - c.ch.intogo - rest.length)) = some (c.consume rest).ch := by
    have hintogo : c.ch.intogo + (c.ch.inofs - c.ch.intogo - rest.length) =
        c.ch.inofs - rest.length := by omega
    rw [MsgChannel.inputNext, if_pos (Nat.sub_le _ _), hintogo]
    rfl
  exact .step (.consume (c.ch.inofs - c.ch.intogo - rest.length)) (h hbinary) trivial hstep

theorem deliver_made {c : Connection} (h : Made p c) (m : Msg) : Made p (deliver p m c).2 :=
  (kept_made p).advance (h.event rfl .next rfl)

section

variable {onError : Connection → Connection} (hend : ∀ c, Made p c → Made p (onError c))

include hend

theorem takeFrame_made {c : Connection} (h : Made p c) : Made p (c.takeFrame p onError).2 := by
  have hconsume := consume_made h fun hbinary => readMsg_le (p := p) (h.cursors hbinary)
  have hcheck : ∀ (m : Msg) (c' : Connection), Made p c' →
      Made p (checkLength p onError c.ch.intogo m c').2 := by
    intro m c' h'
    rw [checkLength]
    split
    · exact hend _ h'
    · exact deliver_made h' m
  simp only [takeFrame]
  split
  · exact hend _ hconsume
  · next m _ =>
    split
    · exact hcheck m _ (hend _ hconsume)
    · exact hcheck m _ hconsume

theorem takeMsg_made {c : Connection} (h : Made p c) (eofAllowed : Bool) :
    Made p (c.takeMsg p onError eofAllowed).2 := by
  simp only [takeMsg]
  split_ifs with heof hallowed hmsg htext
  · exact h
  · exact hend _ h
  · exact hend _ h
  · intro hbinary
    have hsame : (deliver p (.text (c.takeLine p).1) (c.takeLine p).2).2.textBased = c.textBased :=
      rfl
    rw [hsame, htext] at hbinary
    cases hbinary
  · exact takeFrame_made hend h

theorem getMsg_made {c : Connection} (h : Made p c) (eofAllowed : Bool) (as : List Arrival) :
    Made p (c.getMsg p onError eofAllowed as).2 := by
  have hwait := waitForMsg_kept (kept_made p) hend h as
  simp only [getMsg]
  split
  · exact takeMsg_made hend hwait eofAllowed
  · exact hwait

end

theorem setError_made (status : List Arrival) (c : Connection) (h : Made p c) :
    Made p (setError p status c) := by
  have hlast := getMsg_made (fun c h => (kept_made p).quiet h) h true status
  simp only [setError]
  split
  · exact h
  · exact hlast.fail true

theorem create_made (version minimum : ℕ) (textBased : Bool) (sends : List SendEvent)
    (status : List Arrival) : Made p (create p version minimum textBased sends status) := by
  have hnew : ∀ protocol needProto out wire, Made p
      { version := version, minimum := minimum, protocol := protocol, maximumRemoteProtocol := -1
        needProto := needProto, ch := MsgChannel.created p.junk, textBased := textBased, out := out
        wire := wire, failed := false } :=
    fun _ _ _ _ _ => .init rfl
  have hflush := flushWritebuf_kept (kept_made p) (setError_made status) (hnew (-1) (!textBased)
    ((⟨Block.enlarge p.junk [] 128, 0, 0, false⟩ : SendChannel).writefull p.junk (versionWord version))
    []) true sends
  simp only [create]
  split_ifs with htext hwritten
  · exact hnew _ _ _ _
  · exact hflush
  · exact setError_made status _ ((kept_made p).agreed 0 _ _ hflush)

theorem perform_made {c : Connection} (h : Made p c) (op : Op) : Made p (c.perform p op).1 := by
  cases op with
  | getMsg eofAllowed as status => exact getMsg_made (setError_made status) h eofAllowed as
  | sendMsg m blocking bulkOnly as sends status =>
    exact sendMsg_kept (kept_made p) (setError_made status) h m blocking bulkOnly as sends
  | readABit a status => exact readABit_kept (kept_made p) (setError_made status) h a
  | waitForProtocol as status =>
    exact waitForProtocol_kept (kept_made p) (setError_made status) h as

/-- Every channel gets its input buffer by runs of the five operations. -/
theorem reachable_made {c : Connection} (h : (system p).Reachable c) : Made p c := by
  refine h.invariant (fun c hinit => ?_) (fun c op c' hmade _ hnext => ?_)
  · obtain ⟨version, minimum, textBased, sends, status, rfl⟩ := hinit
    exact create_made version minimum textBased sends status
  · obtain rfl := Option.some.inj hnext
    exact perform_made hmade op

/-- A ping, as it arrives in the input buffer -/
def pingArrives : List InputEvent :=
  [.read (.data ([4, MsgType.ping.code].flatMap Word.bytes)), .update]

instance (m : ℕ) (ch : MsgChannel) : (e : InputEvent) → Decidable (MsgChannel.Modest m ch e)
  | .read _ => inferInstanceAs (Decidable (_ ≤ _))
  | .consume _ => .isTrue trivial
  | .next => .isTrue trivial
  | .update => inferInstanceAs (Decidable (_ ∧ _ → _))
  | .error => .isTrue trivial

/-- Data arrives behind the setup. -/
theorem readABit_arrives (onError : Connection → Connection) {c : Connection}
    (hbinary : c.textBased = false) (hproto : c.needProto = false)
    (hcalm : c.ch.instate ≠ .error) (bytes : Bytes) :
    (c.readABit p onError ⟨.data bytes, []⟩).1.ch =
      (c.ch.fill p.junk (.data bytes)).updateState p.junk := by
  have hfill : (c.ch.fill p.junk (.data bytes)).instate ≠ .error :=
    fun h => hcalm ((MsgChannel.makeRoom_instate p.junk c.ch).symm.trans h)
  have hupdate : updateState p onError { c with ch := c.ch.fill p.junk (.data bytes) } [] =
      ({ c with ch := (c.ch.fill p.junk (.data bytes)).updateState p.junk }, true) := by
    simp [updateState, advance, hproto, hbinary, hfill]
  have hread : ∀ ended : Bool, (if ended then Read.nothing else .data bytes) ≠ .failure := by
    intro ended
    cases ended with
    | true => simp
    | false => simp
  rw [readABit_fill]
  dsimp only
  rw [hupdate, if_neg]
  intro hfailed
  rcases hfailed with hfailed | hfailed
  · exact hread _ hfailed
  · cases hfailed

end Connection

end Icecream.Comm
