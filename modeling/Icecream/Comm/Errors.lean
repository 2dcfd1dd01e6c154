import Icecream.Comm.Connection

/-!
# Channels in ERROR

`set_error` says that nothing is returned once the state is ERROR. Every call keeps that,
but for one path of `get_msg`: it goes on to NEED_LEN behind a message whose
`readcompressed` has called `set_error`.
-/

namespace Icecream.Comm.Connection

/-- A channel that `set_error` was called for is in ERROR. -/
def Sound (c : Connection) : Prop := c.failed = true → c.ch.instate = .error

variable (p : Platform)

/-- With `status` to read in `set_error`, `get_msg` goes on to the next message behind one
that has failed: what was consumed in all is the length of the message. -/
def Relapses (status : List Arrival) (c : Connection) : Prop :=
  let r := readMsg p.compression c.protocol.toNat c.ch.window
  let c' := setError p status (c.consume r.2.rest)
  c.ch.instate = .hasMsg ∧ c.textBased = false ∧ r.1.isSome = true ∧ r.2.failed = true ∧
    c'.ch.intogo - c.ch.intogo = c'.ch.inmsglen.toNat

instance (status : List Arrival) (c : Connection) : Decidable (Relapses p status c) :=
  inferInstanceAs (Decidable (_ ∧ _ ∧ _ ∧ _ ∧ _))

/-- No message is taken that `Relapses`. -/
def Careful (c : Connection) : Op → Prop
  | .getMsg _ as status =>
    let r := c.waitForMsg p (setError p status) as
    ¬ (r.2 = true ∧ Relapses p status r.1)
  | _ => True

instance (c : Connection) : (op : Op) → Decidable (Careful p c op)
  | .getMsg .. => inferInstanceAs (Decidable (¬ _))
  | .sendMsg .. => .isTrue trivial
  | .readABit .. => .isTrue trivial
  | .waitForProtocol .. => .isTrue trivial

variable {p}

/-! ## One call -/

theorem Sound.of_error {c : Connection} (h : c.ch.instate = .error) : c.Sound := fun _ => h

theorem Sound.calm {c : Connection} (h : c.Sound) (hc : c.ch.instate ≠ .error) :
    c.failed = false := by
  cases hfailed : c.failed with
  | false => rfl
  | true => exact absurd (h hfailed) hc

theorem quietError_error (c : Connection) : c.quietError.ch.instate = .error := by
  by_cases hc : c.ch.instate = .error <;> simp [quietError, hc]

theorem setError_error (status : List Arrival) (c : Connection) :
    (setError p status c).ch.instate = .error := by
  by_cases hc : c.ch.instate = .error <;> simp [setError, hc]

theorem advance_error {c : Connection} (hc : c.ch.instate = .error) :
    (c.advance p).ch.instate = .error := by
  cases htext : c.textBased with
  | true => simp [advance, needLine, htext, hc]
  | false => simp [advance, MsgChannel.updateState, htext, hc]

theorem advance_sound {c : Connection} (h : c.Sound) : (c.advance p).Sound := by
  by_cases hc : c.ch.instate = .error
  · exact .of_error (advance_error hc)
  · have hcalm : (c.advance p).failed = false := h.calm hc
    intro hfailed
    simp [hcalm] at hfailed

theorem kept_sound (p : Platform) : Kept p Sound where
  written _ _ h := h
  agreed _ _ _ h := h
  word _ h := h
  advance h := advance_sound h
  fill _ h hfailed := (MsgChannel.makeRoom_instate p.junk _).trans (h hfailed)
  quiet _ := .of_error (quietError_error _)

theorem setError_sound (status : List Arrival) (c : Connection) (_ : c.Sound) :
    (setError p status c).Sound := .of_error (setError_error status c)

/-! ## `get_msg` -/

theorem taken {ch : MsgChannel} (heof : ch.atEof = false) (hmsg : ch.hasMsg = true) :
    ch.instate = .hasMsg := by
  by_contra hstate
  simp_all [MsgChannel.atEof, MsgChannel.hasMsg]

theorem deliver_sound {c : Connection} (h : c.failed = false) (m : Msg) :
    (deliver p m c).2.Sound := by
  have hfailed : (deliver p m c).2.failed = c.failed := rfl
  intro htrue
  simp [hfailed, h] at htrue

theorem takeFrame_sound {status : List Arrival} {c : Connection} (h : c.failed = false)
    (hstate : c.ch.instate = .hasMsg) (htext : c.textBased = false)
    (hrelapse : ¬ Relapses p status c) : (c.takeFrame p (setError p status)).2.Sound := by
  have hend := setError_error (p := p) status
  unfold takeFrame
  unfold Relapses at hrelapse
  generalize readMsg p.compression c.protocol.toNat c.ch.window = r at hrelapse
  obtain ⟨m, w⟩ := r
  cases m with
  | none => exact .of_error (hend _)
  | some m =>
    simp only [checkLength]
    by_cases hlen : (if w.failed then setError p status (c.consume w.rest)
        else c.consume w.rest).ch.intogo - c.ch.intogo =
        (if w.failed then setError p status (c.consume w.rest)
          else c.consume w.rest).ch.inmsglen.toNat
    · cases hfailed : w.failed with
      | false =>
        simp only [hfailed, Bool.false_eq_true, if_false] at hlen ⊢
        rw [if_neg (not_not.mpr hlen)]
        exact deliver_sound (c := c.consume w.rest) h m
      | true =>
        simp only [hfailed, if_true] at hlen
        exact absurd ⟨hstate, htext, rfl, hfailed, hlen⟩ hrelapse
    · rw [if_pos hlen]
      exact .of_error (hend _)

theorem takeMsg_sound {status : List Arrival} {c : Connection} (h : c.Sound)
    (hrelapse : ¬ Relapses p status c) (eofAllowed : Bool) :
    (c.takeMsg p (setError p status) eofAllowed).2.Sound := by
  have hend := setError_error (p := p) status
  unfold takeMsg
  cases heof : c.ch.atEof with
  | true =>
    simp only [if_true]
    exact iteInduction (fun _ => h) (fun _ => .of_error (hend _))
  | false =>
    cases hmsg : c.ch.hasMsg with
    | false => exact .of_error (hend _)
    | true =>
      have hstate := taken heof hmsg
      have hcalm : c.failed = false := h.calm (by simp [hstate])
      cases htext : c.textBased with
      | true => exact deliver_sound (c := (c.takeLine p).2) hcalm _
      | false => exact takeFrame_sound hcalm hstate htext hrelapse

theorem perform_sound {c : Connection} (h : c.Sound) (op : Op) (hop : Careful p c op) :
    (c.perform p op).1.Sound := by
  cases op with
  | getMsg eofAllowed as status =>
    have hwait := waitForMsg_kept (kept_sound p) (setError_sound (p := p) status) h as
    simp only [perform, getMsg]
    split
    · next hmsg => exact takeMsg_sound hwait (fun hrelapse => hop ⟨hmsg, hrelapse⟩) eofAllowed
    · exact hwait
  | sendMsg m blocking bulkOnly as sends status =>
    exact sendMsg_kept (kept_sound p) (setError_sound status) h m blocking bulkOnly as sends
  | readABit a status => exact readABit_kept (kept_sound p) (setError_sound status) h a
  | waitForProtocol as status =>
    exact waitForProtocol_kept (kept_sound p) (setError_sound status) h as

theorem create_sound (version minimum : ℕ) (textBased : Bool) (sends : List SendEvent)
    (status : List Arrival) : (create p version minimum textBased sends status).Sound := by
  have hend := setError_error (p := p) status
  unfold create
  dsimp only
  split_ifs
  · intro hfailed
    simp at hfailed
  · refine flushWritebuf_kept (kept_sound p) (setError_sound status) (fun hfailed => ?_) true sends
    simp at hfailed
  · exact .of_error (hend _)

/-! ## Runs -/

theorem careful_sound {c : Connection} (h : (system p).Reaches (Careful p) c) : c.Sound := by
  refine h.invariant (fun c hinit => ?_) (fun c op c' hsound hop hnext => ?_)
  · obtain ⟨version, minimum, textBased, sends, status, rfl⟩ := hinit
    exact create_sound version minimum textBased sends status
  · obtain rfl := Option.some.inj hnext
    exact perform_sound hsound op hop

theorem readABit_error {c : Connection} (hc : c.ch.instate = .error) (a : Arrival)
    (status : List Arrival) :
    (c.readABit p (setError p status) a).1.ch.instate = .error ∧
      (c.readABit p (setError p status) a).1.wire = c.wire := by
  have hroom : (c.ch.makeRoom p.junk).instate = .error :=
    (MsgChannel.makeRoom_instate p.junk c.ch).trans hc
  simp [readABit, updateState, quietError, setError, hroom]

/-- In ERROR no call does anything that is seen. -/
theorem perform_error {c : Connection} (hc : c.ch.instate = .error) (op : Op) :
    (c.perform p op).1.ch.instate = .error ∧ (c.perform p op).1.wire = c.wire ∧
      (c.perform p op).2 = {} := by
  cases op with
  | getMsg eofAllowed as status => simp [perform, getMsg, waitForMsg, hc]
  | sendMsg m blocking bulkOnly as sends status => simp [perform, sendMsg, hc]
  | readABit a status =>
    have hread := readABit_error (p := p) hc a status
    exact ⟨hread.1, hread.2, rfl⟩
  | waitForProtocol as status => simp [perform, waitForProtocol, hc]

/-- In ERROR, with nothing written behind `wire` -/
def Silent (wire : Bytes) (c : Connection) : Prop := c.ch.instate = .error ∧ c.wire = wire

theorem stays_in_error (p : Platform) {c : Connection} (h : (system p).Reaches (Careful p) c)
    (hfailed : c.failed = true) {c' : Connection}
    (hlater : (system p).Steps (fun _ _ => True) c c') :
    c'.ch.instate = .error ∧ c'.wire = c.wire ∧ ∀ op, (c'.perform p op).2 = {} := by
  have hstays : Silent c.wire c' := by
    refine hlater.invariant ⟨careful_sound h hfailed, rfl⟩ (fun c₁ op c₂ hinv _ hnext => ?_)
    obtain rfl := Option.some.inj hnext
    have hop := perform_error (p := p) hinv.1 op
    exact ⟨hop.1, hop.2.1.trans hinv.2⟩
  exact ⟨hstays.1, hstays.2, fun op => (perform_error hstays.1 op).2.2⟩

theorem advance_instate {c : Connection} (hc : c.ch.instate = .needLen) :
    (c.advance p).ch.instate ≠ .error := by
  cases htext : c.textBased with
  | true =>
    simp only [advance, htext, if_true, needLine, hc]
    split <;> simp
  | false =>
    simp only [advance, htext, Bool.false_eq_true, if_false, MsgChannel.updateState, hc,
      MsgChannel.needLen, MsgChannel.fillBuf]
    split_ifs <;> simp [hc]

theorem setError_failed (status : List Arrival) {c : Connection} (hc : c.ch.instate ≠ .error) :
    (setError p status c).failed = true := by simp [setError, hc]

theorem takeMsg_relapses {status : List Arrival} {c : Connection} (h : Relapses p status c)
    (eofAllowed : Bool) : (c.takeMsg p (setError p status) eofAllowed).2.failed = true ∧
      (c.takeMsg p (setError p status) eofAllowed).2.ch.instate ≠ .error := by
  obtain ⟨hstate, htext, hsome, hfailed, hlen⟩ := h
  obtain ⟨m, hm⟩ := Option.isSome_iff_exists.mp hsome
  have htake : c.takeMsg p (setError p status) eofAllowed = deliver p m (setError p status
      (c.consume (readMsg p.compression c.protocol.toNat c.ch.window).2.rest)) := by
    simp [takeMsg, MsgChannel.atEof, MsgChannel.hasMsg, hstate, htext, takeFrame, hm, checkLength,
      hfailed, hlen]
  rw [htake]
  refine ⟨setError_failed status ?_, advance_instate rfl⟩
  simp [consume, hstate]

/-- Careful runs leave out no call that keeps ERROR. -/
theorem relapse_revives {c : Connection} {op : Op} (h : ¬ Careful p c op) :
    (c.perform p op).1.failed = true ∧ (c.perform p op).1.ch.instate ≠ .error := by
  cases op with
  | getMsg eofAllowed as status =>
    obtain ⟨hwait, hrelapse⟩ := not_not.mp h
    have htake := takeMsg_relapses hrelapse eofAllowed
    simpa only [perform, getMsg, hwait, if_true] using htake
  | sendMsg m blocking bulkOnly as sends status => exact absurd trivial h
  | readABit a status => exact absurd trivial h
  | waitForProtocol as status => exact absurd trivial h

/-! ## Two runs -/

/-- Nothing is compressed, and writes are not cut. -/
def plain : Platform where
  compression := .stored
  junk _ := 0
  control b := b < 32
  maxWriteSize := 2 ^ 20

def agreed : Connection := create plain 45 21 false [.sent 4] []

theorem agreed_init : (system plain).init agreed := ⟨45, 21, false, [.sent 4], [], rfl⟩

def setup : Op := .readABit ⟨.data (versionWord 45 ++ versionWord 45), [.sent 4]⟩ []

def receiving (words : List UInt32) : Op :=
  .getMsg false [⟨.data (words.flatMap Word.bytes), []⟩] []

def sending : Op := .sendMsg .ping true false [] [.sent 8] []

theorem stays_in_error_unknown : ∃ c c', (system plain).Reaches (Careful plain) c ∧
    c.failed = true ∧ (system plain).Steps (fun _ _ => True) c c' ∧ c'.ch.instate = .error ∧
    c'.wire = c.wire ∧ ∀ op, (c'.perform plain op).2 = {} := by
  -- a message of a type that does not exist
  have hrun : (((system plain).run (Careful plain) agreed
      [setup, receiving [4, 0]]).map fun c => c.failed) = some true := by
    decide +kernel
  obtain ⟨c, hc, hfailed⟩ := Option.map_eq_some_iff.mp hrun
  have hreaches := (Transition.System.Reaches.init agreed_init).run hc
  have hlater : (system plain).Steps (fun _ _ => True) c (c.perform plain sending).1 :=
    .step sending .refl trivial rfl
  exact ⟨c, _, hreaches, hfailed, hlater, stays_in_error plain hreaches hfailed hlater⟩

/-- A chunk of a compression that does not exist calls `set_error`, and is delivered. The ping
behind it is delivered too, and what is sent then is written. -/
theorem revives : ∃ c, (system plain).Reachable c ∧ c.failed = true ∧
    (c.perform plain (.getMsg false [] [])).2.message = some .ping ∧
    (c.perform plain sending).2.sent = true ∧
    (c.perform plain sending).1.wire = c.wire ++ [0, 0, 0, 4, 0, 0, 0, 66] := by
  have hrun : (((system plain).exec agreed
      [setup, receiving [20, MsgType.fileChunk.code, 0, 0, 7, 0, 4, MsgType.ping.code]]).map fun c =>
        (c.failed, (c.perform plain (.getMsg false [] [])).2.message,
          (c.perform plain sending).2.sent,
          decide ((c.perform plain sending).1.wire = c.wire ++ [0, 0, 0, 4, 0, 0, 0, 66]))) =
      some (true, some .ping, true, true) := by
    decide +kernel
  obtain ⟨c, hc, heq⟩ := Option.map_eq_some_iff.mp hrun
  simp only [Prod.mk.injEq, decide_eq_true_eq] at heq
  have hreaches := (Transition.System.Reaches.init agreed_init).exec (fun _ _ _ => trivial) hc
  exact ⟨c, hreaches, heq⟩

end Icecream.Comm.Connection
