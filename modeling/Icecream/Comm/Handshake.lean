import Icecream.Comm.Channel
import Icecream.Library.Transition

/-!
# The protocol setup

`update_state` in NEED_PROTO: each side writes its version, answers the version it reads
with the smaller of the two, and takes the answer it reads. One variable tells how far a
side is: -1 at first, below -1 once it has answered, positive when it has agreed.
-/

namespace Icecream.Comm

/-- Version words go least significant byte first. -/
def versionWord (n : ℕ) : Bytes := (Word.bytes (UInt32.ofNat n)).reverse

def versionValue (p : Bytes) : ℕ := (Word.value (p.take 4).reverse).toNat

/-- A channel from its constructor on. While `needProto` the state is NEED_PROTO or ERROR
and `ch` only has the buffers. -/
structure Peer where
  version : ℕ
  minimum : ℕ
  protocol : ℤ
  maximumRemoteProtocol : ℤ
  needProto : Bool
  ch : MsgChannel
  deriving DecidableEq

namespace Peer

variable (junk : ℕ → UInt8)

/-- What the constructor leaves; it also writes the version. -/
def create (version minimum : ℕ) : Peer where
  version := version
  minimum := minimum
  protocol := -1
  maximumRemoteProtocol := -1
  needProto := true
  ch := ⟨Block.enlarge junk [] 128, 0, 0, .needLen, 0, false⟩

/-- `set_error` can read on for a status message, which nothing is read for here: the
protocol is 0 and stays 0. -/
def setError (p : Peer) : Peer := { p with ch := p.ch.quietError }

inductive Turn
  | again | done | failed
  deriving DecidableEq

/-- One turn of the loop: a word is read, and perhaps one written. -/
def setupWord (p : Peer) : Peer × Bytes × Turn :=
  if p.protocol = 0 then (p, [], .failed)
  else
    let remote := versionValue p.ch.pending
    let p := { p with ch := { p.ch with intogo := p.ch.intogo + 4 } }
    if p.protocol = -1 then
      if remote < p.minimum ∨ 2 ^ 20 < remote then (setError { p with protocol := 0 }, [], .failed)
      else
        let agreed := min remote p.version
        ({ p with maximumRemoteProtocol := remote, protocol := -1 - agreed },
          versionWord agreed, .again)
    else if p.protocol < -1 then
      let agreed := -(p.protocol + 1)
      if (remote : ℤ) ≠ agreed then (setError { p with protocol := 0 }, [], .failed)
      else ({ p with protocol := agreed, needProto := false }, [], .done)
    else (p.setError, [], .failed)

/-- The loop, with what it writes, and false when it fails. -/
def setupLoop : ℕ → Peer → Peer × Bytes × Bool
  | 0, p => (p, [], true)
  | fuel + 1, p =>
    if p.ch.inofs - p.ch.intogo < 4 then (p, [], true)
    else match p.setupWord with
      | (p, out, .again) =>
        let r := setupLoop fuel p
        (r.1, out ++ r.2.1, r.2.2)
      | (p, out, .done) => (p, out, true)
      | (p, out, .failed) => (p, out, false)

/-- `update_state` from NEED_PROTO on; the loop's end may be that of the setup. -/
def updateState (p : Peer) : Peer × Bytes × Bool :=
  if p.ch.instate = .error then (p, [], false)
  else
    let r := if p.needProto then setupLoop (p.ch.inofs - p.ch.intogo) p else (p, [], true)
    if r.1.needProto then r
    else ({ r.1 with ch := MsgChannel.updateState junk r.1.ch }, r.2)

/-- `read_a_bit` when up to `n` bytes arrive. -/
def readABit (p : Peer) (n : ℕ) (socket : Bytes) : Peer × Bytes × Bytes :=
  let ch := p.ch.makeRoom junk
  let data := if ch.eof then [] else socket.take (min n (ch.inbuf.length - ch.inofs))
  let r := updateState junk { p with ch := { ch with
    inbuf := Block.overwrite ch.inbuf ch.inofs data, inofs := ch.inofs + data.length } }
  (if r.2.2 then r.1 else r.1.setError, r.2.1, socket.drop data.length)

end Peer

/-! ## Two sides -/

/-- `flight i` is on its way to side `i`, `wrote i` what side `i` has written so far. -/
structure Setup where
  peer : Bool → Peer
  flight : Bool → Bytes
  wrote : Bool → Bytes

namespace Setup

inductive Event
  | read (i : Bool) (n : ℕ)
  /-- a side that has agreed sends messages -/
  | send (i : Bool) (data : Bytes)

variable (junk : ℕ → UInt8)

def write (s : Setup) (i : Bool) (data : Bytes) : Setup :=
  { s with
    flight := Function.update s.flight (!i) (s.flight (!i) ++ data)
    wrote := Function.update s.wrote i (s.wrote i ++ data) }

def next (s : Setup) : Event → Option Setup
  | .read i n =>
    let r := (s.peer i).readABit junk n (s.flight i)
    some (write { s with
      peer := Function.update s.peer i r.1, flight := Function.update s.flight i r.2.2 } i r.2.1)
  | .send i data => if (s.peer i).needProto then none else some (s.write i data)

/-- Both constructors have run. -/
def start (version minimum : Bool → ℕ) : Setup where
  peer i := .create junk (version i) (minimum i)
  flight i := versionWord (version (!i))
  wrote i := versionWord (version i)

def system (version minimum : Bool → ℕ) : Transition.System Setup Event where
  init s := s = start junk version minimum
  next := next junk

end Setup

/-! ## Words -/

theorem versionWord_length (n : ℕ) : (versionWord n).length = 4 := rfl

theorem versionValue_word {n : ℕ} (hn : n < 2 ^ 32) {p flight rest : Bytes} (hp : 4 ≤ p.length)
    (h : p ++ flight = versionWord n ++ rest) :
    versionValue p = n ∧ p.drop 4 ++ flight = rest := by
  have hlen : 4 = (versionWord n).length := rfl
  have htake : p.take 4 = versionWord n := by
    have hboth := congrArg (List.take 4) h
    rwa [List.take_append_of_le_length hp, List.take_left' hlen.symm] at hboth
  have hdrop : p.drop 4 ++ flight = rest := by
    have hboth := congrArg (List.drop 4) h
    rwa [List.drop_append_of_le_length hp, List.drop_left' hlen.symm] at hboth
  constructor
  · have hvalue := Word.value_bytes (UInt32.ofNat n) []
    rw [List.append_nil] at hvalue
    rw [versionValue, htake, versionWord, List.reverse_reverse, hvalue]
    exact Word.ofNat_toNat_of_lt hn
  · exact hdrop

namespace MsgChannel

/-- Bytes that are there are consumed. -/
theorem skip_pending {ch : MsgChannel} (h : ch.Cursors) {n : ℕ} (hn : n ≤ ch.inofs - ch.intogo) :
    Cursors { ch with intogo := ch.intogo + n } ∧
      pending { ch with intogo := ch.intogo + n } = ch.pending.drop n := by
  have hord := h.order
  constructor
  · exact ⟨by change ch.intogo + n ≤ ch.inofs; omega, h.inside⟩
  · have hslice := Block.drop_slice ch.inbuf ch.intogo n (ch.inofs - ch.intogo - n)
    have hcount : n + (ch.inofs - ch.intogo - n) = ch.inofs - ch.intogo := by omega
    have hrest : ch.inofs - (ch.intogo + n) = ch.inofs - ch.intogo - n := by omega
    rw [hcount] at hslice
    change Block.slice ch.inbuf (ch.intogo + n) (ch.inofs - (ch.intogo + n)) = _
    rw [hrest, ← hslice, pending]

end MsgChannel

namespace Peer

variable (junk : ℕ → UInt8)

/-! ## One side -/

/-- What side `p` has made of `wrote`, the bytes of the other side, of which `flight` are
still on their way. -/
inductive Heard (p : Peer) (other agreed : ℕ) (flight wrote : Bytes) : Prop
  | first : p.needProto = true → p.protocol = -1 → wrote = p.ch.pending ++ flight →
      Heard p other agreed flight wrote
  | second : p.needProto = true → p.protocol = -1 - agreed →
      wrote = versionWord other ++ (p.ch.pending ++ flight) → Heard p other agreed flight wrote
  | agreed : p.needProto = false → p.protocol = agreed →
      wrote = versionWord other ++ (versionWord agreed ++ (p.ch.ahead ++ flight)) →
      Heard p other agreed flight wrote

/-- What the other side writes: its version, then what it agrees to and anything. -/
def Writes (other agreed : ℕ) (wrote : Bytes) : Prop :=
  wrote = versionWord other ∨ ∃ rest, wrote = versionWord other ++ (versionWord agreed ++ rest)

/-- The versions fit. -/
structure Fits (p : Peer) (other : ℕ) : Prop where
  known : p.minimum ≤ other
  small : other < 256
  own : 0 < p.version
  positive : 0 < other

/-- What stays and what is written when `p` becomes `p'`. -/
structure Step (p p' : Peer) (agreed : ℕ) (out : Bytes) : Prop where
  version : p'.version = p.version
  minimum : p'.minimum = p.minimum
  eof : p'.ch.eof = p.ch.eof
  out : (out = [] ∧ (p'.protocol = -1 ↔ p.protocol = -1)) ∨
    (out = versionWord agreed ∧ p.protocol = -1 ∧ p'.protocol ≠ -1)

theorem Step.refl (p : Peer) (agreed : ℕ) : Step p p agreed [] :=
  ⟨rfl, rfl, rfl, Or.inl ⟨rfl, Iff.rfl⟩⟩

theorem Step.trans {p p' p'' : Peer} {agreed : ℕ} {out out' : Bytes} (h : Step p p' agreed out)
    (h' : Step p' p'' agreed out') : Step p p'' agreed (out ++ out') where
  version := h'.version.trans h.version
  minimum := h'.minimum.trans h.minimum
  eof := h'.eof.trans h.eof
  out := by
    rcases h.out with ⟨rfl, hsame⟩ | ⟨rfl, hbefore, hafter⟩
    · rcases h'.out with ⟨rfl, hsame'⟩ | ⟨rfl, hbefore', hafter'⟩
      · exact Or.inl ⟨rfl, hsame'.trans hsame⟩
      · exact Or.inr ⟨rfl, hsame.mp hbefore', hafter'⟩
    · rcases h'.out with ⟨rfl, hsame'⟩ | ⟨rfl, hbefore', -⟩
      · exact Or.inr ⟨List.append_nil _, hbefore, fun hback => hafter (hsame'.mp hback)⟩
      · exact absurd hbefore' hafter

/-- After the first word, with the answer written. -/
def answered (p : Peer) (other : ℕ) : Peer :=
  { p with
    ch := { p.ch with intogo := p.ch.intogo + 4 }
    maximumRemoteProtocol := other
    protocol := -1 - (min other p.version : ℕ) }

/-- After the second word. -/
def settled (p : Peer) (agreed : ℕ) : Peer :=
  { p with
    ch := { p.ch with intogo := p.ch.intogo + 4 }
    protocol := agreed
    needProto := false }

theorem setupWord_first {p : Peer} {other : ℕ} (hfits : p.Fits other)
    (hprotocol : p.protocol = -1) (hvalue : versionValue p.ch.pending = other) :
    p.setupWord = (p.answered other, versionWord (min other p.version), .again) := by
  have hsmall := hfits.small
  have hin : ¬ (other < p.minimum ∨ 2 ^ 20 < other) := by
    have hknown := hfits.known
    omega
  unfold setupWord
  rw [if_neg (by rw [hprotocol]; decide)]
  dsimp only
  rw [if_pos hprotocol, hvalue, if_neg hin]
  rfl

theorem setupWord_second {p : Peer} {agreed : ℕ} (hpos : 0 < agreed)
    (hprotocol : p.protocol = -1 - agreed) (hvalue : versionValue p.ch.pending = agreed) :
    p.setupWord = (p.settled agreed, [], .done) := by
  have hmine : -(p.protocol + 1) = agreed := by omega
  unfold setupWord
  rw [if_neg (by omega)]
  dsimp only
  rw [if_neg (by omega), if_pos (by omega), hvalue, hmine, if_neg (by simp)]
  rfl

/-- What the loop comes to. -/
structure Looped (p : Peer) (other agreed : ℕ) (flight wrote : Bytes) (r : Peer × Bytes × Bool) :
    Prop where
  ok : r.2.2 = true
  step : Step p r.1 agreed r.2.1
  heard : r.1.Heard other agreed flight wrote
  cursors : r.1.ch.Cursors
  instate : r.1.ch.instate = .needLen
  short : r.1.needProto = true → r.1.ch.pending.length < 4

/-- The loop takes the words there are and leaves what is behind them. -/
theorem setupLoop_looped {other agreed : ℕ} {flight wrote : Bytes} (fuel : ℕ) {p : Peer}
    (hfits : p.Fits other) (hagreed : agreed = min other p.version)
    (hfuel : p.ch.inofs - p.ch.intogo ≤ fuel) (hneed : p.needProto = true)
    (hcursors : p.ch.Cursors) (hstate : p.ch.instate = .needLen)
    (hwrote : Writes other agreed wrote) (h : p.Heard other agreed flight wrote) :
    Looped p other agreed flight wrote (p.setupLoop fuel) := by
  induction fuel generalizing p with
  | zero =>
    have hlen := hcursors.pending_length
    have hshort : p.ch.pending.length < 4 := by omega
    exact ⟨rfl, .refl p agreed, h, hcursors, hstate, fun _ => hshort⟩
  | succ fuel ih =>
    have hlen := hcursors.pending_length
    unfold setupLoop
    by_cases hshort : p.ch.inofs - p.ch.intogo < 4
    · rw [if_pos hshort]
      have hshort' : p.ch.pending.length < 4 := by omega
      exact ⟨rfl, .refl p agreed, h, hcursors, hstate, fun _ => hshort'⟩
    · rw [if_neg hshort]
      obtain ⟨hskip, hpending⟩ := MsgChannel.skip_pending hcursors (not_lt.mp hshort)
      have hfour : 4 ≤ p.ch.pending.length := by omega
      have hsmall := hfits.small
      have hown := hfits.own
      have hpositive := hfits.positive
      cases h with
      | first _ hprotocol heq =>
        have hword : ∃ rest, p.ch.pending ++ flight = versionWord other ++ rest := by
          rw [← heq]
          rcases hwrote with hone | ⟨rest, hmore⟩
          · exact ⟨[], hone.trans (List.append_nil _).symm⟩
          · exact ⟨_, hmore⟩
        obtain ⟨rest, hword⟩ := hword
        obtain ⟨hvalue, hrest⟩ := versionValue_word (by omega) hfour hword
        have hsecond : (p.answered other).Heard other agreed flight wrote := by
          apply Heard.second
          · exact hneed
          · rw [hagreed]
            rfl
          · change wrote = versionWord other ++ (MsgChannel.pending { p.ch with
              intogo := p.ch.intogo + 4 } ++ flight)
            rw [hpending, hrest, heq, hword]
        have hloop := ih (p := p.answered other) ⟨hfits.known, hsmall, hown, hpositive⟩ hagreed
          (by change p.ch.inofs - (p.ch.intogo + 4) ≤ fuel; omega) hneed hskip hstate hsecond
        have hstep : Step p (p.answered other) agreed (versionWord agreed) := by
          refine ⟨rfl, rfl, rfl, Or.inr ⟨rfl, hprotocol, ?_⟩⟩
          change -1 - ((min other p.version : ℕ) : ℤ) ≠ -1
          omega
        rw [setupWord_first hfits hprotocol hvalue, ← hagreed]
        exact ⟨hloop.ok, hstep.trans hloop.step, hloop.heard, hloop.cursors, hloop.instate,
          hloop.short⟩
      | second _ hprotocol heq =>
        have hword : ∃ rest, p.ch.pending ++ flight = versionWord agreed ++ rest := by
          rcases hwrote with hone | ⟨rest, hmore⟩
          · -- nothing has been written behind the version
            have hcount := congrArg List.length (hone.symm.trans heq)
            simp only [List.length_append, versionWord_length] at hcount
            omega
          · exact ⟨rest, List.append_cancel_left (heq.symm.trans hmore)⟩
        obtain ⟨rest, hword⟩ := hword
        have hpos : 0 < agreed := by omega
        obtain ⟨hvalue, hrest⟩ := versionValue_word (by omega) hfour hword
        have hsettled : (p.settled agreed).Heard other agreed flight wrote := by
          apply Heard.agreed
          · rfl
          · rfl
          · have hahead : (p.settled agreed).ch.ahead = p.ch.pending.drop 4 := by
              rw [← hpending]
              simp only [MsgChannel.ahead, settled, hstate]
            rw [hahead, hrest, heq, hword]
        have hstep : Step p (p.settled agreed) agreed [] := by
          refine ⟨rfl, rfl, rfl, Or.inl ⟨rfl, ?_⟩⟩
          change ((agreed : ℕ) : ℤ) = -1 ↔ p.protocol = -1
          omega
        rw [setupWord_second hpos hprotocol hvalue]
        exact ⟨rfl, hstep, hsettled, hskip, hstate, Bool.noConfusion⟩
      | agreed hno _ _ =>
        rw [hneed] at hno
        exact absurd hno (by decide)

/-- A side between two reads. -/
structure Ready (p : Peer) (other agreed : ℕ) (flight wrote : Bytes) : Prop where
  heard : p.Heard other agreed flight wrote
  ok : p.ch.Ok
  alive : p.ch.instate ≠ .error
  eof : p.ch.eof = false
  needLen : p.needProto = true → p.ch.instate = .needLen

theorem take_append_drop_length (k : ℕ) (socket : Bytes) :
    socket.take k ++ socket.drop (socket.take k).length = socket := by
  rw [List.length_take]
  rcases le_total k socket.length with h | h
  · rw [min_eq_left h, List.take_append_drop]
  · rw [min_eq_right h, List.take_of_length_le h, List.drop_length, List.append_nil]

theorem Heard.arrive {p : Peer} {other agreed : ℕ} {flight wrote data rest : Bytes} {ch : MsgChannel}
    (h : p.Heard other agreed flight wrote) (hflight : data ++ rest = flight)
    (hahead : ch.ahead = p.ch.ahead ++ data) (hpending : p.needProto = true →
      ch.pending = p.ch.pending ++ data) :
    Heard { p with ch := ch } other agreed rest wrote := by
  subst hflight
  cases h with
  | first hneed hprotocol heq =>
    apply Heard.first
    · exact hneed
    · exact hprotocol
    · rw [heq, hpending hneed, List.append_assoc]
  | second hneed hprotocol heq =>
    apply Heard.second
    · exact hneed
    · exact hprotocol
    · rw [heq, hpending hneed, List.append_assoc]
  | agreed hneed hprotocol heq =>
    apply Heard.agreed
    · exact hneed
    · exact hprotocol
    · rw [heq, hahead, List.append_assoc]

theorem ahead_needLen {ch : MsgChannel} (h : ch.instate = .needLen) : ch.ahead = ch.pending := by
  simp only [MsgChannel.ahead, h]

theorem updateState_looped {p : Peer} {other agreed : ℕ} {flight wrote : Bytes}
    (hfits : p.Fits other) (hagreed : agreed = min other p.version)
    (hwrote : Writes other agreed wrote) (hheard : p.Heard other agreed flight wrote)
    (hfilled : p.ch.Filled) (halive : p.ch.instate ≠ .error)
    (hneed : p.needProto = true → p.ch.instate = .needLen) (heof : p.ch.eof = false) :
    (p.updateState junk).2.2 = true ∧ Step p (p.updateState junk).1 agreed (p.updateState junk).2.1 ∧
      (p.updateState junk).1.Ready other agreed flight wrote := by
  have hrest : ∀ (q : Peer) (out : Bytes), q.needProto = false → q.ch.Filled →
      q.ch.instate ≠ .error → Step p q agreed out → q.Heard other agreed flight wrote →
      Step p { q with ch := MsgChannel.updateState junk q.ch } agreed out ∧
        Ready { q with ch := MsgChannel.updateState junk q.ch } other agreed flight wrote := by
    intro q out hdone hq halive hstep hheard
    obtain ⟨hok, hahead, hsame, herror⟩ := MsgChannel.updateState_spec junk hq
    constructor
    · exact ⟨hstep.version, hstep.minimum, hsame.trans hstep.eof, hstep.out⟩
    · constructor
      · apply hheard.arrive (List.nil_append _)
        · rw [hahead, List.append_nil]
        · intro hneed
          rw [hdone] at hneed
          simp at hneed
      · exact hok
      · exact fun h => halive (herror.mp h)
      · exact (hsame.trans hstep.eof).trans heof
      · intro hneed
        rw [show ({ q with ch := MsgChannel.updateState junk q.ch } : Peer).needProto =
          q.needProto from rfl, hdone] at hneed
        simp at hneed
  unfold updateState
  rw [if_neg halive]
  dsimp only
  by_cases hproto : p.needProto = true
  · rw [if_pos hproto]
    have hloop := setupLoop_looped (p.ch.inofs - p.ch.intogo) hfits hagreed le_rfl hproto
      hfilled.toCursors (hneed hproto) hwrote hheard
    generalize setupLoop (p.ch.inofs - p.ch.intogo) p = r at hloop ⊢
    by_cases hdone : r.1.needProto = true
    · rw [if_pos hdone]
      have hshort := hloop.short hdone
      have hready : r.1.Ready other agreed flight wrote :=
        { heard := hloop.heard
          ok := ⟨hloop.cursors, fun _ => hshort, by simp [hloop.instate], by simp [hloop.instate]⟩
          alive := by simp [hloop.instate]
          eof := hloop.step.eof.trans heof
          needLen := fun _ => hloop.instate }
      exact ⟨hloop.ok, hloop.step, hready⟩
    · rw [if_neg hdone]
      have hafter := hrest r.1 r.2.1 (by simpa using hdone)
        ⟨hloop.cursors, by simp [hloop.instate]⟩ (by simp [hloop.instate]) hloop.step hloop.heard
      exact ⟨hloop.ok, hafter⟩
  · rw [if_neg hproto]
    dsimp only
    rw [if_neg hproto]
    have hafter := hrest p [] (by simpa using hproto) hfilled halive (.refl p agreed) hheard
    exact ⟨rfl, hafter⟩

/-- A side that reads goes on with the words and keeps what is behind them. -/
theorem readABit_ready {p : Peer} {other agreed : ℕ} {flight wrote : Bytes} (n : ℕ)
    (hfits : p.Fits other) (hagreed : agreed = min other p.version)
    (hwrote : Writes other agreed wrote) (h : p.Ready other agreed flight wrote) :
    (p.readABit junk n flight).1.Ready other agreed (p.readABit junk n flight).2.2 wrote ∧
      Step p (p.readABit junk n flight).1 agreed (p.readABit junk n flight).2.1 := by
  have hmoved := MsgChannel.makeRoom_moved junk h.ok.toCursors
  have hok := hmoved.ok h.ok
  have heof : (p.ch.makeRoom junk).eof = false := hmoved.eof.trans h.eof
  have hopen : ¬ (p.ch.makeRoom junk).eof = true := by simp [heof]
  unfold readABit
  dsimp only
  simp only [if_neg hopen]
  generalize p.ch.makeRoom junk = ch at hmoved hok heof ⊢
  generalize hdata : flight.take (min n (ch.inbuf.length - ch.inofs)) = data
  have hroom : ch.inofs + data.length ≤ ch.inbuf.length := by
    have hinside := hok.inside
    have hlen : data.length ≤ ch.inbuf.length - ch.inofs := by
      rw [← hdata, List.length_take]
      exact (min_le_left _ _).trans (min_le_right _ _)
    omega
  have hsplit : data ++ flight.drop data.length = flight := by
    rw [← hdata]
    exact take_append_drop_length _ _
  obtain ⟨hfilled, hahead⟩ := MsgChannel.arrive_filled hok hroom
  have hsame : ch.ahead = p.ch.ahead := hmoved.ahead
  have hinstate : ch.instate = p.ch.instate := hmoved.instate
  have hheard : Heard { p with ch := { ch with
      inbuf := Block.overwrite ch.inbuf ch.inofs data, inofs := ch.inofs + data.length } }
      other agreed (flight.drop data.length) wrote := by
    apply h.heard.arrive hsplit
    · rw [hahead, hsame]
    · intro hneed
      have hlen := h.needLen hneed
      have hlen' := hinstate.trans hlen
      rw [← ahead_needLen hlen, ← hsame, ← hahead]
      symm
      apply ahead_needLen
      exact hlen'
  obtain ⟨hgood, hstep, hready⟩ := updateState_looped junk (p := { p with ch := { ch with
      inbuf := Block.overwrite ch.inbuf ch.inofs data, inofs := ch.inofs + data.length } })
    ⟨hfits.known, hfits.small, hfits.own, hfits.positive⟩ hagreed hwrote hheard hfilled
    (by rw [hinstate]; exact h.alive) (fun hneed => hinstate.trans (h.needLen hneed)) heof
  rw [hgood, if_pos rfl]
  exact ⟨hready, ⟨hstep.version, hstep.minimum, hstep.eof.trans hmoved.eof, hstep.out⟩⟩

/-- A side has read both words when it has read eight bytes. -/
theorem Ready.received {p : Peer} {other agreed : ℕ} {flight wrote : Bytes}
    (h : p.Ready other agreed flight wrote) :
    p.needProto = false ↔ flight.length + 8 ≤ wrote.length := by
  cases h.heard with
  | first hneed _ heq =>
    have hshort := h.ok.needLen (h.needLen hneed)
    simp only [hneed, heq, List.length_append, Bool.true_eq_false, false_iff]
    omega
  | second hneed _ heq =>
    have hshort := h.ok.needLen (h.needLen hneed)
    simp only [hneed, heq, List.length_append, versionWord_length, Bool.true_eq_false, false_iff]
    omega
  | agreed hneed _ heq =>
    simp only [hneed, heq, List.length_append, versionWord_length, true_iff]
    omega

/-- A side that has not read the first word yet has something to read. -/
theorem Ready.flight_ne_nil {p : Peer} {other agreed : ℕ} {flight wrote : Bytes}
    (h : p.Ready other agreed flight wrote) (hpos : 0 < agreed) (hprotocol : p.protocol = -1)
    (hlength : 4 ≤ wrote.length) : p.needProto = true ∧ flight ≠ [] := by
  cases h.heard with
  | first hneed _ heq =>
    have hshort := h.ok.needLen (h.needLen hneed)
    constructor
    · exact hneed
    · rintro rfl
      rw [heq, List.append_nil] at hlength
      omega
  | second _ hnow _ => omega
  | agreed _ hnow _ => omega

theorem Heard.more {p : Peer} {other agreed : ℕ} {flight wrote : Bytes} (out : Bytes)
    (h : p.Heard other agreed flight wrote) : p.Heard other agreed (flight ++ out) (wrote ++ out) := by
  cases h with
  | first hneed hprotocol heq => exact .first hneed hprotocol (by simp [heq])
  | second hneed hprotocol heq => exact .second hneed hprotocol (by simp [heq])
  | agreed hneed hprotocol heq => exact .agreed hneed hprotocol (by simp [heq])

theorem Ready.more {p : Peer} {other agreed : ℕ} {flight wrote : Bytes} (out : Bytes)
    (h : p.Ready other agreed flight wrote) : p.Ready other agreed (flight ++ out) (wrote ++ out) :=
  ⟨h.heard.more out, h.ok, h.alive, h.eof, h.needLen⟩

/-- What side `p` has written, by how far it is. -/
def Told (p : Peer) (agreed : ℕ) (wrote : Bytes) : Prop :=
  (p.protocol = -1 → wrote = versionWord p.version) ∧
    (p.protocol ≠ -1 → ∃ rest, wrote = versionWord p.version ++ (versionWord agreed ++ rest))

theorem Told.step {p p' : Peer} {agreed : ℕ} {wrote out : Bytes} (h : p.Told agreed wrote)
    (hstep : Step p p' agreed out) : p'.Told agreed (wrote ++ out) := by
  unfold Told
  rw [hstep.version]
  rcases hstep.out with ⟨rfl, hsame⟩ | ⟨rfl, hbefore, hafter⟩
  · rw [List.append_nil]
    exact ⟨fun hnow => h.1 (hsame.mp hnow), fun hnow => h.2 fun hback => hnow (hsame.mpr hback)⟩
  · constructor
    · intro hnow
      exact absurd hnow hafter
    · intro _
      exact ⟨[], by rw [h.1 hbefore, List.append_nil]⟩

theorem Told.writes {p : Peer} {agreed : ℕ} {wrote : Bytes} (h : p.Told agreed wrote) :
    Writes p.version agreed wrote := by
  by_cases hfirst : p.protocol = -1
  · exact Or.inl (h.1 hfirst)
  · exact Or.inr (h.2 hfirst)

theorem Told.length {p : Peer} {agreed : ℕ} {wrote : Bytes} (h : p.Told agreed wrote) :
    4 ≤ wrote.length ∧ (p.protocol ≠ -1 → 8 ≤ wrote.length) := by
  constructor
  · rcases h.writes with rfl | ⟨rest, rfl⟩
    · exact le_rfl
    · simp [versionWord_length]
  · intro hnow
    obtain ⟨rest, rfl⟩ := h.2 hnow
    simp only [List.length_append, versionWord_length]
    omega

/-! ## A version that is refused -/

/-- A buffer in use during the setup. -/
structure Open (ch : MsgChannel) : Prop where
  cursors : ch.Cursors
  instate : ch.instate = .needLen
  eof : ch.eof = false

structure Short (ch : MsgChannel) : Prop extends Open ch where
  short : ch.pending.length < 4

theorem Short.ok {ch : MsgChannel} (h : Short ch) : ch.Ok :=
  ⟨h.cursors, fun _ => h.short, by simp [h.instate], by simp [h.instate]⟩

/-- How far a side is, whatever the other one writes: it goes on only after a version that
it accepts, and agrees only after a second word. -/
inductive Tracks (good : MsgChannel → Prop) (p : Peer) (flight wrote : Bytes) : Prop
  | first : p.needProto = true → p.protocol = -1 → good p.ch → wrote = p.ch.pending ++ flight →
      Tracks good p flight wrote
  | second : p.needProto = true → p.protocol < -1 → good p.ch → 4 ≤ wrote.length →
      p.minimum ≤ versionValue wrote → wrote.drop 4 = p.ch.pending ++ flight →
      Tracks good p flight wrote
  | agreed : p.needProto = false → 0 < p.protocol → 8 ≤ wrote.length →
      p.minimum ≤ versionValue wrote → Tracks good p flight wrote
  | refused : p.needProto = true → p.protocol = 0 → Tracks good p flight wrote

theorem versionValue_append {p : Bytes} (hp : 4 ≤ p.length) (rest : Bytes) :
    versionValue (p ++ rest) = versionValue p := by
  rw [versionValue, versionValue, List.take_append_of_le_length hp]

/-- What stays of `p`, and that it writes only after a version that it accepts. -/
structure Stays (p p' : Peer) (wrote out : Bytes) : Prop where
  version : p'.version = p.version
  minimum : p'.minimum = p.minimum
  out : out ≠ [] → p.minimum ≤ versionValue wrote

/-- What the loop comes to: it fails with protocol 0. -/
structure Tracked (p : Peer) (flight wrote : Bytes) (r : Peer × Bytes × Bool) : Prop where
  stays : Stays p r.1 wrote r.2.1
  good : r.2.2 = true → r.1.Tracks Short flight wrote
  bad : r.2.2 = false → r.1.needProto = true ∧ r.1.protocol = 0

theorem Tracks.short {p : Peer} {flight wrote : Bytes} (h : p.Tracks Open flight wrote)
    (hshort : p.ch.pending.length < 4) : p.Tracks Short flight wrote := by
  cases h with
  | first hneed hprotocol hopen heq => exact .first hneed hprotocol ⟨hopen, hshort⟩ heq
  | second hneed hprotocol hopen hlen hmin heq =>
    exact .second hneed hprotocol ⟨hopen, hshort⟩ hlen hmin heq
  | agreed hneed hprotocol hlen hmin => exact .agreed hneed hprotocol hlen hmin
  | refused hneed hprotocol => exact .refused hneed hprotocol

theorem Tracks.over_word {p : Peer} {flight wrote : Bytes} (fuel : ℕ) (hneed : p.needProto = true)
    (hprotocol : p.protocol = 0) : Tracked p flight wrote (p.setupLoop fuel) := by
  have hover : p.Tracks Short flight wrote := .refused hneed hprotocol
  cases fuel with
  | zero => exact ⟨⟨rfl, rfl, by simp [setupLoop]⟩, fun _ => hover, by simp [setupLoop]⟩
  | succ fuel =>
    have hword : p.setupWord = (p, [], .failed) := if_pos hprotocol
    unfold setupLoop
    rw [hword]
    split
    · exact ⟨⟨rfl, rfl, by simp⟩, fun _ => hover, by simp⟩
    · exact ⟨⟨rfl, rfl, by simp⟩, by simp, fun _ => ⟨hneed, hprotocol⟩⟩

/-- One turn with a word there is. -/
theorem setupWord_tracks {p : Peer} {flight wrote : Bytes} (hown : 0 < p.version)
    (hother : 0 < versionValue wrote) (hneed : p.needProto = true) (hopen : Open p.ch) (hfour : 4 ≤ p.ch.inofs - p.ch.intogo)
    (h : p.Tracks Open flight wrote) :
    Stays p p.setupWord.1 wrote p.setupWord.2.1 ∧
      match p.setupWord.2.2 with
      | .again => p.setupWord.1.needProto = true ∧ p.setupWord.1.ch = { p.ch with
          intogo := p.ch.intogo + 4 } ∧ p.setupWord.1.Tracks Open flight wrote
      | .done => p.setupWord.1.Tracks Short flight wrote
      | .failed => p.setupWord.1.needProto = true ∧ p.setupWord.1.protocol = 0 := by
  obtain ⟨hskip, hpending⟩ := MsgChannel.skip_pending hopen.cursors hfour
  have hlen := hopen.cursors.pending_length
  have hfour' : 4 ≤ p.ch.pending.length := by omega
  have hopen' : Open { p.ch with intogo := p.ch.intogo + 4 } := ⟨hskip, hopen.instate, hopen.eof⟩
  unfold setupWord
  by_cases hzero : p.protocol = 0
  · rw [if_pos hzero]
    exact ⟨⟨rfl, rfl, by simp⟩, hneed, hzero⟩
  · rw [if_neg hzero]
    dsimp only
    by_cases hfirst : p.protocol = -1
    · rw [if_pos hfirst]
      by_cases hbad : versionValue p.ch.pending < p.minimum ∨ 2 ^ 20 < versionValue p.ch.pending
      · rw [if_pos hbad]
        exact ⟨⟨rfl, rfl, by simp⟩, hneed, rfl⟩
      · rw [if_neg hbad]
        cases h with
        | first _ _ _ heq =>
          have hvalue : versionValue wrote = versionValue p.ch.pending := by
            rw [heq, versionValue_append hfour']
          have hmin : p.minimum ≤ versionValue wrote := by omega
          refine ⟨⟨rfl, rfl, fun _ => hmin⟩, hneed, rfl, ?_⟩
          apply Tracks.second
          · exact hneed
          · have hpos : 0 < min (versionValue p.ch.pending) p.version := by omega
            change -1 - ((min (versionValue p.ch.pending) p.version : ℕ) : ℤ) < -1
            omega
          · exact hopen'
          · rw [heq, List.length_append]
            omega
          · exact hmin
          · rw [heq, List.drop_append_of_le_length hfour']
            exact congrArg (· ++ flight) hpending.symm
        | second _ hnow _ _ _ _ => omega
        | agreed _ hnow _ _ => omega
        | refused _ hnow => omega
    · rw [if_neg hfirst]
      cases h with
      | first _ hnow _ _ => omega
      | second _ hnow _ hlength hmin heq =>
        rw [if_pos hnow]
        split
        · exact ⟨⟨rfl, rfl, by simp⟩, hneed, rfl⟩
        · refine ⟨⟨rfl, rfl, by simp⟩, ?_⟩
          apply Tracks.agreed
          · rfl
          · change 0 < -(p.protocol + 1)
            omega
          · have hcount := congrArg List.length heq
            simp only [List.length_drop, List.length_append] at hcount
            omega
          · exact hmin
      | agreed hno _ _ _ => simp [hneed] at hno
      | refused _ hnow => exact absurd hnow hzero

theorem setupLoop_tracked {flight wrote : Bytes} (fuel : ℕ) {p : Peer} (hown : 0 < p.version)
    (hother : 0 < versionValue wrote) (hfuel : p.ch.inofs - p.ch.intogo ≤ fuel)
    (hneed : p.needProto = true) (hopen : Open p.ch) (h : p.Tracks Open flight wrote) :
    Tracked p flight wrote (p.setupLoop fuel) := by
  induction fuel generalizing p with
  | zero =>
    have hlen := hopen.cursors.pending_length
    exact ⟨⟨rfl, rfl, by simp [setupLoop]⟩, fun _ => h.short (by omega), by simp [setupLoop]⟩
  | succ fuel ih =>
    have hlen := hopen.cursors.pending_length
    unfold setupLoop
    by_cases hshort : p.ch.inofs - p.ch.intogo < 4
    · rw [if_pos hshort]
      exact ⟨⟨rfl, rfl, by simp⟩, fun _ => h.short (by omega), by simp⟩
    · rw [if_neg hshort]
      obtain ⟨hstays, hturn⟩ := setupWord_tracks hown hother hneed hopen (not_lt.mp hshort) h
      obtain ⟨hskip, -⟩ := MsgChannel.skip_pending hopen.cursors (not_lt.mp hshort)
      generalize p.setupWord = r at hstays hturn ⊢
      obtain ⟨q, out, turn⟩ := r
      cases turn with
      | again =>
        obtain ⟨hneed', hch, htracks⟩ := hturn
        have hopen' : Open q.ch := by
          rw [hch]
          exact ⟨hskip, hopen.instate, hopen.eof⟩
        have hown' : 0 < q.version := by rwa [hstays.version]
        have hloop := ih hown' (by rw [hch]; change p.ch.inofs - (p.ch.intogo + 4) ≤ fuel; omega)
          hneed' hopen' htracks
        have hmin : q.minimum = p.minimum := hstays.minimum
        refine ⟨⟨hloop.stays.version.trans hstays.version, hloop.stays.minimum.trans hmin, ?_⟩,
          hloop.good, hloop.bad⟩
        intro hout
        change out ++ (q.setupLoop fuel).2.1 ≠ [] at hout
        by_cases hnone : out = []
        · rw [hnone, List.nil_append] at hout
          rw [← hmin]
          exact hloop.stays.out hout
        · exact hstays.out hnone
      | done => exact ⟨hstays, fun _ => hturn, by simp⟩
      | failed => exact ⟨hstays, by simp, fun _ => hturn⟩

/-- `read_a_bit` after the bytes have been stored. -/
def afterUpdate (junk : ℕ → UInt8) (p : Peer) : Peer :=
  if (p.updateState junk).2.2 then (p.updateState junk).1 else (p.updateState junk).1.setError

theorem afterUpdate_loop {p : Peer} {flight wrote : Bytes} (hneed : p.needProto = true)
    (halive : p.ch.instate ≠ .error)
    (hloop : Tracked p flight wrote (p.setupLoop (p.ch.inofs - p.ch.intogo))) :
    Stays p (p.afterUpdate junk) wrote (p.updateState junk).2.1 ∧
      (p.afterUpdate junk).Tracks Short flight wrote := by
  unfold afterUpdate updateState
  rw [if_neg halive]
  dsimp only
  rw [if_pos hneed]
  generalize p.setupLoop (p.ch.inofs - p.ch.intogo) = r at hloop ⊢
  by_cases hproto : r.1.needProto = true
  · rw [if_pos hproto]
    by_cases hgood : r.2.2 = true
    · rw [if_pos hgood]
      exact ⟨hloop.stays, hloop.good hgood⟩
    · rw [if_neg hgood]
      have hzero := (hloop.bad (by simpa using hgood)).2
      exact ⟨⟨hloop.stays.version, hloop.stays.minimum, hloop.stays.out⟩, .refused hproto hzero⟩
  · rw [if_neg hproto]
    have hgood : r.2.2 = true := by
      by_contra hbad
      exact hproto (hloop.bad (by simpa using hbad)).1
    rw [if_pos hgood]
    refine ⟨⟨hloop.stays.version, hloop.stays.minimum, hloop.stays.out⟩, ?_⟩
    cases hloop.good hgood with
    | first hneed' _ _ _ => exact absurd hneed' hproto
    | second hneed' _ _ _ _ _ => exact absurd hneed' hproto
    | agreed hneed' hprotocol hlen hmin => exact .agreed hneed' hprotocol hlen hmin
    | refused hneed' _ => exact absurd hneed' hproto

theorem afterUpdate_over {p : Peer} {flight wrote : Bytes} (hneed : p.needProto = true)
    (hzero : p.protocol = 0) : Stays p (p.afterUpdate junk) wrote (p.updateState junk).2.1 ∧
      (p.afterUpdate junk).Tracks Short flight wrote := by
  by_cases halive : p.ch.instate = .error
  · unfold afterUpdate updateState
    rw [if_pos halive]
    exact ⟨⟨rfl, rfl, by simp⟩, .refused hneed hzero⟩
  · exact afterUpdate_loop junk hneed halive (Tracks.over_word _ hneed hzero)

theorem afterUpdate_agreed {p : Peer} {flight wrote : Bytes} (hneed : p.needProto = false)
    (hprotocol : 0 < p.protocol) (hlen : 8 ≤ wrote.length) (hmin : p.minimum ≤ versionValue wrote) :
    Stays p (p.afterUpdate junk) wrote (p.updateState junk).2.1 ∧
      (p.afterUpdate junk).Tracks Short flight wrote := by
  have hno : ¬ p.needProto = true := by simp [hneed]
  unfold afterUpdate updateState
  split
  · exact ⟨⟨rfl, rfl, by simp⟩, .agreed hneed hprotocol hlen hmin⟩
  · rw [if_neg hno]
    rw [if_pos rfl]
    exact ⟨⟨rfl, rfl, by simp⟩, .agreed hneed hprotocol hlen hmin⟩

theorem readABit_tracks {p : Peer} {flight wrote : Bytes} (n : ℕ) (hown : 0 < p.version)
    (hother : 0 < versionValue wrote) (h : p.Tracks Short flight wrote) :
    Stays p (p.readABit junk n flight).1 wrote (p.readABit junk n flight).2.1 ∧
      (p.readABit junk n flight).1.Tracks Short (p.readABit junk n flight).2.2 wrote := by
  have hstored : ∃ ch : MsgChannel, ∃ data : Bytes, data ++ flight.drop data.length = flight ∧
      (Short p.ch → Open ch ∧ ch.pending = p.ch.pending ++ data) ∧
      p.readABit junk n flight = ((afterUpdate junk { p with ch := ch }),
        ((updateState junk { p with ch := ch }).2.1, flight.drop data.length)) := by
    refine ⟨_, _, ?_, ?_, rfl⟩
    · split
      · rfl
      · exact take_append_drop_length _ _
    · intro hshort
      have hmoved := MsgChannel.makeRoom_moved junk hshort.cursors
      have hok := hmoved.ok hshort.ok
      have hinstate : (p.ch.makeRoom junk).instate = .needLen := hmoved.instate.trans hshort.instate
      have heof : (p.ch.makeRoom junk).eof = false := hmoved.eof.trans hshort.eof
      have hopen : ¬ (p.ch.makeRoom junk).eof = true := by simp [heof]
      simp only [if_neg hopen]
      have hroom : ∀ k, (p.ch.makeRoom junk).inofs + (flight.take (min k
          ((p.ch.makeRoom junk).inbuf.length - (p.ch.makeRoom junk).inofs))).length ≤
          (p.ch.makeRoom junk).inbuf.length := by
        intro k
        have hinside := hok.inside
        rw [List.length_take]
        omega
      obtain ⟨hfilled, hahead⟩ := MsgChannel.arrive_filled hok (hroom n)
      constructor
      · exact ⟨hfilled.toCursors, hinstate, heof⟩
      · rw [ahead_needLen hinstate, hmoved.pending] at hahead
        rw [← hahead]
        symm
        apply ahead_needLen
        exact hinstate
  obtain ⟨ch, data, hsplit, hstore, hread⟩ := hstored
  rw [hread]
  dsimp only
  have hloop : ∀ (hneed : p.needProto = true) (hopen : Open ch),
      Tracks Open { p with ch := ch } (flight.drop data.length) wrote →
      Stays p (afterUpdate junk { p with ch := ch }) wrote (updateState junk { p with ch := ch }).2.1 ∧
        (afterUpdate junk { p with ch := ch }).Tracks Short (flight.drop data.length) wrote := by
    intro hneed hopen htracks
    have htracked := setupLoop_tracked (p := { p with ch := ch }) _ hown hother le_rfl hneed hopen
      htracks
    have halive : ch.instate ≠ .error := by simp [hopen.instate]
    have hafter := afterUpdate_loop junk (p := { p with ch := ch }) hneed halive htracked
    exact ⟨⟨hafter.1.version, hafter.1.minimum, hafter.1.out⟩, hafter.2⟩
  cases h with
  | first hneed hprotocol hshort heq =>
    obtain ⟨hopen, hpending⟩ := hstore hshort
    apply hloop hneed hopen
    apply Tracks.first
    · exact hneed
    · exact hprotocol
    · exact hopen
    change wrote = ch.pending ++ flight.drop data.length
    rw [hpending, List.append_assoc, hsplit, heq]
  | second hneed hprotocol hshort hlen hmin heq =>
    obtain ⟨hopen, hpending⟩ := hstore hshort
    apply hloop hneed hopen
    apply Tracks.second
    · exact hneed
    · exact hprotocol
    · exact hopen
    · exact hlen
    · exact hmin
    change wrote.drop 4 = ch.pending ++ flight.drop data.length
    rw [hpending, List.append_assoc, hsplit, heq]
  | agreed hneed hprotocol hlen hmin =>
    have hafter : _ ∧ (afterUpdate junk { p with ch := ch }).Tracks Short
        (flight.drop data.length) wrote :=
      afterUpdate_agreed junk (p := { p with ch := ch }) hneed hprotocol hlen hmin
    exact ⟨⟨hafter.1.version, hafter.1.minimum, hafter.1.out⟩, hafter.2⟩
  | refused hneed hzero =>
    have hafter : Stays { p with ch := ch } _ wrote _ ∧ (afterUpdate junk { p with ch := ch }).Tracks Short
        (flight.drop data.length) wrote :=
      afterUpdate_over junk (p := { p with ch := ch }) hneed hzero
    exact ⟨⟨hafter.1.version, hafter.1.minimum, hafter.1.out⟩, hafter.2⟩

theorem Tracks.more {p : Peer} {flight wrote : Bytes} (out : Bytes) (hfour : 4 ≤ wrote.length)
    (h : p.Tracks Short flight wrote) : p.Tracks Short (flight ++ out) (wrote ++ out) := by
  have hvalue := versionValue_append hfour out
  have hlong : ∀ n, n ≤ wrote.length → n ≤ (wrote ++ out).length := by
    intro n hn
    rw [List.length_append]
    omega
  cases h with
  | first hneed hprotocol hshort heq => exact .first hneed hprotocol hshort (by simp [heq])
  | second hneed hprotocol hshort hlen hmin heq =>
    apply Tracks.second hneed hprotocol hshort (hlong 4 hlen)
    · rwa [hvalue]
    · rw [List.drop_append_of_le_length hfour, heq, List.append_assoc]
  | agreed hneed hprotocol hlen hmin =>
    apply Tracks.agreed hneed hprotocol (hlong 8 hlen)
    rwa [hvalue]
  | refused hneed hzero => exact .refused hneed hzero

end Peer

namespace Setup

variable {junk : ℕ → UInt8} {version minimum : Bool → ℕ} {s t : Setup}

/-! ## Versions that fit -/

structure Agreeing (version minimum : Bool → ℕ) (s : Setup) : Prop where
  versions : ∀ i, (s.peer i).version = version i
  minima : ∀ i, (s.peer i).minimum = minimum i
  ready : ∀ i, (s.peer i).Ready (version (!i)) (min (version i) (version (!i))) (s.flight i)
    (s.wrote (!i))
  told : ∀ i, (s.peer i).Told (min (version i) (version (!i))) (s.wrote i)

/-- Side `i` becomes `p`, with `flight` left to read and `out` written. -/
theorem write_agreeing {i : Bool} {p : Peer} {flight out : Bytes}
    (h : s.Agreeing version minimum) (hversion : p.version = version i)
    (hminimum : p.minimum = minimum i)
    (hready : p.Ready (version (!i)) (min (version i) (version (!i))) flight (s.wrote (!i)))
    (htold : p.Told (min (version i) (version (!i))) (s.wrote i ++ out)) :
    (write { s with
      peer := Function.update s.peer i p
      flight := Function.update s.flight i flight } i out).Agreeing version minimum := by
  have hne : ∀ j, j ≠ i → j = !i := by
    intro j hj
    cases i <;> cases j <;> simp_all
  constructor
  · intro j
    by_cases hj : j = i
    · subst hj
      simpa [write] using hversion
    · simpa [write, Function.update_of_ne hj] using h.versions j
  · intro j
    by_cases hj : j = i
    · subst hj
      simpa [write] using hminimum
    · simpa [write, Function.update_of_ne hj] using h.minima j
  · intro j
    by_cases hj : j = i
    · subst hj
      simpa [write] using hready
    · obtain rfl := hne j hj
      have hmore := (h.ready (!i)).more out
      simpa [write] using hmore
  · intro j
    by_cases hj : j = i
    · subst hj
      simpa [write] using htold
    · simpa [write, Function.update_of_ne hj] using h.told j

theorem next_agreeing (hknown : ∀ i, minimum i ≤ version (!i)) (hsmall : ∀ i, version i < 256)
    (hpos : ∀ i, 0 < version i) {e : Event} (h : s.Agreeing version minimum)
    (hs : next junk s e = some t) : t.Agreeing version minimum := by
  cases e with
  | read i n =>
    obtain rfl := Option.some.inj hs
    have hfits : (s.peer i).Fits (version (!i)) :=
      ⟨by rw [h.minima]; exact hknown i, hsmall _, by rw [h.versions]; exact hpos i, hpos _⟩
    have hwrote : Peer.Writes (version (!i)) (min (version i) (version (!i))) (s.wrote (!i)) := by
      have hother := (h.told (!i)).writes
      rwa [h.versions, Bool.not_not, min_comm] at hother
    have hagreed : min (version i) (version (!i)) = min (version (!i)) (s.peer i).version := by
      rw [h.versions, min_comm]
    obtain ⟨hready, hstep⟩ := Peer.readABit_ready junk n hfits hagreed hwrote (h.ready i)
    exact write_agreeing h (hstep.version.trans (h.versions i)) (hstep.minimum.trans (h.minima i))
      hready ((h.told i).step hstep)
  | send i data =>
    simp only [next] at hs
    split at hs
    · simp at hs
    · rename_i hdone
      obtain rfl := Option.some.inj hs
      have htold : (s.peer i).Told (min (version i) (version (!i))) (s.wrote i ++ data) := by
        have hprotocol : (s.peer i).protocol ≠ -1 := by
          cases (h.ready i).heard with
          | first hneed _ _ => exact absurd hneed hdone
          | second hneed _ _ => exact absurd hneed hdone
          | agreed _ hprotocol _ =>
            rw [hprotocol]
            omega
        obtain ⟨rest, hrest⟩ := (h.told i).2 hprotocol
        exact ⟨fun hnow => absurd hnow hprotocol, fun _ => ⟨rest ++ data, by simp [hrest]⟩⟩
      have hkeep := write_agreeing h (h.versions i) (h.minima i) (h.ready i) htold
      simpa using hkeep

theorem start_agreeing : (start junk version minimum).Agreeing version minimum where
  versions _ := rfl
  minima _ := rfl
  ready i :=
    { heard := .first rfl rfl (by
        change versionWord (version (!i)) = Block.slice _ 0 0 ++ versionWord (version (!i))
        simp [Block.slice])
      ok := ⟨⟨le_rfl, Nat.zero_le _⟩, fun _ => by
        change (Block.slice _ 0 0).length < 4
        simp [Block.slice], nofun, nofun⟩
      alive := by simp [start, Peer.create]
      eof := rfl
      needLen := fun _ => rfl }
  told i := ⟨fun _ => rfl, fun hnow => absurd rfl hnow⟩

/-- Where both sides accept each other's version: no side ever fails; a side leaves
NEED_PROTO when it has received eight bytes, with the smaller version, and has then
consumed nothing of what the other side wrote behind its two words; and until both have
left, there are bytes on their way to one that has not. -/
theorem setup_agrees (hversion : ∀ i, 21 ≤ version i ∧ version i ≤ 255)
    (h : (system junk version fun _ => 21).Reachable s) (i : Bool) :
    (s.peer i).ch.instate ≠ .error ∧
    ((s.peer i).needProto = false ↔ (s.flight i).length + 8 ≤ (s.wrote (!i)).length) ∧
    ((s.peer i).needProto = false → (s.peer i).protocol = min (version i) (version (!i)) ∧
      s.wrote (!i) = versionWord (version (!i)) ++
        (versionWord (min (version i) (version (!i))) ++ ((s.peer i).ch.ahead ++ s.flight i))) ∧
    ((s.peer i).needProto = true → ∃ j, (s.peer j).needProto = true ∧ s.flight j ≠ []) := by
  have hinv : s.Agreeing version fun _ => 21 := by
    apply h.invariant
    · rintro s rfl
      exact start_agreeing
    · intro s e t hinv _ hn
      exact next_agreeing (fun i => (hversion (!i)).1) (fun i => by have := (hversion i).2; omega)
        (fun i => by have := (hversion i).1; omega) hinv hn
  have hready := hinv.ready i
  have hpos : ∀ i, 0 < min (version i) (version (!i)) := by
    intro i
    have hone := (hversion i).1
    have htwo := (hversion (!i)).1
    omega
  refine ⟨hready.alive, hready.received, ?_, ?_⟩
  · intro hdone
    cases hready.heard with
    | first hneed _ _ => simp [hdone] at hneed
    | second hneed _ _ => simp [hdone] at hneed
    | agreed _ hprotocol heq => exact ⟨hprotocol, heq⟩
  · intro hneed
    by_cases hflight : s.flight i = []
    · -- the other side has not answered yet
      have hshort : (s.wrote (!i)).length < 8 := by
        by_contra hlong
        have hdone := hready.received.mpr (by rw [hflight]; simpa using hlong)
        simp [hneed] at hdone
      have htold := (hinv.told (!i)).length
      have hfirst : (s.peer (!i)).protocol = -1 := by
        by_contra hnow
        have hlong := htold.2 hnow
        omega
      use !i
      exact (hinv.ready (!i)).flight_ne_nil (hpos (!i)) hfirst (by
        rw [Bool.not_not]
        exact (hinv.told i).length.1)
    · exact ⟨i, hneed, hflight⟩

/-! ## A version below the other side's minimum -/

/-- Side `!i` does not accept the version of side `i`. -/
structure Refused (version minimum : Bool → ℕ) (i : Bool) (s : Setup) : Prop where
  versions : ∀ k, (s.peer k).version = version k
  minima : ∀ k, (s.peer k).minimum = minimum k
  tracks : ∀ k, (s.peer k).Tracks Peer.Short (s.flight k) (s.wrote (!k))
  words : ∀ k, ∃ rest, s.wrote k = versionWord (version k) ++ rest
  silent : s.wrote (!i) = versionWord (version (!i))

theorem versionValue_words {n : ℕ} (hn : n < 256) (rest : Bytes) :
    versionValue (versionWord n ++ rest) = n := by
  have hword : versionWord n ++ rest ++ [] = versionWord n ++ rest := List.append_nil _
  exact (versionValue_word (by omega) (by simp [versionWord_length]) hword).1

theorem Refused.unsettled {i : Bool} (hsmall : ∀ k, version k < 256) (hi : version i < minimum (!i))
    (h : s.Refused version minimum i) (k : Bool) :
    (s.peer k).needProto = true ∧ (s.peer k).protocol ≤ 0 := by
  cases h.tracks k with
  | first hneed hprotocol _ _ => exact ⟨hneed, by omega⟩
  | second hneed hprotocol _ _ _ _ => exact ⟨hneed, by omega⟩
  | agreed _ _ hlen hmin =>
    exfalso
    by_cases hk : k = i
    · subst hk
      rw [h.silent, versionWord_length] at hlen
      omega
    · obtain rfl : k = !i := by cases i <;> cases k <;> simp_all
      obtain ⟨rest, hrest⟩ := h.words i
      rw [Bool.not_not, hrest, versionValue_words (hsmall i), h.minima] at hmin
      omega
  | refused hneed hzero => exact ⟨hneed, hzero.le⟩

theorem next_refused {i : Bool} (hsmall : ∀ k, version k < 256) (hpos : ∀ k, 0 < version k)
    (hi : version i < minimum (!i)) {e : Event} (h : s.Refused version minimum i)
    (hs : next junk s e = some t) : t.Refused version minimum i := by
  cases e with
  | send k data =>
    have hneed := (h.unsettled hsmall hi k).1
    simp [next, hneed] at hs
  | read k n =>
    obtain rfl := Option.some.inj hs
    have hne : ∀ j, j ≠ k → j = !k := by
      intro j hj
      cases k <;> cases j <;> simp_all
    obtain ⟨rest, hrest⟩ := h.words (!k)
    have hvalue : versionValue (s.wrote (!k)) = version (!k) := by
      rw [hrest, versionValue_words (hsmall _)]
    obtain ⟨hstays, htracks⟩ := Peer.readABit_tracks junk n
      (by rw [h.versions]; exact hpos k) (by rw [hvalue]; exact hpos _) (h.tracks k)
    generalize (s.peer k).readABit junk n (s.flight k) = r at hstays htracks ⊢
    constructor
    · intro j
      by_cases hj : j = k
      · subst hj
        simpa [write] using hstays.version.trans (h.versions j)
      · simpa [write, Function.update_of_ne hj] using h.versions j
    · intro j
      by_cases hj : j = k
      · subst hj
        simpa [write] using hstays.minimum.trans (h.minima j)
      · simpa [write, Function.update_of_ne hj] using h.minima j
    · intro j
      by_cases hj : j = k
      · subst hj
        simpa [write] using htracks
      · obtain rfl := hne j hj
        obtain ⟨rest', hrest'⟩ := h.words k
        have hmore := (h.tracks (!k)).more r.2.1 (by
          rw [Bool.not_not, hrest', List.length_append, versionWord_length]
          omega)
        simpa [write] using hmore
    · intro j
      by_cases hj : j = k
      · subst hj
        obtain ⟨rest', hrest'⟩ := h.words j
        use rest' ++ r.2.1
        simp [write, hrest']
      · simpa [write, Function.update_of_ne hj] using h.words j
    · by_cases hk : k = !i
      · -- the side that refuses writes nothing more
        subst hk
        have hnone : r.2.1 = [] := by
          by_contra hout
          have hmin := hstays.out hout
          rw [hvalue, h.minima, Bool.not_not] at hmin
          omega
        simpa [write, hnone] using h.silent
      · have hki : (!i) ≠ k := fun heq => hk heq.symm
        simpa [write, Function.update_of_ne hki] using h.silent

theorem start_refused {i : Bool} : (start junk version minimum).Refused version minimum i where
  versions _ := rfl
  minima _ := rfl
  tracks k := by
    apply Peer.Tracks.first
    · rfl
    · rfl
    · refine ⟨⟨⟨le_rfl, Nat.zero_le _⟩, rfl, rfl⟩, ?_⟩
      change (Block.slice _ 0 0).length < 4
      simp [Block.slice]
    · change versionWord (version (!k)) = Block.slice _ 0 0 ++ versionWord (version (!k))
      simp [Block.slice]
  words _ := ⟨[], (List.append_nil _).symm⟩
  silent := rfl

/-- The protocol setup: versions that fit are agreed on, and a version below the other
side's minimum leaves both sides without a protocol. -/
theorem setup_result : (∀ (version : Bool → ℕ), (∀ i, 21 ≤ version i ∧ version i ≤ 255) →
      ∀ s, (system junk version fun _ => 21).Reachable s → ∀ i,
      (s.peer i).ch.instate ≠ .error ∧
      ((s.peer i).needProto = false ↔ (s.flight i).length + 8 ≤ (s.wrote (!i)).length) ∧
      ((s.peer i).needProto = false → (s.peer i).protocol = min (version i) (version (!i)) ∧
        s.wrote (!i) = versionWord (version (!i)) ++
          (versionWord (min (version i) (version (!i))) ++ ((s.peer i).ch.ahead ++ s.flight i))) ∧
      ((s.peer i).needProto = true → ∃ j, (s.peer j).needProto = true ∧ s.flight j ≠ [])) ∧
    ∀ (version minimum : Bool → ℕ), (∀ i, 21 ≤ version i ∧ version i ≤ 255) →
      ∀ i, version i < minimum (!i) → ∀ s, (system junk version minimum).Reachable s →
      ∀ k, (s.peer k).protocol ≤ 0 := by
  constructor
  · intro version hversion s h i
    exact setup_agrees hversion h i
  · intro version minimum hversion i hi s h k
    have hsmall : ∀ k, version k < 256 := fun k => Nat.lt_succ_of_le (hversion k).2
    have hpos : ∀ k, 0 < version k := fun k => lt_of_lt_of_le (by decide) (hversion k).1
    have hinv : s.Refused version minimum i := by
      apply h.invariant
      · rintro s rfl
        exact start_refused
      · intro s e t hinv _ hn
        exact next_refused hsmall hpos hi hinv hn
    exact (hinv.unsettled hsmall hi k).2

/-- Side `true` has version 45 and side `false` version 30, which in the second run side
`true` does not accept. -/
theorem setup_result_45_30 :
    (∃ s, (system (fun _ => 0) (fun i => if i then 45 else 30) fun _ => 21).Reachable s ∧
      ∀ i, (s.peer i).needProto = false ∧ (s.peer i).protocol = 30) ∧
    ∃ s, (system (fun _ => 0) (fun i => if i then 45 else 30) fun i => if i then 31 else 21).Reachable
      s ∧ (s.flight true = [] ∧ s.flight false = []) ∧ ∀ i, (s.peer i).protocol ≤ 0 := by
  have hversion : ∀ i : Bool, 21 ≤ (if i then 45 else 30) ∧ (if i then 45 else 30) ≤ 255 := by decide
  constructor
  · have hrun : ((system (fun _ => 0) (fun i => if i then 45 else 30) fun _ => 21).exec
        (start (fun _ => 0) (fun i => if i then 45 else 30) fun _ => 21)
        [.read true 3, .read true 9, .read false 7, .read false 1, .send false [1, 2, 3],
          .read true 5]).map (fun s => ((s.peer true).needProto, (s.peer false).needProto)) =
        some (false, false) := by decide +kernel
    obtain ⟨s, hs, hstate⟩ := Option.map_eq_some_iff.mp hrun
    have hreach := (Transition.System.Reaches.init rfl).exec (fun _ _ _ => trivial) hs
    obtain ⟨htrue, hfalse⟩ := Prod.mk.inj hstate
    use s
    constructor
    · exact hreach
    · intro i
      have hdone : (s.peer i).needProto = false := by cases i <;> assumption
      constructor
      · exact hdone
      · rw [((setup_result.1 _ hversion s hreach i).2.2.1 hdone).1]
        cases i <;> rfl
  · have hrun : ((system (fun _ => 0) (fun i => if i then 45 else 30) fun i =>
        if i then 31 else 21).exec (start (fun _ => 0) (fun i => if i then 45 else 30) fun i =>
        if i then 31 else 21) [.read false 4, .read true 8]).map
        (fun s => (s.flight true, s.flight false)) = some ([], []) := by decide +kernel
    obtain ⟨s, hs, hstate⟩ := Option.map_eq_some_iff.mp hrun
    have hreach := (Transition.System.Reaches.init rfl).exec (fun _ _ _ => trivial) hs
    use s
    constructor
    · exact hreach
    · exact ⟨Prod.mk.inj hstate, setup_result.2 _ _ hversion false (by decide) s hreach⟩

end Setup

end Icecream.Comm
