import Icecream.Library.Transition
import Icecream.Comm.Bounds
import Icecream.Comm.Frame

/-!
# One stream, two ways of reading it

What a peer sends is a stream of bytes; how it is cut into reads is up to the network.
`parse` is what the stream means frame by frame, each frame decoded with nothing
behind it. A frame is `WellBounded` if decoding it does not depend on what is behind
it, and for streams all of whose frames are, every way of reading yields `parse`.
-/

namespace Icecream.Comm

open MsgChannel

namespace Splitting

variable (k : Compression) (protocol : ℕ) (junk : ℕ → UInt8)

/-- A frame decoded with nothing behind it. -/
def alone (p : Bytes) : Option Msg × Window UInt8 := readMsg k protocol (Window.fresh p [])

/-- The message of a frame, if `get_msg` accepts the frame alone. -/
def judge (p : Bytes) : Option Msg :=
  if (alone k protocol p).2.rest = [] then (alone k protocol p).1 else none

/-- Decoding stays inside the frame; or the frame is rejected, and its type is not the
one whose reader calls `set_error` itself. -/
def WellBounded (p : Bytes) : Prop :=
  ((alone k protocol p).2.short = false ∧ (alone k protocol p).2.loose = false ∧
    (alone k protocol p).2.failed = false) ∨
  (judge k protocol p = none ∧ Word.value p ≠ MsgType.fileChunk.code)

/-- The first frame of a stream and what follows it, once it is complete. -/
def nextFrame (s : Bytes) : Option (Bytes × Bytes) :=
  if 4 ≤ s.length ∧ (Word.value s).toNat ≤ s.length - 4 then
    some ((s.drop 4).take (Word.value s).toNat, (s.drop 4).drop (Word.value s).toNat)
  else none

theorem nextFrame_length {s p r : Bytes} (h : nextFrame s = some (p, r)) :
    r.length < s.length := by
  rw [nextFrame] at h
  split at h
  · next hlen =>
    simp only [Option.some.injEq, Prod.mk.injEq] at h
    rw [← h.2, List.length_drop, List.length_drop]
    omega
  · cases h

/-- The messages of a stream and whether a frame of it is rejected. -/
def parse (s : Bytes) : List Msg × Bool :=
  match _h : nextFrame s with
  | none => ([], false)
  | some (p, r) =>
    match judge k protocol p with
    | none => ([], true)
    | some m => (m :: (parse r).1, (parse r).2)
termination_by s.length
decreasing_by all_goals exact nextFrame_length (by assumption)

/-- Every frame that is reached is well bounded. -/
inductive Bounded : Bytes → Prop
  | wait {s : Bytes} : nextFrame s = none → Bounded s
  | reject {s p r : Bytes} : nextFrame s = some (p, r) → WellBounded k protocol p →
    judge k protocol p = none → Bounded s
  | accept {s p r : Bytes} {m : Msg} : nextFrame s = some (p, r) → WellBounded k protocol p →
    judge k protocol p = some m → Bounded r → Bounded s

theorem parse_wait {s : Bytes} (h : nextFrame s = none) : parse k protocol s = ([], false) := by
  rw [parse]
  split
  · rfl
  · next h' => rw [h] at h'; cases h'

theorem parse_reject {s p r : Bytes} (h : nextFrame s = some (p, r))
    (hj : judge k protocol p = none) : parse k protocol s = ([], true) := by
  rw [parse]
  split
  · next h' => rw [h] at h'; cases h'
  · next p' r' h' =>
    rw [h] at h'
    obtain ⟨rfl, rfl⟩ : p = p' ∧ r = r' := by simpa using h'
    rw [hj]

theorem parse_accept {s p r : Bytes} {m : Msg} (h : nextFrame s = some (p, r))
    (hj : judge k protocol p = some m) :
    parse k protocol s = (m :: (parse k protocol r).1, (parse k protocol r).2) := by
  rw [parse]
  split
  · next h' => rw [h] at h'; cases h'
  · next p' r' h' =>
    rw [h] at h'
    obtain ⟨rfl, rfl⟩ : p = p' ∧ r = r' := by simpa using h'
    rw [hj]

/-! ## One frame in a channel -/

/-- What `get_msg` makes of a frame that the channel holds, with `r` behind it. -/
structure Judged (ch : MsgChannel) (r : Bytes) (m : Option Msg) (t : Option Msg × MsgChannel) :
    Prop where
  msg : t.1 = m
  accepted : m.isSome → t.2.Ok ∧ t.2.ahead = r ∧ t.2.instate ≠ .error ∧ t.2.eof = ch.eof
  rejected : m = none → t.2.instate = .error

variable {ch : MsgChannel} {p r : Bytes}

theorem takeMsg_none (hmsg : ch.instate = .hasMsg) (allowed : Bool)
    (h : (readMsg k protocol ch.window).1 = none) :
    Judged ch r none (takeMsg k protocol junk (setError k protocol junk) ch allowed) := by
  rw [takeMsg, if_neg (by simp [atEof, hmsg]), if_neg (by simp [MsgChannel.hasMsg, hmsg])]
  dsimp only
  rw [h]
  exact ⟨rfl, by simp, fun _ => setError_instate k protocol junk _⟩

/-- A message that does not use up its frame, or more than that, is rejected. -/
theorem takeMsg_mismatch (h : ch.Ok) (hmsg : ch.instate = .hasMsg) (allowed : Bool)
    {w : Window UInt8} {m : Msg} (hread : readMsg k protocol ch.window = (some m, w))
    (hfailed : w.failed = false) (hle : w.rest.length ≤ ch.pending.length)
    (hne : ch.pending.length - w.rest.length ≠ ch.inmsglen.toNat) :
    Judged ch r none (takeMsg k protocol junk (setError k protocol junk) ch allowed) := by
  have hlen := h.pending_length
  have hord := h.order
  have hcheck : ch.inofs - w.rest.length - ch.intogo ≠ ch.inmsglen.toNat := by omega
  rw [takeMsg, if_neg (by simp [atEof, hmsg]), if_neg (by simp [MsgChannel.hasMsg, hmsg])]
  simp only [hread, hfailed, Bool.false_eq_true, if_false, if_pos hcheck]
  exact ⟨rfl, by simp, fun _ => setError_instate k protocol junk _⟩

theorem window_eq (hpend : ch.pending = p ++ r) :
    ch.window = (Window.fresh p []).extend r (ch.inbuf.drop ch.inofs) := by
  rw [window, hpend]
  rfl

/-- A frame that is decoded inside its bounds is judged as if it were alone. -/
theorem takeMsg_inside (h : ch.Ok) (hmsg : ch.instate = .hasMsg) (allowed : Bool)
    (hpend : ch.pending = p ++ r) (hlen : ch.inmsglen.toNat = p.length)
    (hshort : (alone k protocol p).2.short = false)
    (hloose : (alone k protocol p).2.loose = false)
    (hfailed : (alone k protocol p).2.failed = false) :
    Judged ch r (judge k protocol p)
      (takeMsg k protocol junk (setError k protocol junk) ch allowed) := by
  have hext := (readMsg_regular k protocol).extend (Window.fresh p []) r
    (ch.inbuf.drop ch.inofs) hshort hloose
  rw [← window_eq hpend] at hext
  change readMsg k protocol ch.window = ((alone k protocol p).1,
    (alone k protocol p).2.extend r (ch.inbuf.drop ch.inofs)) at hext
  have hsuffix : (alone k protocol p).2.rest.length ≤ p.length :=
    ((readMsg_regular k protocol).suffix (Window.fresh p [])).length_le
  cases hm : (alone k protocol p).1 with
  | none =>
    have hj : judge k protocol p = none := by
      rw [judge, hm]
      exact ite_self none
    rw [hj]
    exact takeMsg_none k protocol junk hmsg allowed (by rw [hext, hm])
  | some m =>
    rw [hm] at hext
    by_cases hrest : (alone k protocol p).2.rest = []
    · have hj : judge k protocol p = some m := by
        rw [judge, if_pos hrest, hm]
      have hdrop : ((alone k protocol p).2.extend r (ch.inbuf.drop ch.inofs)).rest =
          ch.pending.drop ch.inmsglen.toNat := by
        rw [hpend, hlen, List.drop_left, Window.extend, hrest]
        rfl
      obtain ⟨hsome, hok, hahead, heof, herr⟩ := takeMsg_accept k protocol junk
        (setError k protocol junk) h hmsg allowed hext hfailed hdrop
      rw [hj]
      refine ⟨hsome, fun _ => ⟨hok, ?_, herr, heof⟩, by simp⟩
      rw [hahead, Window.extend, hrest]
      rfl
    · have hj : judge k protocol p = none := if_neg hrest
      have hpos := List.length_pos_iff.mpr hrest
      rw [hj]
      refine takeMsg_mismatch k protocol junk h hmsg allowed hext hfailed ?_ ?_
      · simp only [Window.extend, hpend, List.length_append]
        omega
      · simp only [Window.extend, hpend, List.length_append, hlen]
        omega

/-! ## Frames that are rejected -/

theorem readBody_none {t : UInt32} {w : Window UInt8} (h : (readBody k protocol t w).1 = none)
    (w' : Window UInt8) : (readBody k protocol t w').1 = none := by
  unfold readBody at h ⊢
  cases hfill : (MsgType.ofCode t).bind (fillFromChannel k protocol) with
  | none => rfl
  | some fill =>
    rw [hfill] at h
    cases h

/-- A message has at least a type. -/
theorem readMsg_some {w : Window UInt8} {m : Msg} (h : (readMsg k protocol w).1 = some m) :
    (readMsg k protocol w).2.rest.length + 4 ≤ w.rest.length := by
  by_cases hlen : 4 ≤ w.rest.length
  · have hsuffix := ((readBody_regular k protocol (readUInt32 w).1).suffix
      (readUInt32 w).2).length_le
    have hword : (readUInt32 w).2.rest.length = w.rest.length - 4 := by
      rw [readUInt32_of_le hlen, List.length_drop]
    have hread : readMsg k protocol w = readBody k protocol (readUInt32 w).1 (readUInt32 w).2 := rfl
    rw [hread]
    omega
  · have hread : readMsg k protocol w = readBody k protocol 0 { w with short := true } := by
      rw [readMsg_eq, Reader.bind_apply, readUInt32_of_lt hlen]
    rw [hread] at h
    cases h

theorem takeMsg_reject_of_type (h : ch.Ok) (hmsg : ch.instate = .hasMsg) (allowed : Bool)
    (hpend : ch.pending = p ++ r) (hlen : ch.inmsglen.toNat = p.length)
    (hfour : 4 ≤ p.length) (hj : judge k protocol p = none)
    (ht : Word.value p ≠ MsgType.fileChunk.code) :
    Judged ch r none (takeMsg k protocol junk (setError k protocol junk) ch allowed) := by
  have hfour' : 4 ≤ ch.window.rest.length := by
    change 4 ≤ ch.pending.length
    rw [hpend, List.length_append]
    omega
  set body := readBody k protocol (Word.value p) with hbody
  set w₁ : Window UInt8 := { Window.fresh p [] with rest := p.drop 4 } with hw₁
  set w₂ : Window UInt8 := { ch.window with rest := p.drop 4 ++ r } with hw₂
  have halone : alone k protocol p = body w₁ := by
    rw [alone, readMsg_eq, Reader.bind_apply, readUInt32_of_le hfour]
    rfl
  have hreal : readMsg k protocol ch.window = body w₂ := by
    have hrest : ch.window.rest = p ++ r := hpend
    rw [readMsg_eq, Reader.bind_apply, readUInt32_of_le hfour', hrest, Word.value_append hfour,
      List.drop_append_of_le_length hfour]
  have hpair : Reader.Paired body body := readBody_paired k protocol ht
  cases hm : (body w₁).1 with
  | none =>
    refine takeMsg_none k protocol junk hmsg allowed ?_
    rw [hreal]
    exact readBody_none k protocol hm w₂
  | some m =>
    have hrest : (body w₁).2.rest ≠ [] := by
      intro he
      rw [judge, halone, if_pos he, hm] at hj
      cases hj
    cases hm' : (body w₂).1 with
    | none => exact takeMsg_none k protocol junk hmsg allowed (by rw [hreal, hm'])
    | some m' =>
      have hread : readMsg k protocol ch.window = (some m', (body w₂).2) := by
        rw [hreal, ← hm']
      have hfailed : (body w₂).2.failed = false := hpair.quiet w₂
      have hle : (body w₂).2.rest.length ≤ ch.pending.length := by
        have hsuffix := ((readMsg_regular k protocol).suffix ch.window).length_le
        rw [hread] at hsuffix
        exact hsuffix
      have hpos := List.length_pos_iff.mpr hrest
      refine takeMsg_mismatch k protocol junk h hmsg allowed hread hfailed hle ?_
      rw [hlen, hpend, List.length_append]
      rw [hpend, List.length_append] at hle
      rcases hpair.tracks.track w₁ w₂ r rfl hrest with hover | ⟨hsame, -⟩
      · omega
      · rw [hsame, List.length_append] at hle ⊢
        omega

/-- The nested call behind `set_error` cannot accept a frame that is too short for a
type either, so it leaves the length of the message as it is. -/
theorem setError_short (h : ch.Cursors) (hmsg : ch.instate = .hasMsg)
    (hn : ch.inmsglen.toNat < 4) :
    (setError k protocol junk ch).inmsglen = ch.inmsglen ∧
      ch.intogo ≤ (setError k protocol junk ch).intogo := by
  have hlen := h.pending_length
  have hord := h.order
  have hquiet : ∀ c : MsgChannel, c.quietError.inmsglen = c.inmsglen ∧
      c.quietError.intogo = c.intogo := by
    intro c
    rw [quietError]
    split <;> exact ⟨rfl, rfl⟩
  have hsuffix : (readMsg k protocol ch.window).2.rest.length ≤ ch.pending.length :=
    ((readMsg_regular k protocol).suffix ch.window).length_le
  have htake : (takeMsg k protocol junk quietError ch true).2.inmsglen = ch.inmsglen ∧
      ch.intogo ≤ (takeMsg k protocol junk quietError ch true).2.intogo := by
    rw [takeMsg, if_neg (by simp [atEof, hmsg]), if_neg (by simp [MsgChannel.hasMsg, hmsg])]
    dsimp only
    generalize hch' : ({ ch with
      intogo := ch.inofs - (readMsg k protocol ch.window).2.rest.length } : MsgChannel) = ch'
    have hmsglen : ch'.inmsglen = ch.inmsglen := by rw [← hch']
    have htogo : ch'.intogo = ch.inofs - (readMsg k protocol ch.window).2.rest.length := by
      rw [← hch']
    cases hm : (readMsg k protocol ch.window).1 with
    | none =>
      dsimp only
      rw [(hquiet ch').1, (hquiet ch').2]
      exact ⟨hmsglen, by omega⟩
    | some m =>
      have hsome := readMsg_some k protocol hm
      change _ + 4 ≤ ch.pending.length at hsome
      dsimp only
      generalize hch'' : (if (readMsg k protocol ch.window).2.failed then quietError ch'
        else ch') = ch''
      have hsame : ch''.inmsglen = ch'.inmsglen ∧ ch''.intogo = ch'.intogo := by
        rw [← hch'']
        split
        · exact hquiet ch'
        · exact ⟨rfl, rfl⟩
      have hcheck : ch''.intogo - ch.intogo ≠ ch''.inmsglen.toNat := by
        rw [hsame.1, hsame.2, hmsglen]
        omega
      rw [if_pos hcheck, (hquiet ch'').1, (hquiet ch'').2, hsame.1, hsame.2]
      exact ⟨hmsglen, by omega⟩
  rw [setError, if_neg (by simp [hmsg])]
  dsimp only
  rw [if_pos (by simp [MsgChannel.hasMsg, hmsg])]
  exact htake

theorem takeMsg_short (h : ch.Ok) (hmsg : ch.instate = .hasMsg) (allowed : Bool)
    (hn : ch.inmsglen.toNat < 4) :
    Judged ch r none (takeMsg k protocol junk (setError k protocol junk) ch allowed) := by
  have hlen := h.pending_length
  have hord := h.order
  cases hm : (readMsg k protocol ch.window).1 with
  | none => exact takeMsg_none k protocol junk hmsg allowed hm
  | some m =>
    have hsome := readMsg_some k protocol hm
    change _ + 4 ≤ ch.pending.length at hsome
    rw [takeMsg, if_neg (by simp [atEof, hmsg]), if_neg (by simp [MsgChannel.hasMsg, hmsg])]
    dsimp only
    generalize hch' : ({ ch with
      intogo := ch.inofs - (readMsg k protocol ch.window).2.rest.length } : MsgChannel) = ch'
    have hcur : ch'.Cursors := by
      rw [← hch']
      exact ⟨Nat.sub_le _ _, h.inside⟩
    have hmsg' : ch'.instate = .hasMsg := by rw [← hch', hmsg]
    have hmsglen : ch'.inmsglen = ch.inmsglen := by rw [← hch']
    have htogo : ch'.intogo = ch.inofs - (readMsg k protocol ch.window).2.rest.length := by
      rw [← hch']
    have hset := setError_short k protocol junk hcur hmsg' (by rw [hmsglen]; exact hn)
    rw [hm]
    dsimp only
    generalize hch'' : (if (readMsg k protocol ch.window).2.failed then
      setError k protocol junk ch' else ch') = ch''
    have hsame : ch''.inmsglen = ch'.inmsglen ∧ ch'.intogo ≤ ch''.intogo := by
      rw [← hch'']
      split
      · exact hset
      · exact ⟨rfl, le_rfl⟩
    have hcheck : ch''.intogo - ch.intogo ≠ ch''.inmsglen.toNat := by
      rw [hsame.1, hmsglen]
      have := hsame.2
      omega
    rw [if_pos hcheck]
    exact ⟨rfl, by simp, fun _ => setError_instate k protocol junk _⟩

/-- A well bounded frame is judged as if it were alone. -/
theorem takeMsg_judged (h : ch.Ok) (hmsg : ch.instate = .hasMsg) (allowed : Bool)
    (hpend : ch.pending = p ++ r) (hlen : ch.inmsglen.toNat = p.length)
    (hp : WellBounded k protocol p) :
    Judged ch r (judge k protocol p)
      (takeMsg k protocol junk (setError k protocol junk) ch allowed) := by
  rcases hp with ⟨hshort, hloose, hfailed⟩ | ⟨hj, ht⟩
  · exact takeMsg_inside k protocol junk h hmsg allowed hpend hlen hshort hloose hfailed
  · rw [hj]
    by_cases hfour : 4 ≤ p.length
    · exact takeMsg_reject_of_type k protocol junk h hmsg allowed hpend hlen hfour hj ht
    · exact takeMsg_short k protocol junk h hmsg allowed (by omega)

theorem nextFrame_append {len : UInt32} {p r : Bytes} (h : len.toNat = p.length) :
    nextFrame (writeUInt32 len ++ (p ++ r)) = some (p, r) := by
  have hword : Word.value (writeUInt32 len ++ (p ++ r)) = len := Word.value_bytes len _
  have hcond : 4 ≤ (writeUInt32 len ++ (p ++ r)).length ∧
      len.toNat ≤ (writeUInt32 len ++ (p ++ r)).length - 4 := by
    simp only [List.length_append, writeUInt32_length]
    omega
  rw [nextFrame, hword, if_pos hcond, List.drop_left' (writeUInt32_length len), h,
    List.take_left, List.drop_left]

theorem nextFrame_none {ch : MsgChannel} (h : ch.Ok) (hmsg : ch.instate ≠ .hasMsg)
    (herr : ch.instate ≠ .error) : nextFrame ch.ahead = none := by
  rw [nextFrame, if_neg]
  rintro ⟨hfour, hlen⟩
  cases hs : ch.instate with
  | needLen =>
    have hpend := h.needLen hs
    have hahead : ch.ahead = ch.pending := by rw [ahead, hs]
    rw [hahead] at hfour
    omega
  | fillBuf =>
    have hpend := h.fillBuf hs
    have hahead : ch.ahead = writeUInt32 ch.inmsglen ++ ch.pending := by rw [ahead, hs]
    have hword : Word.value (writeUInt32 ch.inmsglen ++ ch.pending) = ch.inmsglen :=
      Word.value_bytes _ _
    rw [hahead, hword, List.length_append, writeUInt32_length] at hlen
    omega
  | hasMsg => exact hmsg hs
  | error => exact herr hs

/-! ## Runs of a receiver on one stream -/

/-- A receiver and what it has not read of the stream; whether the peer has closed the
connection and whether a call after that has returned nothing. -/
structure Tap where
  ch : MsgChannel
  incoming : Bytes
  delivered : List Msg
  closed : Bool
  asked : Bool
  deriving DecidableEq, Repr

inductive TapEvent
  | read (n : ℕ)
  | close
  | get (reads : List ℕ)

namespace Tap

variable (allowed : Bool) (stream : Bytes)

def next (s : Tap) : TapEvent → Option Tap
  | .read n =>
    let r := readABit junk s.ch (.arrive n) s.incoming
    some { s with ch := r.1, incoming := r.2 }
  | .close =>
    if s.incoming = [] then
      some { s with ch := (readABit junk s.ch .eof []).1, closed := true }
    else none
  | .get reads =>
    let r := getMsg k protocol junk s.ch s.incoming (reads.map .arrive) allowed
    some { s with
      ch := r.2.1
      incoming := r.2.2
      delivered := s.delivered ++ r.1.toList
      asked := s.asked || (s.closed && r.1.isNone) }

structure Init (s : Tap) : Prop where
  ok : s.ch.Ok
  instate : s.ch.instate = .needLen
  pending : s.ch.pending = []
  eof : s.ch.eof = false
  incoming : s.incoming = stream
  delivered : s.delivered = []
  closed : s.closed = false
  asked : s.asked = false

def system : Transition.System Tap TapEvent where
  init := Init stream
  next := next k protocol junk allowed

/-- Everything has been read and `get_msg` has nothing more to return. -/
structure Settled (closing : Bool) (s : Tap) : Prop where
  incoming : s.incoming = []
  instate : s.ch.instate ≠ .hasMsg
  closed : s.closed = closing
  asked : closing = true → s.asked = true

/-- What has been delivered and what is ahead make up the meaning of the stream. -/
structure Inv (s : Tap) : Prop where
  ok : s.ch.instate ≠ .error → s.ch.Ok
  bounded : s.ch.instate ≠ .error → Bounded k protocol (s.ch.ahead ++ s.incoming)
  running : s.ch.instate ≠ .error → parse k protocol stream =
    (s.delivered ++ (parse k protocol (s.ch.ahead ++ s.incoming)).1,
      (parse k protocol (s.ch.ahead ++ s.incoming)).2)
  eof : s.ch.instate ≠ .error → s.ch.eof = s.closed
  incoming : s.closed = true → s.ch.instate ≠ .error → s.incoming = []
  stopped : s.ch.instate = .error → parse k protocol stream = (s.delivered, true) ∨
    (parse k protocol stream = (s.delivered, false) ∧ s.closed = true ∧ allowed = false)
  asked : s.asked = true → allowed = false → s.ch.instate = .error

variable {allowed stream}

theorem inv_init (hb : Bounded k protocol stream) {s : Tap} (h : Init stream s) :
    Inv k protocol allowed stream s := by
  have hne : s.ch.instate ≠ .error := by
    rw [h.instate]
    exact nofun
  have hahead : s.ch.ahead ++ s.incoming = stream := by
    rw [ahead, h.instate, h.pending, h.incoming]
    rfl
  refine ⟨fun _ => h.ok, fun _ => hahead ▸ hb, fun _ => ?_, fun _ => ?_, fun hc => ?_, fun he => ?_,
    fun ha => ?_⟩
  · rw [hahead, h.delivered]
    rfl
  · rw [h.eof, h.closed]
  · rw [h.closed] at hc
    cases hc
  · exact absurd he hne
  · rw [h.asked] at ha
    cases ha

/-- Data moves between the socket and the buffer. -/
theorem Inv.moved {s : Tap} (hs : Inv k protocol allowed stream s)
    (hne : s.ch.instate ≠ .error) {r : MsgChannel × Bytes} (hr : Received s.ch s.incoming r)
    (hr' : r.1.instate ≠ .error) {closed asked : Bool} (heof : r.1.eof = closed)
    (hin : closed = true → r.2 = []) (hasked : asked = true → allowed = false → False) :
    Inv k protocol allowed stream ⟨r.1, r.2, s.delivered, closed, asked⟩ where
  ok _ := hr.ok
  bounded _ := by
    have h := hs.bounded hne
    rwa [← hr.conserved hr'] at h
  running _ := by
    have h := hs.running hne
    rwa [← hr.conserved hr'] at h
  eof _ := heof
  incoming h _ := hin h
  stopped h := absurd h hr'
  asked h h' := (hasked h h').elim

theorem inv_read {s : Tap} (hs : Inv k protocol allowed stream s) (n : ℕ) :
    Inv k protocol allowed stream { s with
      ch := (readABit junk s.ch (.arrive n) s.incoming).1
      incoming := (readABit junk s.ch (.arrive n) s.incoming).2 } := by
  by_cases hne : s.ch.instate = .error
  · have herr := readABit_error junk hne (.arrive n) s.incoming
    exact ⟨fun h => absurd herr h, fun h => absurd herr h, fun h => absurd herr h,
      fun h => absurd herr h, fun _ h => absurd herr h, fun _ => hs.stopped hne, fun _ _ => herr⟩
  · obtain ⟨hne', heof⟩ := readABit_arrive junk (hs.ok hne) hne n s.incoming
    refine hs.moved k protocol hne (readABit_received junk (hs.ok hne) _ s.incoming) hne'
      (heof.trans (hs.eof hne)) (fun hc => ?_) fun ha hl => hne (hs.asked ha hl)
    rw [hs.incoming hc hne]
    exact readABit_nil junk s.ch (.arrive n)

theorem inv_close {s : Tap} (hs : Inv k protocol allowed stream s) (hin : s.incoming = []) :
    Inv k protocol allowed stream
      { s with ch := (readABit junk s.ch .eof []).1, closed := true } := by
  by_cases hne : s.ch.instate = .error
  · have herr := readABit_error junk hne .eof []
    exact ⟨fun h => absurd herr h, fun h => absurd herr h, fun h => absurd herr h,
      fun h => absurd herr h, fun _ h => absurd herr h,
      fun _ => (hs.stopped hne).imp_right fun h => ⟨h.1, rfl, h.2.2⟩, fun _ _ => herr⟩
  · obtain ⟨hne', heof⟩ := readABit_eof junk (hs.ok hne) hne []
    have hrec := readABit_received junk (hs.ok hne) .eof []
    have hrec' : Received s.ch s.incoming ((readABit junk s.ch .eof []).1, s.incoming) := by
      refine ⟨hrec.ok, fun h => ?_⟩
      have hsame := hrec.conserved h
      rw [readABit_nil] at hsame
      rw [hin]
      exact hsame
    exact hs.moved k protocol hne hrec' hne' heof (fun _ => hin)
      fun ha hl => hne (hs.asked ha hl)

/-- The frame a channel with a message holds is the next one of what is ahead. -/
theorem nextFrame_hasMsg {ch : MsgChannel} (h : ch.Ok) (hmsg : ch.instate = .hasMsg)
    (incoming : Bytes) :
    nextFrame (ch.ahead ++ incoming) = some (ch.pending.take ch.inmsglen.toNat,
      ch.pending.drop ch.inmsglen.toNat ++ incoming) ∧
    ch.inmsglen.toNat = (ch.pending.take ch.inmsglen.toNat).length := by
  have hlen : ch.inmsglen.toNat = (ch.pending.take ch.inmsglen.toNat).length := by
    rw [List.length_take, Nat.min_eq_left (h.hasMsg hmsg)]
  have hahead : ch.ahead ++ incoming = writeUInt32 ch.inmsglen ++
      (ch.pending.take ch.inmsglen.toNat ++ (ch.pending.drop ch.inmsglen.toNat ++ incoming)) := by
    rw [ahead, hmsg, List.append_assoc, ← List.append_assoc (List.take _ _),
      List.take_append_drop]
  rw [hahead]
  exact ⟨nextFrame_append hlen, hlen⟩

theorem inv_take {s : Tap} (hs : Inv k protocol allowed stream s)
    (hmsg : s.ch.instate = .hasMsg) :
    Inv k protocol allowed stream { s with
      ch := (takeMsg k protocol junk (setError k protocol junk) s.ch allowed).2
      delivered := s.delivered ++
        (takeMsg k protocol junk (setError k protocol junk) s.ch allowed).1.toList
      asked := s.asked || (s.closed &&
        (takeMsg k protocol junk (setError k protocol junk) s.ch allowed).1.isNone) } := by
  have hne : s.ch.instate ≠ .error := by
    rw [hmsg]
    exact nofun
  have hok := hs.ok hne
  obtain ⟨hnext, hlen⟩ := nextFrame_hasMsg hok hmsg s.incoming
  have hpend : s.ch.pending = s.ch.pending.take s.ch.inmsglen.toNat ++
      s.ch.pending.drop s.ch.inmsglen.toNat := (List.take_append_drop _ _).symm
  have hrun := hs.running hne
  have hjudged : WellBounded k protocol (s.ch.pending.take s.ch.inmsglen.toNat) →
      Judged s.ch (s.ch.pending.drop s.ch.inmsglen.toNat)
        (judge k protocol (s.ch.pending.take s.ch.inmsglen.toNat))
        (takeMsg k protocol junk (setError k protocol junk) s.ch allowed) :=
    takeMsg_judged k protocol junk hok hmsg allowed hpend hlen
  generalize takeMsg k protocol junk (setError k protocol junk) s.ch allowed = t at hjudged ⊢
  cases hs.bounded hne with
  | wait h =>
    rw [hnext] at h
    cases h
  | @reject _ p r h hw hj =>
    rw [hnext] at h
    obtain ⟨rfl, rfl⟩ : _ = p ∧ _ = r := by simpa using h
    have hj' := hjudged hw
    rw [hj] at hj'
    have herr := hj'.rejected rfl
    rw [parse_reject k protocol hnext hj, List.append_nil] at hrun
    refine ⟨fun h => absurd herr h, fun h => absurd herr h, fun h => absurd herr h,
      fun h => absurd herr h, fun _ h => absurd herr h, fun _ => .inl ?_, fun _ _ => herr⟩
    rw [hj'.msg, Option.toList_none, List.append_nil]
    exact hrun
  | @accept _ p r m h hw hj hb =>
    rw [hnext] at h
    obtain ⟨rfl, rfl⟩ : _ = p ∧ _ = r := by simpa using h
    have hj' := hjudged hw
    rw [hj] at hj'
    obtain ⟨hok', hahead, herr, heof⟩ := hj'.accepted rfl
    rw [parse_accept k protocol hnext hj] at hrun
    refine ⟨fun _ => hok', fun _ => ?_, fun _ => ?_, fun _ => heof.trans (hs.eof hne),
      fun hc _ => hs.incoming hc hne, fun h => absurd h herr, fun ha hl => ?_⟩
    · rw [hahead]
      exact hb
    · rw [hahead, hj'.msg, Option.toList_some, List.append_assoc]
      exact hrun
    · rw [hj'.msg, Option.isNone_some, Bool.and_false, Bool.or_false] at ha
      exact absurd (hs.asked ha hl) hne

theorem atLeastOne_arrive (reads : List ℕ) :
    ∃ ns : List ℕ, atLeastOne (reads.map .arrive) = ns.map .arrive := by
  cases reads with
  | nil => exact ⟨[0], rfl⟩
  | cons n ns => exact ⟨n :: ns, rfl⟩

theorem inv_get {s : Tap} (hs : Inv k protocol allowed stream s) (reads : List ℕ) :
    Inv k protocol allowed stream { s with
      ch := (getMsg k protocol junk s.ch s.incoming (reads.map .arrive) allowed).2.1
      incoming := (getMsg k protocol junk s.ch s.incoming (reads.map .arrive) allowed).2.2
      delivered := s.delivered ++
        (getMsg k protocol junk s.ch s.incoming (reads.map .arrive) allowed).1.toList
      asked := s.asked || (s.closed &&
        (getMsg k protocol junk s.ch s.incoming (reads.map .arrive) allowed).1.isNone) } := by
  by_cases hne : s.ch.instate = .error
  · rw [getMsg_error k protocol junk hne]
    refine ⟨fun h => absurd hne h, fun h => absurd hne h, fun h => absurd hne h,
      fun h => absurd hne h, fun _ h => absurd hne h, fun _ => ?_, fun _ _ => hne⟩
    rw [Option.toList_none, List.append_nil]
    exact hs.stopped hne
  · obtain ⟨ns, hns⟩ := atLeastOne_arrive reads
    have hgot := getMsg_got k protocol junk s.ch s.incoming (reads.map .arrive) allowed
    have hrec := waitForMsg_received junk (hs.ok hne) s.incoming (ns.map .arrive)
    obtain ⟨hne', heof⟩ := waitForMsg_arrive junk (hs.ok hne) hne s.incoming ns
    have hin : s.closed = true → (waitForMsg junk s.ch s.incoming (ns.map .arrive)).2 = [] := by
      intro hc
      rw [hs.incoming hc hne]
      exact waitForMsg_nil junk s.ch _
    rw [hns] at hgot
    generalize getMsg k protocol junk s.ch s.incoming (reads.map .arrive) allowed = g at hgot ⊢
    have heof' := heof.trans (hs.eof hne)
    have hmoved := hs.moved k protocol hne hrec hne' heof' hin
      (fun (ha : s.asked = true) hl => hne (hs.asked ha hl))
    cases hgot with
    | broken hr herr =>
      subst hr
      exact absurd herr hne'
    | ended hr hmsg _ hend hl herr =>
      subst hr
      have hc : s.closed = true := heof'.symm.trans hend
      have hrun := hmoved.running hne'
      have hempty := hin hc
      dsimp only at hrun
      rw [hempty, List.append_nil, parse_wait k protocol (nextFrame_none hrec.ok hmsg hne'),
        List.append_nil] at hrun
      refine ⟨fun h => absurd herr h, fun h => absurd herr h, fun h => absurd herr h,
        fun h => absurd herr h, fun _ h => absurd herr h, fun _ => .inr ⟨?_, hc, hl⟩,
        fun _ _ => herr⟩
      rw [Option.toList_none, List.append_nil]
      exact hrun
    | nothing hr hmsg _ hend =>
      subst hr
      have hasked : (s.asked || (s.closed && true)) = true → allowed = false → False := by
        intro ha hl
        rw [Bool.and_true, Bool.or_eq_true] at ha
        rcases ha with ha | ha
        · exact hne (hs.asked ha hl)
        · rw [hend (heof'.trans ha)] at hl
          cases hl
      have hmoved' := hs.moved k protocol hne hrec hne' heof' hin hasked
      simpa only [Option.toList_none, List.append_nil, Option.isNone_none] using hmoved'
    | taken hr hmsg =>
      subst hr
      exact inv_take k protocol junk hmoved hmsg

theorem inv_step {s t : Tap} (e : TapEvent) (hs : Inv k protocol allowed stream s)
    (hn : next k protocol junk allowed s e = some t) : Inv k protocol allowed stream t := by
  cases e with
  | read n =>
    obtain rfl := Option.some.inj hn
    exact inv_read k protocol junk hs n
  | close =>
    rw [next] at hn
    split at hn
    · next hin =>
      obtain rfl := Option.some.inj hn
      exact inv_close k protocol junk hs hin
    · cases hn
  | get reads =>
    obtain rfl := Option.some.inj hn
    exact inv_get k protocol junk hs reads

theorem inv_reaches (hb : Bounded k protocol stream) {s : Tap}
    (h : (system k protocol junk allowed stream).Reachable s) :
    Inv k protocol allowed stream s :=
  h.invariant (fun _ hi => inv_init k protocol hb hi)
    fun _ e _ hi _ hn => inv_step k protocol junk e hi hn

/-- What a receiver that has read everything has delivered, and whether it is in ERROR. -/
theorem settled (hb : Bounded k protocol stream) {s : Tap} {closing : Bool}
    (h : (system k protocol junk allowed stream).Reachable s) (hs : Settled closing s) :
    s.delivered = (parse k protocol stream).1 ∧
      (s.ch.instate = .error ↔
        (parse k protocol stream).2 = true ∨ (closing = true ∧ allowed = false)) := by
  have hinv := inv_reaches k protocol junk hb h
  by_cases hne : s.ch.instate = .error
  · rcases hinv.stopped hne with hp | ⟨hp, hc, hl⟩
    · rw [hp]
      exact ⟨rfl, by simp [hne]⟩
    · rw [hp]
      exact ⟨rfl, by simp [hne, ← hs.closed, hc, hl]⟩
  · have hwait := parse_wait k protocol (nextFrame_none (hinv.ok hne) hs.instate hne)
    have hrun := hinv.running hne
    rw [hs.incoming, List.append_nil, hwait, List.append_nil] at hrun
    rw [hrun]
    refine ⟨rfl, ?_⟩
    simp only [hne, false_iff, Bool.false_eq_true, false_or, not_and]
    intro hc hl
    exact hne (hinv.asked (hs.asked hc) hl)

end Tap

def Tap.fresh (stream : Bytes) : Tap := ⟨⟨[], 0, 0, .needLen, 0, false⟩, stream, [], false, false⟩

theorem Tap.fresh_init (stream : Bytes) : Tap.Init stream (Tap.fresh stream) where
  ok := ⟨⟨le_rfl, le_rfl⟩, fun _ => Nat.zero_lt_succ 3, nofun, nofun⟩
  instate := rfl
  pending := rfl
  eof := rfl
  incoming := rfl
  delivered := rfl
  closed := rfl
  asked := rfl

/-- A ping and a status text, then the beginning of another frame. -/
def pingAndStatus : Bytes :=
  [0, 0, 0, 4, 0, 0, 0, 66, 0, 0, 0, 11, 0, 0, 0, 90, 0, 0, 0, 3, 104, 105, 0, 0, 0]

theorem pingAndStatus_bounded : Bounded Compression.stored 45 pingAndStatus := by
  have hping : nextFrame pingAndStatus = some ([0, 0, 0, 66], pingAndStatus.drop 8) := by
    decide +kernel
  have hstatus : nextFrame (pingAndStatus.drop 8) =
      some ([0, 0, 0, 90, 0, 0, 0, 3, 104, 105, 0], [0, 0]) := by decide +kernel
  refine .accept (m := .ping) hping (.inl ?_) (by decide +kernel) ?_
  · decide +kernel
  · refine .accept (m := .statusText [104, 105]) hstatus (.inl ?_) (by decide +kernel)
      (.wait (by decide +kernel))
    decide +kernel

end Splitting

end Icecream.Comm
