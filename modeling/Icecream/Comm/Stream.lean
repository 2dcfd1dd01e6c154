import Icecream.Library.Transition
import Icecream.Comm.Output

/-!
# Two channels and the bytes between them

A sender and a receiver joined by a byte stream. Calls of `send_msg`, `read_a_bit`
and `get_msg` come in any order, with any flags and any outcome of the system calls
they make.
-/

namespace Icecream.Comm

open MsgChannel

structure Link where
  out : SendChannel
  inp : MsgChannel
  wire : Bytes
  sent : List Msg
  written : Bytes
  delivered : List Msg
  deriving DecidableEq, Repr

inductive LinkEvent
  | send (m : Msg) (blocking bulkOnly : Bool) (events : List SendEvent)
  | read (e : ReadEvent)
  | get (reads : List ReadEvent) (eofAllowed : Bool)

namespace Link

variable (k : Compression) (protocol : ℕ) (junk : ℕ → UInt8) (maxWriteSize : ℕ)

def next (s : Link) : LinkEvent → Option Link
  | .send m blocking bulkOnly events =>
    (s.out.sendMsg k protocol junk maxWriteSize m blocking bulkOnly events).map fun r =>
      { s with
        out := r.2.1
        wire := s.wire ++ r.2.2
        sent := s.sent ++ [m]
        written := s.written ++ r.2.2 }
  | .read e =>
    let r := readABit junk s.inp e s.wire
    some { s with inp := r.1, wire := r.2 }
  | .get reads eofAllowed =>
    let r := getMsg k protocol junk s.inp s.wire reads eofAllowed
    some { s with inp := r.2.1, wire := r.2.2, delivered := s.delivered ++ r.1.toList }

/-- Both ends have finished the protocol setup and nothing has been sent. -/
structure Init (s : Link) : Prop where
  front : s.out.Front
  buffered : s.out.buffered = []
  error : s.out.error = false
  ok : s.inp.Ok
  ahead : s.inp.ahead = []
  wire : s.wire = []
  sent : s.sent = []
  written : s.written = []
  delivered : s.delivered = []

def system : Transition.System Link LinkEvent where
  init := Init
  next := next k protocol junk maxWriteSize

/-- The guard of runs that send only what the encoding can carry. -/
def Sends : LinkEvent → Prop
  | .send m _ _ _ => m.Framed k protocol
  | _ => True

/-! ## What is written -/

/-- The sender's bytes are the frames, in order, whatever the flags were. -/
structure Written (s : Link) : Prop where
  front : s.out.error = false → s.out.Front
  frames : s.out.error = false →
    s.written ++ s.out.buffered = s.sent.flatMap (frame k protocol)

theorem written_init {s : Link} (h : s.Init) : Written k protocol s where
  front _ := h.front
  frames _ := by
    rw [h.written, h.buffered, h.sent]
    rfl

theorem written_step {s t : Link} (e : LinkEvent) (hs : Written k protocol s)
    (hn : next k protocol junk maxWriteSize s e = some t) : Written k protocol t := by
  cases e with
  | send m blocking bulkOnly events =>
    obtain ⟨⟨ok, ch, bytes⟩, hsend, rfl⟩ := Option.map_eq_some_iff.mp hn
    have hspec : ch.error = false →
        ch.Front ∧ bytes ++ ch.buffered = s.out.buffered ++ frame k protocol m ∧
          s.out.error = false := by
      intro herr
      have hno : s.out.error = false := by
        by_contra hc
        rw [SendChannel.sendMsg, if_pos (by simpa using hc)] at hsend
        simp only [Option.some.injEq, Prod.mk.injEq] at hsend
        rw [hsend.2.1] at hc
        exact hc herr
      exact SendChannel.sendMsg_front k protocol junk maxWriteSize (hs.front hno) m blocking
        bulkOnly events hsend herr
    refine ⟨fun herr => (hspec herr).1, fun herr => ?_⟩
    obtain ⟨-, hbytes, hno⟩ := hspec herr
    change s.written ++ bytes ++ ch.buffered = (s.sent ++ [m]).flatMap (frame k protocol)
    rw [List.append_assoc, hbytes, ← List.append_assoc, hs.frames hno, List.flatMap_append]
    simp
  | read e =>
    obtain rfl : { s with inp := _, wire := _ } = t := Option.some.inj hn
    exact ⟨hs.front, hs.frames⟩
  | get reads allowed =>
    obtain rfl : { s with inp := _, wire := _, delivered := _ } = t := Option.some.inj hn
    exact ⟨hs.front, hs.frames⟩

/-! ## What is delivered -/

/-- While neither end is in ERROR, the messages delivered are the first ones sent, and
the bytes from the receiver's cursor to the sender's buffer are the frames of the rest. -/
structure Delivered (s : Link) : Prop where
  ok : s.out.error = false → s.inp.instate ≠ .error → s.inp.Ok
  split : s.out.error = false → s.inp.instate ≠ .error → ∃ done rest, s.sent = done ++ rest ∧
    s.delivered = done.map (Msg.normalised protocol k) ∧
    s.inp.ahead ++ s.wire ++ s.out.buffered = rest.flatMap (frame k protocol)

theorem delivered_init {s : Link} (h : s.Init) : Delivered k protocol s where
  ok _ _ := h.ok
  split _ _ := by
    refine ⟨[], [], h.sent, h.delivered, ?_⟩
    rw [h.ahead, h.wire, h.buffered]
    rfl

/-- The receiver moves data without taking a message. -/
theorem Delivered.received {s : Link} (hs : Delivered k protocol s)
    (hno : s.out.error = false) (hne : s.inp.instate ≠ .error) {r : MsgChannel × Bytes}
    (hr : Received s.inp s.wire r) (hr' : r.1.instate ≠ .error) :
    ∃ done rest, s.sent = done ++ rest ∧ s.delivered = done.map (Msg.normalised protocol k) ∧
      r.1.ahead ++ r.2 ++ s.out.buffered = rest.flatMap (frame k protocol) := by
  obtain ⟨done, rest, hsent, hdel, hbytes⟩ := hs.split hno hne
  refine ⟨done, rest, hsent, hdel, ?_⟩
  rw [hr.conserved hr', hbytes]

theorem delivered_read {s : Link} (hs : Delivered k protocol s) (e : ReadEvent) :
    Delivered k protocol { s with
      inp := (readABit junk s.inp e s.wire).1, wire := (readABit junk s.inp e s.wire).2 } := by
  have hbefore : (readABit junk s.inp e s.wire).1.instate ≠ .error → s.inp.instate ≠ .error :=
    fun h h' => h (readABit_error junk h' e s.wire)
  refine ⟨fun hno hne => ?_, fun hno hne => ?_⟩
  · exact (readABit_received junk (hs.ok hno (hbefore hne)) e s.wire).ok
  · exact hs.received k protocol hno (hbefore hne)
      (readABit_received junk (hs.ok hno (hbefore hne)) e s.wire) hne

/-- A whole message in the receiver's buffer is the next one sent. -/
theorem delivered_take (hk : k.Lawful) {s : Link} {done rest : List Msg} (hrest : ∀ m ∈ rest, m.Framed k protocol)
    (hsent : s.sent = done ++ rest)
    (hdel : s.delivered = done.map (Msg.normalised protocol k)) {ch : MsgChannel} {wire : Bytes}
    (hok : ch.Ok) (hmsg : ch.instate = .hasMsg)
    (hbytes : ch.ahead ++ wire ++ s.out.buffered = rest.flatMap (frame k protocol))
    (allowed : Bool) :
    Delivered k protocol { s with
      inp := (takeMsg k protocol junk (setError k protocol junk) ch allowed).2
      wire := wire
      delivered := s.delivered ++
        (takeMsg k protocol junk (setError k protocol junk) ch allowed).1.toList } := by
  cases rest with
  | nil =>
    have hempty : ch.ahead = [] := by
      rw [List.flatMap_nil, List.append_eq_nil_iff, List.append_eq_nil_iff] at hbytes
      exact hbytes.1.1
    rw [ahead, hmsg] at hempty
    cases hempty
  | cons m rest =>
    rw [List.flatMap_cons, List.append_assoc] at hbytes
    obtain ⟨hsome, hok', htail, -⟩ :=
      takeMsg_frame hk junk hok hmsg (hrest m List.mem_cons_self) hbytes allowed
    refine ⟨fun _ _ => hok', fun _ _ => ⟨done ++ [m], rest, ?_, ?_, ?_⟩⟩
    · rw [List.append_assoc]
      exact hsent
    · simp only [hsome, Option.toList_some, hdel, List.map_append, List.map_cons, List.map_nil]
    · rw [List.append_assoc]
      exact htail

theorem delivered_get (hk : k.Lawful) {s : Link} (hs : Delivered k protocol s)
    (hsends : ∀ m ∈ s.sent, m.Framed k protocol) (reads : List ReadEvent) (allowed : Bool) :
    Delivered k protocol { s with
      inp := (getMsg k protocol junk s.inp s.wire reads allowed).2.1
      wire := (getMsg k protocol junk s.inp s.wire reads allowed).2.2
      delivered := s.delivered ++
        (getMsg k protocol junk s.inp s.wire reads allowed).1.toList } := by
  by_cases herr : s.inp.instate = .error
  · rw [getMsg_error k protocol junk herr]
    exact ⟨fun _ h => absurd herr h, fun _ h => absurd herr h⟩
  · by_cases hout : s.out.error = false
    · have hgot := getMsg_got k protocol junk s.inp s.wire reads allowed
      have hrec := waitForMsg_received junk (hs.ok hout herr) s.wire (atLeastOne reads)
      generalize getMsg k protocol junk s.inp s.wire reads allowed = g at hgot ⊢
      cases hgot with
      | broken _ h => exact ⟨fun _ h' => absurd h h', fun _ h' => absurd h h'⟩
      | ended _ _ _ _ _ h => exact ⟨fun _ h' => absurd h h', fun _ h' => absurd h h'⟩
      | nothing hr _ hne =>
        subst hr
        have hsplit := hs.received k protocol hout herr hrec hne
        refine ⟨fun _ _ => hrec.ok, fun _ _ => ?_⟩
        simpa only [Option.toList_none, List.append_nil] using hsplit
      | taken hr hmsg =>
        subst hr
        have hne : (waitForMsg junk s.inp s.wire (atLeastOne reads)).1.instate ≠ .error := by
          rw [hmsg]
          exact nofun
        obtain ⟨done, rest, hsent, hdel, hbytes⟩ := hs.received k protocol hout herr hrec hne
        have hrest : ∀ m ∈ rest, m.Framed k protocol := by
          intro m hm
          apply hsends
          rw [hsent]
          exact List.mem_append_right _ hm
        exact delivered_take k protocol junk hk hrest hsent hdel hrec.ok hmsg hbytes allowed
    · exact ⟨fun h => absurd h hout, fun h => absurd h hout⟩

/-- Everything about one step of a run that sends what can be carried. -/
structure Inv (s : Link) : Prop where
  written : Written k protocol s
  delivered : Delivered k protocol s
  sends : ∀ m ∈ s.sent, m.Framed k protocol

theorem delivered_send {s : Link} (hw : Written k protocol s) (hs : Delivered k protocol s)
    (m : Msg) (blocking bulkOnly : Bool) (events : List SendEvent) {ok : Bool} {ch : SendChannel}
    {bytes : Bytes} (hsend : s.out.sendMsg k protocol junk maxWriteSize m blocking bulkOnly events =
      some (ok, ch, bytes)) (hno : s.out.error = false) :
    Delivered k protocol { s with
      out := ch, wire := s.wire ++ bytes, sent := s.sent ++ [m], written := s.written ++ bytes } := by
  refine ⟨fun _ hne => hs.ok hno hne, fun herr hne => ?_⟩
  obtain ⟨-, hbytes, -⟩ := SendChannel.sendMsg_front k protocol junk maxWriteSize
    (hw.front hno) m blocking bulkOnly events hsend herr
  obtain ⟨done, rest, hsent, hdel, hahead⟩ := hs.split hno hne
  refine ⟨done, rest ++ [m], ?_, hdel, ?_⟩
  · rw [hsent, List.append_assoc]
  · change s.inp.ahead ++ (s.wire ++ bytes) ++ ch.buffered = _
    calc s.inp.ahead ++ (s.wire ++ bytes) ++ ch.buffered
        = s.inp.ahead ++ s.wire ++ (bytes ++ ch.buffered) := by simp only [List.append_assoc]
      _ = s.inp.ahead ++ s.wire ++ s.out.buffered ++ frame k protocol m := by
          simp only [hbytes, List.append_assoc]
      _ = (rest ++ [m]).flatMap (frame k protocol) := by
          rw [hahead, List.flatMap_append]
          simp

theorem inv_step (hk : k.Lawful) {s t : Link} (e : LinkEvent) (hs : Inv k protocol s)
    (he : Sends k protocol e) (hn : next k protocol junk maxWriteSize s e = some t) :
    Inv k protocol t := by
  have hwritten := written_step k protocol junk maxWriteSize e hs.written hn
  refine ⟨hwritten, ?_, ?_⟩
  · cases e with
    | send m blocking bulkOnly events =>
      obtain ⟨⟨ok, ch, bytes⟩, hsend, rfl⟩ := Option.map_eq_some_iff.mp hn
      by_cases hno : s.out.error = false
      · exact delivered_send k protocol junk maxWriteSize hs.written hs.delivered m blocking
          bulkOnly events hsend hno
      · rw [SendChannel.sendMsg, if_pos (by simpa using hno)] at hsend
        simp only [Option.some.injEq, Prod.mk.injEq] at hsend
        rw [hsend.2.1] at hno
        exact ⟨fun h => absurd h hno, fun h => absurd h hno⟩
    | read e =>
      obtain rfl := Option.some.inj hn
      exact delivered_read k protocol junk hs.delivered e
    | get reads allowed =>
      obtain rfl := Option.some.inj hn
      exact delivered_get k protocol junk hk hs.delivered hs.sends reads allowed
  · cases e with
    | send m blocking bulkOnly events =>
      obtain ⟨⟨ok, ch, bytes⟩, -, rfl⟩ := Option.map_eq_some_iff.mp hn
      intro m' hm'
      rcases List.mem_append.mp hm' with h | h
      · exact hs.sends m' h
      · rw [List.mem_singleton.mp h]
        exact he
    | read e =>
      obtain rfl := Option.some.inj hn
      exact hs.sends
    | get reads allowed =>
      obtain rfl := Option.some.inj hn
      exact hs.sends

/-- Sent messages arrive in order, each once: as long as the sender is not in ERROR,
what it has written and what it has buffered are the frames in order, and as long as
the receiver is not either, it has delivered a prefix of what was sent. -/
theorem delivered_in_order (hk : k.Lawful) (s : Link) :
    ((system k protocol junk maxWriteSize).Reachable s → s.out.error = false →
      s.written ++ s.out.buffered = s.sent.flatMap (frame k protocol)) ∧
    ((system k protocol junk maxWriteSize).Reaches (fun _ => Sends k protocol) s →
      s.out.error = false → s.inp.instate ≠ .error →
      s.delivered <+: s.sent.map (Msg.normalised protocol k)) := by
  constructor
  · intro hs hno
    have hinv : Written k protocol s := hs.invariant (fun _ h => written_init k protocol h)
      fun _ e _ hi _ hn => written_step k protocol junk maxWriteSize e hi hn
    exact hinv.frames hno
  · intro hs hno hne
    have hinit : ∀ s, Init s → Inv k protocol s := by
      intro s h
      refine ⟨written_init k protocol h, delivered_init k protocol h, ?_⟩
      rw [h.sent]
      exact nofun
    have hinv : Inv k protocol s := hs.invariant hinit
      fun _ e _ hi he hn => inv_step k protocol junk maxWriteSize hk e hi he hn
    obtain ⟨done, rest, hsent, hdel, -⟩ := hinv.delivered.split hno hne
    rw [hsent, hdel, List.map_append]
    exact List.prefix_append _ _

/-! ## Two runs -/

def fresh : Link where
  out := ⟨[], 0, 0, false⟩
  inp := ⟨[], 0, 0, .needLen, 0, false⟩
  wire := []
  sent := []
  written := []
  delivered := []

theorem fresh_init : fresh.Init where
  front := ⟨rfl, le_rfl⟩
  buffered := rfl
  error := rfl
  ok := ⟨⟨le_rfl, le_rfl⟩, fun _ => by decide, nofun, nofun⟩
  ahead := rfl
  wire := rfl
  sent := rfl
  written := rfl
  delivered := rfl

/-- A ping held back by a bulk send, a text flushed with it in two writes, and reads
that end inside a length word and inside a message. -/
def pingAndText : List LinkEvent :=
  [.send .ping false true [], .send (.statusText [104, 105]) false false [.sent 5, .sent 100],
    .read (.arrive 2), .get [.arrive 9] false, .get [.arrive 100] false]

theorem delivered_in_order_pingAndText : ∃ s : Link,
    (system Compression.stored 45 (fun _ => 0) maxMsgSize).exec fresh pingAndText = some s ∧
    s.delivered = [.ping, .statusText [104, 105]] ∧
    s.written ++ s.out.buffered = s.sent.flatMap (frame Compression.stored 45) ∧
    s.delivered <+: s.sent.map (Msg.normalised 45 Compression.stored) := by
  have hexec : ((system Compression.stored 45 (fun _ => 0) maxMsgSize).exec fresh
      pingAndText).map (fun s => (s.delivered, s.out.error, s.inp.instate)) =
      some ([.ping, .statusText [104, 105]], false, .needLen) := by decide +kernel
  obtain ⟨s, hs, hstate⟩ := Option.map_eq_some_iff.mp hexec
  obtain ⟨hdel, hno, hin⟩ : s.delivered = _ ∧ s.out.error = _ ∧ s.inp.instate = _ := by
    simpa using hstate
  have hne : s.inp.instate ≠ .error := by
    rw [hin]
    exact nofun
  have hsends : ∀ e ∈ pingAndText, Sends Compression.stored 45 e := by
    have hplain : Plain [104, 105] := ⟨by decide, by decide⟩
    simp only [pingAndText, List.forall_mem_cons]
    exact ⟨⟨trivial, by decide⟩, ⟨hplain, by decide⟩, trivial, trivial, trivial, nofun⟩
  have h := delivered_in_order Compression.stored 45 (fun _ => 0) maxMsgSize
    Compression.stored_lawful s
  have hinit : (system Compression.stored 45 (fun _ => 0) maxMsgSize).init fresh := fresh_init
  exact ⟨s, hs, hdel, h.1 (.exec (.init hinit) (fun _ _ _ => trivial) hs) hno,
    h.2 (.exec (.init hinit) (fun e he _ => hsends e he) hs) hno hne⟩

/-- A text with a NUL in it arrives without what is behind the NUL. -/
theorem delivered_cut_at_nul :
    ((system Compression.stored 45 (fun _ => 0) maxMsgSize).exec fresh
      [.send (.statusText [65, 0, 66]) true false [.sent 100], .get [.arrive 100] false]).map
        (fun s => (s.sent, s.delivered, s.out.error, s.inp.instate)) =
      some ([.statusText [65, 0, 66]], [.statusText [65]], false, .needLen) := by
  decide +kernel

end Link

end Icecream.Comm
