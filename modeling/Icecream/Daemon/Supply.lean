import Icecream.Daemon.Workit

/-!
# The input of a remote compiler

The client's messages on their way to the compiler: what has not arrived yet, what the channel
has read ahead, the chunk that is being written. `get_msg` reads from the socket only when no
message is left that was read before, and `poll` is asked about the socket alone.
-/

namespace Icecream.Daemon

open Icecream.Comm (Msg FileChunkMsg StdinWrite exitIoError)

/-! ## The messages of the client -/

/-- `stalled` tells that a minute has passed in which the compiler did not take what it was
offered, or the client did not send what it had to send. -/
structure Supply where
  process : Process := {}
  buffer : List Msg := []
  wire : List Msg := []
  hungUp : Bool := false
  stalled : Bool := false

inductive SupplyEvent where
  | compiler (e : Event)
  | hangUp
  | round (arrived : ℕ) (answer : Answer)

def Answer.isTimeout : Answer → Bool
  | .timeout => true
  | _ => false

def Event.isRound : Event → Bool
  | .round _ _ => true
  | _ => false

namespace Supply

/-- What the client has sent and has not been taken -/
def rest (s : Supply) : List Msg := s.buffer ++ s.wire

/-- `get_msg`, with as many messages as have arrived -/
def getMsg (s : Supply) (arrived : ℕ) : Got × Supply :=
  match s.buffer with
  | m :: buffer => (.msg m, { s with buffer := buffer })
  | [] =>
    match s.wire.take arrived with
    | m :: buffer => (.msg m, { s with buffer := buffer, wire := s.wire.drop arrived })
    | [] => (if s.wire = [] ∧ s.hungUp = true then .eof else .nothing, s)

def offer (s : Supply) (arrived : ℕ) : Got × Supply :=
  if s.process.worker.polls then s.getMsg arrived else (.nothing, s)

/-- What the loop has when it asks `poll` -/
def ready (s : Supply) (arrived : ℕ) : Worker :=
  (s.process.worker.fetch (s.offer arrived).1).discard

def next (s : Supply) : SupplyEvent → Option Supply
  | .compiler e =>
    if e.isRound then none else (s.process.next e).map fun p => { s with process := p }
  | .hangUp => some { s with hungUp := true }
  | .round arrived answer =>
    (s.process.next (.round (s.offer arrived).1 answer)).map fun p =>
      { (s.offer arrived).2 with
        process := p
        stalled := s.stalled || answer.isTimeout &&
          ((s.ready arrived).fcmsg.isSome || !(s.offer arrived).2.wire.isEmpty) }

/-- The client sends its chunks and the end of them. -/
def start (chunks : List FileChunkMsg) : Supply :=
  { wire := chunks.map .fileChunk ++ [.endMsg] }

def system (chunks : List FileChunkMsg) : Transition.System Supply SupplyEvent where
  init s := s = start chunks
  next := next

def contents (chunks : List FileChunkMsg) : List (Option UInt8) :=
  chunks.flatMap FileChunkMsg.content

/-- The compiler has got the contents of the chunks, in their order, up to where it stopped
reading, its input is closed after the last of them only, and none is left with the client. -/
structure Supplied (chunks : List FileChunkMsg) (s : Supply) : Prop where
  initial : s.process.worker.fed <+: contents chunks
  closed : s.process.worker.stdinOpen = false →
    s.process.worker.lost = true ∨ s.process.worker.fed = contents chunks
  whole : s.process.ended = true → s.stalled = false →
    s.process.worker.lost = true ∨ s.process.worker.fed = contents chunks
  drained : s.process.ended = true → s.stalled = false → s.rest = []

/-- `poll` does not wait in vain for the socket while messages are left that were read before. -/
def Woken (s : Supply) : SupplyEvent → Prop
  | .round arrived answer =>
    answer.isTimeout = true → (s.ready arrived).fcmsg = none →
      (s.offer arrived).2.buffer = [] ∨ (s.offer arrived).2.wire ≠ []
  | _ => True

/-! ## The loop alone -/

variable {chunks : List FileChunkMsg} {s t : Supply} {e : SupplyEvent}

inductive Leads (s : Supply) : SupplyEvent → Supply → Prop where
  | compiler {e : Event} {p : Process} (hround : e.isRound = false)
      (hp : s.process.next e = some p) : Leads s (.compiler e) { s with process := p }
  | hangUp : Leads s .hangUp { s with hungUp := true }
  | round {arrived : ℕ} {answer : Answer} {p : Process}
      (hp : s.process.next (.round (s.offer arrived).1 answer) = some p) :
      Leads s (.round arrived answer)
        { (s.offer arrived).2 with
          process := p
          stalled := s.stalled || answer.isTimeout &&
            ((s.ready arrived).fcmsg.isSome || !(s.offer arrived).2.wire.isEmpty) }

theorem next_leads (h : s.next e = some t) : Leads s e t := by
  cases e with
  | compiler e =>
    simp only [next, Option.ite_none_left_eq_some, Option.map_eq_some_iff] at h
    obtain ⟨hround, p, hp, rfl⟩ := h
    exact .compiler (Bool.eq_false_iff.mpr hround) hp
  | hangUp =>
    cases h
    exact .hangUp
  | round arrived answer =>
    obtain ⟨p, hp, rfl⟩ := Option.map_eq_some_iff.mp h
    exact .round hp

theorem next_process (h : s.next e = some t) :
    t.process = s.process ∨ ∃ e', s.process.next e' = some t.process := by
  cases next_leads h with
  | compiler _ hp => exact .inr ⟨_, hp⟩
  | hangUp => exact .inl rfl
  | round hp => exact .inr ⟨_, hp⟩

/-- Without its messages, a run is one of the compiler and the loop. -/
theorem reachable_process (hs : (system chunks).Reachable s) :
    Process.system.Reachable s.process := by
  induction hs with
  | init hs =>
    cases hs
    exact .init rfl
  | step e _ _ hstep ih =>
    rcases next_process hstep with hsame | ⟨e', he'⟩
    · rwa [hsame]
    · exact ih.step e' trivial he'

/-! ## What is offered -/

/-- A message is taken off the front, when the loop asks for one. -/
inductive Offers (s : Supply) : Got × Supply → Prop where
  | nothing : Offers s (.nothing, s)
  | eof (hrest : s.rest = []) : Offers s (.eof, s)
  | msg {m : Msg} {buffer wire : List Msg} (hpolls : s.process.worker.polls = true)
      (hrest : s.rest = m :: (buffer ++ wire)) :
      Offers s (.msg m, { s with buffer := buffer, wire := wire })

theorem offer_offers (s : Supply) (arrived : ℕ) : Offers s (s.offer arrived) := by
  rw [offer]
  split
  · next hpolls =>
    rw [getMsg]
    cases hbuffer : s.buffer with
    | cons m buffer =>
      have hrest : s.rest = m :: (buffer ++ s.wire) := by rw [rest, hbuffer, List.cons_append]
      exact .msg hpolls hrest
    | nil =>
      dsimp only
      cases htake : s.wire.take arrived with
      | cons m buffer =>
        have hrest : s.rest = m :: (buffer ++ s.wire.drop arrived) := by
          rw [rest, hbuffer, List.nil_append, ← List.cons_append, ← htake, List.take_append_drop]
        exact .msg hpolls hrest
      | nil =>
        dsimp only
        split
        · next hend =>
          have hrest : s.rest = [] := by rw [rest, hbuffer, hend.1, List.append_nil]
          exact .eof hrest
        · exact .nothing
  · exact .nothing

end Supply

/-! ## The bytes on their way -/

namespace Worker

open Supply (contents)

/-- What is left of the chunk under way -/
def pending (w : Worker) : List (Option UInt8) :=
  match w.fcmsg with
  | some m => m.content.drop w.off
  | none => []

/-- The chunks of `past` have been taken. -/
structure Fed (past : List FileChunkMsg) (w : Worker) : Prop where
  going : w.lost = false → w.stdinOpen = true ∧ w.fed ++ w.pending = contents past
  lost : w.lost = true → w.stdinOpen = false ∧ w.fed <+: contents past

/-- What a state of the loop says of the messages that are left -/
inductive Along (chunks : List FileChunkMsg) (w : Worker) : List Msg → Bool → Prop where
  | reading {past todo : List FileChunkMsg} (hchunks : chunks = past ++ todo)
      (hincomplete : w.inputComplete = false) (hopen : w.clientOpen = true) (hfed : Fed past w) :
      Along chunks w (todo.map .fileChunk ++ [.endMsg]) false
  | done {rest : List Msg} {stalled : Bool} (hcomplete : w.inputComplete = true)
      (hnone : w.fcmsg = none) (hfed : w.fed <+: contents chunks)
      (hclosed : w.stdinOpen = false → w.lost = true ∨ w.fed = contents chunks)
      (hend : stalled = true ∧ w.clientOpen = false ∨
        stalled = false ∧ rest = [] ∧ (w.lost = true ∨ w.fed = contents chunks)) :
      Along chunks w rest stalled

variable {chunks : List FileChunkMsg} {w : Worker} {rest : List Msg} {stalled : Bool}

theorem polls_fcmsg (h : w.polls = true) : w.fcmsg = none := by
  simp only [polls, Bool.and_eq_true, Option.isNone_iff_eq_none] at h
  exact h.2

theorem contents_append (past : List FileChunkMsg) (c : FileChunkMsg) :
    contents (past ++ [c]) = contents past ++ c.content := by
  simp [contents]

theorem Fed.initial {past todo : List FileChunkMsg} (h : Fed past w) :
    w.fed <+: contents (past ++ todo) := by
  have hprefix : w.fed <+: contents past := by
    cases hlost : w.lost with
    | false => exact ⟨w.pending, (h.going hlost).2⟩
    | true => exact (h.lost hlost).2
  exact hprefix.trans ⟨contents todo, by simp [contents]⟩

theorem receive_end {past : List FileChunkMsg} (h : Fed past w) (hpolls : w.polls = true) :
    Along past { w with inputComplete := true, stdinOpen := false } [] false := by
  have hnone := polls_fcmsg hpolls
  have hall : w.lost = true ∨ w.fed = contents past := by
    cases hlost : w.lost with
    | true => exact .inl rfl
    | false =>
      have hfed := (h.going hlost).2
      rw [pending, hnone, List.append_nil] at hfed
      exact .inr hfed
  have hinitial : w.fed <+: contents (past ++ []) := h.initial
  rw [List.append_nil] at hinitial
  exact .done rfl hnone hinitial (fun _ => hall) (.inr ⟨rfl, rfl, hall⟩)

theorem receive_chunk {past : List FileChunkMsg} (h : Fed past w) (hpolls : w.polls = true)
    (c : FileChunkMsg) :
    Fed (past ++ [c])
      { w with
        fcmsg := some c
        off := 0
        inUncompressed := w.inUncompressed + UInt32.ofNat c.len
        inCompressed := w.inCompressed + UInt32.ofNat c.compressed } := by
  refine ⟨fun hlost => ?_, fun hlost => ?_⟩
  · obtain ⟨hstdin, hfed⟩ := h.going hlost
    rw [pending, polls_fcmsg hpolls, List.append_nil] at hfed
    refine ⟨hstdin, ?_⟩
    show w.fed ++ c.content.drop 0 = contents (past ++ [c])
    rw [contents_append, hfed, List.drop_zero]
  · obtain ⟨hstdin, hfed⟩ := h.lost hlost
    rw [contents_append]
    exact ⟨hstdin, hfed.trans (List.prefix_append _ _)⟩

/-- The next message, where one is left -/
theorem fetch_msg {m : Msg} (h : Along chunks w (m :: rest) stalled) (hpolls : w.polls = true) :
    Along chunks (w.fetch (.msg m)) rest stalled := by
  generalize hmessages : m :: rest = messages at h
  cases h with
  | @reading past todo hchunks hincomplete hopen hfed =>
    have hreading := Bool.eq_false_iff.mp hincomplete
    cases todo with
    | nil =>
      obtain ⟨rfl, rfl⟩ := List.cons_eq_cons.mp hmessages
      rw [List.append_nil] at hchunks
      subst hchunks
      rw [fetch, if_pos hpolls, receive, if_neg hreading]
      exact receive_end hfed hpolls
    | cons c todo =>
      obtain ⟨rfl, rfl⟩ := List.cons_eq_cons.mp hmessages
      rw [fetch, if_pos hpolls, receive, if_neg hreading]
      refine .reading ?_ hincomplete hopen (receive_chunk hfed hpolls c)
      rw [hchunks, List.append_assoc, List.singleton_append]
  | done _ _ _ _ hend =>
    rcases hend with ⟨-, hclosed⟩ | ⟨-, hrest, -⟩
    · simp only [polls, hclosed] at hpolls
      cases hpolls
    · rw [← hmessages] at hrest
      cases hrest

theorem fetch_nothing (w : Worker) : w.fetch .nothing = w := by
  rw [fetch]
  split <;> rfl

theorem abort_along (hfed : w.fed <+: contents chunks)
    (hclosed : w.stdinOpen = false → w.lost = true ∨ w.fed = contents chunks)
    (hend : stalled = true ∨
      stalled = false ∧ rest = [] ∧ (w.lost = true ∨ w.fed = contents chunks)) :
    Along chunks w.abort rest stalled :=
  .done rfl rfl hfed hclosed (hend.imp_left fun h => ⟨h, rfl⟩)

theorem fetch_eof (h : Along chunks w [] stalled) : Along chunks (w.fetch .eof) [] stalled := by
  rw [fetch]
  split
  · generalize hmessages : [] = messages at h
    cases h with
    | reading => simp at hmessages
    | done _ _ hfed hclosed hend =>
      exact abort_along hfed hclosed (hend.imp_left And.left)
  · exact h

theorem discard_along (h : Along chunks w rest stalled) : Along chunks w.discard rest stalled := by
  rw [discard]
  split
  · exact h
  · next hstdin =>
    cases h with
    | reading hchunks hincomplete hopen hfed =>
      refine .reading hchunks hincomplete hopen ⟨fun hlost => ?_, hfed.lost⟩
      exact absurd (hfed.going hlost).1 hstdin
    | done hcomplete _ hfed hclosed hend => exact .done hcomplete rfl hfed hclosed hend

theorem discard_closed (w : Worker) (h : w.discard.stdinOpen = false) : w.discard.fcmsg = none := by
  rw [discard] at h ⊢
  split at h
  · next hopen =>
    rw [h] at hopen
    cases hopen
  · next hclosed => rw [if_neg hclosed]

/-- What is written is the front of what is left of the chunk. -/
theorem Writes.fed {past : List FileChunkMsg} {r : Worker × Bool} (h : Writes w r)
    (hw : Fed past w) (hincomplete : w.inputComplete = false)
    (hstdin : w.stdinOpen = false → w.fcmsg = none) : Fed past r.1 := by
  have hgoing : ∀ m, w.fcmsg = some m → w.lost = false ∧
      w.fed ++ m.content.drop w.off = contents past := by
    intro m hm
    have hlost : w.lost = false := by
      cases hlost : w.lost with
      | false => rfl
      | true =>
        rw [hstdin (hw.lost hlost).1] at hm
        cases hm
    have hfed := (hw.going hlost).2
    rw [pending, hm] at hfed
    exact ⟨hlost, hfed⟩
  cases h with
  | same => exact hw
  | failed hm =>
    exact ⟨fun hlost => Bool.noConfusion hlost, fun _ => ⟨rfl, _, (hgoing _ hm).2⟩⟩
  | @whole m hm n hall =>
    obtain ⟨hlost, hfed⟩ := hgoing m hm
    refine ⟨fun _ => ⟨?_, ?_⟩, fun hlost' => ?_⟩
    · show (w.stdinOpen && !w.inputComplete) = true
      rw [(hw.going hlost).1, hincomplete]
      rfl
    · show w.fed ++ (m.content.drop w.off).take n ++ [] = contents past
      have hlength : (m.content.drop w.off).length ≤ n := by
        rw [List.length_drop, Comm.content_length]
        omega
      rw [List.append_nil, List.take_of_length_le hlength]
      exact hfed
    · rw [show w.lost = true from hlost'] at hlost
      cases hlost
  | @part m hm n =>
    obtain ⟨hlost, hfed⟩ := hgoing m hm
    refine ⟨fun _ => ⟨(hw.going hlost).1, ?_⟩, fun hlost' => ?_⟩
    · simp only [pending, hm]
      rw [List.append_assoc, ← List.drop_drop, List.take_append_drop]
      exact hfed
    · rw [show w.lost = true from hlost'] at hlost
      cases hlost

theorem Writes.along {r : Worker × Bool} (h : Writes w r) (hw : Along chunks w rest stalled)
    (hstdin : w.stdinOpen = false → w.fcmsg = none) : Along chunks r.1 rest stalled := by
  cases hw with
  | reading hchunks hincomplete hopen hfed =>
    have hafter := h.fed hfed hincomplete hstdin
    cases h with
    | same => exact .reading hchunks hincomplete hopen hfed
    | failed hm => exact .reading hchunks hincomplete hopen hafter
    | whole hm hall => exact .reading hchunks hincomplete hopen hafter
    | part hm n => exact .reading hchunks hincomplete hopen hafter
  | done hcomplete hnone hfed hclosed hend =>
    have hall : Along chunks w rest stalled := .done hcomplete hnone hfed hclosed hend
    cases h with
    | same => exact hall
    | failed hm =>
      rw [hnone] at hm
      cases hm
    | whole hm =>
      rw [hnone] at hm
      cases hm
    | part hm =>
      rw [hnone] at hm
      cases hm

theorem collect_along {r : Reported} (h : Along chunks w rest stalled) :
    Along chunks (w.collect r) rest stalled := by
  cases h with
  | reading hchunks hincomplete hopen hfed =>
    exact .reading hchunks hincomplete hopen ⟨hfed.going, hfed.lost⟩
  | done hcomplete hnone hfed hclosed hend => exact .done hcomplete hnone hfed hclosed hend

theorem onStream_along (f : Printed → Printed) (stream : Stream) (h : Along chunks w rest stalled) :
    Along chunks (w.onStream f stream) rest stalled := by
  cases h with
  | reading hchunks hincomplete hopen hfed =>
    cases stream <;> exact .reading hchunks hincomplete hopen ⟨hfed.going, hfed.lost⟩
  | done hcomplete hnone hfed hclosed hend =>
    cases stream <;> exact .done hcomplete hnone hfed hclosed hend

/-- A minute is waited for the compiler or for the client. -/
theorem timeout_along (h : Along chunks w rest stalled) (hincomplete : w.inputComplete = false) :
    Along chunks w.abort rest true := by
  cases h with
  | reading hchunks _ _ hfed =>
    subst hchunks
    refine abort_along hfed.initial (fun hstdin => .inl ?_) (.inl rfl)
    by_contra hlost
    have hopen := (hfed.going (Bool.eq_false_iff.mpr hlost)).1
    rw [hstdin] at hopen
    cases hopen
  | done hcomplete =>
    rw [hincomplete] at hcomplete
    cases hcomplete

theorem Along.rest_ne_nil (h : Along chunks w rest stalled)
    (hincomplete : w.inputComplete = false) :
    rest ≠ [] := by
  cases h with
  | reading => simp
  | done hcomplete =>
    rw [hincomplete] at hcomplete
    cases hcomplete

/-- What the loop does after `poll`, as long as it has not waited in vain -/
theorem Reacts.along {answer : Answer} {r : Worker × Bool} {late : Bool} (h : Reacts w answer r)
    (hw : Along chunks w rest stalled) (hstdin : w.stdinOpen = false → w.fcmsg = none)
    {died : Bool} (hpossible : w.Possible died answer)
    (hlate : answer.isTimeout = true → w.inputComplete = false → late = true) :
    Along chunks r.1 rest (stalled || answer.isTimeout && late) ∧
      (r.2 = true → r.1.inputComplete = true) := by
  cases h with
  | timeout =>
    refine ⟨?_, fun hover => Bool.noConfusion hover⟩
    rw [hlate rfl hpossible.1]
    simpa [Answer.isTimeout] using timeout_along hw hpossible.1
  | interrupted =>
    refine ⟨?_, fun hover => Bool.noConfusion hover⟩
    simpa [Answer.isTimeout] using hw
  | @again reported v hwrite =>
    have hwrites := w.write_writes reported.stdin
    rw [hwrite] at hwrites
    refine ⟨?_, fun hover => Bool.noConfusion hover⟩
    simpa [Answer.isTimeout] using hwrites.along hw hstdin
  | @collect reported v hwrite =>
    have hwrites := w.write_writes reported.stdin
    rw [hwrite] at hwrites
    refine ⟨?_, fun hover => ?_⟩
    · simpa [Answer.isTimeout] using collect_along (hwrites.along hw hstdin)
    · have hcomplete := (Bool.and_eq_true_iff.mp hover).2
      cases hwrites <;> exact hcomplete

end Worker

namespace Supply

variable {chunks : List FileChunkMsg} {s t : Supply} {e : SupplyEvent}

structure Sound (chunks : List FileChunkMsg) (s : Supply) : Prop where
  along : s.process.worker.Along chunks s.rest s.stalled
  ended : s.process.ended = true → s.process.worker.inputComplete = true

theorem ready_along (h : s.process.worker.Along chunks s.rest s.stalled) (arrived : ℕ) :
    (s.ready arrived).Along chunks (s.offer arrived).2.rest s.stalled := by
  rw [ready]
  refine Worker.discard_along ?_
  have hoffers := s.offer_offers arrived
  generalize s.offer arrived = r at hoffers
  cases hoffers with
  | nothing => rwa [Worker.fetch_nothing]
  | eof hrest =>
    rw [hrest] at h ⊢
    exact Worker.fetch_eof h
  | msg hpolls hrest =>
    rw [hrest] at h
    exact Worker.fetch_msg h hpolls

/-- A wait in vain aside, a time-out strikes while the compiler or the client is waited for. -/
theorem late_of_woken {arrived : ℕ} {answer : Answer} (h : s.Sound chunks)
    (hwoken : s.Woken (.round arrived answer)) (htimeout : answer.isTimeout = true)
    (hincomplete : (s.ready arrived).inputComplete = false) :
    ((s.ready arrived).fcmsg.isSome || !(s.offer arrived).2.wire.isEmpty) = true := by
  have hrest := (ready_along h.along arrived).rest_ne_nil hincomplete
  cases hfcmsg : (s.ready arrived).fcmsg with
  | some m => rfl
  | none =>
    have hwire : (s.offer arrived).2.wire ≠ [] := by
      rcases hwoken htimeout hfcmsg with hbuffer | hwire
      · rwa [rest, hbuffer, List.nil_append] at hrest
      · exact hwire
    simpa using hwire

theorem next_sound (h : s.Sound chunks) (hwoken : s.Woken e) (hstep : s.next e = some t) :
    t.Sound chunks := by
  cases next_leads hstep with
  | @compiler e p hround hp =>
    cases Process.next_leads hp with
    | @print stream bytes =>
      refine ⟨Worker.onStream_along (fun p => p.print bytes) stream h.along, fun hover => ?_⟩
      cases stream <;> exact h.ended hover
    | close stream =>
      refine ⟨Worker.onStream_along (fun p => { p with finished := true }) stream h.along,
        fun hover => ?_⟩
      cases stream <;> exact h.ended hover
    | exit => exact ⟨h.along, h.ended⟩
    | round => cases hround
  | hangUp => exact ⟨h.along, h.ended⟩
  | @round arrived answer p hp =>
    cases Process.next_leads hp with
    | round _ hpossible =>
      obtain ⟨halong, hover⟩ := ((s.ready arrived).react_reacts answer).along
        (ready_along h.along arrived) (Worker.discard_closed _) hpossible (late_of_woken h hwoken)
      exact ⟨halong, hover⟩

theorem reaches_sound (hs : (system chunks).Reaches Woken s) : s.Sound chunks := by
  refine hs.invariant ?_ fun s e t h hwoken hstep => next_sound h hwoken hstep
  rintro s rfl
  refine ⟨?_, fun hover => Bool.noConfusion hover⟩
  have hfed : Worker.Fed [] {} := ⟨fun _ => ⟨rfl, rfl⟩, fun hlost => Bool.noConfusion hlost⟩
  exact .reading rfl rfl rfl hfed

end Supply

end Icecream.Daemon
