import Icecream.Daemon.Workit

/-!
# The output of a remote compiler

What is gathered of stdout and stderr by the time `work_it` has seen the end of the compiler.
-/

namespace Icecream.Daemon

open Icecream.Comm (Bytes)
open Icecream.Services (cString shellExitStatus WaitStatus)

/-! ## One pipe -/

namespace Printed

/-- What has been written is in the text or still in the pipe; a pipe is closed at its end. -/
structure Kept (p : Printed) : Prop where
  split : p.text ++ p.pipe = p.written
  closed : p.isOpen = false → p.finished = true ∧ p.pipe = []

/-- There is no zero in what is read. -/
def Plain (p : Printed) (isSet : Bool) : Prop :=
  p.isOpen = true → isSet = true → 0 ∉ p.pipe.take chunkSize

/-- What is left is read, and the buffer takes it. -/
def Last (p : Printed) (isSet : Bool) : Prop :=
  p.isOpen = true → p.pipe ≠ [] → isSet = true ∧ p.pipe.length ≤ chunkSize

variable {p : Printed} {isSet : Bool}

theorem cString_eq_self {b : Bytes} (h : 0 ∉ b) : cString b = b := by
  rw [cString, List.takeWhile_eq_self_iff]
  intro x hx
  have hne : x ≠ 0 := fun hzero => h (hzero ▸ hx)
  simpa using hne

theorem read_kept (h : p.Kept) (hready : isSet = true → p.Ready) (hplain : p.Plain isSet) :
    (p.read isSet).Kept := by
  rw [read]
  split
  · next hread =>
    obtain ⟨hopen, hset⟩ := hread
    split
    · next hempty =>
      have hfinished := (hready hset).2.resolve_left (not_not.mpr hempty)
      exact ⟨h.split, fun _ => ⟨hfinished, hempty⟩⟩
    · refine ⟨?_, fun hclosed => ?_⟩
      · show p.text ++ cString (p.pipe.take chunkSize) ++ p.pipe.drop chunkSize = p.written
        rw [cString_eq_self (hplain hopen hset), List.append_assoc, List.take_append_drop]
        exact h.split
      · rw [show p.isOpen = false from hclosed] at hopen
        cases hopen
  · exact h

theorem read_last (h : p.Kept) (hlast : p.Last isSet) : (p.read isSet).pipe = [] := by
  rw [read]
  split
  · next hread =>
    split
    · next hempty => exact hempty
    · next hne => exact List.drop_of_length_le (hlast hread.1 hne).2
  · next hread =>
    by_cases hopen : p.isOpen = true
    · by_contra hne
      exact hread ⟨hopen, (hlast hopen hne).1⟩
    · exact (h.closed (Bool.eq_false_iff.mpr hopen)).2

theorem print_kept (h : p.Kept) (hopen : p.finished = false) (bytes : Bytes) :
    (p.print bytes).Kept := by
  refine ⟨?_, fun hclosed => ?_⟩
  · show p.text ++ (p.pipe ++ bytes) = p.written ++ bytes
    rw [← List.append_assoc, h.split]
  · have hfinished := (h.closed hclosed).1
    rw [hopen] at hfinished
    cases hfinished

theorem close_kept (h : p.Kept) : Kept { p with finished := true } :=
  ⟨h.split, fun hclosed => ⟨rfl, (h.closed hclosed).2⟩⟩

end Printed

/-! ## A turn of the loop -/

namespace Worker

variable {w v : Worker} {got : Got} {r : Worker × Bool}

/-- The client says nothing once it has ended its input. -/
def Calm (w : Worker) (got : Got) : Prop :=
  w.polls = true → w.inputComplete = true → ∀ m, got ≠ .msg m

theorem Fetches.printed (h : Fetches w got v) (hcalm : w.Calm got) (stream : Stream) :
    v.printed stream = w.printed stream := by
  cases h with
  | same => rfl
  | abort => cases stream <;> rfl
  | cancelled hpolls hcomplete => exact absurd rfl (hcalm hpolls hcomplete _)
  | ended => cases stream <;> rfl
  | chunk => cases stream <;> rfl

theorem discard_printed (w : Worker) (stream : Stream) :
    w.discard.printed stream = w.printed stream := by
  rw [discard]
  split <;> cases stream <;> rfl

theorem Writes.printed (h : Writes w r) (stream : Stream) :
    r.1.printed stream = w.printed stream := by
  cases h <;> cases stream <;> rfl

theorem abort_printed (w : Worker) (stream : Stream) :
    w.abort.printed stream = w.printed stream := by
  cases stream <;> rfl

theorem onStream_printed {P : Printed → Prop} {f : Printed → Printed} {stream : Stream}
    (h : ∀ other, P (w.printed other)) (hf : P (f (w.printed stream))) (other : Stream) :
    P ((w.onStream f stream).printed other) := by
  cases stream <;> cases other
  · exact hf
  · exact h .err
  · exact h .out
  · exact hf

end Worker

def Reported.isSet (r : Reported) : Stream → Bool
  | .out => r.out
  | .err => r.err

theorem Worker.collect_printed (w : Worker) (r : Reported) (stream : Stream) :
    (w.collect r).printed stream = (w.printed stream).read (r.isSet stream) := by
  cases stream <;> rfl

theorem Worker.Possible.isSet {w : Worker} {died : Bool} {r : Reported}
    (h : w.Possible died (.ready r)) (stream : Stream) :
    r.isSet stream = true → (w.printed stream).Ready := by
  cases stream with
  | out => exact h.2.1
  | err => exact h.2.2.1

namespace Process

/-- The turn reads no zero, and what the compiler has left in the pipes when its end is dealt
with is read in that turn. -/
def Legible (s : Process) : Event → Prop
  | .round got answer =>
    s.worker.Calm got ∧
      ∀ r, answer = .ready r → ((s.worker.fetch got).discard.write r.stdin).2 = false →
        ∀ stream, (s.worker.printed stream).Plain (r.isSet stream) ∧
          (r.death = true → (s.worker.fetch got).discard.inputComplete = true →
            (s.worker.printed stream).Last (r.isSet stream))
  | _ => True

structure Gathered (s : Process) : Prop where
  kept : ∀ stream, (s.worker.printed stream).Kept
  died : s.ended = true → s.died ≠ none
  empty : s.ended = true → ∀ stream, (s.worker.printed stream).pipe = []

variable {s t : Process} {e : Event}

theorem round_gathered {got : Got} {answer : Answer} (h : s.Gathered)
    (hlegible : s.Legible (.round got answer))
    (hpossible : (s.worker.fetch got).discard.Possible s.died.isSome answer) :
    Gathered
      { s with worker := (s.worker.turn got answer).1, ended := (s.worker.turn got answer).2 } := by
  obtain ⟨hcalm, hread⟩ := hlegible
  have hsame : ∀ stream, (s.worker.fetch got).discard.printed stream = s.worker.printed stream := by
    intro stream
    rw [Worker.discard_printed, (s.worker.fetch_fetches got).printed hcalm]
  rw [Worker.turn]
  generalize (s.worker.fetch got).discard = w at hpossible hread hsame
  have hreacts := w.react_reacts answer
  generalize w.react answer = r at hreacts
  have hkept : ∀ {v : Worker}, (∀ stream, v.printed stream = w.printed stream) →
      Gathered { s with worker := v, ended := false } := by
    intro v hv
    refine ⟨fun stream => ?_, fun hover => Bool.noConfusion hover,
      fun hover => Bool.noConfusion hover⟩
    show (v.printed stream).Kept
    rw [hv, hsame]
    exact h.kept stream
  cases hreacts with
  | timeout => exact hkept w.abort_printed
  | interrupted => exact hkept fun _ => rfl
  | @again reported v hwrite =>
    have hwrites := w.write_writes reported.stdin
    rw [hwrite] at hwrites
    exact hkept hwrites.printed
  | @collect reported v hwrite =>
    have hwrites := w.write_writes reported.stdin
    rw [hwrite] at hwrites
    have hread := hread reported rfl (by rw [hwrite])
    have hprinted : ∀ stream, (v.collect reported).printed stream =
        (s.worker.printed stream).read (reported.isSet stream) := by
      intro stream
      rw [Worker.collect_printed, hwrites.printed, hsame]
    refine ⟨fun stream => ?_, fun hover => ?_, fun hover stream => ?_⟩
    · show ((v.collect reported).printed stream).Kept
      rw [hprinted]
      refine Printed.read_kept (h.kept stream) (fun hset => ?_) (hread stream).1
      rw [← hsame]
      exact hpossible.isSet stream hset
    · have hdied := hpossible.2.2.2 (Bool.and_eq_true_iff.mp hover).1
      exact Option.isSome_iff_ne_none.mp hdied
    · show ((v.collect reported).printed stream).pipe = []
      rw [hprinted]
      obtain ⟨hdeath, hcomplete⟩ := Bool.and_eq_true_iff.mp hover
      exact Printed.read_last (h.kept stream) ((hread stream).2 hdeath hcomplete)

theorem next_gathered (h : s.Gathered) (hlegible : s.Legible e) (hstep : next s e = some t) :
    t.Gathered := by
  cases next_leads hstep with
  | @print stream bytes hrunning hopen =>
    refine ⟨?_, h.died, fun hover => absurd hrunning (h.died hover)⟩
    exact Worker.onStream_printed h.kept (Printed.print_kept (h.kept stream) hopen bytes)
  | close stream =>
    refine ⟨?_, h.died, fun hover => ?_⟩
    · exact Worker.onStream_printed h.kept (Printed.close_kept (h.kept stream))
    · exact Worker.onStream_printed (P := fun p => p.pipe = []) (h.empty hover)
        (h.empty hover stream)
  | exit => exact ⟨h.kept, fun _ => Option.some_ne_none _, h.empty⟩
  | round _ hpossible => exact round_gathered h hlegible hpossible

theorem reaches_gathered (hs : system.Reaches Legible s) : s.Gathered := by
  refine hs.invariant ?_ fun s e t h hlegible hstep => next_gathered h hlegible hstep
  rintro s rfl
  refine ⟨fun stream => ?_, fun hover => Bool.noConfusion hover,
    fun hover => Bool.noConfusion hover⟩
  cases stream <;> exact ⟨rfl, fun hclosed => Bool.noConfusion hclosed⟩

end Process

theorem Worker.finish_rmsg (w : Worker) (memLimit : UInt64) (starttv : Timeval) (e : End) :
    (w.finish memLimit starttv e).rmsg.out = w.out.text ∧
      (w.finish memLimit starttv e).rmsg.err = w.err.text := by
  unfold finish
  dsimp only
  generalize (if shellExitStatus e.status ≠ 0 then Int32.ofNat exitOutOfMemory else 0) = status
  split
  · exact ⟨rfl, rfl⟩
  · split
    · exact ⟨rfl, rfl⟩
    · cases e.status <;> exact ⟨rfl, rfl⟩

/-- The client gets all that the compiler has written, as long as no turn reads a zero, what is
left with the end of the compiler fits the buffer, and the client does not cancel. -/
theorem workIt_gathers {s : Process} (hs : Process.system.Reaches Process.Legible s)
    (hover : s.ended = true) (memLimit : UInt64) (starttv : Timeval) (e : End) :
    (s.worker.finish memLimit starttv e).rmsg.out = s.worker.out.written ∧
      (s.worker.finish memLimit starttv e).rmsg.err = s.worker.err.written := by
  have h := Process.reaches_gathered hs
  have hall : ∀ stream, (s.worker.printed stream).text = (s.worker.printed stream).written := by
    intro stream
    have hsplit := (h.kept stream).split
    rwa [h.empty hover stream, List.append_nil] at hsplit
  obtain ⟨hout, herr⟩ := s.worker.finish_rmsg memLimit starttv e
  exact ⟨hout.trans (hall .out), herr.trans (hall .err)⟩

/-! ## What is printed at once -/

/-- The compiler prints `bytes` and ends, and all is in the pipe when the loop looks. -/
def printing (bytes : Bytes) : List Event :=
  [.round (.msg .endMsg) (.ready {}), .print .out bytes, .exit (.idle (.exited 0)),
    .round .nothing (.ready { out := true, death := true })]

def gathered (bytes : Bytes) : Process :=
  ⟨{ inputComplete := true, stdinOpen := false
     out :=
       { text := cString (bytes.take chunkSize), pipe := bytes.drop chunkSize, written := bytes } },
    some (.idle (.exited 0)), true⟩

theorem printing_gathered {bytes : Bytes} (h : bytes ≠ []) :
    Process.system.exec {} (printing bytes) = some (gathered bytes) := by
  cases bytes with
  | nil => exact absurd rfl h
  | cons b bytes => rfl

/-- A zero is the end of what is gathered of such a run, and so is the end of the buffer. -/
theorem gathered_short {bytes : Bytes} (h : 0 ∈ bytes ∨ chunkSize < bytes.length) :
    cString (bytes.take chunkSize) ≠ bytes := by
  intro hall
  rcases h with hzero | hlong
  · rw [← hall, cString] at hzero
    simpa using List.mem_takeWhile_imp hzero
  · have hlength := congrArg List.length hall
    have hle := (List.takeWhile_prefix (fun b : UInt8 => decide (b ≠ 0))
      (l := bytes.take chunkSize)).length_le
    rw [cString] at hlength
    rw [List.length_take] at hle
    omega

theorem printing_short {bytes : Bytes} (h : 0 ∈ bytes ∨ chunkSize < bytes.length) :
    ∃ s, Process.system.exec {} (printing bytes) = some s ∧ s.ended = true ∧
      s.worker.out.written = bytes ∧
      (s.worker.finish 100 ⟨0, 0⟩ (.idle (.exited 0))).rmsg.out ≠ s.worker.out.written := by
  have hne : bytes ≠ [] := by
    rintro rfl
    simp at h
  refine ⟨gathered bytes, printing_gathered hne, rfl, rfl, ?_⟩
  rw [(Worker.finish_rmsg _ _ _ _).1]
  exact gathered_short h

theorem workIt_gathers_text :
    ((gathered [111, 107]).worker.finish 100 ⟨0, 0⟩ (.idle (.exited 0))).rmsg.out = [111, 107] := by
  have hstart : Process.system.Reaches Process.Legible {} := .init rfl
  have hend : Process.system.Reaches Process.Legible
      ⟨{ inputComplete := true, stdinOpen := false }, none, false⟩ := by
    refine .step (.round (.msg .endMsg) (.ready {})) hstart ⟨?_, ?_⟩ rfl
    · intro _ hcomplete
      cases hcomplete
    · intro r hr _ stream
      cases hr
      cases stream <;>
        exact ⟨fun _ hset => Bool.noConfusion hset, fun hset => Bool.noConfusion hset⟩
  have hprint := hend.step (Event.print .out [111, 107]) trivial rfl
  have hexit := hprint.step (Event.exit (.idle (.exited 0))) trivial rfl
  have hover : Process.system.Reaches Process.Legible (gathered [111, 107]) := by
    refine hexit.step (.round .nothing (.ready { out := true, death := true })) ⟨?_, ?_⟩ rfl
    · intro _ _ m hm
      cases hm
    · intro r hr _ stream
      cases hr
      cases stream with
      | out => exact ⟨fun _ _ => by decide, fun _ _ _ _ => ⟨rfl, by decide⟩⟩
      | err => exact ⟨fun _ hset => Bool.noConfusion hset, fun _ _ _ hne => absurd rfl hne⟩
  exact (workIt_gathers hover rfl 100 ⟨0, 0⟩ (.idle (.exited 0))).1

/-- Three bytes with a zero among them, and a run in which only the first is gathered -/
theorem zero_cuts_off : ∃ s, Process.system.exec {} (printing [97, 0, 98]) = some s ∧
    s.ended = true ∧ s.worker.out.written = [97, 0, 98] ∧
    (s.worker.finish 100 ⟨0, 0⟩ (.idle (.exited 0))).rmsg.out = [97] :=
  ⟨gathered [97, 0, 98], printing_gathered (by decide), rfl, rfl, rfl⟩

end Icecream.Daemon
