import Icecream.Comm.Transfer
import Icecream.Daemon.Handlers
import Icecream.Services.Broadcast
import Icecream.Services.Output

/-!
# The loop around a remote compiler

`work_it` of `daemon/workit.cpp` from the moment the compiler runs: messages of the client
go to its input, and what it prints is gathered until it has ended. The client's channel
is a queue of messages here, some of which it has read ahead.
-/

namespace Icecream.Daemon

open Icecream.Comm (Bytes Str str Msg FileChunkMsg CompileResultMsg JobDoneMsg StdinWrite Feeding
  WorkTurn Platform exitCompilerCrashed exitIoError exitClientKilled)
open Icecream.Comm.Connection (setError)
open Icecream.Services (contains cString WaitStatus shellExitStatus)
open Icecream.Iceccd (JobStat)

/-! ## What the compiler prints -/

/-- One of the two pipes, with what the compiler has written to it at all -/
structure Printed where
  isOpen : Bool := true
  text : Bytes := []
  pipe : Bytes := []
  finished : Bool := false
  written : Bytes := []

/-- The buffer of 4096 bytes, the last of which is for the end of the string -/
def chunkSize : ℕ := 4095

/-- `poll` has something to say of the pipe. -/
def Printed.Ready (s : Printed) : Prop := s.isOpen = true ∧ (s.pipe ≠ [] ∨ s.finished = true)

/-- One `read`; the bytes are appended as a string. -/
def Printed.read (s : Printed) (isSet : Bool) : Printed :=
  if s.isOpen = true ∧ isSet = true then
    if s.pipe = [] then { s with isOpen := false }
    else
      { s with text := s.text ++ cString (s.pipe.take chunkSize), pipe := s.pipe.drop chunkSize }
  else s

def Printed.print (s : Printed) (bytes : Bytes) : Printed :=
  { s with pipe := s.pipe ++ bytes, written := s.written ++ bytes }

/-! ## One turn of the loop -/

/-- The variables of `work_it`, and what has been written to the compiler. `lost` tells that
writing has failed. -/
structure Worker where
  clientOpen : Bool := true
  inputComplete : Bool := false
  fcmsg : Option FileChunkMsg := none
  off : ℕ := 0
  stdinOpen : Bool := true
  killed : Bool := false
  returnValue : ℕ := 0
  inUncompressed : UInt32 := 0
  inCompressed : UInt32 := 0
  out : Printed := {}
  err : Printed := {}
  fed : List (Option UInt8) := []
  lost : Bool := false

/-- What `get_msg` gives without waiting -/
inductive Got where
  | nothing | eof
  | msg (m : Msg)

/-- The descriptors that `poll` reports, with what becomes of the write to the compiler. Of the
client's it is not asked. -/
structure Reported where
  stdin : Option StdinWrite := none
  out : Bool := false
  err : Bool := false
  death : Bool := false

inductive Answer where
  | timeout | interrupted
  | ready (r : Reported)

namespace Worker

/-- The compiler is no longer needed. -/
def giveUp (w : Worker) (returnValue : ℕ) : Worker :=
  { w with returnValue := returnValue, clientOpen := false, killed := true, fcmsg := none }

/-- The input ends without its last message. -/
def abort (w : Worker) : Worker := { w.giveUp exitIoError with inputComplete := true }

def polls (w : Worker) : Bool := w.clientOpen && w.fcmsg.isNone

def cancelled : Bytes := str "client cancelled\n"

def receive (w : Worker) : Got → Worker
  | .nothing => w
  | .eof => w.abort
  | .msg m =>
    if w.inputComplete then
      { w.giveUp exitClientKilled with err := { w.err with text := w.err.text ++ cancelled } }
    else
      match m with
      | .endMsg => { w with inputComplete := true, stdinOpen := false }
      | .fileChunk m =>
        { w with
          fcmsg := some m
          off := 0
          inUncompressed := w.inUncompressed + UInt32.ofNat m.len
          inCompressed := w.inCompressed + UInt32.ofNat m.compressed }
      | _ => w.abort

/-- The client's next message, where no chunk is waiting -/
def fetch (w : Worker) (got : Got) : Worker := if w.polls then w.receive got else w

/-- Input for a compiler that has closed it is thrown away. -/
def discard (w : Worker) : Worker := if w.stdinOpen then w else { w with fcmsg := none }

/-- Writes to the compiler; true where the loop is begun again -/
def write (w : Worker) : Option StdinWrite → Worker × Bool
  | none => (w, false)
  | some r =>
    match w.fcmsg, r with
    | none, _ => (w, false)
    | some _, .interrupted => (w, true)
    | some _, .failed =>
      ({ w with
        killed := true
        returnValue := if w.inputComplete then exitCompilerCrashed else w.returnValue
        fcmsg := none
        stdinOpen := false
        lost := true }, true)
    | some m, .wrote n =>
      let bytes := min n (m.len - w.off)
      let w := { w with
        fed := w.fed ++ (m.content.drop w.off).take bytes
        off := w.off + bytes }
      if w.off = m.len then
        ({ w with fcmsg := none, stdinOpen := w.stdinOpen && !w.inputComplete }, false)
      else (w, false)

def collect (w : Worker) (r : Reported) : Worker :=
  { w with out := w.out.read r.out, err := w.err.read r.err }

/-- What comes after `poll`; true where the end of the compiler is dealt with -/
def react (w : Worker) : Answer → Worker × Bool
  | .timeout => (w.abort, false)
  | .interrupted => (w, false)
  | .ready r =>
    let written := w.write r.stdin
    if written.2 then (written.1, false)
    else (written.1.collect r, r.death && w.inputComplete)

def turn (w : Worker) (got : Got) (answer : Answer) : Worker × Bool :=
  (w.fetch got).discard.react answer

end Worker

/-! ## What a turn can do -/

namespace Worker

inductive Fetches (w : Worker) : Got → Worker → Prop where
  | same {got : Got} (hnothing : w.polls = true → got = .nothing) : Fetches w got w
  | abort {got : Got} (hpolls : w.polls = true)
      (hgot : ∀ m, got = .msg m → w.inputComplete = false ∧ m ≠ .endMsg ∧ ∀ c, m ≠ .fileChunk c) :
      Fetches w got w.abort
  | cancelled {m : Msg} (hpolls : w.polls = true) (hcomplete : w.inputComplete = true) :
      Fetches w (.msg m)
        { w.giveUp exitClientKilled with err := { w.err with text := w.err.text ++ cancelled } }
  | ended (hpolls : w.polls = true) (hcomplete : w.inputComplete = false) :
      Fetches w (.msg .endMsg) { w with inputComplete := true, stdinOpen := false }
  | chunk {m : FileChunkMsg} (hpolls : w.polls = true) (hcomplete : w.inputComplete = false) :
      Fetches w (.msg (.fileChunk m))
        { w with
          fcmsg := some m
          off := 0
          inUncompressed := w.inUncompressed + UInt32.ofNat m.len
          inCompressed := w.inCompressed + UInt32.ofNat m.compressed }

theorem fetch_fetches (w : Worker) (got : Got) : Fetches w got (w.fetch got) := by
  rw [fetch]
  split
  · next hpolls =>
    cases got with
    | nothing => exact .same fun _ => rfl
    | eof => exact .abort hpolls fun m hm => Got.noConfusion hm
    | msg m =>
      unfold receive
      dsimp only
      split
      · next hcomplete => exact .cancelled hpolls hcomplete
      · next hcomplete =>
        have hincomplete : w.inputComplete = false := Bool.eq_false_iff.mpr hcomplete
        cases m with
        | endMsg => exact .ended hpolls hincomplete
        | fileChunk c => exact .chunk hpolls hincomplete
        | _ =>
          refine .abort hpolls fun m hm => ?_
          cases hm
          exact ⟨hincomplete, by simp, by simp⟩
  · next hpolls => exact .same fun h => absurd h hpolls

/-- The bytes that `write` takes off the chunk -/
inductive Writes (w : Worker) : Worker × Bool → Prop where
  | same (again : Bool) : Writes w (w, again)
  | failed {m : FileChunkMsg} (hm : w.fcmsg = some m) :
      Writes w
        ({ w with
          killed := true
          returnValue := if w.inputComplete then exitCompilerCrashed else w.returnValue
          fcmsg := none
          stdinOpen := false
          lost := true }, true)
  | whole {m : FileChunkMsg} (hm : w.fcmsg = some m) {n : ℕ} (hall : w.off + n = m.len) :
      Writes w
        ({ w with
          fed := w.fed ++ (m.content.drop w.off).take n
          off := w.off + n
          fcmsg := none
          stdinOpen := w.stdinOpen && !w.inputComplete }, false)
  | part {m : FileChunkMsg} (hm : w.fcmsg = some m) (n : ℕ) :
      Writes w
        ({ w with
          fed := w.fed ++ (m.content.drop w.off).take n
          off := w.off + n }, false)

theorem write_writes (w : Worker) (r : Option StdinWrite) : Writes w (w.write r) := by
  cases r with
  | none => exact .same false
  | some r =>
    cases hm : w.fcmsg with
    | none =>
      simp only [write, hm]
      exact .same false
    | some m =>
      simp only [write, hm]
      cases r with
      | interrupted => exact .same true
      | failed => exact .failed hm
      | wrote n =>
        dsimp only
        split
        · next hall => exact .whole hm hall
        · rw [← hm]
          exact .part hm _

inductive Reacts (w : Worker) : Answer → Worker × Bool → Prop where
  | timeout : Reacts w .timeout (w.abort, false)
  | interrupted : Reacts w .interrupted (w, false)
  | again {r : Reported} {v : Worker} (hwrite : w.write r.stdin = (v, true)) :
      Reacts w (.ready r) (v, false)
  | collect {r : Reported} {v : Worker} (hwrite : w.write r.stdin = (v, false)) :
      Reacts w (.ready r) (v.collect r, r.death && w.inputComplete)

theorem react_reacts (w : Worker) (answer : Answer) : Reacts w answer (w.react answer) := by
  cases answer with
  | timeout => exact .timeout
  | interrupted => exact .interrupted
  | ready r =>
    rw [react]
    split
    · next hagain => exact .again (Prod.ext rfl hagain)
    · next hagain => exact .collect (Prod.ext rfl (Bool.eq_false_iff.mpr hagain))

/-! ### What is kept -/

/-- Nothing is left for the compiler once the input is complete. -/
structure Sound (w : Worker) : Prop where
  complete : w.inputComplete = true → w.fcmsg = none
  value : w.returnValue = 0 ∨ w.returnValue = exitIoError ∨ w.returnValue = exitClientKilled

theorem abort_sound (w : Worker) : w.abort.Sound := ⟨fun _ => rfl, .inr (.inl rfl)⟩

variable {w v : Worker} {got : Got} {answer : Answer} {r : Worker × Bool}

theorem Fetches.sound (h : Fetches w got v) (hw : w.Sound) : v.Sound := by
  cases h with
  | same => exact hw
  | abort => exact w.abort_sound
  | cancelled => exact ⟨fun _ => rfl, .inr (.inr rfl)⟩
  | ended hpolls =>
    refine ⟨fun _ => ?_, hw.value⟩
    simp only [polls, Bool.and_eq_true, Option.isNone_iff_eq_none] at hpolls
    exact hpolls.2
  | chunk hpolls hincomplete =>
    refine ⟨fun hcomplete => ?_, hw.value⟩
    rw [hincomplete] at hcomplete
    cases hcomplete

theorem discard_sound (hw : w.Sound) : w.discard.Sound := by
  rw [discard]
  split
  · exact hw
  · exact ⟨fun _ => rfl, hw.value⟩

theorem Writes.sound (h : Writes w r) (hw : w.Sound) : r.1.Sound := by
  cases h with
  | same => exact hw
  | failed hm =>
    refine ⟨fun _ => rfl, ?_⟩
    split
    · next hcomplete =>
      rw [hw.complete hcomplete] at hm
      cases hm
    · exact hw.value
  | whole => exact ⟨fun _ => rfl, hw.value⟩
  | part => exact ⟨hw.complete, hw.value⟩

theorem Reacts.sound (h : Reacts w answer r) (hw : w.Sound) : r.1.Sound := by
  cases h with
  | timeout => exact w.abort_sound
  | interrupted => exact hw
  | @again reported v hwrite =>
    have hwrites := w.write_writes reported.stdin
    rw [hwrite] at hwrites
    exact hwrites.sound hw
  | @collect reported v hwrite =>
    have hwrites := w.write_writes reported.stdin
    rw [hwrite] at hwrites
    exact ⟨(hwrites.sound hw).complete, (hwrites.sound hw).value⟩

theorem turn_sound (hw : w.Sound) (got : Got) (answer : Answer) : (w.turn got answer).1.Sound :=
  (react_reacts _ answer).sound (discard_sound ((w.fetch_fetches got).sound hw))

end Worker

/-! ## The loop over the bytes of the channel -/

section Alike

variable {p : Platform} {s : Feeding} {w : Worker}

/-- The loop as it is seen from the client's channel and as it is seen here -/
structure Alike (s : Feeding) (w : Worker) : Prop where
  clientOpen : w.clientOpen = s.clientOpen
  inputComplete : w.inputComplete = s.inputComplete
  fcmsg : w.fcmsg = s.fcmsg
  off : w.off = s.off
  stdinOpen : w.stdinOpen = s.stdinOpen
  killed : w.killed = s.killed
  returnValue : w.returnValue = s.returnValue
  fed : w.fed = s.fed
  lost : w.lost = s.lost

namespace Alike

def got (p : Platform) (s : Feeding) (t : WorkTurn) : Got :=
  let r := s.client.getMsg p (setError p t.status) true [t.arrival]
  match r.1 with
  | some m => .msg m
  | none => if r.2.ch.atEof then .eof else .nothing

theorem giveUp (h : Alike s w) (returnValue : ℕ) :
    Alike (s.giveUp returnValue) (w.giveUp returnValue) where
  clientOpen := rfl
  inputComplete := h.inputComplete
  fcmsg := rfl
  off := h.off
  stdinOpen := h.stdinOpen
  killed := rfl
  returnValue := rfl
  fed := h.fed
  lost := h.lost

theorem abort (h : Alike s w) :
    Alike { s.giveUp exitIoError with inputComplete := true } w.abort :=
  { h.giveUp exitIoError with inputComplete := rfl }

theorem fetch (h : Alike s w) (t : WorkTurn) : Alike (s.fetch p t) (w.fetch (got p s t)) := by
  have hclient : ∀ c, Alike { s with client := c } w := fun _ => { h with }
  have hpolls : w.polls = true ↔ s.clientOpen = true ∧ s.fcmsg = none := by
    rw [Worker.polls, h.clientOpen, h.fcmsg, Bool.and_eq_true, Option.isNone_iff_eq_none]
  rw [Worker.fetch, Feeding.fetch, got]
  simp only [hpolls]
  split
  · next hready =>
    generalize s.client.getMsg p (setError p t.status) true [t.arrival] = r
    obtain ⟨m, c⟩ := r
    cases m with
    | none =>
      dsimp only
      split
      · exact (hclient c).abort
      · exact hclient c
    | some m =>
      simp only [Worker.receive, h.inputComplete]
      split
      · exact { (hclient c).giveUp exitClientKilled with }
      · cases m with
        | endMsg => exact { hclient c with inputComplete := rfl, stdinOpen := rfl }
        | fileChunk m => exact { hclient c with inputComplete := rfl, fcmsg := rfl, off := rfl }
        | _ => exact (hclient c).abort
  · exact h

theorem discard (h : Alike s w) : Alike s.discard w.discard := by
  rw [Worker.discard, Feeding.discard, h.stdinOpen]
  split
  · exact h
  · exact { h with fcmsg := rfl, stdinOpen := rfl }

theorem write (h : Alike s w) (r : Option StdinWrite) :
    Alike (s.write r).1 (w.write r).1 ∧ (w.write r).2 = (s.write r).2 := by
  cases r with
  | none => exact ⟨h, rfl⟩
  | some r =>
    cases hm : s.fcmsg with
    | none =>
      simp only [Worker.write, Feeding.write, h.fcmsg, hm]
      exact ⟨h, trivial⟩
    | some m =>
      simp only [Worker.write, Feeding.write, h.fcmsg, hm]
      cases r with
      | interrupted => exact ⟨h, rfl⟩
      | failed =>
        refine ⟨{ h with killed := rfl, returnValue := ?_, fcmsg := rfl, stdinOpen := rfl
                         lost := rfl }, rfl⟩
        simp only [h.inputComplete, h.returnValue]
      | wrote n =>
        simp only [h.off, h.fed, h.stdinOpen, h.inputComplete]
        split
        · refine ⟨{ h with fcmsg := rfl, stdinOpen := rfl, inputComplete := rfl, fed := rfl
                           off := rfl }, rfl⟩
        · refine ⟨{ h with fcmsg := rfl, stdinOpen := rfl, inputComplete := rfl, fed := rfl
                           off := rfl }, rfl⟩

/-- A turn of the one is a turn of the other. -/
theorem turn (h : Alike s w) {t : WorkTurn} {r : Reported}
    (hpolled : t.polled = .ready r.stdin r.death) :
    Alike (s.turn p t).2 (w.turn (got p s t) (.ready r)).1 ∧
      ((s.turn p t).1 = .returned ↔ (w.turn (got p s t) (.ready r)).2 = true) := by
  have hready := (h.fetch (p := p) t).discard
  obtain ⟨hwrite, hagain⟩ := hready.write r.stdin
  rw [Worker.turn, Feeding.turn, hpolled, Worker.react]
  dsimp only
  rw [hagain, hready.inputComplete]
  cases ((s.fetch p t).discard.write r.stdin).2 with
  | true => exact ⟨hwrite, by simp⟩
  | false =>
    simp only [Bool.false_eq_true, if_false]
    split
    · next hdied => exact ⟨{ hwrite with }, by simp [hdied]⟩
    · next hdied => exact ⟨{ hwrite with }, by simp [hdied]⟩

end Alike

end Alike

/-! ## The end of the compiler -/

structure Timeval where
  sec : Int64
  usec : Int64

def Timeval.msec (t : Timeval) : UInt32 := (t.sec * 1000 + t.usec / 1000).toUInt64.toUInt32

structure Rusage where
  utime : Timeval
  stime : Timeval
  minflt : UInt64
  majflt : UInt64
  nswap : UInt64

structure Statfs where
  bavail : Int64
  bsize : Int64

/-- What `wait4`, `statfs` of the root and the clock tell when the compiler has ended -/
structure End where
  status : WaitStatus
  usage : Rusage
  pagesize : UInt64
  disk : Option Statfs
  endtv : Timeval

/-- An end that has used nothing -/
def End.idle (status : WaitStatus) : End :=
  ⟨status, ⟨⟨0, 0⟩, ⟨0, 0⟩, 0, 0, 0⟩, 4096, none, ⟨0, 0⟩⟩

def End.memUsed (e : End) : UInt64 := (e.usage.minflt + e.usage.majflt) * e.pagesize / 1024

def exitOutOfMemory : ℕ := 105

/-- What compilers print when they run out of memory -/
def outOfMemoryTexts : List Str :=
  [str "memory exhausted", str "out of memory", str "annot allocate memory",
    str "failed to map segment from shared object",
    str "Assertion `NewElts && \"Out of memory\"' failed",
    str "terminate called after throwing an instance of 'std::bad_alloc'",
    str "llvm::MallocSlabAllocator::Allocate"]

def outOfMemory (memLimit : UInt64) (e : End) (err : Bytes) : Bool :=
  e.memUsed * 100 > 85 * memLimit * 1024 || outOfMemoryTexts.any (contains err)

/-- Less than 10 MiB of disk space free, or the compiler tells -/
def outOfDisk (e : End) (err : Bytes) : Bool :=
  e.disk.any (fun d => d.bavail < 10 * 1024 * 1024 / d.bsize) ||
    contains err (str "o space left on device")

/-- What `work_it` leaves: what it returns, the answer for the client, the statistics -/
structure Outcome where
  returnValue : ℕ
  rmsg : CompileResultMsg
  jobStat : JobStat

namespace Worker

def jobStat (w : Worker) : JobStat :=
  { inCompressed := w.inCompressed, inUncompressed := w.inUncompressed, outUncompressed := 0,
    exitCode := 0, realMsec := 0, userMsec := 0, sysMsec := 0, sysPfaults := 0 }

/-- The last branch of the loop -/
def finish (w : Worker) (memLimit : UInt64) (starttv : Timeval) (e : End) : Outcome :=
  let code := shellExitStatus e.status
  let rmsg : CompileResultMsg :=
    { out := w.out.text, err := w.err.text
      status := if code ≠ 0 then Int32.ofNat exitOutOfMemory else 0 }
  if code ≠ 0 ∧ outOfMemory memLimit e w.err.text then ⟨exitOutOfMemory, rmsg, w.jobStat⟩
  else if code ≠ 0 ∧ outOfDisk e w.err.text then ⟨exitIoError, rmsg, w.jobStat⟩
  else
    match e.status with
    | .exited _ =>
      ⟨w.returnValue, { rmsg with status := Int32.ofNat code },
        { w.jobStat with
          exitCode := UInt32.ofNat code
          realMsec := ((e.endtv.sec - starttv.sec) * 1000 +
            (e.endtv.usec - starttv.usec) / 1000).toUInt64.toUInt32
          userMsec := e.usage.utime.msec
          sysMsec := e.usage.stime.msec
          sysPfaults := (e.usage.majflt + e.usage.nswap + e.usage.minflt).toUInt32 }⟩
    | .signaled _ => ⟨w.returnValue, rmsg, w.jobStat⟩

end Worker

/-! ## The compiler and the loop side by side -/

/-- `died` is how the compiler has ended; `ended` tells that the loop has dealt with it. -/
structure Process where
  worker : Worker := {}
  died : Option End := none
  ended : Bool := false

inductive Stream where
  | out | err

inductive Event where
  | print (stream : Stream) (bytes : Bytes)
  | close (stream : Stream)
  | exit (e : End)
  | round (got : Got) (answer : Answer)

namespace Worker

def printed (w : Worker) : Stream → Printed
  | .out => w.out
  | .err => w.err

def onStream (w : Worker) (f : Printed → Printed) : Stream → Worker
  | .out => { w with out := f w.out }
  | .err => { w with err := f w.err }

/-- What `poll` can answer: it reports nothing that is not so, though it may miss what comes
while it looks, and it waits without end once the input is complete. -/
def Possible (w : Worker) (died : Bool) : Answer → Prop
  | .timeout => w.inputComplete = false ∧ ¬ w.out.Ready ∧ ¬ w.err.Ready
  | .interrupted => True
  | .ready r =>
    (r.stdin.isSome = true → w.fcmsg.isSome = true ∧ w.stdinOpen = true) ∧
      (r.out = true → w.out.Ready) ∧ (r.err = true → w.err.Ready) ∧ (r.death = true → died = true)

end Worker

instance (s : Printed) : Decidable s.Ready := by
  unfold Printed.Ready
  infer_instance

instance (w : Worker) (died : Bool) (answer : Answer) : Decidable (w.Possible died answer) := by
  cases answer <;> unfold Worker.Possible <;> infer_instance

namespace Process

def next (s : Process) : Event → Option Process
  | .print stream bytes =>
    if s.died.isNone ∧ (s.worker.printed stream).finished = false then
      some { s with worker := s.worker.onStream (fun p => p.print bytes) stream }
    else none
  | .close stream =>
    some { s with worker := s.worker.onStream (fun p => { p with finished := true }) stream }
  | .exit e => if s.died.isNone then some { s with died := some e } else none
  | .round got answer =>
    if s.ended = false ∧ (s.worker.fetch got).discard.Possible s.died.isSome answer then
      some { s with worker := (s.worker.turn got answer).1, ended := (s.worker.turn got answer).2 }
    else none

def system : Transition.System Process Event where
  init s := s = {}
  next := next

inductive Leads (s : Process) : Event → Process → Prop where
  | print {stream : Stream} {bytes : Bytes} (hrunning : s.died = none)
      (hopen : (s.worker.printed stream).finished = false) :
      Leads s (.print stream bytes)
        { s with worker := s.worker.onStream (fun p => p.print bytes) stream }
  | close (stream : Stream) :
      Leads s (.close stream)
        { s with worker := s.worker.onStream (fun p => { p with finished := true }) stream }
  | exit {e : End} (hrunning : s.died = none) : Leads s (.exit e) { s with died := some e }
  | round {got : Got} {answer : Answer} (hgoing : s.ended = false)
      (hpossible : (s.worker.fetch got).discard.Possible s.died.isSome answer) :
      Leads s (.round got answer)
        { s with worker := (s.worker.turn got answer).1, ended := (s.worker.turn got answer).2 }

variable {s t : Process} {e : Event}

theorem next_leads (h : next s e = some t) : Leads s e t := by
  cases e with
  | print stream bytes =>
    simp only [next, Option.ite_none_right_eq_some, Option.some.injEq,
      Option.isNone_iff_eq_none] at h
    obtain ⟨⟨hrunning, hopen⟩, rfl⟩ := h
    exact .print hrunning hopen
  | close stream =>
    cases h
    exact .close stream
  | exit e =>
    simp only [next, Option.ite_none_right_eq_some, Option.some.injEq,
      Option.isNone_iff_eq_none] at h
    obtain ⟨hrunning, rfl⟩ := h
    exact .exit hrunning
  | round got answer =>
    simp only [next, Option.ite_none_right_eq_some, Option.some.injEq] at h
    obtain ⟨⟨hgoing, hpossible⟩, rfl⟩ := h
    exact .round hgoing hpossible

theorem onStream_sound {w : Worker} (hw : w.Sound) (f : Printed → Printed) (stream : Stream) :
    (w.onStream f stream).Sound := by
  cases stream <;> exact ⟨hw.complete, hw.value⟩

def Sound (s : Process) : Prop := s.worker.Sound

theorem reachable_sound (hs : system.Reachable s) : s.Sound := by
  refine hs.invariant ?_ fun s e t hw _ hstep => ?_
  · rintro s rfl
    exact ⟨fun _ => rfl, .inl rfl⟩
  · cases next_leads hstep with
    | @print stream bytes => exact onStream_sound hw (fun p => p.print bytes) stream
    | close stream => exact onStream_sound hw (fun p => { p with finished := true }) stream
    | exit => exact hw
    | round => exact Worker.turn_sound hw _ _

end Process

end Icecream.Daemon
