import Icecream.Daemon.Workit

/-!
# What is told of a compilation

`handle_connection` of `daemon/serve.cpp` once `work_it` has returned: the answer for the
client, and the statistics for the daemon, which makes its report to the scheduler of them.
-/

namespace Icecream.Daemon

open Icecream.Comm (CompileResultMsg exitIoError exitClientKilled)
open Icecream.Services (WaitStatus shellExitStatus)
open Icecream.Iceccd (JobStat compileDoneMsg)

/-! ## The end of `handle_connection` -/

def exitDistccFailed : ℕ := 100

/-- What the client has been sent, and what is written into the pipe of the daemon -/
structure Reply where
  sent : Option CompileResultMsg
  jobStat : JobStat

/-- An exception: only its exit code is told, to the daemon. -/
def Reply.exception (jobStat : JobStat) (exitcode : ℕ) : Reply :=
  ⟨none, { jobStat with exitCode := UInt32.ofNat exitcode }⟩

/-- The sizes of the files, where they exist -/
structure Built where
  obj : Option UInt64
  dwo : Option UInt64

def Built.size (b : Built) : UInt32 := ((b.obj.getD 0) + (b.dwo.getD 0)).toUInt32

def handleConnection (o : Outcome) (b : Built) (sends : Bool) : Reply :=
  let ret := o.returnValue
  if ret ≠ 0 ∧ ret ≠ exitOutOfMemory ∧ ret ≠ exitIoError then .exception o.jobStat ret
  else
    let rmsg := { o.rmsg with
      wasOutOfMemory := ret ≠ 0 || o.rmsg.wasOutOfMemory, haveDwoFile := b.dwo.isSome }
    let jobStat := { o.jobStat with outUncompressed := o.jobStat.outUncompressed + b.size }
    if sends then ⟨some rmsg, jobStat⟩ else .exception jobStat exitDistccFailed

/-- The scheduler is told of success if the client is, and only then. -/
def Reply.Agrees (r : Reply) : Prop :=
  ∀ jobId clientCount, (compileDoneMsg jobId clientCount (some r.jobStat)).exitcode = 0 ↔
    ∃ rmsg, r.sent = some rmsg ∧ rmsg.status = 0

/-- `work_it` takes the compiler to have run out of memory or disk space. -/
def Exhausted (memLimit : UInt64) (e : End) (err : Comm.Bytes) : Prop :=
  outOfMemory memLimit e err = true ∨ outOfDisk e err = true

/-! ## What the two are told -/

theorem toInt32_eq_zero_iff (x : UInt32) : x.toInt32 = 0 ↔ x = 0 := by
  constructor
  · intro h
    exact congrArg Int32.toUInt32 h
  · rintro rfl
    rfl

namespace Reply

theorem agrees_iff (r : Reply) :
    r.Agrees ↔ (r.jobStat.exitCode = 0 ↔ ∃ rmsg, r.sent = some rmsg ∧ rmsg.status = 0) := by
  have hexit : ∀ jobId clientCount,
      (compileDoneMsg jobId clientCount (some r.jobStat)).exitcode = 0 ↔ r.jobStat.exitCode = 0 :=
    fun _ _ => toInt32_eq_zero_iff _
  constructor
  · intro h
    rw [← hexit 0 0]
    exact h 0 0
  · intro h jobId clientCount
    rw [hexit]
    exact h

/-- An exception agrees with the silence for the client unless its code is zero. -/
theorem exception_agrees (jobStat : JobStat) {exitcode : ℕ} (h : UInt32.ofNat exitcode ≠ 0) :
    (exception jobStat exitcode).Agrees := by
  rw [agrees_iff]
  refine ⟨fun hzero => absurd hzero h, ?_⟩
  rintro ⟨rmsg, hsent, -⟩
  cases hsent

end Reply

/-- What `work_it` can return with the compiler's end -/
def Outcome.Returned (o : Outcome) : Prop :=
  o.returnValue = 0 ∨ o.returnValue = exitOutOfMemory ∨ o.returnValue = exitIoError ∨
    o.returnValue = exitClientKilled

theorem handleConnection_iff {o : Outcome} (h : o.Returned) (b : Built) (sends : Bool) :
    (handleConnection o b sends).Agrees ↔
      sends = false ∨ o.returnValue = exitClientKilled ∨
        (o.jobStat.exitCode = 0 ↔ o.rmsg.status = 0) := by
  by_cases hcancelled : o.returnValue = exitClientKilled
  · have hret : o.returnValue ≠ 0 ∧ o.returnValue ≠ exitOutOfMemory ∧
        o.returnValue ≠ exitIoError := by
      rw [hcancelled]
      decide
    rw [handleConnection, if_pos hret, hcancelled]
    exact iff_of_true (Reply.exception_agrees _ (by decide)) (.inr (.inl rfl))
  · have hret : ¬ (o.returnValue ≠ 0 ∧ o.returnValue ≠ exitOutOfMemory ∧
        o.returnValue ≠ exitIoError) := by
      rintro ⟨hzero, hmemory, hio⟩
      rcases h with h | h | h | h <;> contradiction
    rw [handleConnection, if_neg hret]
    cases sends with
    | false => exact iff_of_true (Reply.exception_agrees _ (by decide)) (.inl rfl)
    | true =>
      rw [if_pos rfl, Reply.agrees_iff]
      simp [hcancelled]

namespace Worker

variable {w : Worker} {memLimit : UInt64} (starttv : Timeval) {e : End}

/-- The message of a compiler that has failed, as long as nothing else is said of it -/
def failed (w : Worker) : CompileResultMsg :=
  { status := Int32.ofNat exitOutOfMemory, out := w.out.text, err := w.err.text }

theorem finish_exhausted (hcode : shellExitStatus e.status ≠ 0)
    (h : Exhausted memLimit e w.err.text) :
    ∃ ret, (ret = exitOutOfMemory ∨ ret = exitIoError) ∧
      w.finish memLimit starttv e = ⟨ret, w.failed, w.jobStat⟩ := by
  unfold finish
  dsimp only
  rw [if_pos hcode]
  by_cases hmemory : outOfMemory memLimit e w.err.text = true
  · rw [if_pos ⟨hcode, hmemory⟩]
    exact ⟨exitOutOfMemory, .inl rfl, rfl⟩
  · rw [if_neg fun h => hmemory h.2, if_pos ⟨hcode, h.resolve_left hmemory⟩]
    exact ⟨exitIoError, .inr rfl, rfl⟩

theorem finish_exited {c : UInt8} (hstatus : e.status = .exited c)
    (h : c = 0 ∨ ¬ Exhausted memLimit e w.err.text) :
    (w.finish memLimit starttv e).returnValue = w.returnValue ∧
      (w.finish memLimit starttv e).rmsg.status = Int32.ofNat c.toNat ∧
      (w.finish memLimit starttv e).jobStat.exitCode = UInt32.ofNat c.toNat := by
  have hcode : shellExitStatus e.status ≠ 0 → ¬ Exhausted memLimit e w.err.text := by
    intro hcode
    refine h.resolve_left fun hc => hcode ?_
    rw [hstatus, hc]
    rfl
  unfold finish
  dsimp only
  rw [if_neg fun h => hcode h.1 (.inl h.2), if_neg fun h => hcode h.1 (.inr h.2), hstatus]
  exact ⟨rfl, rfl, rfl⟩

theorem finish_signaled {signal : UInt8} (hstatus : e.status = .signaled signal)
    (h : ¬ Exhausted memLimit e w.err.text) :
    w.finish memLimit starttv e = ⟨w.returnValue, w.failed, w.jobStat⟩ := by
  have hcode : shellExitStatus e.status ≠ 0 := by
    rw [hstatus]
    exact Nat.succ_ne_zero _
  unfold finish
  dsimp only
  rw [if_pos hcode, if_neg fun hmemory => h (.inl hmemory.2), if_neg fun hdisk => h (.inr hdisk.2),
    hstatus]
  rfl

/-- The statistics are filled in only where the compiler has exited. -/
theorem failed_differs (w : Worker) : ¬ (w.jobStat.exitCode = 0 ↔ w.failed.status = 0) := by
  intro h
  have hstatus : w.failed.status ≠ 0 := show Int32.ofNat exitOutOfMemory ≠ 0 by decide
  exact hstatus (h.mp rfl)

theorem Sound.returned (hw : w.Sound) {o : Outcome} (h : o.returnValue = w.returnValue) :
    o.Returned := by
  rw [Outcome.Returned, h]
  exact hw.value.imp_right .inr

end Worker

/-! ## Success for the one and for the other -/

/-- The scheduler and the client are told the same of a compiler that exits without being taken
to have run out of memory or disk space, of one that succeeds, and where the client is told
nothing: the channel fails, or it has cancelled the compilation. -/
theorem handleConnection_agrees_iff {s : Process} (hs : Process.system.Reachable s)
    (memLimit : UInt64) (starttv : Timeval) (e : End) (b : Built) (sends : Bool) :
    (handleConnection (s.worker.finish memLimit starttv e) b sends).Agrees ↔
      sends = false ∨
      (∃ c, e.status = .exited c ∧ (c = 0 ∨ ¬ Exhausted memLimit e s.worker.err.text)) ∨
      s.worker.returnValue = exitClientKilled ∧ ¬ Exhausted memLimit e s.worker.err.text := by
  have hsound : s.worker.Sound := Process.reachable_sound hs
  generalize s.worker = w at hsound
  by_cases hexited : ∃ c, e.status = .exited c ∧ (c = 0 ∨ ¬ Exhausted memLimit e w.err.text)
  · obtain ⟨c, hstatus, hc⟩ := hexited
    obtain ⟨hvalue, hsent, hexit⟩ := w.finish_exited starttv hstatus hc
    rw [handleConnection_iff (hsound.returned hvalue), hsent, hexit]
    have hcode : UInt32.ofNat c.toNat = 0 ↔ Int32.ofNat c.toNat = 0 :=
      (toInt32_eq_zero_iff _).symm
    exact iff_of_true (.inr (.inr hcode)) (.inr (.inl ⟨c, hstatus, hc⟩))
  · by_cases hexhausted : Exhausted memLimit e w.err.text
    · have hcode : shellExitStatus e.status ≠ 0 := by
        cases hstatus : e.status with
        | exited c =>
          intro hzero
          exact hexited ⟨c, hstatus, .inl (UInt8.toNat_inj.mp hzero)⟩
        | signaled signal => exact Nat.succ_ne_zero _
      obtain ⟨ret, hret, hfinish⟩ := w.finish_exhausted starttv hcode hexhausted
      rw [hfinish, handleConnection_iff (hret.elim (fun h => .inr (.inl h))
        fun h => .inr (.inr (.inl h)))]
      have hother : ret ≠ exitClientKilled := by rcases hret with rfl | rfl <;> decide
      simp only [hother, hexited, w.failed_differs]
      simp [hexhausted]
    · cases hstatus : e.status with
      | exited c => exact absurd ⟨c, hstatus, .inr hexhausted⟩ hexited
      | signaled signal =>
        rw [w.finish_signaled starttv hstatus hexhausted,
          handleConnection_iff (hsound.returned rfl)]
        simp only [w.failed_differs, hexhausted]
        simp

def compiled (e : End) : Process := ⟨{ inputComplete := true, stdinOpen := false }, some e, true⟩

/-- The input ends at once, and the compiler after it. -/
theorem compiled_reachable (e : End) : Process.system.Reachable (compiled e) := by
  have hstart : Process.system.Reachable {} := .init rfl
  have hexec : Process.system.exec {}
      [.round (.msg .endMsg) (.ready {}), .exit e, .round .nothing (.ready { death := true })] =
        some (compiled e) := rfl
  exact hstart.exec (fun _ _ _ => trivial) hexec

/-- The report of such a run, with a limit of 100 MiB -/
def reported (status : WaitStatus) : Reply :=
  handleConnection ((compiled (.idle status)).worker.finish 100 ⟨0, 0⟩ (.idle status)) ⟨none, none⟩
    true

theorem handleConnection_agrees_exited : (reported (.exited 1)).Agrees := by
  refine (handleConnection_agrees_iff (compiled_reachable _) _ _ _ _ _).mpr
    (.inr (.inl ⟨1, rfl, .inr ?_⟩))
  unfold Exhausted
  decide +kernel

/-- A compiler that a signal ends is a success for the scheduler and a failure for the client. -/
theorem signaled_disagrees :
    Process.system.Reachable (compiled (.idle (.signaled 11))) ∧
      ¬ (reported (.signaled 11)).Agrees := by
  refine ⟨compiled_reachable _, fun h => ?_⟩
  obtain ⟨rmsg, hsent, hstatus⟩ := (h 1 1).mp (by decide +kernel)
  cases hsent
  exact absurd hstatus (by decide +kernel)

end Icecream.Daemon
