import Icecream.Comm.Message
import Icecream.Library.Transition

/-!
# The output of a command

`read_command_output` waits for the command to exit before it reads its output from the
pipe. The command and its caller run side by side: every order of their steps is a run.
-/

namespace Icecream.Services

open Icecream.Comm (Bytes)

/-- How a process ended, as `waitpid` tells it without further options -/
inductive WaitStatus where
  | exited (code : UInt8)
  | signaled (signal : UInt8)
  deriving DecidableEq

def shellExitStatus : WaitStatus → ℕ
  | .exited code => code.toNat
  | .signaled signal => signal.toNat + 128

structure Command where
  output : Bytes
  status : WaitStatus

namespace CommandOutput

/-- What the command has yet to write -/
inductive Child where
  | running (rest : Bytes)
  | exited

inductive Parent where
  | waiting
  | reading (output : Bytes)
  | returned (output : Bytes)

structure State where
  parent : Parent
  child : Child
  pipe : Bytes

inductive Event where
  | write (n : ℕ)
  | exit
  | waitpid
  | read

/-- The buffer has 1024 bytes. -/
def chunk : ℕ := 1023

/-- One step of the child or of the parent. A call that is interrupted is made again, which
changes nothing; whoever is not able to step blocks. -/
def next (capacity : ℕ) (c : Command) (s : State) : Event → Option State
  | .write n =>
    match s.child with
    | .running rest =>
      if 0 < n ∧ n ≤ rest.length ∧ s.pipe.length + n ≤ capacity then
        some { s with child := .running (rest.drop n), pipe := s.pipe ++ rest.take n }
      else none
    | .exited => none
  | .exit =>
    match s.child with
    | .running [] => some { s with child := .exited }
    | _ => none
  | .waitpid =>
    match s.parent, s.child with
    | .waiting, .exited =>
      some { s with parent := if shellExitStatus c.status ≠ 0 then .returned [] else .reading [] }
    | _, _ => none
  | .read =>
    match s.parent, s.pipe, s.child with
    | .reading output, [], .exited => some { s with parent := .returned output }
    | .reading _, [], .running _ => none
    | .reading output, pipe, _ =>
      some { s with parent := .reading (output ++ pipe.take chunk), pipe := pipe.drop chunk }
    | _, _, _ => none

def start (c : Command) : State := ⟨.waiting, .running c.output, []⟩

def system (capacity : ℕ) (c : Command) : Transition.System State Event where
  init s := s = start c
  next := next capacity c

/-- The child has to wait for the parent and the parent for the child. -/
def Deadlocked (capacity : ℕ) (s : State) : Prop :=
  s.parent = .waiting ∧ ∃ rest, rest ≠ [] ∧ s.child = .running rest ∧ capacity ≤ s.pipe.length

def Stopped (capacity : ℕ) (c : Command) (s : State) : Prop := ∀ e, next capacity c s e = none

/-- Neither waits for the other, every run comes to an end, and there the caller has all of the
output of a command that succeeds. -/
def Complete (capacity : ℕ) (c : Command) : Prop :=
  ∀ es s, (system capacity c).exec (start c) es = some s → ¬ Deadlocked capacity s ∧
    es.length ≤ 2 * c.output.length + 3 ∧
    (Stopped capacity c s → shellExitStatus c.status = 0 → s.parent = .returned c.output)

/-! ## What every step keeps -/

variable {capacity : ℕ} {c : Command} {s t : State} {e : Event}

def Child.rest : Child → Bytes
  | .running rest => rest
  | .exited => []

/-- Where the output is; the caller is not done with it before the command is. -/
def Conserved (c : Command) (s : State) : Prop :=
  match s.parent with
  | .waiting => s.pipe ++ s.child.rest = c.output
  | .reading output => s.child = .exited ∧ output ++ s.pipe = c.output
  | .returned output => s.child = .exited ∧ (shellExitStatus c.status = 0 → output = c.output)

/-- The steps, with all that can happen in them -/
inductive Steps (capacity : ℕ) (c : Command) : State → Event → State → Prop
  | write {parent : Parent} {rest pipe : Bytes} {n : ℕ} (hpos : 0 < n) (hrest : n ≤ rest.length)
      (hfree : pipe.length + n ≤ capacity) : Steps capacity c ⟨parent, .running rest, pipe⟩ (.write n)
        ⟨parent, .running (rest.drop n), pipe ++ rest.take n⟩
  | exit {parent : Parent} {pipe : Bytes} :
      Steps capacity c ⟨parent, .running [], pipe⟩ .exit ⟨parent, .exited, pipe⟩
  | failed {pipe : Bytes} (hstatus : shellExitStatus c.status ≠ 0) :
      Steps capacity c ⟨.waiting, .exited, pipe⟩ .waitpid ⟨.returned [], .exited, pipe⟩
  | succeeded {pipe : Bytes} (hstatus : shellExitStatus c.status = 0) :
      Steps capacity c ⟨.waiting, .exited, pipe⟩ .waitpid ⟨.reading [], .exited, pipe⟩
  | read {output pipe : Bytes} {child : Child} (hpipe : pipe ≠ []) :
      Steps capacity c ⟨.reading output, child, pipe⟩ .read
        ⟨.reading (output ++ pipe.take chunk), child, pipe.drop chunk⟩
  | eof {output : Bytes} :
      Steps capacity c ⟨.reading output, .exited, []⟩ .read ⟨.returned output, .exited, []⟩

theorem next_steps (h : next capacity c s e = some t) : Steps capacity c s e t := by
  obtain ⟨parent, child, pipe⟩ := s
  cases e with
  | write n =>
    cases child with
    | exited => cases h
    | running rest =>
      simp only [next, Option.ite_none_right_eq_some, Option.some.injEq] at h
      obtain ⟨⟨hpos, hrest, hfree⟩, rfl⟩ := h
      exact .write hpos hrest hfree
  | exit =>
    cases child with
    | exited => cases h
    | running rest =>
      cases rest with
      | nil =>
        cases h
        exact .exit
      | cons b rest => cases h
  | waitpid =>
    cases parent with
    | waiting =>
      cases child with
      | running rest => cases h
      | exited =>
        simp only [next, Option.some.injEq] at h
        subst h
        split
        · exact .failed ‹_›
        · exact .succeeded (not_not.mp ‹_›)
    | reading output => cases h
    | returned output => cases h
  | read =>
    cases parent with
    | waiting => cases h
    | returned output => cases h
    | reading output =>
      cases pipe with
      | nil =>
        cases child with
        | running rest => cases h
        | exited =>
          cases h
          exact .eof
      | cons b pipe =>
        cases h
        exact .read (List.cons_ne_nil b pipe)

theorem Steps.conserved (h : Steps capacity c s e t) (hs : Conserved c s) : Conserved c t := by
  cases h with
  | @write parent rest pipe n hpos hrest hfree =>
    cases parent with
    | waiting =>
      show pipe ++ rest.take n ++ rest.drop n = c.output
      rw [List.append_assoc, List.take_append_drop]
      exact hs
    | reading output => cases hs.1
    | returned output => cases hs.1
  | @exit parent pipe =>
    cases parent with
    | waiting => exact hs
    | reading output => cases hs.1
    | returned output => cases hs.1
  | failed hstatus => exact ⟨rfl, fun h => absurd h hstatus⟩
  | succeeded => exact ⟨rfl, (List.append_nil _).symm.trans hs⟩
  | @read output pipe child hpipe =>
    refine ⟨hs.1, ?_⟩
    show output ++ pipe.take chunk ++ pipe.drop chunk = c.output
    rw [List.append_assoc, List.take_append_drop]
    exact hs.2
  | eof => exact ⟨rfl, fun _ => (List.append_nil _).symm.trans hs.2⟩

theorem exec_conserved {es : List Event} (h : (system capacity c).exec (start c) es = some s) :
    Conserved c s := by
  have hstart : (system capacity c).Reachable (start c) := .init rfl
  have hreaches : (system capacity c).Reachable s := hstart.exec (fun _ _ _ => trivial) h
  refine hreaches.invariant ?_ fun s e t hs _ hstep => (next_steps hstep).conserved hs
  rintro s rfl
  rfl

/-! ## Every run comes to an end -/

def Parent.left : Parent → ℕ
  | .waiting => 2
  | .reading _ => 1
  | .returned _ => 0

def Child.left : Child → ℕ
  | .running rest => 2 * rest.length + 1
  | .exited => 0

/-- More than the steps that are left -/
def State.left (s : State) : ℕ := s.parent.left + s.child.left + s.pipe.length

theorem Steps.left_lt (h : Steps capacity c s e t) : t.left < s.left := by
  cases h with
  | write hpos hrest hfree =>
    simp only [State.left, Child.left, List.length_append, List.length_take, List.length_drop]
    omega
  | exit =>
    simp only [State.left, Child.left, List.length_nil]
    omega
  | failed =>
    simp only [State.left, Parent.left]
    omega
  | succeeded =>
    simp only [State.left, Parent.left]
    omega
  | read hpipe =>
    have hpos := List.length_pos_iff.mpr hpipe
    have hchunk : 0 < chunk := by decide
    simp only [State.left, Parent.left, List.length_drop]
    omega
  | eof =>
    simp only [State.left, Parent.left]
    omega

theorem exec_length_le {es : List Event} (h : (system capacity c).exec s es = some t) :
    es.length ≤ s.left := by
  induction es generalizing s with
  | nil => exact Nat.zero_le _
  | cons e es ih =>
    obtain ⟨u, hu, ht⟩ := Option.bind_eq_some_iff.mp h
    have hstep := (next_steps hu).left_lt
    have hrest := ih ht
    rw [List.length_cons]
    omega

/-! ## The capacity of the pipe -/

theorem next_write {parent : Parent} {rest pipe : Bytes} {n : ℕ} (hpos : 0 < n)
    (hrest : n ≤ rest.length) (hfree : pipe.length + n ≤ capacity) :
    next capacity c ⟨parent, .running rest, pipe⟩ (.write n) =
      some ⟨parent, .running (rest.drop n), pipe ++ rest.take n⟩ :=
  if_pos ⟨hpos, hrest, hfree⟩

/-- The command fills the pipe and waits, before its caller has read anything. -/
theorem exists_deadlocked (h : capacity < c.output.length) :
    ∃ es s, (system capacity c).exec (start c) es = some s ∧ Deadlocked capacity s := by
  by_cases hzero : capacity = 0
  · have hne : c.output ≠ [] := List.length_pos_iff.mp (by omega)
    exact ⟨[], _, rfl, rfl, c.output, hne, rfl, by simp [hzero]⟩
  · have hwrite : next capacity c (start c) (.write capacity) =
        some ⟨.waiting, .running (c.output.drop capacity), [] ++ c.output.take capacity⟩ :=
      next_write (Nat.pos_of_ne_zero hzero) h.le (by simp)
    have hrest : c.output.drop capacity ≠ [] := by
      rw [ne_eq, List.drop_eq_nil_iff]
      omega
    exact ⟨[.write capacity], _, Option.bind_eq_some_iff.mpr ⟨_, hwrite, rfl⟩, rfl, _, hrest, rfl,
      by simp [h.le]⟩

theorem not_deadlocked (hs : Conserved c s) (hfits : c.output.length ≤ capacity) :
    ¬ Deadlocked capacity s := by
  rintro ⟨hparent, rest, hne, hchild, hfull⟩
  rw [Conserved, hparent, hchild] at hs
  have hlength := congrArg List.length hs
  rw [Child.rest, List.length_append] at hlength
  have hpos := List.length_pos_iff.mpr hne
  omega

/-- If there is no step left, it is because the caller is done or waits for ever. -/
theorem returned_of_stopped (hstopped : Stopped capacity c s) (hs : Conserved c s)
    (hnot : ¬ Deadlocked capacity s) : ∃ output, s.parent = .returned output := by
  obtain ⟨parent, child, pipe⟩ := s
  cases parent with
  | returned output => exact ⟨output, rfl⟩
  | reading output =>
    obtain rfl : child = .exited := hs.1
    cases pipe with
    | nil => cases hstopped .read
    | cons b pipe => cases hstopped .read
  | waiting =>
    cases child with
    | exited => cases hstopped .waitpid
    | running rest =>
      cases rest with
      | nil => cases hstopped .exit
      | cons b rest =>
        have hfree : pipe.length < capacity := by
          by_contra hfull
          exact hnot ⟨rfl, _, List.cons_ne_nil b rest, rfl, Nat.le_of_not_lt hfull⟩
        have hwrite := hstopped (.write 1)
        rw [next_write Nat.one_pos (by simp) hfree] at hwrite
        cases hwrite

theorem readCommandOutput_complete_iff (capacity : ℕ) (c : Command) :
    Complete capacity c ↔ c.output.length ≤ capacity := by
  constructor
  · intro h
    by_contra hlt
    obtain ⟨es, s, hexec, hdeadlocked⟩ := exists_deadlocked (Nat.lt_of_not_le hlt)
    exact (h es s hexec).1 hdeadlocked
  · intro hfits es s hexec
    have hconserved := exec_conserved hexec
    have hnot := not_deadlocked hconserved hfits
    refine ⟨hnot, ?_, fun hstopped hstatus => ?_⟩
    · have hleft := exec_length_le hexec
      simp only [start, State.left, Parent.left, Child.left, List.length_nil] at hleft
      omega
    · obtain ⟨output, hreturned⟩ := returned_of_stopped hstopped hconserved hnot
      rw [Conserved, hreturned] at hconserved
      rw [hreturned, hconserved.2 hstatus]

/-- One byte more than a pipe of the usual capacity holds -/
theorem not_complete_overfull : ¬ Complete 65536 ⟨List.replicate 65537 120, .exited 0⟩ := by
  intro h
  have hlonger : 65536 < (List.replicate 65537 (120 : UInt8)).length := by
    rw [List.length_replicate]
    exact Nat.lt_succ_self 65536
  obtain ⟨es, s, hexec, hdeadlocked⟩ := exists_deadlocked (c := ⟨_, .exited 0⟩) hlonger
  exact (h es s hexec).1 hdeadlocked

end CommandOutput

end Icecream.Services
