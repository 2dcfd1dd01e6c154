import Icecream.Comm.Message
import Icecream.Library.Transition

/-!
# The lock of the local host

`dcc_lock_host` and `dcc_unlock` of `client/util.cpp` keep one descriptor in a global
variable. Every answer of the system calls is an argument of a call, so that a run has
any pattern of failures.
-/

namespace Icecream.Client.HostLock

open Icecream.Comm (Str str)

/-- What the system answers to one call of `dcc_lock_host`; an attempt is known by the name
of its lock file and by whether it blocks. -/
structure Answers where
  user : Str
  /-- The directory was made or is there. -/
  mkdir : Bool
  maxCpu : ℕ
  pid : ℕ
  openLockfile : Str → Bool → Option ℕ
  /-- Every error ends the attempt, an interruption too. -/
  sysLock : Str → Bool → Bool

/-- The global variable, the open descriptors, and those that the slots have locked -/
structure Process where
  lockFd : ℤ
  opened : List ℕ
  locks : List ℕ
  deriving DecidableEq

def Process.close (p : Process) (fd : ℤ) : Process :=
  { p with
    opened := p.opened.filter fun n => (n : ℤ) ≠ fd
    locks := p.locks.filter fun n => (n : ℤ) ≠ fd }

def Process.locked (p : Process) (fd : ℕ) : Process :=
  { lockFd := fd, opened := fd :: p.opened, locks := fd :: p.locks }

def dccUnlock (p : Process) : Process :=
  { (if p.lockFd ≠ -1 then p.close p.lockFd else p) with lockFd := -1 }

def slotName (fname : Str) (lock : ℕ) : Str :=
  if 0 < lock then fname ++ str (toString lock) else fname

/-- A descriptor that is not locked is closed again. With a file that is not opened nothing is
locked either, be it reported or not. -/
def dccLockHostSlot (a : Answers) (p : Process) (fname : Str) (lock : ℕ) (block : Bool) :
    Process × Bool :=
  match a.openLockfile (slotName fname lock) block with
  | some fd => if a.sysLock (slotName fname lock) block then (p.locked fd, true) else (p, false)
  | none => (p, false)

/-- The loop over the slots -/
def firstFree (a : Answers) (fname : Str) : List ℕ → Process → Process × Bool
  | [], p => (p, false)
  | lock :: rest, p =>
    let r := dccLockHostSlot a p fname ((lock + a.pid) % a.maxCpu) false
    if r.2 then r else firstFree a fname rest r.1

def lockName (a : Answers) : Str := str "/tmp/.icecream-" ++ a.user ++ str "/local_lock"

/-- The result is `none` where the assertion fails. -/
def dccLockHost (a : Answers) (p : Process) : Option (Process × Bool) :=
  if p.lockFd ≠ -1 then none
  else if a.mkdir = false then some (p, false)
  else
    let r := firstFree a (lockName a) (List.range a.maxCpu) { p with lockFd := 0 }
    if r.2 then some r
    else some (dccLockHostSlot a r.1 (lockName a) (a.pid % a.maxCpu) true)

inductive Event where
  | lockHost (a : Answers)
  | unlock
  /-- Whatever else the program opens and closes -/
  | opened (fd : ℕ)
  | closed (fd : ℕ)

def next (p : Process) : Event → Option Process
  | .lockHost a => (dccLockHost a p).map Prod.fst
  | .unlock => some (dccUnlock p)
  | .opened fd => if fd ∈ p.opened then none else some { p with opened := fd :: p.opened }
  | .closed fd => if fd ∈ p.opened ∧ fd ∉ p.locks then some (p.close fd) else none

def system : Transition.System Process Event where
  init p := p.lockFd = -1 ∧ p.locks = []
  next := next

/-- The system opens a descriptor that is not open yet. -/
def Possible (p : Process) : Event → Prop
  | .lockHost a => ∀ fname block fd, a.openLockfile fname block = some fd → fd ∉ p.opened
  | _ => True

/-- What is asked of one call -/
def Sound (p : Process) : Event → Prop
  | .lockHost a =>
    (dccLockHost a p = none → ∃ fd ∈ p.locks, p.lockFd = (fd : ℤ)) ∧
    ∀ q got, dccLockHost a p = some (q, got) →
      (got = true ↔ ∃ fd ∈ q.locks, q.lockFd = (fd : ℤ) ∧ fd ∉ p.opened) ∧
      (got = false → q.lockFd = -1)
  | .unlock => ∀ fd ∈ p.opened, fd ∉ (dccUnlock p).opened → fd ∈ p.locks
  | _ => True

/-! ## One call -/

variable {a : Answers} {p q : Process} {fname : Str} {block : Bool} {e : Event}

/-- The attempt succeeds. -/
def Answers.Locks (a : Answers) (fname : Str) (block : Bool) : Prop :=
  (a.openLockfile fname block).isSome = true ∧ a.sysLock fname block = true

/-- One of the slots that are tried can be locked. -/
def Answers.Obtains (a : Answers) : Prop :=
  (∃ lock < a.maxCpu, a.Locks (slotName (lockName a) ((lock + a.pid) % a.maxCpu)) false) ∨
    a.Locks (slotName (lockName a) (a.pid % a.maxCpu)) true

/-- A lock call comes no further than `mkdir`, or to a slot that can be locked. -/
def Meets : Event → Prop
  | .lockHost a => a.mkdir = false ∨ a.Obtains
  | _ => True

/-- An attempt changes nothing unless it succeeds. -/
theorem slot_cases (a : Answers) (p : Process) (fname : Str) (lock : ℕ) (block : Bool) :
    (a.Locks (slotName fname lock) block ∧ ∃ fd, a.openLockfile (slotName fname lock) block = some fd ∧
      dccLockHostSlot a p fname lock block = (p.locked fd, true)) ∨
    (¬ a.Locks (slotName fname lock) block ∧ dccLockHostSlot a p fname lock block = (p, false)) := by
  unfold dccLockHostSlot Answers.Locks
  cases hopen : a.openLockfile (slotName fname lock) block with
  | none => exact .inr ⟨fun h => Bool.false_ne_true h.1, rfl⟩
  | some fd =>
    cases hlock : a.sysLock (slotName fname lock) block with
    | true => exact .inl ⟨⟨rfl, rfl⟩, fd, rfl, rfl⟩
    | false => exact .inr ⟨fun h => Bool.false_ne_true h.2, rfl⟩

theorem firstFree_cases (a : Answers) (p : Process) (fname : Str) (slots : List ℕ) :
    ((∃ lock ∈ slots, a.Locks (slotName fname ((lock + a.pid) % a.maxCpu)) false) ∧
      ∃ name fd, a.openLockfile name false = some fd ∧
        firstFree a fname slots p = (p.locked fd, true)) ∨
    ((∀ lock ∈ slots, ¬ a.Locks (slotName fname ((lock + a.pid) % a.maxCpu)) false) ∧
      firstFree a fname slots p = (p, false)) := by
  induction slots with
  | nil => exact .inr ⟨List.forall_mem_nil _, rfl⟩
  | cons lock slots ih =>
    rcases slot_cases a p fname ((lock + a.pid) % a.maxCpu) false with
      ⟨hlocks, fd, hopen, heq⟩ | ⟨hnot, heq⟩
    · refine .inl ⟨⟨lock, List.mem_cons_self, hlocks⟩, _, fd, hopen, ?_⟩
      rw [firstFree, heq]
      rfl
    · have hnext : firstFree a fname (lock :: slots) p = firstFree a fname slots p := by
        rw [firstFree, heq]
        rfl
      rw [hnext]
      rcases ih with ⟨⟨found, hmem, hlocks⟩, hfree⟩ | ⟨hnone, hfree⟩
      · exact .inl ⟨⟨found, List.mem_cons_of_mem lock hmem, hlocks⟩, hfree⟩
      · exact .inr ⟨List.forall_mem_cons.mpr ⟨hnot, hnone⟩, hfree⟩

/-- If no slot can be locked, the variable keeps the value it had in the loop. -/
theorem dccLockHost_cases (hfree : p.lockFd = -1) :
    (a.mkdir = false ∧ dccLockHost a p = some (p, false)) ∨
    (a.mkdir = true ∧ a.Obtains ∧ ∃ name block fd, a.openLockfile name block = some fd ∧
      dccLockHost a p = some (p.locked fd, true)) ∨
    (a.mkdir = true ∧ ¬ a.Obtains ∧ dccLockHost a p = some ({ p with lockFd := 0 }, false)) := by
  unfold dccLockHost
  rw [if_neg (not_not.mpr hfree)]
  cases hmkdir : a.mkdir with
  | false => exact .inl ⟨rfl, rfl⟩
  | true =>
    refine .inr ?_
    simp only [Bool.true_eq_false, if_false, true_and]
    rcases firstFree_cases a { p with lockFd := 0 } (lockName a) (List.range a.maxCpu) with
      ⟨⟨lock, hmem, hlocks⟩, name, fd, hopen, heq⟩ | ⟨hnone, heq⟩
    · refine .inl ⟨.inl ⟨lock, List.mem_range.mp hmem, hlocks⟩, name, false, fd, hopen, ?_⟩
      rw [heq]
      rfl
    · rw [heq]
      rcases slot_cases a { p with lockFd := 0 } (lockName a) (a.pid % a.maxCpu) true with
        ⟨hlocks, fd, hopen, heq'⟩ | ⟨hnot, heq'⟩
      · refine .inl ⟨.inr hlocks, _, true, fd, hopen, ?_⟩
        simp only [Bool.false_eq_true, if_false, heq']
        rfl
      · refine .inr ⟨?_, ?_⟩
        · rintro (⟨lock, hlt, hlocks⟩ | hlocks)
          · exact hnone lock (List.mem_range.mpr hlt) hlocks
          · exact hnot hlocks
        · simp only [Bool.false_eq_true, if_false, heq']

theorem natCast_ne_neg_one (fd : ℕ) : (-1 : ℤ) ≠ (fd : ℤ) := by omega

theorem lockHost_sound_iff (hfree : p.lockFd = -1) (hpossible : Possible p (.lockHost a)) :
    Sound p (.lockHost a) ↔ Meets (.lockHost a) := by
  rcases dccLockHost_cases hfree with ⟨hmkdir, heq⟩ | ⟨-, hobtains, name, block, fd, hopen, heq⟩ |
    ⟨hmkdir, hnot, heq⟩
  · refine iff_of_true ⟨fun h => ?_, fun q got h => ?_⟩ (.inl hmkdir)
    · rw [heq] at h
      cases h
    · rw [heq] at h
      cases h
      refine ⟨iff_of_false Bool.false_ne_true ?_, fun _ => hfree⟩
      rintro ⟨fd, -, hfd, -⟩
      exact natCast_ne_neg_one fd (hfree.symm.trans hfd)
  · refine iff_of_true ⟨fun h => ?_, fun q got h => ?_⟩ (.inr hobtains)
    · rw [heq] at h
      cases h
    · rw [heq] at h
      cases h
      have hnew : fd ∉ p.opened := hpossible name block fd hopen
      exact ⟨iff_of_true rfl ⟨fd, List.mem_cons_self, rfl, hnew⟩, fun h => by cases h⟩
  · refine iff_of_false (fun h => ?_) ?_
    · have hzero : (0 : ℤ) = -1 := (h.2 _ false heq).2 rfl
      exact absurd hzero (by decide)
    · rintro (h | h)
      · rw [hmkdir] at h
        cases h
      · exact hnot h

/-! ## Runs -/

/-- The variable is what it says. -/
def Holds (p : Process) : Prop :=
  (p.lockFd = -1 ∧ p.locks = []) ∨ ∃ fd : ℕ, p.lockFd = (fd : ℤ) ∧ p.locks = [fd]

theorem sound_of_holds (hp : Holds p) (hpossible : Possible p e) (hmeets : Meets e) : Sound p e := by
  cases e with
  | opened fd => trivial
  | closed fd => trivial
  | unlock =>
    intro fd hfd hclosed
    rcases hp with ⟨hfree, -⟩ | ⟨held, hheld, hlocks⟩
    · rw [dccUnlock, if_neg (not_not.mpr hfree)] at hclosed
      exact absurd hfd hclosed
    · have hne : p.lockFd ≠ -1 := fun h => natCast_ne_neg_one held (h.symm.trans hheld)
      rw [dccUnlock, if_pos hne] at hclosed
      have hlock : (fd : ℤ) = p.lockFd := by
        by_contra hother
        exact hclosed (List.mem_filter.mpr ⟨hfd, decide_eq_true hother⟩)
      rw [hheld, Int.natCast_inj] at hlock
      rw [hlocks, hlock]
      exact List.mem_singleton_self held
  | lockHost a =>
    rcases hp with ⟨hfree, -⟩ | ⟨held, hheld, hlocks⟩
    · exact (lockHost_sound_iff hfree hpossible).mpr hmeets
    · have hne : p.lockFd ≠ -1 := fun h => natCast_ne_neg_one held (h.symm.trans hheld)
      have heq : dccLockHost a p = none := if_pos hne
      refine ⟨fun _ => ⟨held, hlocks ▸ List.mem_singleton_self held, hheld⟩, fun q got h => ?_⟩
      rw [heq] at h
      cases h

theorem dccUnlock_holds (hp : Holds p) : Holds (dccUnlock p) := by
  refine .inl ⟨rfl, ?_⟩
  rcases hp with ⟨hfree, hlocks⟩ | ⟨held, hheld, hlocks⟩
  · rw [dccUnlock, if_neg (not_not.mpr hfree)]
    exact hlocks
  · have hne : p.lockFd ≠ -1 := fun h => natCast_ne_neg_one held (h.symm.trans hheld)
    rw [dccUnlock, if_pos hne]
    simp [Process.close, hlocks, hheld]

theorem next_holds (hp : Holds p) (hmeets : Meets e) (h : next p e = some q) : Holds q := by
  cases e with
  | unlock =>
    cases h
    exact dccUnlock_holds hp
  | opened fd =>
    simp only [next, Option.ite_none_left_eq_some, Option.some.injEq] at h
    obtain ⟨-, rfl⟩ := h
    exact hp
  | closed fd =>
    simp only [next, Option.ite_none_right_eq_some, Option.some.injEq] at h
    obtain ⟨⟨-, hfd⟩, rfl⟩ := h
    have hkept : (p.close fd).locks = p.locks := by
      refine List.filter_eq_self.mpr fun n hn => decide_eq_true ?_
      intro heq
      exact hfd (Int.natCast_inj.mp heq ▸ hn)
    rw [Holds, hkept]
    exact hp
  | lockHost a =>
    obtain ⟨r, hr, rfl⟩ := Option.map_eq_some_iff.mp h
    have hfree : p.lockFd = -1 := by
      by_contra hne
      rw [dccLockHost, if_pos hne] at hr
      cases hr
    have hlocks : p.locks = [] := by
      rcases hp with hp | ⟨held, hheld, -⟩
      · exact hp.2
      · exact absurd (hfree.symm.trans hheld) (natCast_ne_neg_one held)
    rcases dccLockHost_cases hfree with ⟨-, heq⟩ | ⟨-, -, name, block, fd, -, heq⟩ | ⟨hmkdir, hnot, -⟩
    · rw [heq] at hr
      cases hr
      exact hp
    · rw [heq] at hr
      cases hr
      exact .inr ⟨fd, rfl, congrArg (fd :: ·) hlocks⟩
    · rcases hmeets with h | h
      · rw [hmkdir] at h
        cases h
      · exact absurd h hnot

/-- In runs whose lock calls find a slot, or fail before the loop, every call is sound. -/
theorem hostLock_calls_sound (h : system.Reaches (fun p e => Possible p e ∧ Meets e) p)
    (hpossible : Possible p e) (hmeets : Meets e) : Sound p e := by
  refine sound_of_holds ?_ hpossible hmeets
  refine h.invariant (fun p hp => .inl hp) fun p e q hp hok hstep => next_holds hp hok.2 hstep

/-- A process with its three standard descriptors -/
def start : Process := ⟨-1, [0, 1, 2], []⟩

/-- Two slots, the first of which is another's -/
def busySlot : Answers where
  user := str "u"
  mkdir := true
  maxCpu := 2
  pid := 6
  openLockfile := fun _ _ => some 3
  sysLock := fun fname _ => fname = str "/tmp/.icecream-u/local_lock1"

theorem hostLock_calls_sound_second_slot :
    system.Reaches (fun p e => Possible p e ∧ Meets e) (start.locked 3) ∧
    Possible (start.locked 3) .unlock ∧ Meets .unlock ∧ Sound (start.locked 3) .unlock := by
  have hpossible : Possible start (.lockHost busySlot) := by
    intro fname block fd h
    cases h
    decide
  have hmeets : Meets (.lockHost busySlot) := .inr (.inl ⟨1, by decide, rfl, by decide⟩)
  have hnext : system.next start (.lockHost busySlot) = some (start.locked 3) := by decide
  have hreaches : system.Reaches (fun p e => Possible p e ∧ Meets e) (start.locked 3) :=
    .step _ (.init ⟨rfl, rfl⟩) ⟨hpossible, hmeets⟩ hnext
  exact ⟨hreaches, trivial, trivial, hostLock_calls_sound hreaches trivial trivial⟩

/-- The lock files cannot be opened, say because the disk is full. -/
def noSlot : Answers := { busySlot with openLockfile := fun _ _ => none }

/-- Then the unlock that follows closes the standard input, and another lock runs into the
assertion. -/
theorem noSlot_not_sound :
    (dccLockHost noSlot start = some (⟨0, [0, 1, 2], []⟩, false) ∧
      ¬ Sound start (.lockHost noSlot)) ∧
    ((dccUnlock ⟨0, [0, 1, 2], []⟩).opened = [1, 2] ∧ ¬ Sound ⟨0, [0, 1, 2], []⟩ .unlock) ∧
    (dccLockHost busySlot ⟨0, [0, 1, 2], []⟩ = none ∧
      ¬ Sound ⟨0, [0, 1, 2], []⟩ (.lockHost busySlot)) := by
  have hlock : dccLockHost noSlot start = some (⟨0, [0, 1, 2], []⟩, false) := by decide
  refine ⟨⟨hlock, fun h => ?_⟩, ⟨by decide, fun h => ?_⟩, by decide, fun h => ?_⟩
  · exact absurd ((h.2 _ false hlock).2 rfl) (by decide)
  · exact absurd (h 0 (by decide) (by decide)) List.not_mem_nil
  · obtain ⟨fd, hfd, -⟩ := h.1 (by decide)
    exact absurd hfd List.not_mem_nil

end Icecream.Client.HostLock
