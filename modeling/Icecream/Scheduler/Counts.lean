import Icecream.Comm.Frame
import Icecream.Scheduler.Installs
import Icecream.Scheduler.Recorded

/-!
# The clients that daemons tell of

The scheduler's loop with the messages as the daemons put them: what a daemon says of its
clients goes through the encoder of its message and the decoder of the scheduler.
-/

namespace Icecream.IceccScheduler

open Icecream.Comm
open Icecream.Fault

/-- What a message says of the clients of its daemon -/
def clientCount : Msg → Option UInt32
  | .getCS m => some m.clientCount
  | .jobBegin m => some m.clientCount
  | .jobDone m => some m.clientCount
  | .stats m => some m.clientCount
  | _ => none

namespace Scheduler

variable {s t : Scheduler} {x cid : ℕ} {n n' : ℤ}

/-- The scheduler takes the connection `x` to have `n` clients, none before it is there. -/
structure Counted (x : ℕ) (n : ℤ) (s : Scheduler) : Prop where
  count : s.live x = true → (s.conn x).clientCount = n
  early : s.live x = true → x < s.newCid
  unset : s.newCid ≤ x → n = 0

theorem counted_iff : Counted x n s ↔ Recorded (fun g => g.2.1) x n s :=
  ⟨fun h => ⟨h.count, h.early, h.unset⟩, fun h => ⟨h.value, h.early, h.unset⟩⟩

theorem Counted.put (h : Counted x n s) {c : CompileServer}
    (hsame : c.clientCount = (s.conn c.cid).clientCount) : Counted x n (s.put c) :=
  counted_iff.mpr ((counted_iff.mp h).put hsame)

/-- The count that a connection is told of -/
theorem Counted.set (h : Counted x n s) {c : CompileServer} (hlive : s.live c.cid = true) :
    Counted x (if x = c.cid then c.clientCount else n) (s.put c) :=
  counted_iff.mpr ((counted_iff.mp h).set hlive)

theorem counted_lasting (x : ℕ) (n : ℤ) : Lasting (Counted x n) := by
  have hsame : Counted x n = Recorded (fun g => g.2.1) x n := funext fun _ => propext counted_iff
  rw [hsame]
  exact recorded_lasting _ x n

theorem Counted.handleEnd (h : Counted x n s) (cid : ℕ) :
    Ends (fun _ => True) (Counted x n) (s.handleEnd cid) :=
  (counted_lasting x n).abiding.handleEndBusy (fun _ hs hsame _ => hs.put (congrArg Prod.fst hsame)) cid
    h

theorem Counted.setClientCount (h : Counted x n s) (cid : ℕ) (count : UInt32) :
    Ends (fun _ => True) (Counted x (if x = cid then count.toInt32.toInt else n))
      (s.setClientCount cid count) := by
  unfold Scheduler.setClientCount
  refine (touch_any s cid).bind fun _ hlive => .pure ?_
  have hset := h.set (c := { s.conn cid with clientCount := count.toInt32.toInt })
    (by rwa [conn_cid])
  rwa [conn_cid] at hset

/-- What `x` is taken to have once `cid` has told of `count` clients and the answer is `b` -/
def expected (x cid : ℕ) (count : UInt32) (n : ℤ) (b : Bool) : ℤ :=
  if b ∧ x = cid then count.toInt32.toInt else n

@[simp] theorem expected_false (count : UInt32) : expected x cid count n false = n := by simp [expected]

@[simp] theorem expected_true (count : UInt32) :
    expected x cid count n true = if x = cid then count.toInt32.toInt else n := by simp [expected]

theorem handleJobBegin_true {m : JobBeginMsg} {ptr : ℕ} (hfind : s.findJob m.jobId = some ptr)
    (hserver : (s.job ptr).server = some cid) :
    Ends (fun _ => True) (fun r => r.2 = true) (s.handleJobBegin cid m) := by
  simp only [Scheduler.handleJobBegin, hfind]
  have hany : ∀ {α : Type} (e : Except Fault α), Ends (fun _ => True) (fun _ => True) e :=
    fun e => .any fun _ => trivial
  refine (touchJob_any s ptr).bind fun _ _ => .ite (fun hne => absurd hserver hne) fun _ => ?_
  refine (hany _).bind fun t _ => (hany _).bind fun u _ => ?_
  exact (touch_any u _).bind fun _ _ => (touch_any u cid).bind fun _ _ => .pure rfl

theorem jobOfDone_clientCount (s : Scheduler) (cid : ℕ) (m : JobDoneMsg) :
    Ends (fun _ => True) (fun r => r.2.clientCount = m.clientCount) (s.jobOfDone cid m) := by
  unfold Scheduler.jobOfDone
  refine .ite (fun _ => ?_) fun _ => .pure rfl
  have hloop : Ends (fun _ => True) (fun _ => True)
      (s.jobs.foldlM (cancelQueued cid m.unknownJobClientId) (s, none)) := .any fun _ => trivial
  refine hloop.bind fun r _ => ?_
  cases r.2 with
  | some ptr => exact .pure rfl
  | none => exact .pure rfl

/-- What a message with a count does once its sender is logged in. -/
theorem Counted.dispatch (h : Counted x n s) (cid : ℕ) {m : Msg} {count : UInt32}
    (hm : clientCount m = some count) : Ends (fun _ => True)
      (fun r => Counted x (expected x cid count n r.2) r.1) (s.dispatch cid m) := by
  have habiding := fun n => (counted_lasting x n).abiding
  cases m with
  | getCS m =>
    obtain rfl := Option.some.inj hm
    simp only [Scheduler.dispatch, Scheduler.handleCsRequest]
    refine (h.setClientCount cid m.clientCount).bind fun t ht => ?_
    refine ((habiding _).requestJobs ht cid m _ none).bind fun u hu => .pure ?_
    rwa [expected_true]
  | jobBegin m =>
    obtain rfl := Option.some.inj hm
    by_cases hmine : ∃ ptr, s.findJob m.jobId = some ptr ∧ (s.job ptr).server = some cid
    · obtain ⟨ptr, hfind, hserver⟩ := hmine
      have hbegin := (habiding _).handleJobBegin hfind hserver (h.setClientCount cid m.clientCount)
      refine (hbegin.and (handleJobBegin_true hfind hserver)).mono fun r hr => ?_
      rw [hr.2, expected_true]
      exact hr.1
    · simp only [Scheduler.dispatch, Scheduler.handleJobBegin]
      cases hfind : s.findJob m.jobId with
      | none => exact .pure (by rwa [expected_false])
      | some ptr =>
        refine (touchJob_any s ptr).bind fun _ _ => .ite (fun _ => .pure ?_) fun hserver => ?_
        · rwa [expected_false]
        · exact absurd ⟨ptr, hfind, not_not.mp hserver⟩ hmine
  | jobDone m =>
    obtain rfl := Option.some.inj hm
    simp only [Scheduler.dispatch, Scheduler.handleJobDone]
    refine (((habiding n).jobOfDone h cid m).and (jobOfDone_clientCount s cid m)).bind
      fun r hr => ?_
    obtain ⟨⟨t, found⟩, m'⟩ := r
    obtain ⟨ht, hsame⟩ := hr
    have hrefuse : Ends (fun _ => True) (fun r : Scheduler × Bool =>
        Counted x (expected x cid m.clientCount n r.2) r.1) (do return (← t.handleEnd cid, false)) :=
      (Counted.handleEnd ht cid).bind fun u hu => .pure (by rwa [expected_false])
    cases found with
    | none => exact .pure (by rwa [expected_false])
    | some ptr =>
      refine (touchJob_any t ptr).bind fun _ hlive => ?_
      have htouch : Ends (fun _ => True) (fun _ => True) (t.touchServer (t.job ptr)) :=
        .any fun _ => trivial
      refine .ite (fun _ => htouch.bind fun _ _ => hrefuse) fun _ => ?_
      refine .ite (fun _ => (touch_any t _).bind fun _ _ => hrefuse) fun _ => ?_
      have hset := Counted.setClientCount ht cid m'.clientCount
      refine ((habiding _).finishJob hlive hset).bind fun u hu => .pure ?_
      rw [expected_true, ← hsame]
      exact hu
  | stats m =>
    obtain rfl := Option.some.inj hm
    simp only [Scheduler.dispatch, Scheduler.handleStats]
    have hping : Ends (fun _ => True) (Counted x n)
        (if (s.conn cid).protocol < 25 then Prod.fst <$> s.handlePing cid else pure s) :=
      .ite (fun _ => ((habiding n).handlePing h cid).map fun r hr => hr) fun _ => .pure h
    refine hping.bind fun t ht => .ite (fun _ => ?_) fun _ => .pure (by rwa [expected_false])
    refine (touch_any t cid).bind fun _ hlive => ?_
    have hset := Counted.set (c := { t.conn cid with
      load := m.load, clientCount := m.clientCount.toInt32.toInt }) ht (by rwa [conn_cid])
    rw [conn_cid] at hset
    refine ((habiding _).handleMonitorStats hset cid).bind fun u hu => .pure ?_
    rwa [expected_true]
  | _ => cases hm

/-- The handler of a message does not refuse it. -/
def accepts (s : Scheduler) (cid : ℕ) (m : Msg) : Bool :=
  (s.conn cid).state ≠ .connected && (s.handleActivity cid (some m)).toOption.any Prod.snd

end Scheduler

namespace Loop

open Scheduler

variable {l l' : Loop} {e : Event} {x cid : ℕ} {n : ℤ}

/-- A step other than a message with a count of a connection that is logged in -/
theorem counted_next (h : Counted x n l.scheduler) (hnext : l.next e = some l')
    (hm : ∀ cid m, l.handled e = some (cid, m) → clientCount m ≠ none →
      (l.scheduler.conn cid).state = .connected) : Counted x n l'.scheduler := by
  have habiding := (counted_lasting x n).abiding
  by_cases hqueue : e = .emptyQueue
  · subst hqueue
    obtain ⟨again, hr⟩ := next_emptyQueue hnext
    exact (habiding.emptyQueue h (fun cid hs => Counted.handleEnd hs cid)
      (fun _ hs hsame _ => hs.put (congrArg Prod.fst hsame)) (fun _ hs _ hsame _ => hs.put hsame)
      fun _ _ hs _ => ⟨hs.count, hs.early, hs.unset⟩).of_ok hr
  · refine next_abiding habiding (fun cid hs => Counted.handleEnd hs cid) h hqueue
      (fun cid m hhandled hgauging hstate => ?_) hnext
    have hnote := habiding.note h (.received cid (some m))
    cases m with
    | login m => exact habiding.handleRelogin cid m (Counted.put hnote (by simp only [conn_cid]))
    | getCS m => exact absurd (hm cid _ hhandled nofun) hstate
    | jobBegin m => exact absurd (hm cid _ hhandled nofun) hstate
    | jobDone m => exact absurd (hm cid _ hhandled nofun) hstate
    | stats m => exact absurd (hm cid _ hhandled nofun) hstate
    | _ => cases hgauging

/-- A message with a count -/
theorem counted_activity (h : Counted x n l.scheduler) {m : Msg} {count : UInt32} {rest : Phase}
    (hcurrent : current l.phase = some (cid, rest)) (hm : clientCount m = some count)
    (hnext : l.next (.activity (some m)) = some l') :
    Counted x (expected x cid count n (l.scheduler.accepts cid m)) l'.scheduler := by
  by_cases hstate : (l.scheduler.conn cid).state = .connected
  · have hrefused : l.scheduler.accepts cid m = false := by simp [accepts, hstate]
    rw [hrefused, expected_false]
    refine counted_next h hnext fun cid' m' hhandled _ => ?_
    simp only [handled, hcurrent, Option.map_some, Option.some.injEq, Prod.mk.injEq] at hhandled
    rwa [← hhandled.1]
  · obtain ⟨b, hr⟩ := next_activity hcurrent hnext
    have haccepts : l.scheduler.accepts cid m = b := by
      simp [accepts, hstate, hr, Except.toOption]
    have hnote := (counted_lasting x n).abiding.note h (.received cid (some m))
    have hends : Ends (fun _ => True)
        (fun r => Counted x (expected x cid count n r.2) r.1) (l.scheduler.handleActivity cid (some m)) := by
      unfold handleActivity
      refine (touch_any l.scheduler cid).bind fun _ _ => ?_
      exact .ite (fun hconnected => absurd hconnected hstate) fun _ =>
        Counted.dispatch hnote cid hm
    rw [haccepts]
    exact hends.of_ok hr

end Loop

/-! ## What the daemons have put -/

/-- The loop, and what each connection's daemon has put into the last of its messages with a
count that was accepted -/
structure Reports where
  loop : Loop
  latest : ℕ → UInt32

/-- A message as the daemon puts it, or an event of the loop that brings none but a line -/
inductive Report
  | message (m : Msg) (sendable : m.Sendable)
  | other (e : Event)

/-- The event brings a message of a binary channel. -/
def Event.binary : Event → Bool
  | .activity (some (.text _)) => false
  | .activity (some _) => true
  | _ => false

namespace Reports

variable (k : Compression)

/-- What the decoder makes of the encoded message -/
def received (protocol : ℕ) (m : Msg) : Option Msg :=
  (readMsg k protocol (Window.fresh (m.sendToChannel k protocol) [])).1

/-- The connection that is read from, and what arrives there -/
def arrives (r : Reports) (m : Msg) : Option (ℕ × Option Msg) :=
  (Loop.current r.loop.phase).map fun c =>
    (c.1, received k (r.loop.scheduler.conn c.1).protocol m)

/-- `m` is accepted from the connection that is read from, and tells of its clients. -/
def tells (r : Reports) (m : Msg) : Option (ℕ × UInt32) :=
  (r.arrives k m).bind fun a => a.2.bind fun m' =>
    if r.loop.scheduler.accepts a.1 m' then (clientCount m).map fun count => (a.1, count) else none

def next (r : Reports) : Report → Option Reports
  | .message m _ => (r.arrives k m).bind fun a => (r.loop.next (.activity a.2)).map fun l =>
      ⟨l, ((r.tells k m).map fun c => Function.update r.latest c.1 c.2).getD r.latest⟩
  | .other e => if e.binary then none else (r.loop.next e).map fun l => { r with loop := l }

structure Init (r : Reports) : Prop where
  loop : r.loop.Init
  latest : r.latest = fun _ => 0

def system : Transition.System Reports Report where
  init := Init
  next := next k

/-- Counts come from daemons of version 39 or later. -/
def Modern (r : Reports) : Report → Prop
  | .message m _ => clientCount m ≠ none → ∀ c ∈ Loop.current r.loop.phase,
      39 ≤ (r.loop.scheduler.conn c.1).protocol
  | .other _ => True

/-- and no Stats message that is accepted has been given one. -/
def Counts (r : Reports) (e : Report) : Prop :=
  r.Modern e ∧ match e with
    | .message m _ => ∀ c ∈ r.tells k m, m.type = .stats → c.2 = 0
    | .other _ => True

instance (r : Reports) (e : Report) : Decidable (r.Modern e) := by
  cases e with
  | message m _ => exact inferInstanceAs (Decidable (_ ≠ _ → _))
  | other e => exact .isTrue trivial

instance (r : Reports) (e : Report) : Decidable (r.Counts k e) := by
  cases e with
  | message m _ => exact inferInstanceAs (Decidable (Modern _ (.message m _) ∧ ∀ c ∈ r.tells k m, _))
  | other e => exact .isTrue ⟨trivial, trivial⟩

variable {k : Compression} {r r' : Reports} {m : Msg}

/-- The Stats message is the only one that loses its count on the way. -/
theorem clientCount_normalised {protocol : ℕ} {count : UInt32} (hm : clientCount m = some count)
    (hprotocol : 39 ≤ protocol) : clientCount (m.normalised protocol k) = some count ∨
      clientCount (m.normalised protocol k) = some 0 ∧ ∃ st, m = .stats st := by
  cases m with
  | getCS m =>
    left
    simpa [Msg.normalised, clientCount, GetCSMsg.normalised, hprotocol] using hm
  | jobBegin m =>
    left
    simpa [Msg.normalised, clientCount, JobBeginMsg.normalised, hprotocol] using hm
  | jobDone m =>
    left
    simpa [Msg.normalised, clientCount, JobDoneMsg.normalised, hprotocol] using hm
  | stats m => exact .inr ⟨rfl, m, rfl⟩
  | _ => cases hm

theorem clientCount_uncounted {protocol : ℕ} (hm : clientCount m = none) :
    clientCount (m.normalised protocol k) = none := by
  cases m with
  | getCS m | jobBegin m | jobDone m | stats m => cases hm
  | _ => rfl

/-- What the scheduler takes every connection to have is what was put last. -/
def Current (r : Reports) : Prop :=
  ∀ x, r.loop.scheduler.Counted x (r.latest x).toInt32.toInt

theorem current_step (hk : k.Lawful) (h : Current r) {e : Report} (hok : r.Counts k e)
    (hnext : r.next k e = some r') : Current r' := by
  intro x
  cases e with
  | other e =>
    simp only [next, Option.ite_none_left_eq_some] at hnext
    obtain ⟨hbinary, hmap⟩ := hnext
    obtain ⟨l, hl, rfl⟩ := Option.map_eq_some_iff.mp hmap
    refine Loop.counted_next (h x) hl fun cid m hhandled hcount => ?_
    cases e with
    | activity msg =>
      cases msg with
      | none => cases hhandled
      | some m' =>
        obtain ⟨c, -, hpair⟩ := Option.map_eq_some_iff.mp hhandled
        obtain ⟨-, rfl⟩ := Prod.mk.inj hpair
        cases m' with
        | text t => exact absurd rfl hcount
        | _ => exact absurd rfl hbinary
    | _ => cases hhandled
  | message m hm =>
    obtain ⟨a, ha, hmap⟩ := Option.bind_eq_some_iff.mp hnext
    obtain ⟨l, hl, rfl⟩ := Option.map_eq_some_iff.mp hmap
    obtain ⟨⟨cid, rest⟩, hcurrent, rfl⟩ := Option.map_eq_some_iff.mp ha
    have harrived : received k (r.loop.scheduler.conn cid).protocol m =
        some (m.normalised (r.loop.scheduler.conn cid).protocol k) := by
      rw [received, (readMsg_decodes _ hk hm).alone []]
    rw [harrived] at hl
    have htells : r.tells k m =
        if r.loop.scheduler.accepts cid (m.normalised (r.loop.scheduler.conn cid).protocol k) then
          (clientCount m).map fun count => (cid, count) else none := by
      simp only [tells, arrives, hcurrent, Option.map_some, Option.bind_some, harrived]
    cases hcount : clientCount m with
    | none =>
      rw [hcount, Option.map_none, ite_self] at htells
      simp only [htells, Option.map_none, Option.getD_none]
      refine Loop.counted_next (h x) hl fun cid' m' hhandled hne => ?_
      simp only [Loop.handled, hcurrent, Option.map_some, Option.some.injEq, Prod.mk.injEq] at hhandled
      exact absurd (hhandled.2 ▸ clientCount_uncounted hcount) hne
    | some count =>
      have hnew : 39 ≤ (r.loop.scheduler.conn cid).protocol :=
        hok.1 (by simp [hcount]) (cid, rest) hcurrent
      rw [hcount] at htells
      obtain ⟨count', hcount', hsame⟩ : ∃ count',
          clientCount (m.normalised (r.loop.scheduler.conn cid).protocol k) = some count' ∧
          (r.loop.scheduler.accepts cid (m.normalised (r.loop.scheduler.conn cid).protocol k) = true →
            count' = count) := by
        rcases clientCount_normalised hcount hnew with hkept | ⟨hlost, st, rfl⟩
        · exact ⟨count, hkept, fun _ => rfl⟩
        · refine ⟨0, hlost, fun haccepts => ?_⟩
          exact (hok.2 (cid, count) (by simp [htells, haccepts]) rfl).symm
      have hcounted := Loop.counted_activity (h x) hcurrent hcount' hl
      cases haccepts : r.loop.scheduler.accepts cid
          (m.normalised (r.loop.scheduler.conn cid).protocol k) with
      | false =>
        rw [haccepts, Scheduler.expected_false] at hcounted
        simpa [htells, haccepts] using hcounted
      | true =>
        obtain rfl := hsame haccepts
        rw [haccepts, Scheduler.expected_true] at hcounted
        simp only [htells, haccepts, Option.map_some, Option.getD_some, if_true, Function.update_apply]
        by_cases hx : x = cid
        · rwa [if_pos hx] at hcounted ⊢
        · rwa [if_neg hx] at hcounted ⊢

theorem counts_latest (hk : k.Lawful) (h : (system k).Reaches (Counts k) r) {cid : ℕ}
    (hlive : r.loop.scheduler.live cid = true) :
    (r.loop.scheduler.conn cid).clientCount = (r.latest cid).toInt32.toInt := by
  have hcurrent : Current r := by
    refine h.invariant (fun r hinit x => ?_) fun _ _ _ hr hok hnext => current_step hk hr hok hnext
    have hnone : ¬ r.loop.scheduler.live x = true := by simp [Scheduler.live, hinit.loop.conns]
    exact ⟨fun hx => absurd hx hnone, fun hx => absurd hx hnone, fun _ => by rw [hinit.latest]; rfl⟩
  exact (hcurrent cid).count hlive

/-- A daemon with four slots logs in. -/
def loggedIn : List Report :=
  (Loop.polling 0 ++ [Loop.newcomer 7 1 "n"]).map .other ++
    [.message (Loop.daemonLogin "n") ⟨nofun, by decide, ⟨by decide, by decide⟩, ⟨by decide, by decide⟩⟩]

def request (count : UInt32) : Report :=
  .message (.getCS { lang := 0, clientCount := count })
    ⟨nofun, Nat.two_pow_pos _, Plain.nil, Plain.nil, Plain.nil⟩

def status (count : UInt32) : Report :=
  .message (.stats { loadAvg1 := 0, loadAvg5 := 0, loadAvg10 := 0, freeMem := 0, clientCount := count })
    trivial

def quiet : Reports where
  loop := Loop.started fun _ => 1
  latest _ := 0

theorem quiet_init : quiet.Init := ⟨Loop.started_init _, rfl⟩

theorem counts_latest_stats : ∃ r, (system .stored).Reaches (Counts .stored) r ∧
    r.latest 0 = 2 ∧ (r.loop.scheduler.conn 0).clientCount = 2 := by
  have hrun : ((system .stored).run (Counts .stored) quiet
      (loggedIn ++ [status 0, request 2])).map (fun r =>
        (r.loop.scheduler.live 0, r.latest 0)) = some (true, 2) := by decide +kernel
  obtain ⟨r, hr, hstate⟩ := Option.map_eq_some_iff.mp hrun
  obtain ⟨hlive, hlatest⟩ := Prod.mk.inj hstate
  have hreach := (Transition.System.Reaches.init (S := system .stored) quiet_init).run hr
  refine ⟨r, hreach, hlatest, ?_⟩
  rw [counts_latest Compression.stored_lawful hreach hlive, hlatest]
  decide

/-- A daemon of this version puts 1 into its Stats message, and 0 arrives. -/
theorem count_lost : ∃ r, (system .stored).Reaches Modern r ∧ r.loop.scheduler.live 0 = true ∧
    r.latest 0 = 1 ∧ (r.loop.scheduler.conn 0).clientCount = 0 := by
  have hrun : ((system .stored).run Modern quiet
      (loggedIn ++ [request 2, status 1])).map (fun r =>
        (r.loop.scheduler.live 0, r.latest 0, (r.loop.scheduler.conn 0).clientCount)) =
      some (true, 1, 0) := by decide +kernel
  obtain ⟨r, hr, hstate⟩ := Option.map_eq_some_iff.mp hrun
  obtain ⟨hlive, hlatest, hcount⟩ : _ ∧ _ ∧ _ := by simpa only [Prod.mk.injEq] using hstate
  exact ⟨r, (Transition.System.Reaches.init (S := system .stored) quiet_init).run hr,
    hlive, hlatest, hcount⟩

end Reports

end Icecream.IceccScheduler
