import Icecream.Daemon.Jobs

/-!
# Job ids and connections

What the daemon tells a scheduler to be done is what this scheduler had assigned, on this
connection. A record keeps its job id over the loss of the scheduler, and gets one that no
scheduler gave while there is none.
-/

namespace Icecream.Iceccd

open Icecream.Comm

/-- The job ids assigned on the present connection, by a log with its newest entry first. -/
def assigned : List Obs → List UInt32
  | [] => []
  | .connected :: _ => []
  | .fromScheduler (.useCS m) :: log => m.jobId :: assigned log
  | .fromScheduler (.noCS m) :: log => m.jobId :: assigned log
  | _ :: log => assigned log

/-- Each known job id that a submitter reports had been assigned on the connection. -/
def Honest : List Obs → Prop
  | [] => True
  | .toScheduler (.jobDone m) _ :: log =>
    (Daemon.submitterKnows m → m.jobId ∈ assigned log) ∧ Honest log
  | _ :: log => Honest log

/-- An entry that assigns nothing, and tells the scheduler only of `ids`. -/
def Obs.Within (ids : List UInt32) : Obs → Prop
  | .connected => False
  | .fromScheduler _ => False
  | .toScheduler (.jobDone m) _ => Daemon.submitterKnows m → m.jobId ∈ ids
  | _ => True

section Log

variable {ids : List UInt32} {o : Obs} {l log : List Obs}

theorem assigned_within (h : o.Within ids) : assigned (o :: log) = assigned log := by
  cases o with
  | connected => exact h.elim
  | fromScheduler m => exact h.elim
  | _ => rfl

theorem honest_within (h : o.Within (assigned log)) (hlog : Honest log) : Honest (o :: log) := by
  cases o with
  | connected => exact h.elim
  | fromScheduler m => exact h.elim
  | toScheduler m ok =>
    cases m with
    | jobDone m => exact ⟨h, hlog⟩
    | _ => exact hlog
  | _ => exact hlog

theorem assigned_append (h : ∀ o ∈ l, o.Within ids) : assigned (l ++ log) = assigned log := by
  induction l with
  | nil => rfl
  | cons o l ih =>
    have htail := ih fun x hx => h x (List.mem_cons_of_mem _ hx)
    exact (assigned_within (h o List.mem_cons_self)).trans htail

theorem honest_append (h : ∀ o ∈ l, o.Within (assigned log)) (hlog : Honest log) :
    Honest (l ++ log) := by
  induction l with
  | nil => exact hlog
  | cons o l ih =>
    have hrest : ∀ x ∈ l, x.Within (assigned log) := fun x hx => h x (List.mem_cons_of_mem _ hx)
    have hhead := h o List.mem_cons_self
    rw [← assigned_append hrest] at hhead
    exact honest_within hhead (ih hrest)

theorem assigned_heard {m : Msg} {id : UInt32} (h : id ∈ assigned log) :
    id ∈ assigned (.fromScheduler m :: log) := by
  cases m with
  | useCS m => exact List.mem_cons_of_mem _ h
  | noCS m => exact List.mem_cons_of_mem _ h
  | _ => exact h

theorem honest_heard {m : Msg} (h : Honest log) : Honest (.fromScheduler m :: log) := by
  cases m <;> exact h

end Log

structure Assignments (d : Daemon) : Prop where
  known : d.scheduler.isSome → ∀ c ∈ d.clients.list, c.jobId ≠ 0 → c.jobId ∈ assigned d.log
  honest : Honest d.log

namespace Assignments

variable {d d' : Daemon} {c c₁ : Client} {A : Obs → Prop} {s : EventLoop} {e : Event}

theorem aside_within {o : Obs} (h : o.aside) (ids : List UInt32) : o.Within ids := by
  cases o with
  | connected => simp [Obs.aside] at h
  | fromScheduler m => simp [Obs.aside] at h
  | toScheduler m ok =>
    cases m with
    | jobDone m =>
      intro hm
      have hserver : m.isFromServer := h
      simp [Daemon.submitterKnows, hserver] at hm
    | _ => trivial
  | _ => trivial

theorem frame (hf : Frame A d d') (hA : ∀ o, A o → o.Within (assigned d.log))
    (h : Assignments d) : Assignments d' := by
  obtain ⟨l, hl, hlA⟩ := hf.log
  have hwithin : ∀ o ∈ l, o.Within (assigned d.log) := fun o ho => hA o (hlA o ho)
  constructor
  · intro hs
    rw [hf.clients, hl, assigned_append hwithin]
    exact h.known (hf.scheduler hs)
  · rw [hl]
    exact honest_append hwithin h.honest

/-- A changed record may keep its id, or have one that was assigned or none. -/
theorem put (h : Assignments d) (hid : d.scheduler.isSome → c₁.jobId ≠ 0 → c₁.jobId ∈ assigned d.log) :
    Assignments (d.put c₁) where
  known hs x hx hne := by
    rcases Records.mem_replace.mp hx with ⟨rfl, -⟩ | ⟨hx, -⟩
    · exact hid hs hne
    · exact h.known hs x hx hne
  honest := h.honest

theorem put_same (h : Assignments d) (hc : c ∈ d.clients.list) (hid : c₁.jobId = c.jobId) :
    Assignments (d.put c₁) := by
  apply h.put
  rw [hid]
  exact fun hs => h.known hs c hc

theorem farewell_within (h : Assignments d) (hc : c ∈ d.clients.list) {o : Obs}
    (ho : d.Farewell c o) : o.Within (assigned d.log) := by
  rcases ho with ho | ⟨rfl, -⟩ | ⟨rfl, -⟩ | ⟨hs, m, ok, rfl, hm⟩
  · exact aside_within ho _
  · trivial
  · trivial
  · intro hk
    obtain ⟨hid, hne⟩ := hm hk
    rw [hid]
    exact h.known hs c hc hne

theorem leave_log_within (ids : List UInt32) :
    ∃ l, (d.leave c).log = l ++ d.log ∧ ∀ o ∈ l, o.Within ids := by
  obtain ⟨l, hl, hnew⟩ := Daemon.leave_log (d := d) c
  use l, hl
  intro o ho
  rcases hnew o ho with rfl | rfl <;> trivial

theorem leave_scheduler : (d.leave c).scheduler = d.scheduler := by
  unfold Daemon.leave
  split <;> rfl

theorem leave (h : Assignments d) : Assignments (d.leave c) := by
  obtain ⟨l, hl, hwithin⟩ := leave_log_within (d := d) (c := c) (assigned d.log)
  constructor
  · intro hs x hx
    rw [leave_scheduler] at hs
    rw [Daemon.leave_list] at hx
    rw [hl, assigned_append hwithin]
    exact h.known hs x (Records.mem_remove.mp hx).1
  · rw [hl]
    exact honest_append hwithin h.honest

theorem leave_assigned : assigned (d.leave c).log = assigned d.log := by
  obtain ⟨l, hl, hwithin⟩ := leave_log_within (d := d) (c := c) (assigned d.log)
  rw [hl, assigned_append hwithin]

theorem stable : Stable Assignments where
  aside hf h := h.frame hf fun _ ho => aside_within ho _
  ended {d c} x _ hc h := by
    apply h.leave.frame (Daemon.handleEnd_frame c x)
    intro o ho
    rw [leave_assigned]
    exact h.farewell_within hc ho

end Assignments

/-! ## Runs -/

def Event.connects : Event → Bool
  | .reconnect found => found.isSome
  | _ => false

/-- A JobDone of client `c` is about the job that `c` has. -/
def Client.reportsOwn (c : Client) : Msg → Bool
  | .jobDone m => Daemon.submitterKnows m → m.jobId = c.jobId ∧ m.jobId ≠ 0
  | _ => true

/-- An event that neither takes a job id over to a new connection nor reports one that the
client does not have. -/
structure KeepsAssignments (s : EventLoop) (e : Event) : Prop where
  reconnect : s.daemon.scheduler.isNone → e.connects → ∀ c ∈ s.daemon.clients.list, c.jobId = 0
  message : ∀ p ∈ s.handles e, p.1.status ≠ .toInstall → s.daemon.scheduler.isSome →
    p.1.reportsOwn p.2

instance (s : EventLoop) (e : Event) : Decidable (KeepsAssignments s e) :=
  decidable_of_iff
    ((s.daemon.scheduler.isNone → e.connects → ∀ c ∈ s.daemon.clients.list, c.jobId = 0) ∧
      (∀ p ∈ s.handles e, p.1.status ≠ .toInstall → s.daemon.scheduler.isSome →
        p.1.reportsOwn p.2))
    ⟨fun ⟨h₁, h₂⟩ => ⟨h₁, h₂⟩, fun ⟨h₁, h₂⟩ => ⟨h₁, h₂⟩⟩

namespace Assignments

variable {d : Daemon} {c c₁ : Client} {s : EventLoop} {e : Event}

theorem jobOver (h : Assignments d) (m : JobDoneMsg) :
    Assignments (d.jobOver c m) ∧ assigned (d.jobOver c m).log = assigned d.log := by
  have hrequire : ∀ e : Daemon, Assignments e → assigned e.log = assigned d.log →
      Assignments (e.require .jobDoneId (m.jobId = c.jobId)) ∧
        assigned (e.require .jobDoneId (m.jobId = c.jobId)).log = assigned d.log := by
    intro e he hsame
    unfold Daemon.require
    split
    · exact ⟨he, hsame⟩
    · exact ⟨⟨he.known, he.honest⟩, hsame⟩
  have hrelease : Assignments (d.release (d.weight c)) ∧
      assigned (d.release (d.weight c)).log = assigned d.log := by
    obtain ⟨l, hl, hnew⟩ := Daemon.release_log (d := d) (d.weight c)
    have hwithin : ∀ o ∈ l, o.Within (assigned d.log) := by
      intro o ho
      rw [hnew o ho]
      trivial
    have hsame : assigned (d.release (d.weight c)).log = assigned d.log := by
      rw [hl, assigned_append hwithin]
    constructor
    · constructor
      · rw [hsame]
        exact h.known
      · rw [hl]
        exact honest_append hwithin h.honest
    · exact hsame
  have hgiven : ∀ e : Daemon, Assignments e ∧ assigned e.log = assigned d.log →
      Assignments ((e.require .jobDoneId (m.jobId = c.jobId)).put
        { c with status := .jobDone, fulljob := false, jobId := 0 }) ∧
      assigned (e.require .jobDoneId (m.jobId = c.jobId)).log = assigned d.log := by
    intro e he
    obtain ⟨hreq, hsame⟩ := hrequire e he.1 he.2
    exact ⟨hreq.put fun _ hne => absurd rfl hne, hsame⟩
  unfold Daemon.jobOver
  split
  · exact hgiven _ hrelease
  · exact hgiven _ ⟨h, rfl⟩

theorem survives {m : Msg} (hc : c ∈ d.clients.list)
    (hm : c.status ≠ .toInstall → d.scheduler.isSome → c.reportsOwn m) :
    Survives Assignments d c m where
  transfer _ hsame hR h := by
    rw [← hsame] at hc
    exact h.put_same hc hR.jobId
  create _ _ hsame hR h := by
    rw [← hsame] at hc
    exact h.put_same hc hR.jobId
  environment _ _ h := by
    unfold Daemon.require
    split
    · exact h
    · exact ⟨h.known, h.honest⟩
  compile _ hsame hR h := by
    rw [← hsame] at hc
    rcases hR with ⟨-, rfl⟩ | ⟨-, rfl⟩
    · exact h.put_same hc rfl
    · exact h.put_same hc rfl
  ask _ _ hsame _ hR h := by
    rw [← hsame] at hc
    obtain ⟨-, -, -, -, hcase⟩ := hR
    rcases hcase with ⟨-, -, hjob⟩ | ⟨hnone, -⟩
    · exact h.put_same hc hjob
    · apply h.put
      intro hs
      rw [Option.isNone_iff_eq_none.mp hnone] at hs
      simp at hs
  link _ _ hsame h := by
    rw [← hsame] at hc
    exact h.put_same hc rfl
  done {e r} hm' hopen hsame hsched h := by
    rw [← hsame] at hc
    obtain ⟨hover, hassigned⟩ := h.jobOver (c := c) r
    apply hover.frame (Daemon.handleJobDone_frame r)
    rintro o (ho | ⟨hs, n, ok, rfl⟩)
    · exact aside_within ho _
    · intro hk
      subst hm'
      obtain ⟨hid, hne⟩ := of_decide_eq_true (hm hopen (hsched ▸ hs)) hk
      rw [hassigned]
      change r.jobId ∈ assigned e.log
      rw [hid] at hne ⊢
      exact h.known hs c hc hne

theorem working (h : Assignments d) (hc : c ∈ d.clients.list) (n : UInt32) :
    Assignments (d.working c n) := by
  have hput : Assignments (d.put { c with status := .clientWork }) := h.put_same hc rfl
  exact ⟨hput.known, hput.honest⟩

theorem steps (hk : KeepsAssignments s e) : Steps Assignments s e where
  stable := stable
  stray _ hf h := h.frame hf fun o ho => by simp [ho, Obs.Within]
  reconnect {found} he h := by
    rcases Daemon.reconnect_cases (d := s.daemon) found with heq | ⟨hnone, protocol, name, hf, haside⟩
    · rwa [heq]
    · apply stable.aside haside
      constructor
      · intro _ c hc hne
        subst hf he
        exact absurd (hk.reconnect (by simp [hnone]) rfl c hc) hne
      · exact h.honest
  link _ hstart h := h.working hstart.mem.1 _
  pending _ hstart h := h.working hstart.mem.1 _
  compile _ hstart h := h.put_same hstart.mem.1 rfl
  message hm hc _ := survives hc (hk.message _ hm)
  heard _ h := ⟨fun hs c hc hne => assigned_heard (h.known hs c hc hne), honest_heard h.honest⟩
  assign {c c₁ jobId m} _ hc hans hR h := by
    obtain ⟨-, -, -, -, hcase⟩ := hR
    rcases hcase with ⟨hjob, -⟩ | ⟨hjob, -⟩
    · apply h.put
      intro _ _
      rw [hjob]
      cases hans with
      | useCS _ hid => exact hid ▸ List.mem_cons_self
      | noCS _ hid => exact hid ▸ List.mem_cons_self
    · exact h.put_same hc hjob
  returned {d' jobId m} hm hf h := by
    apply h.frame hf
    rintro _ ⟨ok, rfl⟩ _
    cases hm with
    | useCS hid => exact hid ▸ List.mem_cons_self
    | noCS hid => exact hid ▸ List.mem_cons_self
  fresh hl h := ⟨fun _ => by simp [hl], h.honest⟩
  accept place fd protocol _ _ hplace h := by
    constructor
    · intro hs x hx
      have hperm := List.perm_insertIdx
        ({ clientId := s.daemon.newClientId + 1, fd := fd, protocol := protocol } : Client)
        s.daemon.clients.list hplace
      rcases List.mem_cons.mp (hperm.mem_iff.mp hx) with rfl | hx
      · exact fun hne => absurd rfl hne
      · exact h.known hs x hx
    · exact h.honest
  compiled hc _ h := h.put_same hc rfl
  installed hc _ hR h := h.put_same hc hR.jobId
  created _ _ _ _ hc _ hR h := h.put_same hc hR.jobId

theorem init (h : s.Init) : Assignments s.daemon where
  known := by simp [h.scheduler]
  honest := by
    rw [h.log]
    trivial

/-- In a run that takes no job id over to a new connection, and whose clients report their
own ids, the daemon reports only what was assigned on the connection. -/
theorem log_honest (h : EventLoop.system.Reaches KeepsAssignments s) : Honest s.daemon.log := by
  have hinv : Valid s.daemon ∧ Assignments s.daemon := by
    apply h.invariant
    · intro s hs
      exact ⟨EventLoop.valid_init hs, init hs⟩
    · intro s e t hinv hk hn
      have hstep := EventLoop.next_step hn
      exact ⟨EventLoop.valid_step hinv.1 hn, (steps hk).step hinv.1 hstep hinv.2⟩
  exact hinv.2.honest

theorem log_honest_useCS : ∃ s, EventLoop.system.Reaches KeepsAssignments s ∧
    .toScheduler (.jobDone (jobDoneMsg 9 118 JobDoneMsg.fromSubmitter 0)) true ∈ s.daemon.log ∧
    Honest s.daemon.log := by
  have hrun : (EventLoop.system.run KeepsAssignments (EventLoop.started (fun _ => 1) 4)
      ([.reconnect (some (45, str "h"))] ++ EventLoop.polling 0 ++ [.schedulerMsg (some .ping)] ++
        EventLoop.accepting 7 [.getCS { lang := 0 }] ++ EventLoop.again ++ EventLoop.polling 1 ++
        [.schedulerMsg (some (.useCS ⟨9, str "r", 10245, str "x", 1, 1, 0⟩)), .schedulerRead,
          .clientMsg none none])).map
      (fun s => decide (.toScheduler (.jobDone (jobDoneMsg 9 118 JobDoneMsg.fromSubmitter 0)) true ∈
        s.daemon.log)) = some true := by decide +kernel
  obtain ⟨s, hs, htold⟩ := Option.map_eq_some_iff.mp hrun
  have hreach := (Transition.System.Reaches.init (EventLoop.started_init _ 4)).run hs
  exact ⟨s, hreach, of_decide_eq_true htold, log_honest hreach⟩

/-- A client asks for a server while there is no scheduler and leaves when there is one:
the scheduler hears that the job with the client's number is done. -/
theorem log_dishonest : ∃ s, EventLoop.system.Reachable s ∧ ¬ Honest s.daemon.log := by
  have hrun : (EventLoop.system.exec (EventLoop.started (fun _ => 1) 4)
      ([.reconnect none] ++ EventLoop.polling 0 ++ EventLoop.accepting 7 [.getCS { lang := 0 }] ++
        [.clientRead, .passDone, .reconnect (some (45, str "h")), .oldRequest] ++
        EventLoop.polling 1 ++ [.schedulerRead, .clientMsg none none])).map
      (fun s => (s.daemon.log.head?, assigned s.daemon.log.tail)) =
      some (some (.toScheduler (.jobDone (jobDoneMsg 1 118 JobDoneMsg.fromSubmitter 0)) true), []) := by
    decide +kernel
  obtain ⟨s, hs, hlast⟩ := Option.map_eq_some_iff.mp hrun
  obtain ⟨hhead, hnone⟩ := Prod.mk.inj hlast
  use s
  constructor
  · exact (Transition.System.Reaches.init (EventLoop.started_init _ 4)).exec
      (fun _ _ _ => trivial) hs
  · intro h
    cases hlog : s.daemon.log with
    | nil => simp [hlog] at hhead
    | cons o log =>
      rw [hlog] at h hhead hnone
      obtain rfl : o = _ := Option.some.inj hhead
      have hmem := h.1 (by decide)
      change 1 ∈ assigned log at hmem
      rw [List.tail_cons] at hnone
      rw [hnone] at hmem
      simp at hmem

end Assignments

end Icecream.Iceccd
