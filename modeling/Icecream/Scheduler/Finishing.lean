import Icecream.Scheduler.Blacklist

/-!
# Messages about running jobs

When `handle_job_begin`, `handle_job_done`, `add_job_stats` and `handle_stats` go through
the null pointer of a job that has no server. A job has none while it is queued, and
nothing keeps its submitter, or any daemon, from naming it in a `JobDone`.
-/

namespace Icecream.IceccScheduler

open Icecream.Comm
open Icecream.Fault

/-- No null pointer is used. -/
abbrev Clear {α : Type} (x : Except Fault α) : Prop := Ends (· ≠ .nullPointer) (fun _ => True) x

namespace Scheduler

variable {s : Scheduler} {cid : ℕ}

/-! ## What uses no server -/

theorem touch_clear (s : Scheduler) (cid : ℕ) : Clear (s.touch cid) := by
  unfold touch
  exact .ite (fun _ => .pure trivial) fun _ => .throw nofun

theorem touchJob_clear (s : Scheduler) (ptr : ℕ) : Clear (s.touchJob ptr) := by
  unfold touchJob
  exact .ite (fun _ => .pure trivial) fun _ => .throw nofun

/-- An operation that uses one connection and nothing else -/
theorem touched_clear {α : Type} (s : Scheduler) (cid : ℕ) (a : α) :
    Clear (do s.touch cid; return a) := (touch_clear s cid).bind fun _ _ => .pure trivial

theorem loop_clear {α β : Type} {f : α → β → Except Fault α} (h : ∀ a b, Clear (f a b))
    (l : List β) (a : α) : Clear (l.foldlM f a) :=
  Ends.foldlM (fun _ _ => True) trivial fun b _ a _ => h a b

theorem send_clear (s : Scheduler) (cid : ℕ) (m : Msg) : Clear (s.send cid m) :=
  touched_clear s cid _

theorem endMonitor_clear (s : Scheduler) (cid : ℕ) : Clear (s.endMonitor cid) :=
  touched_clear s cid _

theorem notifyMonitors_clear (s : Scheduler) (m : Msg) : Clear (s.notifyMonitors m) := by
  refine loop_clear (fun t x => ?_) _ s
  refine (send_clear t x m).bind fun r _ => ?_
  exact .ite (fun _ => .pure trivial) fun _ => endMonitor_clear r.1 x

theorem handleMonitorStats_clear (s : Scheduler) (cid : ℕ) : Clear (s.handleMonitorStats cid) := by
  unfold handleMonitorStats
  refine .ite (fun _ => .pure trivial) fun _ => ?_
  exact (touch_clear s cid).bind fun _ _ => notifyMonitors_clear _ _

theorem freeJob_clear (s : Scheduler) (ptr : ℕ) : Clear (s.freeJob ptr) :=
  touched_clear s _ _

theorem dropQueued_clear (s : Scheduler) (ptr : ℕ) : Clear (s.dropQueued ptr) := by
  unfold dropQueued
  refine (touchJob_clear s ptr).bind fun _ _ => ?_
  refine (notifyMonitors_clear s _).bind fun t _ => ?_
  cases (s.job ptr).server with
  | none => exact freeJob_clear _ ptr
  | some server => exact (touched_clear t server _).bind fun u _ => freeJob_clear _ ptr

theorem leaveServer_clear (s : Scheduler) (cid : ℕ) (j : Job) : Clear (s.leaveServer cid j) := by
  unfold leaveServer
  cases j.server with
  | none => exact .pure trivial
  | some server =>
    have hremove : Clear (if server ≠ cid then s.removeJob server j.ptr else pure s) :=
      .ite (fun _ => touched_clear s server _) fun _ => .pure trivial
    exact hremove.bind fun t _ => touched_clear t server _

theorem dropAssigned_clear (cid : ℕ) (s : Scheduler) (e : UInt32 × ℕ) :
    Clear (dropAssigned cid s e) := by
  unfold dropAssigned
  refine (touchJob_clear s e.2).bind fun _ _ => ?_
  refine .ite (fun _ => ?_) fun _ => .pure trivial
  refine (notifyMonitors_clear s _).bind fun t _ => ?_
  exact (leaveServer_clear t cid _).bind fun u _ => freeJob_clear _ e.2

theorem endDaemon_clear (s : Scheduler) (cid : ℕ) : Clear (s.endDaemon cid) := by
  unfold endDaemon
  refine (notifyMonitors_clear s _).bind fun t _ => ?_
  refine Ends.bind (P := fun _ => True) ?_ fun u _ => ?_
  · exact (loop_clear dropQueued_clear _ _).bind fun _ _ => .pure trivial
  · refine (loop_clear (dropAssigned_clear cid) u.jobs u).bind fun v _ => ?_
    exact loop_clear (fun w other => touched_clear w other _) v.css v

theorem handleEnd_clear (s : Scheduler) (cid : ℕ) : Clear (s.handleEnd cid) := by
  unfold handleEnd
  refine (touch_clear s cid).bind fun _ _ => ?_
  cases (s.conn cid).type with
  | monitor => exact endMonitor_clear s cid
  | daemon => exact (endDaemon_clear s cid).bind fun _ _ => .pure trivial
  | line => exact (send_clear s cid _).bind fun _ _ => .pure trivial
  | unknown => exact .pure trivial

/-- The daemon is kicked. -/
theorem kick_clear (s : Scheduler) (cid : ℕ) :
    Clear (do return (← s.handleEnd cid, false)) :=
  (handleEnd_clear s cid).bind fun _ _ => .pure trivial

theorem handleJobBegin_clear (s : Scheduler) (cid : ℕ) (m : JobBeginMsg) :
    Clear (s.handleJobBegin cid m) := by
  unfold handleJobBegin
  cases s.findJob m.jobId with
  | none => exact .pure trivial
  | some ptr =>
    refine (touchJob_clear s ptr).bind fun _ _ => ?_
    refine .ite (fun _ => .pure trivial) fun _ => ?_
    refine (touched_clear s cid _).bind fun t _ => ?_
    refine (notifyMonitors_clear _ _).bind fun u _ => ?_
    exact (touch_clear u _).bind fun _ _ => touched_clear u cid _

theorem handleStats_clear (s : Scheduler) (cid : ℕ) (m : StatsMsg) :
    Clear (s.handleStats cid m) := by
  unfold handleStats
  have hping : Clear (if (s.conn cid).protocol < 25 then Prod.fst <$> s.handlePing cid else
      pure s) :=
    .ite (fun _ => (touched_clear s cid _).map fun _ _ => trivial) fun _ => .pure trivial
  refine hping.bind fun t _ => ?_
  refine .ite (fun _ => ?_) fun _ => .pure trivial
  refine (touch_clear t cid).bind fun _ _ => ?_
  exact (handleMonitorStats_clear _ cid).bind fun _ _ => .pure trivial

/-! ## The end of a job -/

/-- The message can be about this entry of `jobs`. -/
def Means (s : Scheduler) (cid : ℕ) (m : JobDoneMsg) (e : UInt32 × ℕ) : Prop :=
  if m.unknownJobClientId ≠ 0 then (s.job e.2).server = none ∧ (s.job e.2).submitter = cid ∧
    (s.job e.2).localClientId = m.unknownJobClientId
  else e.1 = m.jobId

/-- The job is not running anywhere, and yet the message is one of its server, or one of
its submitter that it has ended well. -/
def Unserved (s : Scheduler) (cid : ℕ) : Msg → Prop
  | .jobDone m => ∃ e ∈ s.jobs, s.Means cid m e ∧ (s.job e.2).server = none ∧
    (m.isFromServer ∨ ((s.job e.2).submitter = cid ∧ m.exitcode = 0))
  | _ => False

instance (s : Scheduler) (cid : ℕ) (m : JobDoneMsg) (e : UInt32 × ℕ) :
    Decidable (s.Means cid m e) := by
  unfold Means
  infer_instance

instance (s : Scheduler) (cid : ℕ) (m : Msg) : Decidable (s.Unserved cid m) :=
  decidable_of_bool
    (match m with
      | .jobDone m => decide (∃ e ∈ s.jobs, s.Means cid m e ∧ (s.job e.2).server = none ∧
          (m.isFromServer ∨ ((s.job e.2).submitter = cid ∧ m.exitcode = 0)))
      | _ => false)
    (by cases m <;> simp [Unserved])

theorem addJobStats_clear {j : Job} {m : JobDoneMsg} (h : j.server ≠ none ∨ m.exitcode ≠ 0)
    (s : Scheduler) : Clear (s.addJobStats j m) := by
  unfold addJobStats
  refine .ite (fun _ => .pure trivial) fun hcounts => ?_
  push Not at hcounts
  cases hserver : j.server with
  | none => exact absurd hcounts.2 (h.resolve_left fun hsome => hsome hserver)
  | some server =>
    refine (touched_clear s server _).bind fun t _ => ?_
    exact (touched_clear t j.submitter _).bind fun _ _ => .pure trivial

theorem touchServer_clear {j : Job} (h : j.server ≠ none) (s : Scheduler) :
    Clear (s.touchServer j) := by
  unfold touchServer
  cases hserver : j.server with
  | none => exact absurd hserver h
  | some server => exact touch_clear s server

theorem setClientCount_job (s : Scheduler) (cid : ℕ) (count : UInt32) :
    Ends (· ≠ .nullPointer) (fun t => ∀ ptr, t.job ptr = s.job ptr) (s.setClientCount cid count) :=
  (touch_clear s cid).bind fun _ _ => .pure fun _ => rfl

theorem finishJob_clear {ptr : ℕ} {m : JobDoneMsg}
    (h : (s.job ptr).server ≠ none ∨ m.exitcode ≠ 0) : Clear (s.finishJob cid ptr m) := by
  unfold finishJob
  refine (setClientCount_job s cid m.clientCount).bind fun t ht => ?_
  rw [ht ptr]
  refine Ends.bind (P := fun _ => True) ?_ fun _ _ => ?_
  · refine .ite (fun hexit => touchServer_clear ?_ t) fun _ => .pure trivial
    exact h.resolve_right fun hne => hne hexit
  · refine Ends.bind (P := fun _ => True) ?_ fun u _ => ?_
    · cases (s.job ptr).server with
      | none => exact .pure trivial
      | some server => exact touched_clear t server _
    · refine (addJobStats_clear h u).bind fun v _ => ?_
      exact (notifyMonitors_clear v _).bind fun w _ => freeJob_clear _ ptr

/-! ## The job that is meant -/

/-- The jobs that client `clientId` of `cid` waits for a server for -/
def awaited (s : Scheduler) (cid : ℕ) (clientId : UInt32) (jobs : List (UInt32 × ℕ)) : List ℕ :=
  (jobs.map Prod.snd).filter fun ptr => (s.job ptr).server = none ∧
    (s.job ptr).submitter = cid ∧ (s.job ptr).localClientId = clientId

/-- The loop over `jobs` takes all of them out of the queue and finds the last one. -/
theorem cancelQueued_loop (s : Scheduler) (cid : ℕ) (clientId : UInt32)
    {l : List (UInt32 × ℕ)} (hlive : ∀ e ∈ l, s.liveJob e.2 = true) (q : List JobRequestsGroup)
    (found : Option ℕ) :
    l.foldlM (cancelQueued cid clientId) ({ s with jobRequests := q }, found) =
      .ok ({ s with jobRequests := (s.awaited cid clientId l).foldl (fun q ptr =>
        dequeue cid ptr q) q }, (s.awaited cid clientId l).getLast?.or found) := by
  induction l generalizing q found with
  | nil => rfl
  | cons e l ih =>
    have hrest := ih fun x hx => hlive x (List.mem_cons_of_mem _ hx)
    have hhead : s.liveJob e.2 = true := hlive e List.mem_cons_self
    have htouch : ({ s with jobRequests := q } : Scheduler).touchJob e.2 = .ok () :=
      if_pos hhead
    rw [List.foldlM_cons]
    by_cases hmine : (s.job e.2).server = none ∧ (s.job e.2).submitter = cid ∧
        (s.job e.2).localClientId = clientId
    · have hturn : cancelQueued cid clientId ({ s with jobRequests := q }, found) e =
          .ok ({ s with jobRequests := dequeue cid e.2 q }, some e.2) := by
        unfold cancelQueued
        rw [htouch]
        exact if_pos hmine
      have hlist : s.awaited cid clientId (e :: l) = e.2 :: s.awaited cid clientId l := by
        simp [awaited, hmine]
      rw [hturn, hlist]
      refine (hrest (dequeue cid e.2 q) (some e.2)).trans ?_
      rw [List.foldl_cons, List.getLast?_cons]
      cases (s.awaited cid clientId l).getLast? <;> rfl
    · have hturn : cancelQueued cid clientId ({ s with jobRequests := q }, found) e =
          .ok ({ s with jobRequests := q }, found) := by
        unfold cancelQueued
        rw [htouch]
        exact if_neg hmine
      have hlist : s.awaited cid clientId (e :: l) = s.awaited cid clientId l := by
        simp only [awaited, List.map_cons, List.filter_cons, hmine, decide_false,
          Bool.false_eq_true, if_false]
      rw [hturn, hlist]
      exact hrest q found

/-- `j` of `handle_job_done` -/
def subject (s : Scheduler) (cid : ℕ) (m : JobDoneMsg) : Option ℕ :=
  if m.unknownJobClientId ≠ 0 then (s.awaited cid m.unknownJobClientId s.jobs).getLast?
  else s.findJob m.jobId

theorem jobOfDone_eq (m : JobDoneMsg) (hlive : ∀ e ∈ s.jobs, s.liveJob e.2 = true) :
    ∃ q m', s.jobOfDone cid m = .ok (({ s with jobRequests := q }, s.subject cid m), m') ∧
      m'.exitcode = m.exitcode ∧ m'.isFromServer = m.isFromServer := by
  unfold jobOfDone subject
  by_cases hunknown : m.unknownJobClientId ≠ 0
  · have hloop := cancelQueued_loop s cid m.unknownJobClientId hlive s.jobRequests none
    rw [Option.or_none] at hloop
    rw [if_pos hunknown, if_pos hunknown]
    change ∃ q m', (s.jobs.foldlM _ (s, none) >>= _) = _ ∧ _
    rw [hloop]
    cases hlast : (s.awaited cid m.unknownJobClientId s.jobs).getLast? with
    | none => exact ⟨_, m, rfl, rfl, rfl⟩
    | some ptr =>
      refine ⟨_, m.setJobId (s.job ptr).id, rfl, rfl, ?_⟩
      have hflag : ~~~JobDoneMsg.flagUnknownJobId &&& JobDoneMsg.fromSubmitter =
          JobDoneMsg.fromSubmitter := by decide
      simp only [JobDoneMsg.isFromServer, JobDoneMsg.setJobId, UInt32.and_assoc, hflag]
  · rw [if_neg hunknown, if_neg hunknown]
    exact ⟨s.jobRequests, m, rfl, rfl, rfl⟩

theorem mem_awaited {clientId : UInt32} {ptr : ℕ} :
    ptr ∈ s.awaited cid clientId s.jobs ↔ (∃ e ∈ s.jobs, e.2 = ptr) ∧ (s.job ptr).server = none ∧
      (s.job ptr).submitter = cid ∧ (s.job ptr).localClientId = clientId := by
  simp [awaited]

theorem subject_mem {m : JobDoneMsg} {ptr : ℕ} (h : s.subject cid m = some ptr) :
    ∃ e ∈ s.jobs, s.Means cid m e ∧ e.2 = ptr := by
  unfold subject at h
  unfold Means
  split at h
  · rename_i hunknown
    obtain ⟨⟨e, he, rfl⟩, hmatch⟩ := mem_awaited.mp (List.mem_of_getLast? h)
    exact ⟨e, he, by rwa [if_pos hunknown], rfl⟩
  · rename_i hknown
    exact ⟨_, findJob_mem h, by rw [if_neg hknown], rfl⟩

/-- Whatever job is found, it is as good as the others that the message can be about. -/
theorem unserved_iff {m : JobDoneMsg} (hkeys : (s.jobs.map Prod.fst).Nodup) :
    s.Unserved cid (.jobDone m) ↔ ∃ ptr ∈ s.subject cid m, (s.job ptr).server = none ∧
      (m.isFromServer ∨ ((s.job ptr).submitter = cid ∧ m.exitcode = 0)) := by
  constructor
  · rintro ⟨e, he, hmeans, hserver, hmessage⟩
    unfold Means at hmeans
    unfold subject
    split at hmeans
    · rename_i hunknown
      rw [if_pos hunknown]
      have hmem := mem_awaited.mpr ⟨⟨e, he, rfl⟩, hmeans⟩
      have hsome : (s.awaited cid m.unknownJobClientId s.jobs).getLast?.isSome = true := by
        rw [List.getLast?_isSome]
        exact List.ne_nil_of_mem hmem
      obtain ⟨ptr, hptr⟩ := Option.isSome_iff_exists.mp hsome
      obtain ⟨-, hnone, hsubmitter, -⟩ := mem_awaited.mp (List.mem_of_getLast? hptr)
      exact ⟨ptr, hptr, hnone, hmessage.imp_right fun hgood => ⟨hsubmitter, hgood.2⟩⟩
    · rename_i hknown
      rw [if_neg hknown]
      refine ⟨e.2, ?_, hserver, hmessage⟩
      have hfind : (s.jobs.find? fun x => x.1 = m.jobId).isSome = true := by
        rw [List.find?_isSome]
        exact ⟨e, he, by simpa using hmeans⟩
      obtain ⟨x, hx⟩ := Option.isSome_iff_exists.mp hfind
      have hid : x.1 = m.jobId := by simpa using List.find?_some hx
      have hsame := List.inj_on_of_nodup_map hkeys (List.mem_of_find?_eq_some hx) he
        (hid.trans hmeans.symm)
      rw [findJob, hx, hsame]
      rfl
  · rintro ⟨ptr, hptr, hrest⟩
    obtain ⟨e, he, hmeans, rfl⟩ := subject_mem hptr
    exact ⟨e, he, hmeans, hrest⟩

theorem handleJobDone_clear {m : JobDoneMsg} (hlive : ∀ e ∈ s.jobs, s.liveJob e.2 = true)
    (h : ∀ ptr ∈ s.subject cid m, (s.job ptr).server = none →
      m.isFromServer = false ∧ ((s.job ptr).submitter = cid → m.exitcode ≠ 0)) :
    Clear (s.handleJobDone cid m) := by
  obtain ⟨q, m', hdone, hexit, hfrom⟩ := @jobOfDone_eq _ cid m hlive
  unfold handleJobDone
  rw [hdone]
  cases hsubject : s.subject cid m with
  | none => exact .pure trivial
  | some ptr =>
    have hptr := h ptr hsubject
    rw [← hexit, ← hfrom] at hptr
    set t : Scheduler := { s with jobRequests := q }
    change ∀ _, _ at hptr
    have hjob : t.job ptr = s.job ptr := rfl
    rw [← hjob] at hptr
    refine (touchJob_clear t ptr).bind fun _ _ => ?_
    refine .ite (fun hserver => ?_) fun hserver => ?_
    · refine (touchServer_clear (fun hnone => ?_) t).bind fun _ _ => kick_clear t cid
      exact absurd hserver.1 (by simp [(hptr hnone).1])
    · refine .ite (fun _ => (touch_clear t _).bind fun _ _ => kick_clear t cid) fun hmine => ?_
      refine (finishJob_clear ?_).bind fun _ _ => .pure trivial
      by_contra hcon
      push Not at hcon hserver hmine
      obtain ⟨hfalse, hwell⟩ := hptr hcon.1
      exact hwell (hmine (by simp [hfalse])) hcon.2

theorem touchServer_null {j : Job} (h : j.server = none) (s : Scheduler) :
    s.touchServer j = .error .nullPointer := by
  unfold touchServer
  rw [h]
  rfl

theorem finishJob_null {ptr : ℕ} {m : JobDoneMsg} (hcid : s.live cid = true)
    (hserver : (s.job ptr).server = none) (hexit : m.exitcode = 0) :
    s.finishJob cid ptr m = .error .nullPointer := by
  have hcount : s.setClientCount cid m.clientCount = .ok (s.put
      { s.conn cid with clientCount := m.clientCount.toInt32.toInt }) := by
    unfold setClientCount touch
    rw [if_pos hcid]
    rfl
  unfold finishJob
  rw [hcount]
  change ((if m.exitcode = 0 then Scheduler.touchServer _ (s.job ptr) else _) >>= _) = _
  rw [if_pos hexit, touchServer_null hserver]
  rfl

theorem handleJobDone_null {m : JobDoneMsg} {ptr : ℕ} (hcid : s.live cid = true)
    (hlive : ∀ e ∈ s.jobs, s.liveJob e.2 = true) (hptr : s.subject cid m = some ptr)
    (hserver : (s.job ptr).server = none)
    (hmessage : m.isFromServer ∨ ((s.job ptr).submitter = cid ∧ m.exitcode = 0)) :
    s.handleJobDone cid m = .error .nullPointer := by
  obtain ⟨q, m', hdone, hexit, hfrom⟩ := @jobOfDone_eq _ cid m hlive
  obtain ⟨e, he, -, rfl⟩ := subject_mem hptr
  rw [← hfrom, ← hexit] at hmessage
  have hhead : s.liveJob e.2 = true := hlive e he
  unfold handleJobDone
  rw [hdone, hptr]
  generalize ht : ({ s with jobRequests := q } : Scheduler) = t
  have htouch : t.touchJob e.2 = .ok () := by
    subst ht
    exact if_pos hhead
  have htcid : t.live cid = true := by
    subst ht
    exact hcid
  have htserver : (t.job e.2).server = none := by
    subst ht
    exact hserver
  have htmessage : m'.isFromServer = true ∨ ((t.job e.2).submitter = cid ∧ m'.exitcode = 0) := by
    subst ht
    exact hmessage
  simp only [bind, Except.bind, htouch]
  by_cases hside : m'.isFromServer = true
  · have hforeign : m'.isFromServer = true ∧ (t.job e.2).server ≠ some cid :=
      ⟨hside, by simp [htserver]⟩
    rw [if_pos hforeign, touchServer_null htserver]
  · obtain ⟨hsubmitter, hwell⟩ := htmessage.resolve_left hside
    have hnotforeign : ¬ (m'.isFromServer = true ∧ (t.job e.2).server ≠ some cid) :=
      fun hcon => hside hcon.1
    have hmine : ¬ (¬ m'.isFromServer = true ∧ (t.job e.2).submitter ≠ cid) :=
      fun hcon => hcon.2 hsubmitter
    rw [if_neg hnotforeign, if_neg hmine, finishJob_null htcid htserver hwell]

/-! ## Reachable states -/

/-- A report on a job or on a daemon -/
def reports : Msg → Bool
  | .jobDone _ | .jobBegin _ | .stats _ => true
  | _ => false

end Scheduler

namespace Loop

open Scheduler

variable {l : Loop} {cid : ℕ} {m : Msg}

/-- Whatever a connection that is logged in reports, the scheduler survives unless the
report is that a job without a server has run. -/
theorem report_survives_iff (h : system.Reachable l) (hlive : l.scheduler.live cid = true)
    (hstate : (l.scheduler.conn cid).state = .loggedIn) (hreports : reports m = true) :
    l.scheduler.handleActivity cid (some m) ≠ .error .nullPointer ↔
      ¬ l.scheduler.Unserved cid m := by
  have hfacts := (reachable_between h).facts
  have hjobs : ∀ e ∈ l.scheduler.jobs, l.scheduler.liveJob e.2 = true := by
    intro e he
    obtain ⟨j, hj, hptr, -⟩ := hfacts.tasks.jobs e he
    exact liveJob_iff.mpr (List.mem_map.mpr ⟨j, hj, hptr⟩)
  generalize hs : l.scheduler = s at *
  have hdispatch : s.handleActivity cid (some m) = (s.note (.received cid (some m))).dispatch cid m := by
    have hnot : ¬ ((s.note (.received cid (some m))).conn cid).state = .connected := by
      change ¬ (s.conn cid).state = .connected
      simp [hstate]
    unfold handleActivity touch
    simp only [bind, Except.bind, if_pos hlive, pure, Except.pure, if_neg hnot]
  have hsurvives : ∀ {α : Type} {x : Except Fault α}, Clear x → x ≠ .error .nullPointer :=
    fun hx herror => hx.of_error herror rfl
  rw [hdispatch]
  cases m with
  | jobBegin m => exact iff_of_true (hsurvives (handleJobBegin_clear _ cid m)) id
  | stats m => exact iff_of_true (hsurvives (handleStats_clear _ cid m)) id
  | jobDone m =>
    change Scheduler.handleJobDone _ cid m ≠ _ ↔ _
    rw [unserved_iff hfacts.tasks.keys]
    constructor
    · rintro hsurvives ⟨ptr, hptr, hserver, hmessage⟩
      exact hsurvives (handleJobDone_null hlive hjobs hptr hserver hmessage)
    · intro hno
      refine hsurvives (handleJobDone_clear hjobs fun ptr hptr hserver => ?_)
      by_contra hcon
      refine hno ⟨ptr, hptr, hserver, ?_⟩
      change ¬ (m.isFromServer = false ∧ ((s.job ptr).submitter = cid → m.exitcode ≠ 0)) at hcon
      cases hfrom : m.isFromServer with
      | true => exact .inl rfl
      | false =>
        right
        by_contra hill
        exact hcon ⟨hfrom, fun hmine hexit => hill ⟨hmine, hexit⟩⟩
  | _ => simp [reports] at hreports

def faultOf {α : Type} : Except Fault α → Option Fault
  | .ok _ => none
  | .error f => some f

theorem faultOf_eq {α : Type} {x : Except Fault α} {f : Fault} :
    faultOf x = some f ↔ x = .error f := by
  cases x <;> simp [faultOf]

/-- A daemon's login and its request, which is queued -/
def requesting : List Event :=
  polling 0 ++ [newcomer 7 1 "n", .activity (some (daemonLogin "n")),
    .activity (some (.getCS { lang := 0 }))]

theorem report_survives_iff_failed : ∃ l, system.Reachable l ∧
    (l.scheduler.handleActivity 0 (some (.jobDone { jobId := 1, flags := 1, exitcode := 1 })) ≠
      .error .nullPointer ↔
      ¬ l.scheduler.Unserved 0 (.jobDone { jobId := 1, flags := 1, exitcode := 1 })) := by
  have hrun : (system.exec (started fun _ => 1) requesting).map (fun l =>
      (l.scheduler.live 0, (l.scheduler.conn 0).state)) = some (true, .loggedIn) := by
    decide +kernel
  obtain ⟨l, hl, hstate⟩ := Option.map_eq_some_iff.mp hrun
  rw [Prod.mk.injEq] at hstate
  have hreach := (Transition.System.Reaches.init (started_init _)).exec (fun _ _ _ => trivial) hl
  exact ⟨l, hreach, report_survives_iff hreach hstate.1 hstate.2 rfl⟩

/-- The request of a daemon is still queued when the daemon reports its job as done, as
its submitter or as its server. -/
theorem report_crashes : ∃ l, system.Reachable l ∧ l.scheduler.css = [0] ∧
    (l.scheduler.conn 0).state = .loggedIn ∧
    l.scheduler.handleActivity 0 (some (.jobDone { jobId := 1, flags := 1, exitcode := 0 })) =
      .error .nullPointer ∧
    l.scheduler.handleActivity 0 (some (.jobDone { jobId := 1, flags := 0, exitcode := 1 })) =
      .error .nullPointer := by
  have hrun : (system.exec (started fun _ => 1) requesting).map (fun l =>
      (l.scheduler.css, (l.scheduler.conn 0).state,
        faultOf (l.scheduler.handleActivity 0 (some (.jobDone { jobId := 1, flags := 1, exitcode := 0 }))),
        faultOf (l.scheduler.handleActivity 0
          (some (.jobDone { jobId := 1, flags := 0, exitcode := 1 }))))) =
      some ([0], .loggedIn, some .nullPointer, some .nullPointer) := by decide +kernel
  obtain ⟨l, hl, hstate⟩ := Option.map_eq_some_iff.mp hrun
  simp only [Prod.mk.injEq, faultOf_eq] at hstate
  have hreach := (Transition.System.Reaches.init (started_init _)).exec (fun _ _ _ => trivial) hl
  exact ⟨l, hreach, hstate⟩

end Loop

end Icecream.IceccScheduler
