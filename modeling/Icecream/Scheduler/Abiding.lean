import Icecream.Scheduler.Serving

/-!
# The kinds of changes

A turn rewrites connections, creates and deletes jobs, closes connections and counts finished
jobs. An invariant about what is noted of connections is checked against these kinds of changes
rather than against the handlers.
-/

namespace Icecream.IceccScheduler

open Icecream.Comm
open Icecream.Fault

def CompileServer.gauges (c : CompileServer) : ℤ × ℤ × UInt32 :=
  (c.busyInstalling, c.clientCount, c.lastPickedId)

/-- What is counted as jobs come and go -/
def CompileServer.tallies (c : CompileServer) :
    ℤ × (List JobStat × JobStat) × List JobStat × JobStat :=
  (c.submittedJobsCount, (c.lastCompiledJobs, c.cumCompiled), c.lastRequestedJobs, c.cumRequested)

namespace Scheduler

theorem addConn_live {s : Scheduler} {c : CompileServer} {y : ℕ} (hy : (s.addConn c).live y = true) :
    y = c.cid ∨ s.live y = true := by
  simp only [live, addConn, asked, List.any_cons, Bool.or_eq_true, decide_eq_true_eq] at hy
  exact hy.imp_left Eq.symm

/-! ## How a request gets its server -/

/-- The server that the queue is served with: one that suits the job, or the submitter, which
is free or gets the job because nobody else ever could. -/
def Chosen (s : Scheduler) (ptr useCs : ℕ) : Prop :=
  s.Suits (s.job ptr) useCs ∨ (useCs = (s.job ptr).submitter ∧
    (s.submitterFree (s.job ptr) = true ∨
      (¬ s.Placeable ptr ∧ s.anyEligibleEver (s.job ptr) = false)))

theorem search_chosen {s : Scheduler} {job : Job} {first pos : JobRequestPosition}
    {rest : List JobRequestPosition} {x : ℕ}
    (h : (search job (first :: rest) s).2 = some (pos, x)) :
    pos = first ∧ (s.Suits job x ∨ (x = job.submitter ∧ s.submitterFree job = true)) := by
  obtain ⟨rfl, hsuits | rfl⟩ := search_first h
  · exact ⟨rfl, .inl hsuits⟩
  · refine ⟨rfl, ?_⟩
    cases hpick : s.pickServer job with
    | some d =>
      obtain ⟨y, rfl, hsuits⟩ := pickServer_suits hpick
      simp only [search, hpick, Option.some.injEq, Prod.mk.injEq, conn_cid, true_and] at h
      exact .inl (h ▸ hsuits)
    | none =>
      have hsome := search_isSome job pos rest (s := s)
      rw [h, hpick] at hsome
      exact .inr ⟨rfl, by simpa using hsome.symm⟩

/-- The queue is either left as it is or serves its first request; `n` and `log` are what the
search leaves behind. -/
theorem emptyQueue_chosen {s : Scheduler} {P : Scheduler × Bool → Prop}
    (hidle : ∀ n log, P ({ s with calls := n, log := log }, false))
    (hassign : ∀ n log pos useCs, (jobRequestPositions s.jobRequests).head? = some pos →
      s.liveJob pos.2 = true → s.Chosen pos.2 useCs → Ends (fun _ => True) (fun u => P (u, true))
        (Scheduler.assign { s with calls := n, log := log } pos.2 useCs pos)) :
    Ends (fun _ => True) P s.emptyQueue := by
  unfold Scheduler.emptyQueue
  cases hqueue : jobRequestPositions s.jobRequests with
  | nil => exact .pure (hidle s.calls s.log)
  | cons first rest =>
    have hhead : (jobRequestPositions s.jobRequests).head? = some first := by rw [hqueue]; rfl
    have hsome := require_isSome (s := s) (s.job first.2) (first :: rest)
    rw [search_isSome (s.job first.2) first rest (s := s)] at hsome
    rw [require_log] at hsome ⊢
    generalize failure .emptyQueue (s.css ≠ []) ++ s.log = log at hsome
    refine (touchJob_any _ first.2).bind fun _ hlive => ?_
    refine Ends.bind (P := fun _ => True) (.any fun _ => trivial) fun _ _ => ?_
    refine (touch_any _ _).bind fun _ _ => ?_
    obtain ⟨n, -, hasked⟩ := search_asked (s.job first.2) (first :: rest) { s with log := log }
    have hserved : ∀ useCs, s.Chosen first.2 useCs → Ends (fun _ => True) P
        (do return (← Scheduler.assign { s with calls := n, log := log } first.2 useCs first, true)) :=
      fun useCs hchosen => (hassign n log first useCs hhead hlive hchosen).bind fun u hu => .pure hu
    have hsame : Scheduler.job { s with log := log } first.2 = s.job first.2 := rfl
    simp only [hsame, hasked]
    cases hfound : (search (s.job first.2) (first :: rest) { s with log := log }).2 with
    | some found =>
      obtain ⟨pos, useCs⟩ := found
      obtain ⟨rfl, hsuits⟩ := search_chosen hfound
      exact hserved useCs (hsuits.imp_right fun hfree => ⟨hfree.1, .inl hfree.2⟩)
    | none =>
      refine .ite (fun _ => .pure (hidle n log)) fun hever => hserved _ (.inr ⟨rfl, .inr ⟨?_, ?_⟩⟩)
      · rw [hfound, Option.isSome_none] at hsome
        exact fun hplace => absurd (hsome.trans ((Bool.or_eq_true _ _).mpr hplace)) (by decide)
      · rwa [Bool.not_eq_true] at hever

/-- The records, the jobs and the queue, and what numbers them -/
def body (s : Scheduler) : List CompileServer × List Job × ℕ × ℕ × Host × List JobRequestsGroup :=
  (s.conns, s.heap, s.newCid, s.newPtr, s.host, s.jobRequests)

def statistics (s : Scheduler) : List JobStat × JobStat := (s.allJobStats, s.cumJobStats)

/-- `Inv` is kept by the changes that leave the gauges alone, where the submitter of a job counts
it as it comes and goes. -/
structure Abiding (Inv : Scheduler → Prop) : Prop where
  aside : ∀ {s t : Scheduler}, Inv s → t.conns = s.conns → t.heap = s.heap →
    t.newCid = s.newCid → t.newPtr = s.newPtr → t.host = s.host →
    t.statistics = s.statistics → waiting t.jobRequests ⊆ waiting s.jobRequests → Inv t
  update : ∀ {s : Scheduler} (c : CompileServer), Inv s →
    c.gauges = (s.conn c.cid).gauges → c.tallies = (s.conn c.cid).tallies → Inv (s.put c)
  free : ∀ {s : Scheduler} (cid : ℕ), Inv s → Inv (s.free cid)
  join : ∀ {s : Scheduler} (c : CompileServer), Inv s → c.cid = s.newCid →
    c.gauges = (0, 0, 0) → c.tallies = (0, ([], {}), [], {}) → Inv (s.addConn c)
  relabel : ∀ {s : Scheduler} (j : Job), Inv s → s.liveJob j.ptr = true →
    j.ties = (s.job j.ptr).ties → Inv (s.putJob j)
  create : ∀ {s t : Scheduler} (j : Job), Inv s → j.ptr = s.newPtr → j.server = none →
    s.live j.submitter = true → t.conns = (s.put { s.conn j.submitter with
      submittedJobsCount := (s.conn j.submitter).submittedJobsCount + 1 }).conns →
    t.heap = j :: s.heap → t.newCid = s.newCid → t.newPtr = s.newPtr + 1 → t.host = s.host →
    t.statistics = s.statistics →
    waiting t.jobRequests ⊆ (j.submitter, j.ptr) :: waiting s.jobRequests → Inv t
  remove : ∀ {s : Scheduler} (ptr : ℕ), Inv s → s.liveJob ptr = true →
    s.live (s.job ptr).submitter = true →
    Inv { s.put { s.conn (s.job ptr).submitter with
        submittedJobsCount := (s.conn (s.job ptr).submitter).submittedJobsCount - 1 } with
      heap := Records.remove Job.ptr ptr s.heap }
  stats : ∀ {s : Scheduler} (j : Job) (m : JobDoneMsg), Inv s →
    Ends (fun _ => True) Inv (s.addJobStats j m)

/-! ## Where jobs stay -/

theorem notifyMonitors_heap (s : Scheduler) (m : Msg) :
    Ends (fun _ => True) (fun t => t.heap = s.heap) (s.notifyMonitors m) := by
  unfold notifyMonitors
  refine Ends.foldlM (fun _ (t : Scheduler) => t.heap = s.heap) rfl fun cid _ t ht => ?_
  unfold notify send
  rw [bind_assoc]
  refine (touch_any t cid).bind fun _ _ => ?_
  rw [pure_bind]
  refine .ite (fun _ => .pure ht) fun _ => ?_
  unfold endMonitor Scheduler.require
  refine (touch_any _ cid).bind fun _ _ => .pure ?_
  split
  · exact ht
  · exact ht

theorem setBusyInstalling_heap (s : Scheduler) (cid : ℕ) (time : ℤ) :
    Ends (fun _ => True) (fun t => t.heap = s.heap) (s.setBusyInstalling cid time) := by
  unfold setBusyInstalling
  exact (touch_any s cid).bind fun _ _ => .pure rfl

theorem setClientCount_heap (s : Scheduler) (cid : ℕ) (count : UInt32) :
    Ends (fun _ => True) (fun t => t.heap = s.heap) (s.setClientCount cid count) := by
  unfold setClientCount
  exact (touch_any s cid).bind fun _ _ => .pure rfl

theorem removeJob_heap (s : Scheduler) (cid ptr : ℕ) :
    Ends (fun _ => True) (fun t => t.heap = s.heap) (s.removeJob cid ptr) := by
  unfold removeJob
  exact (touch_any s cid).bind fun _ _ => .pure rfl

theorem leaveServer_heap (s : Scheduler) (cid : ℕ) (j : Job) :
    Ends (fun _ => True) (fun t => t.heap = s.heap) (s.leaveServer cid j) := by
  unfold leaveServer
  cases j.server with
  | none => exact .pure rfl
  | some server =>
    have hremove : Ends (fun _ => True) (fun t => t.heap = s.heap)
        (if server ≠ cid then s.removeJob server j.ptr else pure s) :=
      .ite (fun _ => removeJob_heap s server j.ptr) fun _ => .pure rfl
    exact hremove.bind fun t ht => (setBusyInstalling_heap t server 0).mono fun u hu => hu.trans ht

theorem addJobStats_rule {Inv : Scheduler → Prop}
    (hcompiled : ∀ {s : Scheduler} (cid : ℕ) (st : JobStat), Inv s →
      Ends (fun _ => True) Inv (s.countCompiled cid st))
    (hrequested : ∀ {s : Scheduler} (cid : ℕ) (st : JobStat), Inv s →
      Ends (fun _ => True) Inv (s.countRequested cid st))
    (hall : ∀ {s : Scheduler} (st : JobStat), Inv s → Inv { s with
      allJobStats := (pushStat 2000 st (s.allJobStats, s.cumJobStats)).1
      cumJobStats := (pushStat 2000 st (s.allJobStats, s.cumJobStats)).2 })
    {s : Scheduler} (hs : Inv s) (j : Job) (m : JobDoneMsg) :
    Ends (fun _ => True) Inv (s.addJobStats j m) := by
  unfold addJobStats
  refine .ite (fun _ => .pure hs) fun _ => ?_
  cases j.server with
  | none => exact .throw trivial
  | some server =>
    refine (hcompiled server _ hs).bind fun t ht => ?_
    exact (hrequested j.submitter _ ht).bind fun u hu => .pure (hall _ hu)

/-- The counts of a finished job are neither gauges nor the number of jobs asked for. -/
theorem addJobStats_put {Inv : Scheduler → Prop}
    (hput : ∀ {s : Scheduler} (c : CompileServer), Inv s → c.gauges = (s.conn c.cid).gauges →
      c.submittedJobsCount = (s.conn c.cid).submittedJobsCount → Inv (s.put c))
    (hall : ∀ {s : Scheduler} (l : List JobStat) (cum : JobStat), Inv s →
      Inv { s with allJobStats := l, cumJobStats := cum })
    {s : Scheduler} (hs : Inv s) (j : Job) (m : JobDoneMsg) :
    Ends (fun _ => True) Inv (s.addJobStats j m) := by
  have hsame : ∀ {s : Scheduler} {cid : ℕ} {c : CompileServer}, Inv s → c.cid = cid →
      c.gauges = (s.conn cid).gauges → c.submittedJobsCount = (s.conn cid).submittedJobsCount →
      Inv (s.put c) := by
    intro s cid c hs hcid
    subst hcid
    exact hput c hs
  refine addJobStats_rule (fun {s} cid st hs => ?_) (fun {s} cid st hs => ?_) (fun _ hs => ?_) hs j m
  · unfold countCompiled
    exact (touch_any s cid).bind fun _ _ => .pure (hsame hs (conn_cid s cid) rfl rfl)
  · unfold countRequested
    exact (touch_any s cid).bind fun _ _ => .pure (hsame hs (conn_cid s cid) rfl rfl)
  · exact hall _ _ hs

theorem addJobStats_heap (s : Scheduler) (j : Job) (m : JobDoneMsg) :
    Ends (fun _ => True) (fun t => t.heap = s.heap) (s.addJobStats j m) :=
  @addJobStats_put (fun t => t.heap = s.heap) (fun _ hs _ _ => hs) (fun _ _ hs => hs) s rfl j m

theorem liveJob_of_heap {s t : Scheduler} {ptr : ℕ} (h : t.heap = s.heap)
    (hlive : s.liveJob ptr = true) : t.liveJob ptr = true := by rwa [liveJob, h]

namespace Abiding

variable {Inv : Scheduler → Prop} (h : Abiding Inv) {s : Scheduler} {cid ptr : ℕ}

include h

theorem modify (hs : Inv s) (cid : ℕ) (c : CompileServer) (hcid : c.cid = cid)
    (hgauges : c.gauges = (s.conn cid).gauges) (htallies : c.tallies = (s.conn cid).tallies) :
    Inv (s.put c) := by
  subst hcid
  exact h.update c hs hgauges htallies

/-- A job that is there is rewritten, but not whose it is. -/
theorem reword (hs : Inv s) (hlive : s.liveJob ptr = true) (j : Job)
    (hties : j.ties = (s.job ptr).ties) : Inv (s.putJob j) := by
  have hptr : j.ptr = ptr := (congrArg Prod.fst hties).trans (job_mem hlive).2
  subst hptr
  exact h.relabel j hs hlive hties

theorem elsewhere {t : Scheduler} (hs : Inv s) (hbody : t.body = s.body)
    (hstatistics : t.statistics = s.statistics) : Inv t := by
  simp only [body, Prod.mk.injEq] at hbody
  obtain ⟨hconns, hheap, hnewCid, hnewPtr, hhost, hrequests⟩ := hbody
  exact h.aside hs hconns hheap hnewCid hnewPtr hhost hstatistics (hrequests ▸ List.Subset.refl _)

theorem asked (hs : Inv s) : Inv s.asked := h.elsewhere hs rfl rfl

theorem note (hs : Inv s) (o : Obs) : Inv (s.note o) := h.elsewhere hs rfl rfl

theorem require (hs : Inv s) (a : Assertion) (holds : Bool) : Inv (s.require a holds) := by
  unfold Scheduler.require
  split
  · exact hs
  · exact h.note hs _

theorem send (hs : Inv s) (cid : ℕ) (m : Msg) :
    Ends (fun _ => True) (fun r => Inv r.1) (s.send cid m) := by
  unfold Scheduler.send
  exact (touch_any s cid).bind fun _ _ => .pure (h.note (h.asked hs) _)

/-! ## Monitors -/

theorem endMonitor (hs : Inv s) (cid : ℕ) : Ends (fun _ => True) Inv (s.endMonitor cid) := by
  unfold Scheduler.endMonitor
  refine (touch_any s cid).bind fun _ _ => .pure (h.free cid ?_)
  exact h.elsewhere (h.require hs .monitorListed _) rfl rfl

theorem notifyMonitors (hs : Inv s) (m : Msg) :
    Ends (fun _ => True) Inv (s.notifyMonitors m) := by
  unfold Scheduler.notifyMonitors
  refine Ends.foldlM (fun _ => Inv) hs fun c _ t ht => ?_
  unfold notify
  refine (h.send ht c m).bind fun r hr => ?_
  exact .ite (fun _ => .pure hr) fun _ => h.endMonitor hr c

theorem handleMonitorStats (hs : Inv s) (cid : ℕ) :
    Ends (fun _ => True) Inv (s.handleMonitorStats cid) := by
  unfold Scheduler.handleMonitorStats
  refine .ite (fun _ => .pure hs) fun _ => ?_
  exact (touch_any s cid).bind fun _ _ => h.notifyMonitors (h.asked hs) _

/-! ## Jobs -/

theorem removeJob (hs : Inv s) (cid ptr : ℕ) :
    Ends (fun _ => True) Inv (s.removeJob cid ptr) := by
  unfold Scheduler.removeJob
  exact (touch_any s cid).bind fun _ _ => .pure (h.modify hs cid _ (conn_cid s cid) rfl rfl)

theorem freeJob (hs : Inv s) (hlive : s.liveJob ptr = true) :
    Ends (fun _ => True) Inv (s.freeJob ptr) := by
  unfold Scheduler.freeJob
  exact (touch_any s _).bind fun _ hsubmitter => .pure (h.remove ptr hs hlive hsubmitter)

/-! ## The end of a connection -/

/-- `handle_end` of a daemon, with what happens to one of its jobs left open -/
theorem endDaemon (hs : Inv s)
    (hqueued : ∀ {t : Scheduler} (ptr : ℕ), Inv t → (cid, ptr) ∈ waiting t.jobRequests →
      Ends (fun _ => True) Inv (t.dropQueued ptr))
    (hjob : ∀ {t : Scheduler} (e : UInt32 × ℕ), Inv t → t.liveJob e.2 = true →
      ((t.job e.2).server = some cid ∨ (t.job e.2).submitter = cid) →
      Ends (fun _ => True) Inv (dropJob cid t e)) :
    Ends (fun _ => True) Inv (s.endDaemon cid) := by
  unfold Scheduler.endDaemon
  refine (h.notifyMonitors hs _).bind fun t ht => ?_
  have hcss : Inv { t with css := t.css.filter (· ≠ cid) } := h.elsewhere ht rfl rfl
  generalize { t with css := t.css.filter (· ≠ cid) } = u at hcss
  have hgroups : Ends (fun _ => True) Inv (u.dropGroups cid) := by
    unfold dropGroups
    have hloop : Ends (fun _ => True) (fun v => Inv v ∧ v.jobRequests = u.jobRequests)
        (((u.jobRequests.filter fun g => g.submitter = cid).flatMap JobRequestsGroup.l).foldlM
          dropQueued u) := by
      refine (Ends.foldlM (fun rest v => (Inv v ∧ v.jobRequests = u.jobRequests) ∧
        ∀ ptr ∈ rest, (cid, ptr) ∈ waiting u.jobRequests) ⟨⟨hcss, rfl⟩, ?_⟩ ?_).mono
        fun v hv => hv.1
      · intro ptr hptr
        obtain ⟨g, hg, hin⟩ := List.mem_flatMap.mp hptr
        obtain ⟨hg, hsame⟩ := List.mem_filter.mp hg
        exact mem_waiting.mpr ⟨g, hg, of_decide_eq_true hsame, hin⟩
      · rintro ptr rest v ⟨⟨hv, hsame⟩, hrest⟩
        have hptr : (cid, ptr) ∈ waiting v.jobRequests := hsame ▸ hrest ptr List.mem_cons_self
        refine ((hqueued ptr hv hptr).and (dropQueued_fades v ptr)).mono fun w hw => ?_
        exact ⟨⟨hw.1, hw.2.jobRequests.trans hsame⟩,
          fun p hp => hrest p (List.mem_cons_of_mem _ hp)⟩
    refine hloop.bind fun v hv => .pure (h.aside hv.1 rfl rfl rfl rfl rfl rfl ?_)
    have hfilter := waiting_filter cid v.jobRequests
    simp only [ne_eq, decide_not] at hfilter ⊢
    rw [hfilter]
    exact List.filter_sublist.subset
  refine hgroups.bind fun v hv => ?_
  have hjobs : Ends (fun _ => True) Inv (v.jobs.foldlM (dropAssigned cid) v) := by
    refine Ends.foldlM (fun _ => Inv) hv fun e _ w hw => ?_
    unfold dropAssigned
    refine (touchJob_any w e.2).bind fun _ hlive => ?_
    exact .ite (fun hmine => hjob e hw hlive hmine) fun _ => .pure hw
  refine hjobs.bind fun w hw => Ends.foldlM (fun _ => Inv) hw fun other _ w' hw' => ?_
  unfold forgetBlacklist
  exact (touch_any w' other).bind fun _ _ => .pure (h.modify hw' other _ (conn_cid w' other) rfl rfl)

theorem handleEnd (hs : Inv s)
    (hqueued : ∀ {t : Scheduler} (ptr : ℕ), Inv t → (cid, ptr) ∈ waiting t.jobRequests →
      Ends (fun _ => True) Inv (t.dropQueued ptr))
    (hjob : ∀ {t : Scheduler} (e : UInt32 × ℕ), Inv t → t.liveJob e.2 = true →
      ((t.job e.2).server = some cid ∨ (t.job e.2).submitter = cid) →
      Ends (fun _ => True) Inv (dropJob cid t e)) :
    Ends (fun _ => True) Inv (s.handleEnd cid) := by
  unfold Scheduler.handleEnd
  refine (touch_any s cid).bind fun _ _ => ?_
  cases (s.conn cid).type with
  | monitor => exact h.endMonitor hs cid
  | daemon => exact (h.endDaemon hs hqueued hjob).bind fun t ht => .pure (h.free cid ht)
  | line =>
    refine (h.send hs cid _).bind fun r hr => .pure (h.free cid ?_)
    exact h.elsewhere hr rfl rfl
  | unknown => exact .pure (h.free cid hs)

/-- What the jobs of a daemon are deleted with, where `busyInstalling` does not matter -/
theorem dropQueued (hs : Inv s) (ptr : ℕ)
    (hbusy : ∀ {s : Scheduler} (c : CompileServer), Inv s →
      c.gauges.2 = (s.conn c.cid).gauges.2 → c.tallies = (s.conn c.cid).tallies → Inv (s.put c)) :
    Ends (fun _ => True) Inv (s.dropQueued ptr) := by
  unfold Scheduler.dropQueued
  refine (touchJob_any s ptr).bind fun _ hlive => ?_
  refine ((h.notifyMonitors hs _).and (notifyMonitors_heap s _)).bind fun t ht => ?_
  refine Ends.bind (P := fun u => Inv u ∧ u.heap = s.heap) ?_ fun u hu => ?_
  · cases (s.job ptr).server with
    | none => exact .pure ht
    | some server =>
      unfold setBusyInstalling
      refine (touch_any t server).bind fun _ _ => .pure ⟨hbusy _ ht.1 ?_ ?_, ht.2⟩
      · rw [conn_cid]
        rfl
      · rw [conn_cid]
        rfl
  have herased : Inv (u.eraseJob (s.job ptr).id) := h.elsewhere hu.1 rfl rfl
  exact h.freeJob herased (liveJob_of_heap hu.2 hlive)

theorem dropJob (hs : Inv s) (cid : ℕ) {e : UInt32 × ℕ} (hlive : s.liveJob e.2 = true)
    (hbusy : ∀ {s : Scheduler} (c : CompileServer), Inv s →
      c.gauges.2 = (s.conn c.cid).gauges.2 → c.tallies = (s.conn c.cid).tallies → Inv (s.put c)) :
    Ends (fun _ => True) Inv (dropJob cid s e) := by
  unfold Scheduler.dropJob
  refine ((h.notifyMonitors hs _).and (notifyMonitors_heap s _)).bind fun t ht => ?_
  have hleave : Ends (fun _ => True) Inv (t.leaveServer cid (s.job e.2)) := by
    unfold leaveServer
    cases (s.job e.2).server with
    | none => exact .pure ht.1
    | some server =>
      have hremove : Ends (fun _ => True) Inv
          (if server ≠ cid then t.removeJob server (s.job e.2).ptr else pure t) :=
        .ite (fun _ => h.removeJob ht.1 server _) fun _ => .pure ht.1
      refine hremove.bind fun u hu => ?_
      unfold setBusyInstalling
      refine (touch_any u server).bind fun _ _ => .pure (hbusy _ hu ?_ ?_)
      · rw [conn_cid]
        rfl
      · rw [conn_cid]
        rfl
  refine (hleave.and (leaveServer_heap t cid _)).bind fun u hu => ?_
  have herased : Inv (u.eraseJob e.1) := h.elsewhere hu.1 rfl rfl
  exact h.freeJob herased (liveJob_of_heap (hu.2.trans ht.2) hlive)

/-- A job that is created and queued -/
theorem requestJob (hs : Inv s) (cid : ℕ) (m : GetCSMsg) :
    Ends (fun _ => True) Inv (s.requestJob cid m (s.requestedJob cid m)) := by
  unfold Scheduler.requestJob createNewJob
  have hrequire := h.require hs .newJobId (s.findJob (s.requestedJob cid m).id).isNone
  have hnewPtr : (s.require .newJobId (s.findJob (s.requestedJob cid m).id).isNone).newPtr =
      s.newPtr := by
    unfold Scheduler.require
    split <;> rfl
  generalize s.require .newJobId (s.findJob (s.requestedJob cid m).id).isNone = t
    at hrequire hnewPtr
  rw [bind_assoc]
  refine (touch_any t cid).bind fun _ hlive => ?_
  have hqueued : Inv { t.put { t.conn cid with
        submittedJobsCount := (t.conn cid).submittedJobsCount + 1 } with
      newJobId := (s.requestedJob cid m).id
      newPtr := s.newPtr + 1
      heap := s.requestedJob cid m :: t.heap
      jobs := insertJob (s.requestedJob cid m).id s.newPtr t.jobs
      jobRequests := enqueueJobRequest s.newPtr cid (s.requestedJob cid m).niceness
        t.jobRequests } := by
    refine h.create (s.requestedJob cid m) hrequire hnewPtr.symm rfl hlive rfl rfl rfl ?_ rfl rfl ?_
    · exact congrArg (· + 1) hnewPtr.symm
    · exact (enqueueJobRequest_waiting _ _ _ _).subset
  refine (touch_any _ cid).bind fun _ _ => ?_
  exact h.notifyMonitors (h.require hqueued .niceness (m.niceness ≤ 20)) _

theorem requestJobs (hs : Inv s) (cid : ℕ) (m : GetCSMsg) (n : ℕ) (master : Option ℕ) :
    Ends (fun _ => True) Inv (requestJobs cid m n master s) := by
  induction n generalizing s master with
  | zero => exact .pure hs
  | succ n ih =>
    refine (h.requestJob hs cid m).bind fun t ht => ?_
    cases master with
    | none => exact ih ht _
    | some master =>
      have happend : Ends (fun _ => True) Inv (t.appendMaster master s.newPtr) := by
        unfold appendMaster
        exact (touchJob_any t master).bind fun _ hlive => .pure (h.reword ht hlive _ rfl)
      exact happend.bind fun u hu => ih hu _

theorem handleLocalJob (hs : Inv s) (cid : ℕ) (m : JobLocalBeginMsg) :
    Ends (fun _ => True) (fun r => Inv r.1) (s.handleLocalJob cid m) := by
  unfold Scheduler.handleLocalJob
  refine (touch_any s cid).bind fun _ _ => ?_
  refine (h.notifyMonitors ?_ _).bind fun t ht => .pure ht
  have hput := h.modify hs cid { s.conn cid with
    clientLocalMap := (s.conn cid).clientLocalMap.insert m.id ⟨s.newJobId + 1, m.fulljob⟩ }
    (conn_cid s cid) rfl rfl
  exact h.elsewhere hput rfl rfl

theorem handleLocalJobDone (hs : Inv s) (cid : ℕ) (id : UInt32) :
    Ends (fun _ => True) (fun r => Inv r.1) (s.handleLocalJobDone cid id) := by
  unfold Scheduler.handleLocalJobDone
  refine (touch_any s cid).bind fun _ _ => ?_
  refine (h.notifyMonitors hs _).bind fun t ht => ?_
  refine (touch_any t cid).bind fun _ _ => .pure ?_
  exact h.modify ht cid _ (conn_cid t cid) rfl rfl

theorem cancelQueued {r : Scheduler × Option ℕ} (hr : Inv r.1) (cid : ℕ) (clientId : UInt32)
    (e : UInt32 × ℕ) :
    Ends (fun _ => True) (fun r' => Inv r'.1) (cancelQueued cid clientId r e) := by
  unfold Scheduler.cancelQueued
  refine (touchJob_any r.1 e.2).bind fun _ _ => ?_
  refine .ite (fun _ => .pure ?_) fun _ => .pure hr
  exact h.aside hr rfl rfl rfl rfl rfl rfl (dequeue_sublist cid e.2 r.1.jobRequests).subset

theorem jobOfDone (hs : Inv s) (cid : ℕ) (m : JobDoneMsg) :
    Ends (fun _ => True) (fun r => Inv r.1.1) (s.jobOfDone cid m) := by
  unfold Scheduler.jobOfDone
  refine .ite (fun _ => ?_) fun _ => .pure hs
  have hloop : Ends (fun _ => True) (fun r => Inv r.1)
      (s.jobs.foldlM (Scheduler.cancelQueued cid m.unknownJobClientId) (s, none)) :=
    Ends.foldlM (fun _ (r : Scheduler × Option ℕ) => Inv r.1) hs fun e _ r hr => h.cancelQueued hr cid _ e
  refine hloop.bind fun r hr => ?_
  cases r.2 with
  | none => exact .pure hr
  | some ptr => exact .pure hr

/-- What `finishJob` does once the clients have been counted -/
theorem finished (hs : Inv s) (hlive : s.liveJob ptr = true) (m : JobDoneMsg) :
    Ends (fun _ => True) Inv (do
      let j := s.job ptr
      (if m.exitcode = 0 then s.touchServer j else pure ())
      let s ← (match j.server with
        | some server => s.removeJob server ptr
        | none => pure s)
      let s ← s.addJobStats j m
      let s ← s.notifyMonitors (.monJobDone m)
      (s.eraseJob m.jobId).freeJob ptr) := by
  have htouch : Ends (fun _ => True) (fun _ => True)
      (if m.exitcode = 0 then s.touchServer (s.job ptr) else pure ()) := .any fun _ => trivial
  refine htouch.bind fun _ _ => ?_
  have hleave : Ends (fun _ => True) (fun t => Inv t ∧ t.heap = s.heap)
      (match (s.job ptr).server with
        | some server => s.removeJob server ptr
        | none => pure s) := by
    cases (s.job ptr).server with
    | none => exact .pure ⟨hs, rfl⟩
    | some server => exact (h.removeJob hs server ptr).and (removeJob_heap s server ptr)
  refine hleave.bind fun t ht => ?_
  refine ((h.stats _ m ht.1).and (addJobStats_heap t _ m)).bind fun u hu => ?_
  refine ((h.notifyMonitors hu.1 _).and (notifyMonitors_heap u _)).bind fun v hv => ?_
  have herased : Inv (v.eraseJob m.jobId) := h.elsewhere hv.1 rfl rfl
  exact h.freeJob herased (liveJob_of_heap (hv.2.trans (hu.2.trans ht.2)) hlive)

/-! ## Once the clients are counted -/

theorem handleCsRequest {m : GetCSMsg}
    (hset : Ends (fun _ => True) Inv (s.setClientCount cid m.clientCount)) :
    Ends (fun _ => True) (fun r => Inv r.1) (s.handleCsRequest cid m) :=
  hset.bind fun _ ht => (h.requestJobs ht cid m _ none).bind fun _ hu => .pure hu

theorem handleJobBegin {m : JobBeginMsg} (hfind : s.findJob m.jobId = some ptr)
    (hserver : (s.job ptr).server = some cid)
    (hset : Ends (fun _ => True) Inv (s.setClientCount cid m.clientCount)) :
    Ends (fun _ => True) (fun r => Inv r.1) (s.handleJobBegin cid m) := by
  simp only [Scheduler.handleJobBegin, hfind]
  refine (touchJob_any s ptr).bind fun _ hlive => .ite (fun hne => absurd hserver hne) fun _ => ?_
  refine (hset.and (setClientCount_heap s cid _)).bind fun t ht => ?_
  have hbegun : Inv (t.putJob { t.job ptr with state := .compiling }) :=
    h.reword ht.1 (liveJob_of_heap ht.2 hlive) _ rfl
  refine (h.notifyMonitors hbegun _).bind fun u hu => ?_
  exact (touch_any u _).bind fun _ _ => (touch_any u cid).bind fun _ _ => .pure hu

theorem finishJob {m : JobDoneMsg} (hlive : s.liveJob ptr = true)
    (hset : Ends (fun _ => True) Inv (s.setClientCount cid m.clientCount)) :
    Ends (fun _ => True) Inv (s.finishJob cid ptr m) :=
  (hset.and (setClientCount_heap s cid _)).bind fun _ ht =>
    h.finished ht.1 (liveJob_of_heap ht.2 hlive) m

/-! ## Other messages -/

theorem configure (hs : Inv s) (cid : ℕ) : Ends (fun _ => True) Inv (s.configure cid) := by
  unfold Scheduler.configure
  refine (touch_any s cid).bind fun _ _ => ?_
  exact .ite (fun _ => (h.send hs cid _).bind fun r hr => .pure hr) fun _ => .pure hs

theorem handleMonLogin (hs : Inv s) (cid : ℕ) :
    Ends (fun _ => True) (fun r => Inv r.1) (s.handleMonLogin cid) := by
  unfold Scheduler.handleMonLogin
  refine (touch_any s cid).bind fun _ _ => ?_
  have hmonitor : Inv { s with monitors := s.monitors ++ [cid] } :=
    h.elsewhere hs rfl rfl
  have hstats : Ends (fun _ => True) Inv (s.css.foldlM Scheduler.handleMonitorStats
      { s with monitors := s.monitors ++ [cid] }) :=
    Ends.foldlM (fun _ => Inv) hmonitor fun x _ t ht => h.handleMonitorStats ht x
  refine hstats.bind fun t ht => (touch_any t cid).bind fun _ _ => .pure ?_
  exact h.elsewhere ht rfl rfl

theorem handlePing (hs : Inv s) (cid : ℕ) :
    Ends (fun _ => True) (fun r => Inv r.1) (s.handlePing cid) := by
  unfold Scheduler.handlePing
  refine (touch_any s cid).bind fun _ _ => .pure ?_
  exact h.modify (h.asked hs) cid _ (conn_cid s cid) rfl rfl

theorem handleBlacklistHostEnv (hs : Inv s) (cid : ℕ) (m : BlacklistHostEnvMsg) :
    Ends (fun _ => True) (fun r => Inv r.1) (s.handleBlacklistHostEnv cid m) := by
  unfold Scheduler.handleBlacklistHostEnv
  have hloop : Ends (fun _ => True) Inv (s.css.foldlM (blacklistCompileServer cid m) s) := by
    refine Ends.foldlM (fun _ => Inv) hs fun other _ t ht => ?_
    unfold blacklistCompileServer
    refine (touch_any t other).bind fun _ _ => (touch_any t cid).bind fun _ _ => ?_
    exact .ite (fun _ => .pure (h.modify ht cid _ (conn_cid t cid) rfl rfl)) fun _ => .pure ht
  exact hloop.bind fun t ht => .pure ht

theorem sendText (hs : Inv s) (cid : ℕ) :
    Ends (fun _ => True) (fun r => Inv r.1) (s.sendText cid) := h.send (h.asked hs) cid _

theorem sendEach {α : Type} {used : Scheduler → α → Except Fault Unit} (hs : Inv s) (cid : ℕ)
    (l : List α) : Ends (fun _ => True) (fun r => Inv r.1) (sendEach cid used l s) := by
  induction l generalizing s with
  | nil => exact .pure hs
  | cons x rest ih =>
    have hused : Ends (fun _ => True) (fun _ => True) (used s x) := .any fun _ => trivial
    refine hused.bind fun _ _ => (h.sendText hs cid).bind fun r hr => ?_
    exact .ite (fun _ => ih hr) fun _ => .pure hr

theorem listServers (hs : Inv s) (cid : ℕ) (l : List ℕ) :
    Ends (fun _ => True) (fun r => Inv r.1) (listServers cid l s) := by
  induction l generalizing s with
  | nil => exact .pure hs
  | cons other rest ih =>
    refine (touch_any s other).bind fun _ _ => (h.sendText hs cid).bind fun r hr => ?_
    refine .ite (fun _ => ?_) fun _ => .pure hr
    refine (h.sendEach hr cid _).bind fun r' hr' => ?_
    exact .ite (fun _ => ih hr') fun _ => .pure hr'

theorem askInternals (hs : Inv s) (cid : ℕ) (names : List Str) (l : List ℕ) :
    Ends (fun _ => True) (fun r => Inv r.1) (askInternals cid names l s) := by
  induction l generalizing s with
  | nil => exact .pure hs
  | cons other rest ih =>
    refine (touch_any s other).bind fun _ _ => .ite (fun _ => ?_) fun _ => ih hs
    refine (h.send hs other _).bind fun asked hasked => ?_
    refine (h.sendText hasked cid).bind fun r hr => ?_
    exact .ite (fun _ => ih hr) fun _ => .pure hr

/-! ## The main loop -/

theorem updateInConnectivity (hs : Inv s) (cid : ℕ) (acceptingIn : Bool) :
    Inv (s.updateInConnectivity cid acceptingIn) := by
  unfold Scheduler.updateInConnectivity
  cases acceptingIn with
  | true => exact h.modify (h.asked hs) cid _ (conn_cid s cid) rfl rfl
  | false => exact h.modify (h.asked hs) cid _ (conn_cid s cid) rfl rfl

theorem startInConnectionTest (hs : Inv s) (cid : ℕ) : Inv (s.startInConnectionTest cid) := by
  unfold Scheduler.startInConnectionTest
  dsimp only
  split
  · exact hs
  · have hconnecting : Inv (s.asked.put { s.conn cid with connecting := true }) :=
      h.modify (h.asked hs) cid _ (conn_cid s cid) rfl rfl
    have htested : Inv (if s.ask = 0 then
          Scheduler.updateInConnectivity (s.asked.put { s.conn cid with connecting := true }) cid false
        else if s.ask = 1 then
          Scheduler.updateInConnectivity (s.asked.put { s.conn cid with connecting := true }) cid
            (Scheduler.ask (s.asked.put { s.conn cid with connecting := true }) ≠ 0)
        else s.asked.put { s.conn cid with connecting := true }) := by
      split
      · exact h.updateInConnectivity hconnecting cid false
      · split
        · exact h.updateInConnectivity hconnecting cid _
        · exact hconnecting
    exact h.modify (h.asked htested) cid _ (conn_cid _ cid) rfl rfl

theorem finishTest (hs : Inv s) (cid : ℕ) (connected : Bool) :
    Ends (fun _ => True) Inv (Loop.finishTest s cid connected) := by
  unfold Loop.finishTest
  refine .ite (fun _ => .pure hs) fun _ => (touch_any s cid).bind fun _ _ => .pure ?_
  split
  · exact h.updateInConnectivity hs cid connected
  · exact hs

/-! ## Where daemons can end -/

section

variable (hend : ∀ {s : Scheduler} (cid : ℕ), Inv s → Ends (fun _ => True) Inv (s.handleEnd cid))

include hend

theorem handleLogin (hs : Inv s) (cid : ℕ) (m : LoginMsg) :
    Ends (fun _ => True) (fun r => Inv r.1) (s.handleLogin cid m) := by
  unfold Scheduler.handleLogin
  have hrequire := h.require hs .hostId ((s.conn cid).hostId = 0)
  generalize hv : s.require .hostId ((s.conn cid).hostId = 0) = v at hrequire
  have hput : Inv (v.put ((v.conn cid).loggedIn m (v.hostIdCounter + 1))) :=
    h.modify hrequire cid _ (conn_cid v cid) rfl rfl
  have hcount : Inv { v.put ((v.conn cid).loggedIn m (v.hostIdCounter + 1)) with
      hostIdCounter := v.hostIdCounter + 1 } := h.elsewhere hput rfl rfl
  refine .ite (fun _ => .pure hcount) fun _ => ?_
  refine (h.handleMonitorStats hcount cid).bind fun t ht => ?_
  have hstale : Ends (fun _ => True) Inv (t.css.foldlM (removeStale cid) t) := by
    refine Ends.foldlM (fun _ => Inv) ht fun other _ u hu => ?_
    unfold removeStale
    refine (touch_any u cid).bind fun _ _ => (touch_any u other).bind fun _ _ => ?_
    exact .ite (fun _ => hend other hu) fun _ => .pure hu
  refine hstale.bind fun u hu => ?_
  have hlisted : Inv { u with css := u.css ++ [cid] } := h.elsewhere hu rfl rfl
  exact (h.configure hlisted cid).bind fun v hv => .pure hv

theorem tryLogin (hs : Inv s) (cid : ℕ) (m : Msg) :
    Ends (fun _ => True) (fun r => Inv r.1) (s.tryLogin cid m) := by
  have htype : ∀ t, Inv (s.setType cid t) := fun t => h.modify hs cid _ (conn_cid s cid) rfl rfl
  unfold Scheduler.tryLogin
  refine Ends.bind (P := fun r => Inv r.1) ?_ fun r hr => .ite (fun _ => ?_) fun _ => ?_
  · cases m with
    | login m => exact h.handleLogin hend (htype .daemon) cid m
    | monLogin => exact h.handleMonLogin (htype .monitor) cid
    | _ => exact .pure hs
  · refine (touch_any r.1 cid).bind fun _ _ => .pure ?_
    exact h.modify hr cid _ (conn_cid r.1 cid) rfl rfl
  · exact (hend cid hr).bind fun t ht => .pure ht

theorem removeServer (hs : Inv s) (cid : ℕ) (block : Bool) (nm : Str) :
    Ends (fun _ => True) Inv (removeServer cid block s nm) := by
  unfold Scheduler.removeServer
  have hblock : Inv (if block then { s with blockCss := s.blockCss ++ [nm] } else s) := by
    split
    · exact h.elsewhere hs rfl rfl
    · exact hs
  generalize (if block then { s with blockCss := s.blockCss ++ [nm] } else s) = t at hblock
  have htouch : Ends (fun _ => True) (fun _ => True) (t.css.forM t.touch) := .any fun _ => trivial
  refine htouch.bind fun _ _ => ?_
  cases t.css.find? fun other => (t.conn other).matchesName nm with
  | none => exact .pure hblock
  | some other =>
    refine (h.sendText hblock cid).bind fun r hr => ?_
    exact .ite (fun _ => hend other hr) fun _ => .pure hr

theorem handleCommand (hs : Inv s) (cid : ℕ) (cmd : Str) (l : List Str) :
    Ends (fun _ => True) (fun r => Inv r.1) (s.handleCommand cid cmd l) := by
  unfold Scheduler.handleCommand
  refine .ite (fun _ => h.listServers hs cid _) fun _ => ?_
  refine .ite (fun _ => h.sendEach hs cid _) fun _ => ?_
  refine .ite (fun _ => h.sendEach hs cid _) fun _ => ?_
  refine .ite (fun _ => .ite (fun _ => h.sendText hs cid) fun _ => ?_) fun _ => ?_
  · have hloop : Ends (fun _ => True) Inv
        (l.foldlM (Scheduler.removeServer cid (cmd = str "blockcs")) s) :=
      Ends.foldlM (fun _ => Inv) hs fun nm _ t ht => h.removeServer hend ht cid _ nm
    exact hloop.bind fun t ht => .pure ht
  · refine .ite (fun _ => .ite (fun _ => h.sendText hs cid) fun _ => .pure ?_) fun _ => ?_
    · exact h.elsewhere hs rfl rfl
    · exact .ite (fun _ => h.askInternals hs cid l _) fun _ => h.sendText hs cid

theorem handleLine (hs : Inv s) (cid : ℕ) (text : Str) :
    Ends (fun _ => True) (fun r => Inv r.1) (s.handleLine cid text) := by
  unfold Scheduler.handleLine
  refine (touch_any s cid).bind fun _ _ => ?_
  have hput : Inv (s.asked.put { s.conn cid with lastTalk := s.now }) :=
    h.modify (h.asked hs) cid _ (conn_cid s cid) rfl rfl
  refine .ite (fun _ => (hend cid hput).bind fun t ht => .pure ht) fun _ => ?_
  refine (h.handleCommand hend hput cid _ _).bind fun r hr => ?_
  exact .ite (fun _ => h.sendText hr cid) fun _ => .pure hr

/-- The messages that the gauges depend on -/
def gauging : Msg → Bool
  | .login _ | .getCS _ | .jobBegin _ | .jobDone _ | .stats _ => true
  | _ => false

theorem dispatch (hs : Inv s) (cid : ℕ) {m : Msg} (hm : gauging m = false) :
    Ends (fun _ => True) (fun r => Inv r.1) (s.dispatch cid m) := by
  cases m with
  | ping => exact h.handlePing hs cid
  | jobLocalBegin m => exact h.handleLocalJob hs cid m
  | jobLocalDone id => exact h.handleLocalJobDone hs cid id
  | text t => exact h.handleLine hend hs cid t
  | blacklistHostEnv m => exact h.handleBlacklistHostEnv hs cid m
  | login m | getCS m | jobBegin m | jobDone m | stats m => cases hm
  | _ => exact (hend cid hs).bind fun t ht => .pure ht

/-- A message that the gauges depend on is left open where its sender is logged in. -/
theorem handleActivity (hs : Inv s) (cid : ℕ) (msg : Option Msg)
    (hgauging : ∀ m, msg = some m → gauging m = true → (s.conn cid).state ≠ .connected →
      Ends (fun _ => True) (fun r => Inv r.1)
        (Scheduler.dispatch (s.note (.received cid msg)) cid m)) :
    Ends (fun _ => True) (fun r => Inv r.1) (s.handleActivity cid msg) := by
  unfold Scheduler.handleActivity
  refine (touch_any s cid).bind fun _ _ => ?_
  have hnote := h.note hs (.received cid msg)
  cases msg with
  | none => exact (hend cid hnote).bind fun t ht => .pure ht
  | some m =>
    refine .ite (fun _ => h.tryLogin hend hnote cid m) fun hstate => ?_
    cases hm : gauging m with
    | true => exact hgauging m rfl hm hstate
    | false => exact h.dispatch hend hnote cid hm

theorem pingServer (hs : Inv s) (cid : ℕ) : Ends (fun _ => True) Inv (s.pingServer cid) := by
  unfold Scheduler.pingServer
  refine .ite (fun _ => .pure hs) fun _ => .ite (fun _ => hend cid hs) fun _ => ?_
  have hput : Inv (s.put { s.conn cid with maxJobs := -(s.conn cid).maxJobs }) :=
    h.modify hs cid _ (conn_cid s cid) rfl rfl
  refine (h.send hput cid .ping).bind fun r hr => .ite (fun _ => .pure ?_) fun _ => hend cid hr
  exact h.modify (h.asked hr) cid _ (conn_cid r.1 cid) rfl rfl

theorem pruneServers (hs : Inv s) : Ends (fun _ => True) Inv s.pruneServers := by
  unfold Scheduler.pruneServers
  have hcontrols : Ends (fun _ => True) Inv (s.controls.foldlM pruneControl s.asked) := by
    refine Ends.foldlM (fun _ => Inv) (h.asked hs) fun cid _ t ht => ?_
    unfold pruneControl
    refine (touch_any t cid).bind fun _ _ => ?_
    exact .ite (fun _ => hend cid ht) fun _ => .pure ht
  refine hcontrols.bind fun t ht => Ends.foldlM (fun _ => Inv) ht fun cid _ u hu => ?_
  unfold pruneServer
  refine (touch_any u cid).bind fun _ _ => ?_
  have htest := h.startInConnectionTest hu cid
  refine .ite (fun _ => hend cid htest) fun _ => .ite (fun _ => .pure htest) fun _ => ?_
  exact h.pingServer hend htest cid

theorem acceptControl (hs : Inv s) (fd address : ℕ) (name : Str) :
    Ends (fun _ => True) (fun r => Inv r.1) (s.acceptControl fd address name) := by
  unfold Scheduler.acceptControl
  have hjoin := h.join
    { cid := s.newCid, fd := fd, name := name, address := address, protocol := 0
      maximumRemoteProtocol := 0, lastTalk := s.now, type := .line, state := .loggedIn } hs rfl rfl rfl
  have hlisted : ∀ t : Scheduler, Inv t → Inv { t with controls := t.controls ++ [s.newCid] } :=
    fun t ht => h.elsewhere ht rfl rfl
  refine (h.sendText (hlisted _ (h.require hjoin .controlListed _)) s.newCid).bind fun r hr => ?_
  refine .ite (fun _ => .pure hr) fun _ => ?_
  exact (hend s.newCid hr).bind fun u hu => .pure hu

omit h in
theorem disconnectAll (hs : Inv s) : Ends (fun _ => True) Inv s.disconnectAll := by
  have hservers : ∀ (n : ℕ) {s : Scheduler}, Inv s → Ends (fun _ => True) Inv (endServers n s) := by
    intro n
    induction n with
    | zero => exact fun hs => .pure hs
    | succ n ih =>
      intro s hs
      unfold endServers
      split
      · exact .pure hs
      · exact (hend _ hs).bind fun t ht => ih ht
  have hmonitors : ∀ (n : ℕ) {s : Scheduler}, Inv s →
      Ends (fun _ => True) Inv (endMonitors n s) := by
    intro n
    induction n with
    | zero => exact fun hs => .pure hs
    | succ n ih =>
      intro s hs
      unfold endMonitors
      split
      · exact .pure hs
      · exact (hend _ hs).bind fun t ht => ih ht
  unfold Scheduler.disconnectAll
  exact (hservers _ hs).bind fun t ht => hmonitors _ ht

omit h in
theorem handleDatagram (hs : Inv s) (buf : Bytes) :
    Ends (fun _ => True) Inv (s.handleDatagram buf) := by
  unfold Scheduler.handleDatagram
  refine .ite (fun _ => ?_) fun _ => .pure hs
  unfold handleSchedulerAnnounce
  exact .ite (fun _ => disconnectAll hend hs) fun _ => .pure hs

end

/-! ## Where one gauge may change -/

/-- What a connection is told of its clients does not matter. -/
theorem dispatchCounting
    (hend : ∀ {s : Scheduler} (cid : ℕ), Inv s → Ends (fun _ => True) Inv (s.handleEnd cid))
    (hcount : ∀ {s : Scheduler} (c : CompileServer), Inv s →
      c.busyInstalling = (s.conn c.cid).busyInstalling →
      c.lastPickedId = (s.conn c.cid).lastPickedId → c.tallies = (s.conn c.cid).tallies →
      Inv (s.put c))
    (hs : Inv s) (cid : ℕ) {m : Msg} (hm : ∀ l, m ≠ .login l) :
    Ends (fun _ => True) (fun r => Inv r.1) (s.dispatch cid m) := by
  have hset : ∀ {t : Scheduler} (n : UInt32), Inv t →
      Ends (fun _ => True) Inv (t.setClientCount cid n) := by
    intro t n ht
    unfold setClientCount
    refine (touch_any t cid).bind fun _ _ => .pure (hcount _ ht ?_ ?_ ?_)
    · simp only [conn_cid]
    · simp only [conn_cid]
    · simp only [conn_cid]
      rfl
  cases hgauging : gauging m with
  | false => exact h.dispatch hend hs cid hgauging
  | true =>
    cases m with
    | login l => exact absurd rfl (hm l)
    | getCS m => exact h.handleCsRequest (hset m.clientCount hs)
    | jobBegin m =>
      cases hfind : s.findJob m.jobId with
      | none =>
        simp only [Scheduler.dispatch, Scheduler.handleJobBegin, hfind]
        exact .pure hs
      | some ptr =>
        by_cases hserver : (s.job ptr).server = some cid
        · exact h.handleJobBegin hfind hserver (hset m.clientCount hs)
        · simp only [Scheduler.dispatch, Scheduler.handleJobBegin, hfind]
          exact (touchJob_any s ptr).bind fun _ _ => .ite (fun _ => .pure hs) fun heq =>
            absurd (not_not.mp heq) hserver
    | jobDone m =>
      simp only [Scheduler.dispatch, handleJobDone]
      refine (h.jobOfDone hs cid m).bind fun ⟨⟨t, found⟩, m⟩ ht => ?_
      cases found with
      | none => exact .pure ht
      | some ptr =>
        refine (touchJob_any t ptr).bind fun _ hlive => ?_
        have htouch : Ends (fun _ => True) (fun _ => True) (t.touchServer (t.job ptr)) :=
          .any fun _ => trivial
        refine .ite (fun _ => htouch.bind fun _ _ => ?_) fun _ => ?_
        · exact (hend cid ht).bind fun u hu => .pure hu
        · refine .ite (fun _ => (touch_any t _).bind fun _ _ => ?_) fun _ => ?_
          · exact (hend cid ht).bind fun u hu => .pure hu
          · exact (h.finishJob hlive (hset m.clientCount ht)).bind fun u hu => .pure hu
    | stats m =>
      simp only [Scheduler.dispatch, handleStats]
      have hping : Ends (fun _ => True) Inv
          (if (s.conn cid).protocol < 25 then Prod.fst <$> s.handlePing cid else pure s) :=
        .ite (fun _ => (h.handlePing hs cid).map fun r hr => hr) fun _ => .pure hs
      refine hping.bind fun t ht => .ite (fun _ => ?_) fun _ => .pure ht
      refine (touch_any t cid).bind fun _ _ => ?_
      have hput := hcount { t.conn cid with
        load := m.load, clientCount := m.clientCount.toInt32.toInt } ht (by simp only [conn_cid])
        (by simp only [conn_cid]) (by simp only [conn_cid]; rfl)
      exact (h.handleMonitorStats hput cid).bind fun u hu => .pure hu
    | _ => cases hgauging

/-- The end of a connection, where `busyInstalling` does not matter -/
theorem handleEndBusy
    (hbusy : ∀ {s : Scheduler} (c : CompileServer), Inv s →
      c.gauges.2 = (s.conn c.cid).gauges.2 → c.tallies = (s.conn c.cid).tallies → Inv (s.put c))
    (cid : ℕ) (hs : Inv s) : Ends (fun _ => True) Inv (s.handleEnd cid) :=
  h.handleEnd hs (fun ptr ht _ => h.dropQueued ht ptr hbusy)
    fun _ ht hlive _ => h.dropJob ht cid hlive hbusy

theorem handleRelogin (cid : ℕ) (m : LoginMsg)
    (hput : Inv (s.put { s.conn cid with compilerVersions := m.envs, busyInstalling := 0 })) :
    Ends (fun _ => True) (fun r => Inv r.1) (s.handleRelogin cid m) := by
  unfold Scheduler.handleRelogin
  refine (touch_any s cid).bind fun _ _ => ?_
  exact (h.configure hput cid).bind fun t ht => .pure ht

/-! ## The queue -/

omit h in
theorem removeJobRequest_subset (groups : List JobRequestsGroup) (pos : JobRequestPosition) :
    waiting (removeJobRequest groups pos) ⊆ waiting groups := by
  intro e he
  obtain ⟨g, hg, hsubmitter, hin⟩ := mem_waiting.mp he
  simp only [removeJobRequest] at hg
  split at hg
  · exact mem_waiting.mpr ⟨g, hg, hsubmitter, hin⟩
  · next group hgroup =>
    have hmem := List.mem_of_getElem? hgroup
    have hrest : ∀ a ∈ groups.eraseIdx pos.1, a ∈ groups := fun a => List.mem_of_mem_eraseIdx
    split at hg
    · exact mem_waiting.mpr ⟨g, hrest g hg, hsubmitter, hin⟩
    · rcases List.mem_cons.mp ((enqueueJobRequestsGroup_perm _ _).mem_iff.mp hg) with rfl | hold
      · exact mem_waiting.mpr ⟨group, hmem, hsubmitter, List.mem_of_mem_erase hin⟩
      · exact mem_waiting.mpr ⟨g, hrest g hold, hsubmitter, hin⟩

/-- The request at `useCs` has been answered; what the server notes of it is left open. -/
theorem settle {j : Job} {useCs : ℕ} (hgive : Inv (s.put { s.conn useCs with
      lastPickedId := j.id, jobList := (s.conn useCs).jobList ++ [j.ptr] })) (gotit : Bool)
    (hset : ∀ {t : Scheduler}, Inv t → t.live useCs = true →
      Inv (t.asked.put { t.conn useCs with busyInstalling := t.now })) :
    Ends (fun _ => True) Inv (s.settle j useCs gotit) := by
  unfold Scheduler.settle appendJob
  rw [bind_assoc]
  refine (touch_any s useCs).bind fun _ _ => ?_
  rw [pure_bind]
  generalize s.put { s.conn useCs with
    lastPickedId := j.id, jobList := (s.conn useCs).jobList ++ [j.ptr] } = t at hgive
  have hbusy : Ends (fun _ => True) Inv
      (if gotit then pure t else t.asked.setBusyInstalling useCs t.now) := by
    refine .ite (fun _ => .pure hgive) fun _ => ?_
    unfold setBusyInstalling
    exact (touch_any t.asked useCs).bind fun _ hlive => .pure (hset hgive hlive)
  refine hbusy.bind fun u hu => .ite (fun _ => .pure hu) fun _ => ?_
  refine Ends.foldlM (fun _ => Inv) hu fun ptr _ v hv => ?_
  unfold shareEnvironment
  exact (touchJob_any v ptr).bind fun _ hlive => .pure (h.reword hv hlive _ rfl)

/-- `hgiven` is about the job once it is out of the queue and has its server. -/
theorem assign (ptr useCs : ℕ) (pos : JobRequestPosition)
    (hgiven : s.liveJob ptr = true → Inv (Scheduler.putJob
      { s with jobRequests := removeJobRequest s.jobRequests pos }
      { s.job ptr with state := .waitingForCS, server := some useCs }))
    (hgive : ∀ {t : Scheduler}, Inv t → Inv (t.put { t.conn useCs with
      lastPickedId := (s.job ptr).id, jobList := (t.conn useCs).jobList ++ [(s.job ptr).ptr] }))
    (hset : ∀ {t : Scheduler}, Inv t → t.live useCs = true →
      Inv (t.asked.put { t.conn useCs with busyInstalling := t.now }))
    (hend : ∀ {t : Scheduler}, Inv t →
      Ends (fun _ => True) Inv (t.handleEnd (s.job ptr).submitter)) :
    Ends (fun _ => True) Inv (s.assign ptr useCs pos) := by
  unfold Scheduler.assign
  refine (touchJob_any _ ptr).bind fun _ hlive => ?_
  refine (touch_any _ useCs).bind fun _ _ => (touch_any _ _).bind fun _ _ => ?_
  refine (h.send (hgiven hlive) _ _).bind fun r hr => ?_
  exact .ite (fun _ => h.settle (hgive hr) _ hset) fun _ => hend hr

theorem emptyQueue (hs : Inv s)
    (hend : ∀ {s : Scheduler} (cid : ℕ), Inv s → Ends (fun _ => True) Inv (s.handleEnd cid))
    (hbusy : ∀ {s : Scheduler} (c : CompileServer), Inv s →
      c.gauges.2 = (s.conn c.cid).gauges.2 → c.tallies = (s.conn c.cid).tallies → Inv (s.put c))
    (hgive : ∀ {s : Scheduler} (c : CompileServer), Inv s →
      c.busyInstalling = (s.conn c.cid).busyInstalling →
      c.clientCount = (s.conn c.cid).clientCount → c.tallies = (s.conn c.cid).tallies →
      Inv (s.put c))
    (hplace : ∀ {s : Scheduler} (ptr useCs : ℕ), Inv s → s.liveJob ptr = true →
      Inv (s.putJob { s.job ptr with state := .waitingForCS, server := some useCs })) :
    Ends (fun _ => True) (fun r => Inv r.1) s.emptyQueue := by
  refine emptyQueue_chosen (fun n log => h.elsewhere hs rfl rfl) fun n log pos useCs _ _ _ => ?_
  have hsearched : Inv { s with calls := n, log := log } := h.elsewhere hs rfl rfl
  refine h.assign pos.2 useCs pos (fun hlive => hplace pos.2 useCs ?_ hlive) (fun hv => ?_) ?_ ?_
  · exact h.aside hsearched rfl rfl rfl rfl rfl rfl (removeJobRequest_subset _ pos)
  · refine hgive _ hv ?_ ?_ ?_
    · simp only [conn_cid]
    · simp only [conn_cid]
    · simp only [conn_cid]
      rfl
  · intro v hv _
    refine hbusy _ (h.asked hv) ?_ ?_
    · rw [conn_cid]
      rfl
    · rw [conn_cid]
      rfl
  · exact fun hv => hend _ hv

end Abiding

end Scheduler

namespace Loop

open Scheduler

variable {Inv : Scheduler → Prop} {l l' : Loop} {e : Event}

/-- A step other than a call of `empty_queue`, or a message on which the gauges depend -/
theorem step_abiding (h : Abiding Inv)
    (hend : ∀ {s : Scheduler} (cid : ℕ), Inv s → Ends (fun _ => True) Inv (s.handleEnd cid))
    (hs : Inv l.scheduler) (hqueue : e ≠ .emptyQueue)
    (hgauging : ∀ cid m, l.handled e = some (cid, m) → Abiding.gauging m = true →
      (l.scheduler.conn cid).state ≠ .connected → Ends (fun _ => True) (fun r => Inv r.1)
        (Scheduler.dispatch (l.scheduler.note (.received cid (some m))) cid m))
    {x : Except Fault Loop} (hstep : l.step e = some x) :
    Ends (fun _ => True) (fun l' => Inv l'.scheduler) x := by
  cases e with
  | prune =>
    simp only [step, Option.ite_none_right_eq_some, Option.some.injEq] at hstep
    obtain ⟨-, rfl⟩ := hstep
    exact (h.pruneServers hend hs).bind fun t ht => .pure ht
  | emptyQueue => exact absurd rfl hqueue
  | activity msg =>
    simp only [step, Option.bind_eq_some_iff, Option.ite_none_right_eq_some, Option.some.injEq,
      Prod.exists] at hstep
    obtain ⟨cid, rest, hcurrent, -, rfl⟩ := hstep
    refine (h.handleActivity hend hs cid msg fun m hm => ?_).bind fun r hr => .pure hr
    subst hm
    exact hgauging cid m (by simp [handled, hcurrent])
  | idle =>
    obtain ⟨⟨cid, rest⟩, -, rfl⟩ := Option.map_eq_some_iff.mp hstep
    exact (touch_any l.scheduler cid).bind fun _ _ => .pure hs
  | advance =>
    simp only [step] at hstep
    split at hstep
    · cases hstep
      have htouch : Ends (fun _ => True) (fun _ => True)
          (l.scheduler.css.forM l.scheduler.touch) := .any fun _ => trivial
      exact htouch.bind fun _ _ => .pure hs
    · cases hstep
      unfold Loop.advance
      split
      · exact .throw trivial
      · exact .pure hs
    · cases hstep
      exact .pure hs
    · cases hstep
      unfold Loop.advance
      split
      · exact .throw trivial
      · exact .pure hs
    · cases hstep
  | accept fd address name protocol maximumRemoteProtocol =>
    simp only [step] at hstep
    split at hstep
    · simp only [Option.ite_none_right_eq_some, Option.some.injEq] at hstep
      obtain ⟨-, rfl⟩ := hstep
      exact .pure (h.join _ hs rfl rfl rfl)
    · cases hstep
  | acceptControl fd address name =>
    simp only [step] at hstep
    split at hstep
    · simp only [Option.ite_none_right_eq_some, Option.some.injEq] at hstep
      obtain ⟨-, rfl⟩ := hstep
      exact (h.acceptControl hend hs fd address name).bind fun r hr => .pure hr
    · cases hstep
  | datagram buf =>
    simp only [step] at hstep
    split at hstep
    · cases hstep
      exact (Abiding.handleDatagram hend hs buf).bind fun t ht => .pure ht
    · cases hstep
  | tested connected =>
    simp only [step] at hstep
    split at hstep
    · cases hstep
      exact .pure hs
    · cases hstep
      exact (h.finishTest hs _ connected).bind fun t ht => .pure ht
    · cases hstep
  | _ =>
    simp only [step] at hstep
    split at hstep
    · cases hstep
      exact .pure hs
    · cases hstep

theorem next_abiding (h : Abiding Inv)
    (hend : ∀ {s : Scheduler} (cid : ℕ), Inv s → Ends (fun _ => True) Inv (s.handleEnd cid))
    (hs : Inv l.scheduler) (hqueue : e ≠ .emptyQueue)
    (hgauging : ∀ cid m, l.handled e = some (cid, m) → Abiding.gauging m = true →
      (l.scheduler.conn cid).state ≠ .connected → Ends (fun _ => True) (fun r => Inv r.1)
        (Scheduler.dispatch (l.scheduler.note (.received cid (some m))) cid m))
    (hnext : l.next e = some l') : Inv l'.scheduler := by
  obtain ⟨x, hx, hok⟩ := Option.bind_eq_some_iff.mp hnext
  exact (step_abiding h hend hs hqueue hgauging hx).of_ok (ok_of_toOption hok)

/-- An invariant that neither gauge nor the server of a job bears on -/
theorem next_endures (h : Abiding Inv) (hput : ∀ {s : Scheduler} (c : CompileServer), Inv s →
      c.tallies = (s.conn c.cid).tallies → Inv (s.put c))
    (hplace : ∀ {s : Scheduler} (ptr useCs : ℕ), Inv s → s.liveJob ptr = true →
      Inv (s.putJob { s.job ptr with state := .waitingForCS, server := some useCs }))
    (hs : Inv l.scheduler) (hnext : l.next e = some l') : Inv l'.scheduler := by
  have hend : ∀ {s : Scheduler} (cid : ℕ), Inv s → Ends (fun _ => True) Inv (s.handleEnd cid) :=
    fun cid hs => h.handleEndBusy (fun c hs _ => hput c hs) cid hs
  by_cases hqueue : e = .emptyQueue
  · subst hqueue
    obtain ⟨again, hr⟩ := next_emptyQueue hnext
    exact (h.emptyQueue hs hend (fun c hs _ => hput c hs) (fun c hs _ _ => hput c hs) hplace).of_ok hr
  · refine next_abiding h hend hs hqueue (fun cid m _ _ _ => ?_) hnext
    have hnote := h.note hs (.received cid (some m))
    cases m with
    | login m =>
      refine h.handleRelogin cid m (hput _ hnote ?_)
      simp only [conn_cid]
      rfl
    | _ => exact h.dispatchCounting hend (fun c hs _ _ => hput c hs) hnote cid (by simp)

end Loop

end Icecream.IceccScheduler
