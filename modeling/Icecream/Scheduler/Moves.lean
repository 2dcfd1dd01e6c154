import Icecream.Scheduler.Holdings

/-!
# What a turn does to jobs and requests

A step of the main loop is a sequence of changes to the jobs, the queue and the servers'
lists, each of which leaves the containers in order. The queue is served in a step of its
own, which gives the first request a server.
-/

namespace Icecream.IceccScheduler

open Icecream.Comm
open Icecream.Fault

/-- Who a job belongs to and how nice it is -/
def Job.label (j : Job) : (ℕ × UInt32 × ℕ × Option ℕ) × ℤ := (j.ties, j.niceness)

namespace Scheduler

variable {mode : Mode} {tidy : Prop} {s t u : Scheduler} {cid ptr : ℕ}

/-- Whoever is there has the list he had, or comes with an empty one. -/
def Joins (s t : Scheduler) : Prop :=
  ∀ x, t.live x = true → (t.conn x).jobList = [] ∨
    (s.live x = true ∧ (t.conn x).jobList = (s.conn x).jobList)

/-- The job leaves the list of its server. -/
def Dismisses (server : Option ℕ) (ptr x : ℕ) (c d : CompileServer) : Prop :=
  d.jobList = if server = some x then c.jobList.filter (· ≠ ptr) else c.jobList

/-- One change. A finished job is out of the queue as long as the run is `tidy`. -/
inductive Change (tidy : Prop) (s t : Scheduler) : Prop
  | still (heap : t.heap.map Job.label = s.heap.map Job.label)
      (jobRequests : t.jobRequests = s.jobRequests) (lists : Joins s t)
  | ended (cid : ℕ) (h : s.handleEnd cid = .ok t)
  | requested (j : Job) (server : j.server = none) (fresh : ∀ i ∈ s.heap, i.ptr ≠ j.ptr)
      (heap : t.heap = j :: s.heap)
      (jobRequests : t.jobRequests =
        enqueueJobRequest j.ptr j.submitter j.niceness s.jobRequests)
      (lists : Conns Matches s t)
  | withdrawn (cid ptr : ℕ) (heap : t.heap = s.heap)
      (jobRequests : t.jobRequests = dequeue cid ptr s.jobRequests) (conns : t.conns = s.conns)
  | finished (ptr : ℕ) (gone : tidy → ∀ g ∈ s.jobRequests, ptr ∉ g.l)
      (heap : t.heap = s.heap.filter fun j => j.ptr ≠ ptr)
      (jobRequests : t.jobRequests = s.jobRequests)
      (lists : Conns (Dismisses (s.job ptr).server ptr) s t)

def Moves (tidy : Prop) : Scheduler → Scheduler → Prop :=
  Relation.ReflTransGen fun s t => Facts Loop.anyMode [] t ∧ Change tidy s t

theorem Moves.single (h : Change tidy s t) (ht : Facts Loop.anyMode [] t) : Moves tidy s t :=
  Relation.ReflTransGen.single ⟨ht, h⟩

theorem Moves.facts (h : Moves tidy s t) (hs : Facts Loop.anyMode [] s) :
    Facts Loop.anyMode [] t := by
  rcases h.cases_tail with rfl | ⟨_, -, hlast⟩
  · exact hs
  · exact hlast.1

/-! ## Calm operations -/

theorem Joins.of_conns (h : Conns Matches s t) : Joins s t := fun x hx =>
  .inr ⟨(h x hx).1, (h x hx).2.1⟩

theorem Joins.of_eq (h : t.conns = s.conns) : Joins s t :=
  .of_conns (.of_eq (fun _ _ => ⟨rfl, rfl⟩) h)

theorem label_of_core (h : t.heap.map Job.core = s.heap.map Job.core) :
    t.heap.map Job.label = s.heap.map Job.label := by
  have hlabel : Job.label = (fun c => (c.1, c.2.1)) ∘ Job.core := rfl
  rw [hlabel, ← List.map_map, ← List.map_map, h]

theorem Idle.joins (h : Idle s t) (hs : Peers [] s) : Joins s t := by
  intro x hx
  obtain ⟨hmem, hcid⟩ := conn_mem hx
  have hheld := h.holdings.subset (List.mem_map_of_mem (f := CompileServer.holdings) hmem)
  obtain ⟨c, hc, hsame⟩ := List.mem_map.mp hheld
  simp only [CompileServer.holdings, Prod.mk.injEq] at hsame
  have hlive : s.live x = true := by
    rw [live, List.any_eq_true]
    exact ⟨c, hc, by simp [hsame.1, hcid]⟩
  have hself : c = s.conn x := by
    have hnd := hs.cids
    rw [map_cid] at hnd
    apply List.inj_on_of_nodup_map hnd hc (conn_mem hlive).1
    rw [hsame.1, hcid, conn_cid]
  exact .inr ⟨hlive, by rw [← hself, hsame.2]⟩

theorem Calm.moves (h : Calm mode s t) (hs : Facts mode [] s) : Moves tidy s t := by
  have hboth : Facts mode [] t ∧ Moves tidy s t := by
    induction h with
    | refl => exact ⟨hs, .refl⟩
    | tail _ hpiece ih =>
      obtain ⟨hfacts, hidle | ⟨cid, hend⟩⟩ := hpiece
      · refine ⟨hfacts, ih.2.tail ⟨hfacts.any, ?_⟩⟩
        exact .still (label_of_core hidle.heap) hidle.jobRequests (hidle.joins ih.1.peers)
      · exact ⟨hfacts, ih.2.tail ⟨hfacts.any, .ended cid hend⟩⟩
  exact hboth.2

theorem Still.moves (h : Still s t) (hs : Facts Loop.anyMode [] s) : Moves tidy s t := by
  have hcalms : Calms Loop.anyMode (fun _ => False) s t := .aside h.toAside hs
  exact hcalms.calm.moves hs

theorem handleEnd_moves (tidy : Prop) (hs : Facts Loop.anyMode [] s) :
    Ends (fun _ => True) (Moves tidy s) (s.handleEnd cid) := by
  have hcalms : Ends (tolerated Loop.anyMode) (Calms Loop.anyMode (fun _ => True) s)
      (s.handleEnd cid) := handleEnd_calms hs (fun hf => hf.elim) trivial
  exact (hcalms.weaken fun _ _ => trivial).mono fun t ht => ht.calm.moves hs

/-! ## Requests -/

theorem requestJob_matches (m : GetCSMsg) {j : Job} (h : Peers [] s)
    (hlive : s.live j.submitter = true) :
    Ends (fun _ => True) (Conns Matches s) (s.requestJob j.submitter m j) := by
  rw [requestJob_eq m hlive]
  refine ((notifyMonitors_matches (entered_peers m j h) rfl).weaken fun _ hf => hf.elim).mono
    fun t ht => ?_
  refine Conns.trans (t := s.entered m j) ?_ ht
  exact Conns.matched (s := s) { s.conn j.submitter with
    submittedJobsCount := (s.conn j.submitter).submittedJobsCount + 1 } (conn_cid s _) rfl rfl

theorem requestJob_moves (tidy : Prop) (m : GetCSMsg) (h : Facts Loop.anyMode [] s) :
    Ends (fun _ => True) (fun t => Facts Loop.anyMode [] t ∧ Moves tidy s t)
      (s.requestJob cid m (s.requestedJob cid m)) := by
  have hqueues : Ends (fun _ => cid ∉ s.css) (Queues m (s.requestedJob cid m) s)
      (s.requestJob cid m (s.requestedJob cid m)) := requestJob_queues m h
  have hlists : Ends (fun _ => True) (fun t => s.live cid = true → Conns Matches s t)
      (s.requestJob cid m (s.requestedJob cid m)) := by
    by_cases hlive : s.live cid = true
    · exact (requestJob_matches m (j := s.requestedJob cid m) h.peers hlive).mono fun t ht _ => ht
    · exact .any fun t hno => absurd hno hlive
  refine ((hqueues.weaken fun _ _ => trivial).and hlists).mono fun t ht => ⟨ht.1.facts, .single ?_ ht.1.facts⟩
  refine .requested (s.requestedJob cid m) rfl (fun i hi => ?_) ht.1.heap ht.1.jobRequests
    (ht.2 ht.1.live)
  exact (h.tasks.fresh i hi).ne

theorem appendMaster_moves (tidy : Prop) {master : ℕ} (h : Facts Loop.anyMode [] s) :
    Ends (fun _ => True) (fun t => Facts Loop.anyMode [] t ∧ Moves tidy s t)
      (s.appendMaster master ptr) := by
  have hleaves : Ends (tolerated Loop.anyMode) (fun t => Leaves Loop.anyMode (fun _ => False) s t ∧
      t.newJobId = s.newJobId ∧ t.jobs = s.jobs ∧ t.css = s.css) (s.appendMaster master ptr) :=
    appendMaster_leaves h
  have hstill : Ends (fun _ => True) (Change tidy s) (s.appendMaster master ptr) := by
    unfold appendMaster
    refine (touchJob_any s master).bind fun _ hjob => .pure (.still ?_ rfl (.of_eq rfl))
    exact putJob_map _ master h.tasks.ptrs (job_mem hjob).2 rfl
  refine ((hleaves.weaken fun _ _ => trivial).and hstill).mono fun t ht => ?_
  exact ⟨ht.1.1.facts, .single ht.2 ht.1.1.facts⟩

theorem requestJobs_moves (tidy : Prop) (m : GetCSMsg) {n : ℕ} {master : Option ℕ}
    (h : Facts Loop.anyMode [] s) :
    Ends (fun _ => True) (Moves tidy s) (requestJobs cid m n master s) := by
  induction n generalizing s master with
  | zero => exact .pure .refl
  | succ n ih =>
    simp only [requestJobs]
    refine (requestJob_moves tidy m h).bind fun t ht => ?_
    cases master with
    | none => exact (ih ht.1).mono fun u hu => ht.2.trans hu
    | some master =>
      refine (appendMaster_moves tidy ht.1).bind fun u hu => (ih hu.1).mono fun v hv => ?_
      exact (ht.2.trans hu.2).trans hv

theorem handleCsRequest_moves (tidy : Prop) (m : GetCSMsg) (h : Facts Loop.anyMode [] s) :
    Ends (fun _ => True) (fun r => Moves tidy s r.1) (s.handleCsRequest cid m) := by
  unfold handleCsRequest
  have hcount : Ends (tolerated Loop.anyMode) (Still s) (s.setClientCount cid m.clientCount) :=
    setClientCount_still m.clientCount h.peers fun hf => hf.elim
  refine (hcount.weaken fun _ _ => trivial).bind fun t ht => ?_
  refine (requestJobs_moves tidy m (ht.toAside.facts h)).bind fun u hu => .pure ?_
  exact (ht.moves h).trans hu

/-! ## Finished jobs -/

/-- The job is done but its submitter has not been told of a server yet. -/
def Premature (s : Scheduler) (cid : ℕ) (m : JobDoneMsg) : Prop :=
  m.unknownJobClientId = 0 ∧ m.isFromServer = false ∧ m.exitcode ≠ 0 ∧
    ∃ ptr ∈ s.findJob m.jobId, (s.job ptr).submitter = cid ∧ ∃ g ∈ s.jobRequests, ptr ∈ g.l

/-- The job that has been found is out of the queue. -/
def Cleared (r : Scheduler × Option ℕ) : Prop :=
  Grouped r.1.jobRequests ∧ ∀ ptr ∈ r.2, ∀ g ∈ r.1.jobRequests, ptr ∉ g.l

theorem Tasks.grouped {g : JobRequestsGroup} (h : Tasks mode [] s) (hg : g ∈ s.jobRequests)
    (hptr : ptr ∈ g.l) (hjob : s.liveJob ptr = true) :
    (s.job ptr).submitter = g.submitter ∧ (s.job ptr).server = none := by
  obtain ⟨hmem, hsame⟩ := job_mem hjob
  exact h.queued (g.submitter, ptr) (mem_waiting.mpr ⟨g, hg, rfl, hptr⟩) _ hmem hsame

theorem cancelQueued_moves {clientId : UInt32} {found : Option ℕ} {e : UInt32 × ℕ}
    (h : Facts Loop.anyMode [] s) (hcleared : tidy → Cleared (s, found)) :
    Ends (fun _ => True) (fun r => Moves tidy s r.1 ∧ (tidy → Cleared r) ∧
      Facts Loop.anyMode [] r.1) (cancelQueued cid clientId (s, found) e) := by
  have hleaves : Ends (tolerated Loop.anyMode) (fun r => Leaves Loop.anyMode (fun _ => False) s r.1 ∧
      r.1.conns = s.conns ∧ r.1.jobs = s.jobs ∧ r.1.heap = s.heap ∧
      (r.2 = found ∨ r.2 = some e.2)) (cancelQueued cid clientId (s, found) e) :=
    cancelQueued_leaves h
  have hchange : Ends (fun _ => True) (fun r => Change tidy s r.1 ∧ (tidy → Cleared r))
      (cancelQueued cid clientId (s, found) e) := by
    unfold cancelQueued
    refine (touchJob_any s e.2).bind fun _ hjob => ?_
    refine .ite (fun hmine => .pure ⟨.withdrawn cid e.2 rfl rfl rfl, fun htidy => ⟨?_, ?_⟩⟩)
      fun _ => .pure ⟨.still rfl rfl (.of_eq rfl), hcleared⟩
    · exact dequeue_grouped cid e.2 (hcleared htidy).1
    · intro ptr hptr
      obtain rfl : e.2 = ptr := Option.some.inj hptr
      refine dequeue_gone (hcleared htidy).1.nonempty h.tasks.queue fun g hg hin => ?_
      exact (h.tasks.grouped hg hin hjob).1.symm.trans hmine.2.1
  refine (hchange.and (hleaves.weaken fun _ _ => trivial)).mono fun r hr => ?_
  exact ⟨.single hr.1.1 hr.2.1.facts, hr.1.2, hr.2.1.facts⟩

theorem jobOfDone_moves (m : JobDoneMsg) (h : Facts Loop.anyMode [] s)
    (hgrouped : tidy → Grouped s.jobRequests) :
    Ends (fun _ => True) (fun r => Moves tidy s r.1.1 ∧ Facts Loop.anyMode [] r.1.1 ∧
      ((tidy → Cleared r.1) ∨ (m.unknownJobClientId = 0 ∧ r = ((s, s.findJob m.jobId), m))))
      (s.jobOfDone cid m) := by
  unfold jobOfDone
  refine .ite (fun _ => ?_) fun hknown => ?_
  · have hfirst : Moves tidy s s ∧ (tidy → Cleared (s, none)) ∧ Facts Loop.anyMode [] s :=
      ⟨.refl, fun htidy => ⟨hgrouped htidy, fun ptr hptr => by cases hptr⟩, h⟩
    refine (Ends.foldlM (fun _ r => Moves tidy s r.1 ∧ (tidy → Cleared r) ∧
        Facts Loop.anyMode [] r.1) hfirst ?_).bind fun r hr => ?_
    · rintro e _ ⟨t, found⟩ ⟨hmoves, hcleared, hfacts⟩
      exact (cancelQueued_moves hfacts hcleared).mono fun r hr => ⟨hmoves.trans hr.1, hr.2⟩
    · cases hr2 : r.2 with
      | none => exact .pure ⟨hr.1, hr.2.2, .inl hr.2.1⟩
      | some ptr => exact .pure ⟨hr.1, hr.2.2, .inl hr.2.1⟩
  · exact .pure ⟨.refl, h, .inr ⟨not_not.mp hknown, rfl⟩⟩

theorem setClientCount_matches (s : Scheduler) (cid : ℕ) (count : UInt32) :
    Ends (fun _ => True) (Conns Matches s) (s.setClientCount cid count) := by
  unfold setClientCount
  exact (touch_any s cid).bind fun _ _ => .pure (.matched _ (conn_cid s cid) rfl rfl)

theorem countCompiled_matches (s : Scheduler) (cid : ℕ) (st : JobStat) :
    Ends (fun _ => True) (Conns Matches s) (s.countCompiled cid st) := by
  unfold countCompiled
  exact (touch_any s cid).bind fun _ _ => .pure (.matched _ (conn_cid s cid) rfl rfl)

theorem countRequested_matches (s : Scheduler) (cid : ℕ) (st : JobStat) :
    Ends (fun _ => True) (Conns Matches s) (s.countRequested cid st) := by
  unfold countRequested
  exact (touch_any s cid).bind fun _ _ => .pure (.matched _ (conn_cid s cid) rfl rfl)

theorem addJobStats_matches (s : Scheduler) (j : Job) (m : JobDoneMsg) :
    Ends (fun _ => True) (Conns Matches s) (s.addJobStats j m) := by
  unfold addJobStats
  refine .ite (fun _ => .pure (.refl s)) fun _ => ?_
  cases j.server with
  | none => exact .throw trivial
  | some server =>
    refine (countCompiled_matches s server _).bind fun t ht => ?_
    exact (countRequested_matches t j.submitter _).bind fun u hu => .pure (ht.trans hu)

theorem Conns.dismisses {server : Option ℕ} (h : Conns Matches s t)
    (h' : Conns (Dismisses server ptr) t u) : Conns (Dismisses server ptr) s u :=
  h.comp h' fun _ _ _ _ hfirst hlater => hlater.trans (by rw [hfirst.1])

theorem Conns.dismissed {server : Option ℕ} (h : Conns (Dismisses server ptr) s t)
    (h' : Conns Matches t u) : Conns (Dismisses server ptr) s u :=
  h.comp h' fun _ _ _ _ hfirst hlater => hlater.1.trans hfirst

theorem removeJob_dismisses (s : Scheduler) (server : Option ℕ) (ptr : ℕ) (h : Peers [] s) :
    Ends (fun _ => True) (fun t => Keeps (fun _ => False) s t ∧ Conns (Dismisses server ptr) s t)
      (match server with
        | some server => s.removeJob server ptr
        | none => pure s) := by
  cases server with
  | none => exact .pure ⟨(Aside.refl s).toKeeps, .of_eq (fun _ _ => rfl) rfl⟩
  | some server =>
    unfold removeJob
    refine (touch_any s server).bind fun _ _ => .pure ⟨.put server h.cids rfl rfl, .put ?_ ?_⟩
    · intro x hx d
      rw [conn_cid] at hx
      exact (if_neg fun heq => hx (Option.some.inj heq).symm).symm
    · rw [conn_cid]
      exact (if_pos rfl).symm

theorem finishJob_change {m : JobDoneMsg} (h : Facts Loop.anyMode [] s)
    (hgone : tidy → (s.job ptr).server = none → m.exitcode ≠ 0 → ∀ g ∈ s.jobRequests, ptr ∉ g.l)
    (hjob : s.liveJob ptr = true) :
    Ends (fun _ => True) (Change tidy s) (s.finishJob cid ptr m) := by
  unfold finishJob
  have hcount : Ends (tolerated Loop.anyMode) (Still s) (s.setClientCount cid m.clientCount) :=
    setClientCount_still m.clientCount h.peers fun hf => hf.elim
  refine ((setClientCount_matches s cid m.clientCount).and
    (hcount.weaken fun _ _ => trivial)).bind fun t ht => ?_
  have htpeers := ht.2.toAside.peers h.peers
  have hsame : t.job ptr = s.job ptr := by simp only [job, ht.2.heap]
  rw [hsame]
  have htouch : Ends (fun _ => True) (fun _ => m.exitcode = 0 → (s.job ptr).server ≠ none)
      (if m.exitcode = 0 then t.touchServer (s.job ptr) else pure ()) := by
    refine .ite (fun _ => ?_) fun hexit => .pure fun hzero => absurd hzero hexit
    unfold touchServer
    cases (s.job ptr).server with
    | none => exact .throw trivial
    | some server => exact (touch_any t server).mono fun _ _ _ => by simp
  refine htouch.bind fun _ hserved => ?_
  refine (removeJob_dismisses t (s.job ptr).server ptr htpeers).bind fun u hu => ?_
  have hupeers := hu.1.peers htpeers
  have hstats : Ends (tolerated Loop.anyMode) (Still u) (u.addJobStats (s.job ptr) m) :=
    addJobStats_still m hupeers (fun hf => hf.elim) fun hf => hf.elim
  refine ((addJobStats_matches u (s.job ptr) m).and
    (hstats.weaken fun _ _ => trivial)).bind fun v hv => ?_
  have hvpeers := hv.2.toAside.peers hupeers
  refine (told_aside hvpeers rfl).bind fun w hw => ?_
  refine (freed m.jobId ptr (hw.1.peers hvpeers)).mono fun x hx => ?_
  refine .finished ptr (fun htidy => ?_) ?_ ?_ ?_
  · by_cases hserver : (s.job ptr).server = none
    · exact hgone htidy hserver fun hzero => hserved hzero hserver
    · exact fun g hg hin => hserver (h.tasks.grouped hg hin hjob).2
  · rw [hx.1.heap, hw.1.heap, hv.2.heap, hu.1.heap, ht.2.heap]
  · rw [hx.1.jobRequests, hw.1.jobRequests, hv.2.jobRequests, hu.1.jobRequests, ht.2.jobRequests]
  · exact ((ht.1.dismisses hu.2).dismissed hv.1).dismissed (hw.2.trans hx.2)

theorem handleJobDone_moves (m : JobDoneMsg) (h : Facts Loop.anyMode [] s)
    (htidy : tidy → Grouped s.jobRequests ∧ ¬ s.Premature cid m) :
    Ends (fun _ => True) (fun r => Moves tidy s r.1) (s.handleJobDone cid m) := by
  have hleaves : Ends (tolerated Loop.anyMode) (fun r => Leaves Loop.anyMode (fun _ => False) s r.1.1 ∧
      r.1.1.conns = s.conns ∧ ∀ ptr, r.1.2 = some ptr → (r.2.jobId, ptr) ∈ r.1.1.jobs)
      (s.jobOfDone cid m) := jobOfDone_leaves m h
  unfold handleJobDone
  refine ((jobOfDone_moves m h fun ht => (htidy ht).1).and
    (hleaves.weaken fun _ _ => trivial)).bind fun r hr => ?_
  obtain ⟨⟨t, found⟩, m'⟩ := r
  obtain ⟨⟨hmoves, hfacts, hcleared⟩, -, -, hentry⟩ := hr
  simp only at hmoves hfacts hcleared hentry
  cases found with
  | none => exact .pure hmoves
  | some ptr =>
    have hended : Ends (fun _ => True) (fun r : Scheduler × Bool => Moves tidy s r.1)
        (do return (← t.handleEnd cid, false)) :=
      (handleEnd_moves tidy hfacts).bind fun u hu => .pure (hmoves.trans hu)
    refine (touchJob_any t ptr).bind fun _ hjob => ?_
    refine .ite (fun _ => ?_) fun hserver => .ite (fun _ => ?_) fun hsubmitter => ?_
    · have htouch : Ends (fun _ => True) (fun _ => True) (t.touchServer (t.job ptr)) :=
        .any fun _ => trivial
      exact htouch.bind fun _ _ => hended
    · exact (touch_any t _).bind fun _ _ => hended
    have hgone : tidy → (t.job ptr).server = none → m'.exitcode ≠ 0 →
        ∀ g ∈ t.jobRequests, ptr ∉ g.l := by
      intro ht hnone hexit
      rcases hcleared with hcleared | ⟨hknown, hsame⟩
      · exact (hcleared ht).2 ptr rfl
      · obtain ⟨⟨rfl, hfound⟩, rfl⟩ : (t = s ∧ some ptr = s.findJob m.jobId) ∧ m' = m := by
          simpa only [Prod.mk.injEq] using hsame
        intro g hg hin
        have hfrom : m'.isFromServer = false := by simpa [hnone] using hserver
        have hmine : (t.job ptr).submitter = cid := by simpa [hfrom] using hsubmitter
        exact (htidy ht).2 ⟨hknown, hfrom, hexit, ptr, hfound.symm, hmine, g, hg, hin⟩
    have hfinish : Ends (tolerated Loop.anyMode) (Leaves Loop.anyMode (fun _ => False) t)
        (t.finishJob cid ptr m') := finishJob_leaves hfacts (hentry ptr rfl) fun hf => hf.elim
    refine ((finishJob_change hfacts hgone hjob).and
      (hfinish.weaken fun _ _ => trivial)).bind fun u hu => .pure ?_
    exact hmoves.trans (Moves.single hu.1 hu.2.facts)

/-! ## Connections -/

theorem Fresh.joins {c : CompileServer} (hc : s.Fresh c) (hconns : t.conns = c :: s.conns) :
    Joins s t := by
  intro x hx
  by_cases hsame : c.cid = x
  · left
    simp [conn, hconns, hsame, hc.jobList]
  · right
    have hconn : t.conn x = s.conn x := by simp [conn, hconns, hsame]
    rw [hconn]
    refine ⟨?_, rfl⟩
    simpa [live, hconns, hsame] using hx

theorem acceptControl_moves (tidy : Prop) {fd address : ℕ} {name : Str}
    (h : Facts Loop.anyMode [] s) (hfd : ∀ d ∈ s.conns, d.fd ≠ fd) :
    Ends (fun _ => True) (fun r => Moves tidy s r.1) (s.acceptControl fd address name) := by
  obtain ⟨c, hc, htype, t, ht, heq⟩ := Loop.acceptControl_fresh address name hfd
  obtain ⟨hline, hlisted⟩ := Loop.control_entered hc htype h (s.newCid ∉ (s.addConn c).controls)
  have hjoins := hc.joins (require_conns (s.addConn c) .controlListed
    (s.newCid ∉ (s.addConn c).controls))
  have hrequire := Still.require (s.addConn c) .controlListed (s.newCid ∉ (s.addConn c).controls)
  rw [← ht] at hline hlisted hjoins hrequire
  rw [heq]
  have hfirst : Moves tidy s { t with controls := t.controls ++ [s.newCid] } := by
    refine Moves.single (.still ?_ hrequire.jobRequests hjoins) hlisted
    exact congrArg (List.map Job.label) hrequire.heap
  have hsend : Ends (tolerated Loop.anyMode)
      (fun r => Still { t with controls := t.controls ++ [s.newCid] } r.1)
      (Scheduler.sendText { t with controls := t.controls ++ [s.newCid] } s.newCid) :=
    sendText_still fun _ => hline.live
  refine (hsend.weaken fun _ _ => trivial).bind fun r hr => ?_
  have hboth := hfirst.trans (hr.moves hlisted)
  refine .ite (fun _ => .pure hboth) fun _ => ?_
  exact (handleEnd_moves tidy (hr.toAside.facts hlisted)).bind fun u hu => .pure (hboth.trans hu)

/-! ## Placements -/

/-- The job may have come to the list of `useCs`. -/
def Gains (useCs ptr x : ℕ) (c d : CompileServer) : Prop :=
  d.jobList = c.jobList ∨ (x = useCs ∧ d.jobList = c.jobList ++ [ptr])

/-- The label of a job once the one at `ptr` is to be compiled by `useCs` -/
def relabel (ptr useCs : ℕ) (j : Job) : (ℕ × UInt32 × ℕ × Option ℕ) × ℤ :=
  if j.ptr = ptr then { j with server := some useCs }.label else j.label

/-- The first request has got a server. -/
structure Assigns (s : Scheduler) (ptr useCs : ℕ) (t : Scheduler) : Prop where
  facts : Facts Loop.anyMode [] t
  job : s.liveJob ptr = true
  choice : s.Eligible ptr useCs
  heap : t.heap.map Job.label = s.heap.map (relabel ptr useCs)
  jobRequests : ∃ pos, (jobRequestPositions s.jobRequests).head? = some pos ∧ pos.2 = ptr ∧
    t.jobRequests = removeJobRequest s.jobRequests pos
  lists : Conns (Gains useCs ptr) s t

theorem ptrs_of_label {f : Job → (ℕ × UInt32 × ℕ × Option ℕ) × ℤ} (hf : ∀ j, (f j).1.1 = j.ptr)
    (h : t.heap.map Job.label = s.heap.map f) : t.heap.map Job.ptr = s.heap.map Job.ptr := by
  have hmap := congrArg (List.map fun c => c.1.1) h
  rw [List.map_map, List.map_map] at hmap
  have hptr : (fun c : (ℕ × UInt32 × ℕ × Option ℕ) × ℤ => c.1.1) ∘ f = Job.ptr := funext hf
  rwa [hptr] at hmap

theorem shareEnvironment_labels {platform env : Str} (hnd : (s.heap.map Job.ptr).Nodup) :
    Ends (fun _ => True) (fun t => t.heap.map Job.label = s.heap.map Job.label ∧
      t.conns = s.conns ∧ t.jobRequests = s.jobRequests)
      (shareEnvironment platform env s ptr) := by
  unfold shareEnvironment
  refine (touchJob_any s ptr).bind fun _ hjob => .pure ⟨?_, rfl, rfl⟩
  exact putJob_map _ ptr hnd (job_mem hjob).2 rfl

/-- What is left once the submitter knows -/
theorem settle_gains (j : Job) (useCs : ℕ) (gotit : Bool) (hnd : (s.heap.map Job.ptr).Nodup) :
    Ends (fun _ => True) (fun t => t.heap.map Job.label = s.heap.map Job.label ∧
      Conns (Gains useCs j.ptr) s t ∧ t.jobRequests = s.jobRequests)
      (s.settle j useCs gotit) := by
  unfold settle appendJob
  rw [bind_assoc]
  refine (touch_any s useCs).bind fun _ _ => ?_
  rw [pure_bind]
  have hput : Conns (Gains useCs j.ptr) s (s.put { s.conn useCs with
      lastPickedId := j.id, jobList := (s.conn useCs).jobList ++ [j.ptr] }) := by
    refine .put (fun _ _ _ => .inl rfl) ?_
    rw [conn_cid]
    exact .inr ⟨rfl, rfl⟩
  have hsame : ∀ c : CompileServer, (s.put c).heap = s.heap ∧
      (s.put c).jobRequests = s.jobRequests := fun c => ⟨rfl, rfl⟩
  specialize hsame { s.conn useCs with
    lastPickedId := j.id, jobList := (s.conn useCs).jobList ++ [j.ptr] }
  generalize s.put { s.conn useCs with
    lastPickedId := j.id, jobList := (s.conn useCs).jobList ++ [j.ptr] } = t at hput hsame
  have hbusy : Ends (fun _ => True) (fun u => Conns Matches t u ∧ u.heap = t.heap ∧
      u.jobRequests = t.jobRequests)
      (if gotit then pure t else t.asked.setBusyInstalling useCs t.now) := by
    refine .ite (fun _ => .pure ⟨.refl t, rfl, rfl⟩) fun _ => ?_
    unfold setBusyInstalling
    refine (touch_any t.asked useCs).bind fun _ _ => .pure ⟨?_, rfl, rfl⟩
    exact Conns.matched (s := t.asked) _ (conn_cid _ useCs) rfl rfl
  refine hbusy.bind fun u hu => ?_
  have hgains : Conns (Gains useCs j.ptr) s u := hput.comp hu.1 fun x c d e hfirst hlater =>
    hfirst.imp hlater.1.trans fun hgain => ⟨hgain.1, hlater.1.trans hgain.2⟩
  have hlabels : u.heap.map Job.label = s.heap.map Job.label := by rw [hu.2.1, hsame.1]
  have hqueue : u.jobRequests = s.jobRequests := hu.2.2.trans hsame.2
  refine .ite (fun _ => .pure ⟨hlabels, hgains, hqueue⟩) fun _ => ?_
  refine Ends.foldlM (fun _ v => v.heap.map Job.label = s.heap.map Job.label ∧
    Conns (Gains useCs j.ptr) s v ∧ v.jobRequests = s.jobRequests) ⟨hlabels, hgains, hqueue⟩ ?_
  rintro ptr _ v ⟨hvlabels, hvgains, hvqueue⟩
  have hvnd : (v.heap.map Job.ptr).Nodup := by rwa [ptrs_of_label (fun _ => rfl) hvlabels]
  refine (shareEnvironment_labels hvnd).mono fun w hw => ?_
  have hsame : Conns (fun _ c d => d = c) v w := .of_eq (fun _ _ => rfl) hw.2.1
  refine ⟨hw.1.trans hvlabels, hvgains.comp hsame ?_, hw.2.2.trans hvqueue⟩
  exact fun x c d e hfirst hlater => by rwa [hlater]

theorem assign_assigns (tidy : Prop) {pos : JobRequestPosition} {useCs : ℕ}
    (h : Facts Loop.anyMode [] s)
    (hpos : (jobRequestPositions s.jobRequests).head? = some pos)
    (hchoice : s.Eligible pos.2 useCs) :
    Ends (fun _ => True) (fun t => ∃ u, Assigns s pos.2 useCs u ∧ Moves tidy u t)
      (s.assign pos.2 useCs pos) := by
  have hfacts : s.liveJob pos.2 = true → Facts Loop.anyMode [] (s.granted pos.2 useCs pos) :=
    fun hjob => granted_facts h (List.mem_of_mem_head? hpos) hjob fun htame => htame.elim
  have hlabels : s.liveJob pos.2 = true →
      (s.granted pos.2 useCs pos).heap.map Job.label = s.heap.map (relabel pos.2 useCs) := by
    intro hjob
    have hptr : (s.given pos.2 useCs).ptr = pos.2 := (job_mem hjob).2
    change (Records.replace Job.ptr (s.given pos.2 useCs) s.heap).map Job.label = _
    rw [Records.replace, List.map_map]
    refine List.map_congr_left fun j hj => ?_
    simp only [Function.comp, relabel, hptr]
    split
    · rename_i hsame
      rw [given, ← hsame, job_eq h.tasks.ptrs hj]
      rfl
    · rfl
  have hassigns : s.liveJob pos.2 = true → ∀ t, Facts Loop.anyMode [] t →
      t.heap.map Job.label = (s.granted pos.2 useCs pos).heap.map Job.label →
      Conns (Gains useCs pos.2) (s.granted pos.2 useCs pos) t →
      t.jobRequests = (s.granted pos.2 useCs pos).jobRequests → Assigns s pos.2 useCs t := by
    intro hjob t htfacts htlabels htlists htqueue
    have hlists : Conns (fun _ c d => d = c) s (s.granted pos.2 useCs pos) :=
      .of_eq (fun _ _ => rfl) rfl
    refine ⟨htfacts, hjob, hchoice, htlabels.trans (hlabels hjob), ⟨pos, hpos, rfl, htqueue⟩, ?_⟩
    exact hlists.comp htlists fun x c d e hfirst hlater => hfirst ▸ hlater
  refine assign_ends pos (touchJob_any s pos.2) (touch_any s useCs) (fun _ => touch_any s _)
    (fun hjob _ gotit => ?_) fun hjob _ => ?_
  · have hptr : (s.given pos.2 useCs).ptr = pos.2 := (job_mem hjob).2
    refine ((settle_gains (s.given pos.2 useCs) useCs gotit (hfacts hjob).tasks.ptrs).and
      ((settle_leaves _ _ (hfacts hjob) fun hf => hf.elim).weaken fun _ _ => trivial)).mono ?_
    rintro t ⟨⟨htlabels, htlists, htqueue⟩, htleaves⟩
    rw [hptr] at htlists
    exact ⟨t, hassigns hjob t htleaves.facts htlabels htlists htqueue, .refl⟩
  · refine (handleEnd_moves tidy (hfacts hjob)).mono fun t ht => ?_
    exact ⟨_, hassigns hjob _ (hfacts hjob) rfl (.of_eq (fun _ _ => .inl rfl) rfl) rfl, ht⟩

theorem Assigns.searched {useCs : ℕ} (hsearch : Searched s t) (h : Assigns t ptr useCs u) :
    Assigns s ptr useCs u := by
  have hjob := h.job
  have hheap := h.heap
  have hqueue := h.jobRequests
  have hlists := h.lists
  rw [liveJob, hsearch.heap] at hjob
  rw [hsearch.heap] at hheap
  rw [hsearch.jobRequests] at hqueue
  refine ⟨h.facts, hjob, (hsearch.eligible ptr useCs).mp h.choice, hheap, hqueue, ?_⟩
  simpa only [Conns, live, hsearch.conns, hsearch.conn] using hlists

/-- How a step from `s` to `t` begins: the first request has got a server in `u`, or nothing
has happened yet and no submitter will be told of a server. -/
def Opens (s u t : Scheduler) : Prop :=
  (u = s ∧ Quiet s t) ∨
    ∃ ptr useCs, Assigns s ptr useCs u ∧ Placed Loop.anyMode s ptr useCs t

theorem emptyQueue_opens (tidy : Prop) (h : Facts Loop.anyMode [] s) :
    Ends (fun _ => True) (fun r => ∃ u, Opens s u r.1 ∧ Facts Loop.anyMode [] u ∧
      Moves tidy u r.1) s.emptyQueue := by
  refine emptyQueue_rule (P := fun t => ∃ u, Opens s u t ∧ Facts Loop.anyMode [] u ∧
      Moves tidy u t) (fun _ _ => trivial) h
    (fun t ht => ⟨s, .inl ⟨rfl, ht.quiet⟩, h, ht.toStill.moves h⟩) fun t pos useCs ht hpos _ huse => ?_
  have hthead : (jobRequestPositions t.jobRequests).head? = some pos := by rwa [ht.jobRequests]
  have htfacts := ht.toAside.facts h
  have hplaced : Ends (tolerated Loop.anyMode) (Placed Loop.anyMode t pos.2 useCs)
      (t.assign pos.2 useCs pos) := assign_placed htfacts (ht.position hpos) fun hf => hf.elim
  refine ((assign_assigns tidy htfacts hthead ((ht.eligible _ _).mpr huse)).and
    (hplaced.weaken fun _ _ => trivial)).mono fun v hv => ?_
  obtain ⟨⟨u, hu, hmoves⟩, hvplaced⟩ := hv
  exact ⟨u, .inr ⟨pos.2, useCs, hu.searched ht, hvplaced.searched ht⟩, hu.facts, hmoves⟩

theorem handleActivity_moves {m : Msg} (h : Facts Loop.anyMode [] s)
    (hlogged : (s.conn cid).state = .loggedIn) (hrequests : requests m = true)
    (htidy : tidy → Grouped s.jobRequests ∧ ∀ d, m = .jobDone d → ¬ s.Premature cid d) :
    Ends (fun _ => True) (fun r => Moves tidy s r.1) (s.handleActivity cid (some m)) := by
  unfold handleActivity
  refine (touch_any s cid).bind fun _ _ => ?_
  have hnote : Still s (s.note (.received cid (some m))) := .note s rfl
  have hfacts := hnote.toAside.facts h
  have hfirst : Moves tidy s (s.note (.received cid (some m))) := hnote.moves h
  have hstate : (Scheduler.conn (s.note (.received cid (some m))) cid).state = .loggedIn := hlogged
  refine .ite (fun hconnected => ?_) fun _ => ?_
  · rw [hstate] at hconnected
    cases hconnected
  · cases m with
    | getCS m => exact (handleCsRequest_moves tidy m hfacts).mono fun r hr => hfirst.trans hr
    | jobDone m =>
      have hdone : Ends (fun _ => True)
          (fun r : Scheduler × Bool => Moves tidy (s.note (.received cid (some (.jobDone m)))) r.1)
          (Scheduler.handleJobDone (s.note (.received cid (some (.jobDone m)))) cid m) :=
        handleJobDone_moves m hfacts fun ht => ⟨(htidy ht).1, (htidy ht).2 m rfl⟩
      exact hdone.mono fun r hr => hfirst.trans hr
    | _ => cases hrequests

end Scheduler

namespace Loop

open Scheduler

variable {l l' : Loop}

def reported : Msg → Option JobDoneMsg
  | .jobDone m => some m
  | _ => none

/-- A submitter whose job is still queued does not say that the job is done. -/
def Orderly (l : Loop) (e : Event) : Prop :=
  ∀ r ∈ l.handled e, ∀ m ∈ reported r.2, (l.scheduler.conn r.1).state = .loggedIn →
    ¬ l.scheduler.Premature r.1 m

/-- A step serves the first request or nobody, and then moves on. -/
theorem next_moves {e : Event} (h : Between anyMode l) (hnext : l.next e = some l') :
    ∃ u, Opens l.scheduler u l'.scheduler ∧ Facts anyMode [] u ∧
      Moves (Orderly l e ∧ Grouped l.scheduler.jobRequests) u l'.scheduler := by
  have hstep := next_stepped h (permitted_any l e) hnext
  have hmoved : ∀ {t}, Quiet l.scheduler t →
      Moves (Orderly l e ∧ Grouped l.scheduler.jobRequests) l.scheduler t →
      ∃ u, Opens l.scheduler u t ∧ Facts anyMode [] u ∧
        Moves (Orderly l e ∧ Grouped l.scheduler.jobRequests) u t :=
    fun hquiet hmoves => ⟨l.scheduler, .inl ⟨rfl, hquiet⟩, h.facts, hmoves⟩
  by_cases hqueue : e = .emptyQueue
  · subst hqueue
    obtain ⟨again, hr⟩ := next_emptyQueue hnext
    exact (emptyQueue_opens _ h.facts).of_ok hr
  have hquiet := hstep.quiet hqueue
  rcases hstep.calm with hcalm | hbusy
  · exact hmoved hquiet (hcalm.moves h.facts)
  obtain ⟨x, hx, hok⟩ := Option.bind_eq_some_iff.mp hnext
  cases e with
  | emptyQueue => exact absurd rfl hqueue
  | accept fd address name protocol maximumRemoteProtocol =>
    simp only [step] at hx
    split at hx
    · simp only [Option.ite_none_right_eq_some, Option.some.injEq] at hx
      obtain ⟨hfd, rfl⟩ := hx
      cases hok
      simp only [List.all_eq_true, decide_eq_true_eq] at hfd
      have hc : l.scheduler.Fresh
          { cid := l.scheduler.newCid, fd := fd, name := name, address := address
            protocol := protocol, maximumRemoteProtocol := maximumRemoteProtocol
            lastTalk := l.scheduler.now } := ⟨rfl, hfd, rfl, rfl, .inl ⟨rfl, rfl⟩⟩
      exact hmoved hquiet (Moves.single (.still rfl rfl (hc.joins rfl)) hstep.between.facts)
    · cases hx
  | acceptControl fd address name =>
    simp only [step] at hx
    split at hx
    · simp only [Option.ite_none_right_eq_some, Option.some.injEq] at hx
      obtain ⟨hfd, rfl⟩ := hx
      simp only [List.all_eq_true, decide_eq_true_eq] at hfd
      cases hr : l.scheduler.acceptControl fd address name with
      | error f =>
        rw [hr] at hok
        cases hok
      | ok r =>
        rw [hr] at hok
        cases hok
        exact hmoved hquiet ((acceptControl_moves _ h.facts hfd).of_ok hr)
    · cases hx
  | activity m =>
    cases m with
    | none => exact hbusy.elim
    | some m =>
      obtain ⟨⟨cid, rest⟩, hcurrent, hlogged, hrequests⟩ := hbusy
      have hcurrent : current l.phase = some (cid, rest) := hcurrent
      have hmoves : Ends (fun _ => True) (fun r : Scheduler × Bool =>
          Moves (Orderly l (.activity (some m)) ∧ Grouped l.scheduler.jobRequests)
            l.scheduler r.1) (l.scheduler.handleActivity cid (some m)) := by
        refine handleActivity_moves h.facts hlogged hrequests fun hok => ⟨hok.2, fun d hd => ?_⟩
        refine hok.1 (cid, m) ?_ d (by rw [hd]; rfl) hlogged
        simp [handled, hcurrent]
      obtain ⟨b, hr⟩ := next_activity hcurrent hnext
      exact hmoved hquiet (hmoves.of_ok hr)
  | _ => exact hbusy.elim

end Loop

end Icecream.IceccScheduler
