import Icecream.Scheduler.Grouping
import Icecream.Scheduler.Requests

/-!
# The servers' lists of jobs

Every job in a server's list is there and is that server's. The end of a connection takes
the jobs that are deleted out of the lists of the servers that are left, and touches no
other job.
-/

namespace Icecream.IceccScheduler

open Icecream.Comm
open Icecream.Fault

namespace Scheduler

variable {mode : Mode} {extra : List ℕ} {s t u : Scheduler} {cid ptr : ℕ}

/-! ## Records side by side -/

/-- Whoever is left was there, and `R` relates the two records. -/
def Conns (R : ℕ → CompileServer → CompileServer → Prop) (s t : Scheduler) : Prop :=
  ∀ x, t.live x = true → s.live x = true ∧ R x (s.conn x) (t.conn x)

/-- The record has the same jobs and the same blacklist. -/
def Matches (_ : ℕ) (c d : CompileServer) : Prop :=
  d.jobList = c.jobList ∧ d.blacklist = c.blacklist

namespace Conns

variable {R R' Q : ℕ → CompileServer → CompileServer → Prop}

theorem comp (h : Conns R s t) (h' : Conns R' t u)
    (himp : ∀ x c d e, R x c d → R' x d e → Q x c e) : Conns Q s u := by
  intro x hx
  obtain ⟨hmid, hlater⟩ := h' x hx
  obtain ⟨hlive, hfirst⟩ := h x hmid
  exact ⟨hlive, himp x _ _ _ hfirst hlater⟩

theorem trans (h : Conns Matches s t) (h' : Conns Matches t u) : Conns Matches s u :=
  h.comp h' fun _ _ _ _ hfirst hlater => ⟨hlater.1.trans hfirst.1, hlater.2.trans hfirst.2⟩

theorem of_eq (hrefl : ∀ x c, R x c c) (hconns : t.conns = s.conns) : Conns R s t := by
  intro x hx
  simp only [live, conn, hconns] at hx ⊢
  exact ⟨hx, hrefl x _⟩

theorem refl (s : Scheduler) : Conns Matches s s := .of_eq (fun _ _ => ⟨rfl, rfl⟩) rfl

theorem put {c : CompileServer} (hrefl : ∀ x, x ≠ c.cid → ∀ d, R x d d)
    (hc : R c.cid (s.conn c.cid) c) : Conns R s (s.put c) := by
  intro x hx
  rw [put_live] at hx
  refine ⟨hx, ?_⟩
  by_cases hsame : c.cid = x
  · subst hsame
    rwa [put_conn_live hx]
  · rw [put_conn_of_ne hsame]
    exact hrefl x (Ne.symm hsame) _

theorem matched (c : CompileServer) {x : ℕ} (hx : c.cid = x)
    (hlist : c.jobList = (s.conn x).jobList) (hblack : c.blacklist = (s.conn x).blacklist) :
    Conns Matches s (s.put c) := by
  subst hx
  exact .put (fun _ _ _ => ⟨rfl, rfl⟩) ⟨hlist, hblack⟩

theorem free (hrefl : ∀ x c, R x c c) (s : Scheduler) (cid : ℕ) : Conns R s (s.free cid) := by
  intro x hx
  obtain ⟨hlive, hsame⟩ := (free_told (.jobLocalDone 0) s cid).conns x hx
  rw [hsame]
  exact ⟨hlive, hrefl x _⟩

end Conns

theorem touch_any (s : Scheduler) (cid : ℕ) :
    Ends (fun _ => True) (fun _ => s.live cid = true) (s.touch cid) :=
  touch_within fun _ => trivial

theorem notifyMonitors_matches {m : Msg} (h : Peers extra s) (hplain : plain m = true) :
    Ends (fun _ => False) (Conns Matches s) (s.notifyMonitors m) :=
  (notifyMonitors_told h hplain).mono fun t ht x hx => by
    obtain ⟨hlive, hsame⟩ := ht.conns x hx
    rw [hsame]
    exact ⟨hlive, rfl, rfl⟩

theorem setBusyInstalling_matches (s : Scheduler) (cid : ℕ) (time : ℤ) :
    Ends (fun _ => True) (Conns Matches s) (s.setBusyInstalling cid time) := by
  unfold setBusyInstalling
  exact (touch_any s cid).bind fun _ _ => .pure (.matched _ (conn_cid s cid) rfl rfl)

theorem freeJob_matches (s : Scheduler) (ptr : ℕ) :
    Ends (fun _ => True) (Conns Matches s) (s.freeJob ptr) := by
  unfold freeJob
  exact (touch_any s _).bind fun _ _ => .pure (Conns.matched (s := s) _ (conn_cid s _) rfl rfl)

/-- One job less in every list but that of `cid` -/
def Sheds (cid ptr x : ℕ) (c d : CompileServer) : Prop :=
  (x ≠ cid → d.jobList = c.jobList.filter (· ≠ ptr)) ∧ d.blacklist = c.blacklist

theorem Conns.sheds (h : Conns Matches s t) (h' : Conns (Sheds cid ptr) t u) :
    Conns (Sheds cid ptr) s u :=
  h.comp h' fun _ _ _ _ hfirst hlater =>
    ⟨fun hne => (hlater.1 hne).trans (by rw [hfirst.1]), hlater.2.trans hfirst.2⟩

theorem Conns.shed (h : Conns (Sheds cid ptr) s t) (h' : Conns Matches t u) :
    Conns (Sheds cid ptr) s u :=
  h.comp h' fun _ _ _ _ hfirst hlater =>
    ⟨fun hne => hlater.1.trans (hfirst.1 hne), hlater.2.trans hfirst.2⟩

/-! ## Ledgers -/

/-- What is in the lists of the servers, `out` left aside, is there and is theirs. -/
def Ledger (out : ℕ → Prop) (s : Scheduler) : Prop :=
  ∀ x, s.live x = true → ¬ out x → ∀ ptr ∈ (s.conn x).jobList,
    s.liveJob ptr = true ∧ (s.job ptr).server = some x

theorem Ledger.mono {out out' : ℕ → Prop} (h : Ledger out s) (himp : ∀ x, out x → out' x) :
    Ledger out' s := fun x hx hout => h x hx fun hx => hout (himp x hx)

/-- Jobs that `cid` submitted or serves are deleted, and no others. The lists lose what is
deleted, and what is held against servers other than `cid` stays. -/
structure Trims (cid : ℕ) (s t : Scheduler) : Prop where
  heap : t.heap.Sublist s.heap
  jobs : t.jobs.Sublist s.jobs
  spared : ∀ j ∈ s.heap, j.submitter ≠ cid → j.server ≠ some cid → j ∈ t.heap
  conns : Conns (fun x c d => (x ≠ cid → d.jobList = c.jobList.filter t.liveJob) ∧
    ∀ h ≠ cid, d.blacklist.lookup h = c.blacklist.lookup h) s t

theorem liveJob_subset (h : t.heap ⊆ s.heap) (hptr : t.liveJob ptr = true) :
    s.liveJob ptr = true := by
  rw [liveJob_iff] at hptr ⊢
  exact List.map_subset _ h hptr

theorem job_sublist (h : t.heap.Sublist s.heap) (hnd : (s.heap.map Job.ptr).Nodup)
    (hptr : t.liveJob ptr = true) : t.job ptr = s.job ptr := by
  obtain ⟨hmem, hsame⟩ := job_mem hptr
  have hold := job_eq hnd (h.subset hmem)
  rw [hsame] at hold
  exact hold.symm

namespace Trims

theorem trans (h : Trims cid s t) (h' : Trims cid t u) : Trims cid s u where
  heap := h'.heap.trans h.heap
  jobs := h'.jobs.trans h.jobs
  spared j hj hsubmitter hserver :=
    h'.spared j (h.spared j hj hsubmitter hserver) hsubmitter hserver
  conns := by
    refine h.conns.comp h'.conns fun x c d e hfirst hlater => ⟨fun hne => ?_, fun y hy => ?_⟩
    · rw [hlater.1 hne, hfirst.1 hne, List.filter_filter]
      refine List.filter_congr fun p _ => ?_
      rw [Bool.eq_iff_iff, Bool.and_eq_true, and_iff_left_iff_imp]
      exact liveJob_subset h'.heap.subset
    · exact (hlater.2 y hy).trans (hfirst.2 y hy)

/-- No job is deleted. -/
theorem of_lists (h : Ledger (· = cid) s) (heap : t.heap = s.heap) (jobs : t.jobs = s.jobs)
    (hconns : Conns (fun _ c d => d.jobList = c.jobList ∧
      ∀ h ≠ cid, d.blacklist.lookup h = c.blacklist.lookup h) s t) : Trims cid s t where
  heap := by rw [heap]
  jobs := by rw [jobs]
  spared j hj _ _ := heap ▸ hj
  conns x hx := by
    obtain ⟨hlive, hlist, hblack⟩ := hconns x hx
    refine ⟨hlive, fun hne => ?_, hblack⟩
    rw [hlist]
    refine (List.filter_eq_self.mpr fun p hp => ?_).symm
    simpa only [liveJob, heap] using (h x hlive hne p hp).1

theorem of_matches (h : Ledger (· = cid) s) (heap : t.heap = s.heap) (jobs : t.jobs = s.jobs)
    (hconns : Conns Matches s t) : Trims cid s t := by
  refine .of_lists h heap jobs fun x hx => ?_
  obtain ⟨hlive, hlist, hblack⟩ := hconns x hx
  exact ⟨hlive, hlist, fun y _ => by rw [hblack]⟩

theorem refl (h : Ledger (· = cid) s) : Trims cid s s := .of_matches h rfl rfl (.refl s)

/-- One job is deleted. -/
theorem of_sheds (ptr : ℕ) (h : Ledger (· = cid) s) (heap : t.heap = s.heap.filter fun j => j.ptr ≠ ptr)
    (jobs : t.jobs.Sublist s.jobs)
    (hptr : ∀ j ∈ s.heap, j.ptr = ptr → j.submitter = cid ∨ j.server = some cid)
    (hconns : Conns (Sheds cid ptr) s t) : Trims cid s t where
  heap := by
    rw [heap]
    exact List.filter_sublist
  jobs := jobs
  spared j hj hsubmitter hserver := by
    rw [heap, List.mem_filter, decide_eq_true_eq]
    exact ⟨hj, fun hsame => (hptr j hj hsame).elim hsubmitter hserver⟩
  conns x hx := by
    obtain ⟨hlive, hlist, hblack⟩ := hconns x hx
    refine ⟨hlive, fun hne => ?_, fun y _ => by rw [hblack]⟩
    rw [hlist hne]
    refine List.filter_congr fun p hp => ?_
    obtain ⟨hjob, -⟩ := h x hlive hne p hp
    obtain ⟨j, hj, hjp⟩ := List.mem_map.mp (liveJob_iff.mp hjob)
    rw [Bool.eq_iff_iff, decide_eq_true_eq, liveJob_iff, heap, List.mem_map]
    constructor
    · intro hpne
      refine ⟨j, List.mem_filter.mpr ⟨hj, ?_⟩, hjp⟩
      simpa [hjp] using hpne
    · rintro ⟨j', hj', rfl⟩
      simpa using (List.mem_filter.mp hj').2

theorem ledger (h : Trims cid s t) (hnd : (s.heap.map Job.ptr).Nodup)
    (hledger : Ledger (· = cid) s) : Ledger (· = cid) t := by
  intro x hx hne p hp
  obtain ⟨hlive, hlist, -⟩ := h.conns x hx
  rw [hlist hne, List.mem_filter] at hp
  refine ⟨hp.2, ?_⟩
  rw [job_sublist h.heap hnd hp.2]
  exact (hledger x hlive hne p hp.1).2

end Trims

/-! ## Deleting jobs -/

theorem touchJob_any (s : Scheduler) (ptr : ℕ) :
    Ends (fun _ => True) (fun _ => s.liveJob ptr = true) (s.touchJob ptr) := by
  have htouch : Ends (tolerated Loop.anyMode) (fun _ => s.liveJob ptr = true) (s.touchJob ptr) :=
    touchJob_ends
  exact htouch.weaken fun _ _ => trivial

theorem told_aside {m : Msg} (h : Peers extra s) (hplain : plain m = true) :
    Ends (fun _ => True) (fun t => Aside s t ∧ Conns Matches s t) (s.notifyMonitors m) := by
  have haside : Ends (tolerated Loop.anyMode) (Aside s) (s.notifyMonitors m) :=
    notifyMonitors_aside h hplain
  exact (haside.weaken fun _ _ => trivial).and
    ((notifyMonitors_matches h hplain).weaken fun _ hf => hf.elim)

theorem freed (id : UInt32) (ptr : ℕ) (h : Peers extra s) :
    Ends (fun _ => True) (fun t => Drops id ptr s t ∧ Conns Matches s t)
      ((s.eraseJob id).freeJob ptr) := by
  have hdrops : Ends (tolerated Loop.anyMode) (Drops id ptr s) ((s.eraseJob id).freeJob ptr) :=
    freeJob_drops h fun hf => hf.elim
  exact (hdrops.weaken fun _ _ => trivial).and (freeJob_matches (s.eraseJob id) ptr)

theorem Ledger.notMem {out : ℕ → Prop} (h : Ledger out s) {x : ℕ} (hx : s.live x = true)
    (hout : ¬ out x) (hserver : (s.job ptr).server ≠ some x) : ptr ∉ (s.conn x).jobList :=
  fun hmem => hserver (h x hx hout ptr hmem).2

/-- A job that no server but `cid` has is in no other list. -/
theorem Ledger.sheds (h : Ledger (· = cid) s)
    (hserver : ∀ x, (s.job ptr).server = some x → x = cid) : Conns (Sheds cid ptr) s s := by
  refine fun x hx => ⟨hx, fun hne => ?_, rfl⟩
  exact (filter_ne_of_notMem (h.notMem hx hne fun hj => hne (hserver x hj))).symm

/-- A request has no server, so that no list changes. -/
theorem dropQueued_trims (h : Facts mode extra s) (hledger : Ledger (· = cid) s)
    (hwait : (cid, ptr) ∈ waiting s.jobRequests) :
    Ends (fun _ => True) (Trims cid s) (s.dropQueued ptr) := by
  unfold dropQueued
  refine (touchJob_any s ptr).bind fun _ hjob => ?_
  obtain ⟨hmem, hptr⟩ := job_mem hjob
  obtain ⟨hsubmitter, hserver⟩ := h.tasks.queued _ hwait _ hmem hptr
  refine (told_aside h.peers rfl).bind fun t ht => ?_
  rw [hserver]
  refine (freed _ ptr (ht.1.peers h.peers)).mono fun u hu => ?_
  have hsheds := hledger.sheds fun x hx => by cases hserver.symm.trans hx
  refine .of_sheds ptr hledger ?_ ?_ (fun j hj hsame => .inl ?_)
    (hsheds.shed (ht.2.trans hu.2))
  · rw [hu.1.heap, ht.1.heap]
  · rw [hu.1.jobs, ht.1.jobs]
    exact List.filter_sublist
  · rw [← job_eq h.tasks.ptrs hj, hsame]
    exact hsubmitter

theorem removeJob_sheds {x : ℕ} (hledger : Ledger (· = cid) s)
    (hserver : (s.job ptr).server = some x) :
    Ends (fun _ => True) (Conns (Sheds cid ptr) s) (s.removeJob x ptr) := by
  unfold removeJob
  refine (touch_any s x).bind fun _ hlive => .pure fun y hy => ?_
  rw [put_live] at hy
  by_cases hsame : y = x
  · subst hsame
    rw [put_conn_at ?_ hlive]
    · exact ⟨hy, fun _ => rfl, rfl⟩
    · exact conn_cid s y
  · rw [put_conn_of_ne (by simpa [conn_cid] using Ne.symm hsame)]
    refine ⟨hy, fun hne => (filter_ne_of_notMem (hledger.notMem hy hne fun hj => ?_)).symm, rfl⟩
    cases hserver.symm.trans hj
    exact hsame rfl

/-- The job leaves the list of its server, unless that is the one that ends. -/
theorem leaveServer_sheds {j : Job} (hledger : Ledger (· = cid) s)
    (hserver : (s.job j.ptr).server = j.server) :
    Ends (fun _ => True) (Conns (Sheds cid j.ptr) s) (s.leaveServer cid j) := by
  unfold leaveServer
  cases hj : j.server with
  | none => exact .pure (hledger.sheds fun x hx => by cases hj.symm.trans (hserver.symm.trans hx))
  | some x =>
    have hremove : Ends (fun _ => True) (Conns (Sheds cid j.ptr) s)
        (if x ≠ cid then s.removeJob x j.ptr else pure s) := by
      refine .ite (fun _ => removeJob_sheds hledger (hserver.trans hj)) fun hsame => .pure ?_
      refine hledger.sheds fun y hy => ?_
      cases (hserver.trans hj).symm.trans hy
      exact not_not.mp hsame
    exact hremove.bind fun t ht => (setBusyInstalling_matches t x 0).mono fun u hu => ht.shed hu

/-- Without a mode only the containers count. -/
theorem Facts.any (h : Facts mode extra s) : Facts Loop.anyMode extra s where
  peers := h.peers
  tasks := { h.tasks with
    jobs := fun e he => by
      obtain ⟨j, hj, hptr, hid, -⟩ := h.tasks.jobs e he
      exact ⟨j, hj, hptr, hid, fun hf => hf.elim⟩
    requests := fun hf => hf.elim
    listed := fun hf => hf.elim }

theorem dropJob_trims {e : UInt32 × ℕ} (h : Facts mode extra s) (hledger : Ledger (· = cid) s)
    (he : e ∈ s.jobs) (hmine : (s.job e.2).server = some cid ∨ (s.job e.2).submitter = cid) :
    Ends (fun _ => True) (Trims cid s) (dropJob cid s e) := by
  obtain ⟨hmem, hptr, -, -⟩ := (h.tasks.jobs e he).job h.tasks.ptrs
  unfold dropJob
  refine (told_aside h.peers rfl).bind fun t ht => ?_
  have htfacts := ht.1.facts h
  have htledger := (Trims.of_matches hledger ht.1.heap ht.1.jobs ht.2).ledger h.tasks.ptrs hledger
  have hjob : t.job e.2 = s.job e.2 := by simp only [job, ht.1.heap]
  have hleave : Ends (tolerated Loop.anyMode) (Keeps (fun _ => False) t)
      (t.leaveServer cid (s.job e.2)) := leaveServer_keeps cid htfacts.any fun hf => hf.elim
  have hsheds := leaveServer_sheds (j := s.job e.2) htledger (by rw [hptr, hjob])
  rw [hptr] at hsheds
  refine (hsheds.and (hleave.weaken fun _ _ => trivial)).bind fun u hu => ?_
  refine (freed e.1 e.2 (hu.2.peers htfacts.peers)).mono fun v hv => ?_
  refine .of_sheds e.2 hledger ?_ ?_ (fun j hj hsame => ?_)
    ((ht.2.sheds hu.1).shed hv.2)
  · rw [hv.1.heap, hu.2.heap, ht.1.heap]
  · rw [hv.1.jobs, hu.2.jobs, ht.1.jobs]
    exact List.filter_sublist
  · rw [← job_eq h.tasks.ptrs hj, hsame]
    exact hmine.symm

/-! ## The end of a daemon -/

/-- The jobs of a daemon and its requests are gone. -/
structure Parts (cid : ℕ) (s t : Scheduler) : Prop extends Trims cid s t where
  jobRequests : t.jobRequests = s.jobRequests.filter fun g => g.submitter ≠ cid

theorem dropGroups_parts (h : Facts mode extra s) (hledger : Ledger (· = cid) s)
    (hcid : Home extra s cid) : Ends (fun _ => True) (Parts cid s) (s.dropGroups cid) := by
  refine (dropGroups_turns (P := Trims cid s) h hcid (.refl hledger)
    fun t ptr hfacts _ htrims hwait _ => ?_).mono fun u hu => ?_
  · have htledger := htrims.ledger h.tasks.ptrs hledger
    exact (dropQueued_trims hfacts htledger hwait).mono fun u hu => htrims.trans hu
  · obtain ⟨t, -, htrims, -, hrequests, rfl⟩ := hu
    exact ⟨⟨htrims.heap, htrims.jobs, htrims.spared, htrims.conns⟩, by rw [hrequests]⟩

theorem dropAssigned_trims {e : UInt32 × ℕ} (h : Facts mode extra s)
    (hledger : Ledger (· = cid) s) (he : e ∈ s.jobs) :
    Ends (fun _ => True) (Trims cid s) (dropAssigned cid s e) := by
  unfold dropAssigned
  refine (touchJob_any s e.2).bind fun _ _ => ?_
  exact .ite (fun hmine => dropJob_trims h hledger he hmine) fun _ => .pure (.refl hledger)

theorem dropAssigned_parts (h : Facts mode extra s) (hledger : Ledger (· = cid) s) :
    Ends (fun _ => True) (fun t => Trims cid s t ∧ t.jobRequests = s.jobRequests)
      (s.jobs.foldlM (dropAssigned cid) s) := by
  refine dropAssigned_turns cid h ⟨.refl hledger, rfl⟩ fun t e he hfacts ⟨htrims, hrequests⟩ => ?_
  have htledger := htrims.ledger h.tasks.ptrs hledger
  refine ((dropAssigned_trims hfacts htledger he).and
    ((dropAssigned_ends hfacts he).weaken fun _ _ => trivial)).mono fun u hu => ?_
  obtain ⟨hnext, -, hdrops | ⟨rfl, -⟩⟩ := hu
  · exact ⟨htrims.trans hnext, hdrops.jobRequests.trans hrequests⟩
  · exact ⟨htrims.trans hnext, hrequests⟩

/-- What is held against others is kept. -/
def Forgives (cid _ : ℕ) (c d : CompileServer) : Prop :=
  d.jobList = c.jobList ∧ ∀ h ≠ cid, d.blacklist.lookup h = c.blacklist.lookup h

theorem forgetBlacklist_forgives (s : Scheduler) (cid other : ℕ) :
    Ends (fun _ => True) (fun t => Conns (Forgives cid) s t ∧ t.heap = s.heap ∧ t.jobs = s.jobs ∧
      t.jobRequests = s.jobRequests) (forgetBlacklist cid s other) := by
  unfold forgetBlacklist
  refine (touch_any s other).bind fun _ _ => .pure ⟨?_, rfl, rfl, rfl⟩
  refine .put (fun _ _ _ => ⟨rfl, fun _ _ => rfl⟩) ?_
  rw [conn_cid]
  exact ⟨rfl, fun h hne => AList.lookup_erase_ne hne⟩

theorem forgetBlacklist_loop (s : Scheduler) (cid : ℕ) (l : List ℕ) :
    Ends (fun _ => True) (fun t => Conns (Forgives cid) s t ∧ t.heap = s.heap ∧ t.jobs = s.jobs ∧
      t.jobRequests = s.jobRequests) (l.foldlM (forgetBlacklist cid) s) := by
  refine Ends.foldlM (fun _ t => Conns (Forgives cid) s t ∧ t.heap = s.heap ∧ t.jobs = s.jobs ∧
    t.jobRequests = s.jobRequests) ⟨.of_eq (fun _ _ => ⟨rfl, fun _ _ => rfl⟩) rfl, rfl, rfl, rfl⟩ ?_
  rintro other rest t ⟨hconns, hheap, hjobs, hrequests⟩
  refine (forgetBlacklist_forgives t cid other).mono fun u hu => ?_
  obtain ⟨hnext, huheap, hujobs, hurequests⟩ := hu
  refine ⟨hconns.comp hnext fun _ _ _ _ hfirst hlater => ?_, huheap.trans hheap,
    hujobs.trans hjobs, hurequests.trans hrequests⟩
  exact ⟨hlater.1.trans hfirst.1, fun h hne => (hlater.2 h hne).trans (hfirst.2 h hne)⟩

theorem endDaemon_parts (h : Facts mode [] s) (hledger : Ledger (· = cid) s)
    (hcid : s.Has cid .daemon) : Ends (fun _ => True) (Parts cid s) (s.endDaemon cid) := by
  unfold endDaemon
  refine (told_aside h.peers rfl).bind fun t ht => ?_
  have htrims := Trims.of_matches hledger ht.1.heap ht.1.jobs ht.2
  have hhas := hcid.kept ht.1.toLoses not_false
    fun hm => absurd hm (h.peers.not_monitor hcid (by decide))
  have hleft := (ht.1.facts h).leave hhas
  have hhome : Home [cid] { t with css := t.css.filter (· ≠ cid) } cid := .inr (by simp)
  have htledger := htrims.ledger h.tasks.ptrs hledger
  refine ((dropGroups_parts hleft htledger hhome).and
    ((dropGroups_ends hleft hhome).weaken fun _ _ => trivial)).bind fun u hu => ?_
  obtain ⟨hparts, hufacts, -⟩ := hu
  have huledger := hparts.ledger hleft.tasks.ptrs htledger
  refine ((dropAssigned_parts hufacts huledger).and
    ((dropAssigned_loop cid hufacts).weaken fun _ _ => trivial)).bind fun v hv => ?_
  obtain ⟨⟨hvtrims, hvrequests⟩, hvfacts, -⟩ := hv
  refine (forgetBlacklist_loop v cid v.css).mono fun w hw => ?_
  obtain ⟨hforgives, hheap, hjobs, hrequests⟩ := hw
  have hvledger := hvtrims.ledger hufacts.tasks.ptrs huledger
  have hlast : Trims cid v w := .of_lists hvledger hheap hjobs hforgives
  have hfirst : Trims cid s { t with css := t.css.filter (· ≠ cid) } :=
    ⟨htrims.heap, htrims.jobs, htrims.spared, htrims.conns⟩
  refine ⟨((hfirst.trans hparts.toTrims).trans hvtrims).trans hlast, ?_⟩
  rw [hrequests, hvrequests, hparts.jobRequests]
  change t.jobRequests.filter _ = _
  rw [ht.1.jobRequests]

/-! ## The end of any connection -/

/-- What `handle_end` leaves of jobs and requests -/
structure Retires (cid : ℕ) (s t : Scheduler) : Prop extends Trims cid s t where
  daemon : (s.conn cid).type = .daemon →
    t.jobRequests = s.jobRequests.filter fun g => g.submitter ≠ cid
  others : (s.conn cid).type ≠ .daemon → t.jobRequests = s.jobRequests ∧ t.heap = s.heap

theorem Retires.of_matches (h : Ledger (· = cid) s) (htype : (s.conn cid).type ≠ .daemon)
    (hconns : Conns Matches s t) (heap : t.heap = s.heap) (jobs : t.jobs = s.jobs)
    (jobRequests : t.jobRequests = s.jobRequests) : Retires cid s t :=
  ⟨.of_matches h heap jobs hconns, fun hdaemon => absurd hdaemon htype, fun _ => ⟨jobRequests, heap⟩⟩

theorem free_matches (s : Scheduler) (cid : ℕ) : Conns Matches s (s.free cid) :=
  .free (fun _ _ => ⟨rfl, rfl⟩) s cid

theorem handleEnd_retires (h : Facts mode [] s) (hledger : Ledger (· = cid) s) :
    Ends (fun _ => True) (Retires cid s) (s.handleEnd cid) := by
  unfold handleEnd
  refine (touch_any s cid).bind fun _ hlive => ?_
  cases htype : (s.conn cid).type with
  | monitor =>
    have hother : (s.conn cid).type ≠ .daemon := by simp [htype]
    unfold endMonitor
    refine (touch_any s cid).bind fun _ _ => .pure ?_
    simp only [require_log]
    exact .of_matches hledger hother (free_matches { s with log := _, monitors := _ } cid)
      rfl rfl rfl
  | daemon =>
    have hhas : s.Has cid .daemon := ⟨_, conn_kind_mem hlive, conn_cid s cid, htype⟩
    refine (endDaemon_parts h hledger hhas).bind fun t ht => .pure ?_
    have hfree := free_matches t cid
    refine ⟨ht.trans ?_, fun _ => ht.jobRequests, fun hother => absurd htype hother⟩
    exact .of_matches (ht.ledger h.tasks.ptrs hledger) rfl rfl hfree
  | line =>
    have hother : (s.conn cid).type ≠ .daemon := by simp [htype]
    unfold send
    rw [bind_assoc]
    refine (touch_any s cid).bind fun _ _ => ?_
    rw [pure_bind]
    exact .pure (.of_matches hledger hother
      (free_matches { s with log := _, calls := _, controls := _ } cid) rfl rfl rfl)
  | unknown =>
    have hother : (s.conn cid).type ≠ .daemon := by simp [htype]
    exact .pure (.of_matches hledger hother (free_matches s cid) rfl rfl rfl)

theorem Ledger.closed {lost : ℕ → Prop} (h : Ledger (· = cid) s) (hgone : ∀ k ∈ s.kinds, k.cid ≠ cid) :
    Ledger lost s := by
  refine fun x hx _ => h x hx ?_
  rintro rfl
  exact hgone _ (conn_kind_mem hx) (conn_cid s x)

end Scheduler

end Icecream.IceccScheduler
