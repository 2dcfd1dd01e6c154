import Mathlib.Data.List.Flatten
import Icecream.Scheduler.Peers

/-!
# The jobs of a scheduler

Who the jobs and the requests belong to, and what is left of them when a connection
ends. While `handle_end` deletes a daemon's jobs, the daemon itself counts as a home.
-/

namespace Icecream.IceccScheduler

open Icecream.Comm (Msg)
open Icecream.Fault

/-- Who a job belongs to -/
def Job.ties (j : Job) : ℕ × UInt32 × ℕ × Option ℕ := (j.ptr, j.id, j.submitter, j.server)

/-- What is rewritten neither by `JobBegin` nor when an environment is shared -/
def Job.core (j : Job) : (ℕ × UInt32 × ℕ × Option ℕ) × ℤ × UInt32 × List ℕ :=
  (j.ties, j.niceness, j.localClientId, j.masterJobFor)

namespace Scheduler

variable {mode : Mode} {extra : List ℕ}

/-- An entry of `jobs` has its job, and the connections of the job are at home. -/
def Tied (mode : Mode) (extra : List ℕ) (s : Scheduler) (e : UInt32 × ℕ) : Prop :=
  ∃ j ∈ s.heap, j.ptr = e.2 ∧ j.id = e.1 ∧ (mode.tame → Home extra s j.submitter ∧
    ∀ server, j.server = some server → Home extra s server)

structure Tasks (mode : Mode) (extra : List ℕ) (s : Scheduler) : Prop where
  keys : (s.jobs.map Prod.fst).Nodup
  ptrs : (s.heap.map Job.ptr).Nodup
  fresh : ∀ j ∈ s.heap, j.ptr < s.newPtr
  jobs : ∀ e ∈ s.jobs, Tied mode extra s e
  queue : ((waiting s.jobRequests).map Prod.snd).Nodup
  queueFresh : ∀ e ∈ waiting s.jobRequests, e.2 < s.newPtr
  queued : ∀ e ∈ waiting s.jobRequests, ∀ j ∈ s.heap, j.ptr = e.2 →
    j.submitter = e.1 ∧ j.server = none
  requests : mode.tame → ∀ g ∈ s.jobRequests, Home extra s g.submitter
  listed : mode.numbered → ∀ j ∈ s.heap, (j.id, j.ptr) ∈ s.jobs

structure Facts (mode : Mode) (extra : List ℕ) (s : Scheduler) : Prop where
  peers : Peers extra s
  tasks : Tasks mode extra s

theorem Tasks.of_eq {s t : Scheduler} (h : Tasks mode extra s) (css : t.css = s.css)
    (heap : t.heap = s.heap) (jobs : t.jobs = s.jobs) (jobRequests : t.jobRequests = s.jobRequests)
    (newPtr : t.newPtr = s.newPtr) : Tasks mode extra t where
  keys := by
    rw [jobs]
    exact h.keys
  ptrs := by
    rw [heap]
    exact h.ptrs
  fresh := by
    rw [heap, newPtr]
    exact h.fresh
  jobs := by
    simp only [Tied, Home, jobs, heap, css]
    exact h.jobs
  queue := by
    rw [jobRequests]
    exact h.queue
  queueFresh := by
    rw [jobRequests, newPtr]
    exact h.queueFresh
  queued := by
    rw [jobRequests, heap]
    exact h.queued
  requests := by
    simp only [Home, jobRequests, css]
    exact h.requests
  listed := by
    rw [heap, jobs]
    exact h.listed

theorem Keeps.facts {s t : Scheduler} (h : Keeps (fun _ => False) s t) (hs : Facts mode extra s) :
    Facts mode extra t :=
  ⟨h.peers hs.peers, hs.tasks.of_eq h.same h.heap h.jobs h.jobRequests h.newPtr⟩

/-! ## Job records -/

theorem liveJob_iff {s : Scheduler} {ptr : ℕ} :
    s.liveJob ptr = true ↔ ptr ∈ s.heap.map Job.ptr := by
  simp [liveJob]

theorem job_mem {s : Scheduler} {ptr : ℕ} (h : s.liveJob ptr = true) :
    s.job ptr ∈ s.heap ∧ (s.job ptr).ptr = ptr := by
  simp only [liveJob, List.any_eq_true, decide_eq_true_eq] at h
  obtain ⟨j, hj, hptr⟩ := h
  cases hfind : s.heap.find? fun x => x.ptr = ptr with
  | none =>
    have hnone := List.find?_eq_none.mp hfind j hj
    simp [hptr] at hnone
  | some j' =>
    simp only [job, hfind, Option.getD_some]
    exact ⟨List.mem_of_find?_eq_some hfind, by simpa using List.find?_some hfind⟩

theorem job_eq {s : Scheduler} {j : Job} (hnd : (s.heap.map Job.ptr).Nodup) (hj : j ∈ s.heap) :
    s.job j.ptr = j := by
  have hlive : s.liveJob j.ptr = true := by
    rw [liveJob, List.any_eq_true]
    exact ⟨j, hj, by simp⟩
  obtain ⟨hmem, hptr⟩ := job_mem hlive
  exact List.inj_on_of_nodup_map hnd hmem hj hptr

theorem touchJob_ends {s : Scheduler} {ptr : ℕ} :
    Ends (tolerated mode) (fun _ => s.liveJob ptr = true) (s.touchJob ptr) := by
  unfold touchJob
  split
  · rename_i hlive
    exact .pure hlive
  · exact .throw fun h => by cases h

/-- A tied entry's job, as the code reads it -/
theorem Tied.job {s : Scheduler} {e : UInt32 × ℕ} (hnd : (s.heap.map Job.ptr).Nodup)
    (h : Tied mode extra s e) : s.job e.2 ∈ s.heap ∧ (s.job e.2).ptr = e.2 ∧
      (s.job e.2).id = e.1 ∧ (mode.tame → Home extra s (s.job e.2).submitter ∧
        ∀ server, (s.job e.2).server = some server → Home extra s server) := by
  obtain ⟨j, hj, hptr, hrest⟩ := h
  have hjob := job_eq hnd hj
  rw [hptr] at hjob
  rw [hjob]
  exact ⟨hj, hptr, hrest⟩

/-- Jobs are rewritten, but not in who they belong to. -/
theorem Tasks.rewrite {s t : Scheduler} (h : Tasks mode extra s)
    (heap : t.heap.map Job.ties = s.heap.map Job.ties) (css : t.css = s.css)
    (jobs : t.jobs = s.jobs) (jobRequests : t.jobRequests = s.jobRequests)
    (newPtr : t.newPtr = s.newPtr) : Tasks mode extra t := by
  have hptrs : t.heap.map Job.ptr = s.heap.map Job.ptr := by
    simpa [Job.ties, Function.comp_def] using congrArg (List.map Prod.fst) heap
  have hback : ∀ j ∈ t.heap, ∃ j' ∈ s.heap, j'.ties = j.ties := by
    intro j hj
    have hmem := List.mem_map_of_mem (f := Job.ties) hj
    rw [heap] at hmem
    exact List.mem_map.mp hmem
  have hforth : ∀ j ∈ s.heap, ∃ j' ∈ t.heap, j'.ties = j.ties := by
    intro j hj
    have hmem := List.mem_map_of_mem (f := Job.ties) hj
    rw [← heap] at hmem
    exact List.mem_map.mp hmem
  constructor
  · rw [jobs]
    exact h.keys
  · rw [hptrs]
    exact h.ptrs
  · intro j hj
    obtain ⟨j', hj', hties⟩ := hback j hj
    simp only [Job.ties, Prod.mk.injEq] at hties
    rw [newPtr, ← hties.1]
    exact h.fresh j' hj'
  · intro e he
    rw [jobs] at he
    obtain ⟨j, hj, hptr, hid, hhome⟩ := h.jobs e he
    obtain ⟨j', hj', hties⟩ := hforth j hj
    simp only [Job.ties, Prod.mk.injEq] at hties
    obtain ⟨hptr', hid', hsubmitter, hserver⟩ := hties
    refine ⟨j', hj', hptr'.trans hptr, hid'.trans hid, ?_⟩
    simpa only [Home, css, hsubmitter, hserver] using hhome
  · rw [jobRequests]
    exact h.queue
  · rw [jobRequests, newPtr]
    exact h.queueFresh
  · intro e he j hj hptr
    rw [jobRequests] at he
    obtain ⟨j', hj', hties⟩ := hback j hj
    simp only [Job.ties, Prod.mk.injEq] at hties
    obtain ⟨hptr', -, hsubmitter, hserver⟩ := hties
    have hqueued := h.queued e he j' hj' (hptr'.trans hptr)
    rwa [hsubmitter, hserver] at hqueued
  · rw [jobRequests]
    simpa only [Home, css] using h.requests
  · intro hnumbered j hj
    obtain ⟨j', hj', hties⟩ := hback j hj
    simp only [Job.ties, Prod.mk.injEq] at hties
    rw [jobs, ← hties.1, ← hties.2.1]
    exact h.listed hnumbered j' hj'

theorem putJob_map {α : Type} {s : Scheduler} {j : Job} (g : Job → α) (ptr : ℕ)
    (hnd : (s.heap.map Job.ptr).Nodup) (hptr : j.ptr = ptr) (hg : g j = g (s.job ptr)) :
    (s.putJob j).heap.map g = s.heap.map g := by
  refine Records.map_replace g fun x hx hsame => ?_
  rw [hg, ← hptr, ← hsame, job_eq hnd hx]

theorem ties_of_core {s t : Scheduler} (h : t.heap.map Job.core = s.heap.map Job.core) :
    t.heap.map Job.ties = s.heap.map Job.ties := by
  simpa [Job.core, Function.comp_def] using congrArg (List.map Prod.fst) h

/-! ## Deleting a job -/

/-- What is left when the job at `ptr` and the entry `id` are gone -/
structure Drops (id : UInt32) (ptr : ℕ) (s t : Scheduler) : Prop where
  loses : Loses (fun _ => False) s t
  css : t.css = s.css
  jobs : t.jobs = s.jobs.filter fun e => e.1 ≠ id
  heap : t.heap = s.heap.filter fun j => j.ptr ≠ ptr
  jobRequests : t.jobRequests = s.jobRequests
  newPtr : t.newPtr = s.newPtr

theorem Drops.after {id : UInt32} {ptr : ℕ} {s t u : Scheduler}
    (h : Keeps (fun _ => False) s t) (h' : Drops id ptr t u) : Drops id ptr s u where
  loses := h.toLoses.trans h'.loses
  css := h'.css.trans h.same
  jobs := by rw [h'.jobs, h.jobs]
  heap := by rw [h'.heap, h.heap]
  jobRequests := h'.jobRequests.trans h.jobRequests
  newPtr := h'.newPtr.trans h.newPtr

theorem Loses.peers {s t : Scheduler} (h : Loses (fun _ => False) s t) (hcss : t.css = s.css)
    (hs : Peers extra s) : Peers extra t := by
  have hkeeps : Keeps (fun _ => False) s
      { t with heap := s.heap, jobs := s.jobs, jobRequests := s.jobRequests
               newJobId := s.newJobId, newPtr := s.newPtr } :=
    ⟨{ h with }, hcss, rfl, rfl, rfl, rfl, rfl⟩
  have hpeers := hkeeps.peers hs
  exact { hpeers with }

theorem Drops.facts {id : UInt32} {ptr : ℕ} {s t : Scheduler} (h : Drops id ptr s t)
    (hs : Facts mode extra s) (hid : ∀ j ∈ s.heap, j.ptr = ptr → j.id = id)
    (hentry : mode.numbered → ∀ e ∈ s.jobs, e.1 = id → e.2 = ptr) : Facts mode extra t := by
  refine ⟨h.loses.peers h.css hs.peers, ?_⟩
  have hheap : ∀ j ∈ t.heap, j ∈ s.heap := by
    rw [h.heap]
    exact fun j hj => List.mem_of_mem_filter hj
  constructor
  · rw [h.jobs]
    exact hs.tasks.keys.sublist (List.filter_sublist.map _)
  · rw [h.heap]
    exact hs.tasks.ptrs.sublist (List.filter_sublist.map _)
  · rw [h.newPtr]
    exact fun j hj => hs.tasks.fresh j (hheap j hj)
  · intro e he
    rw [h.jobs, List.mem_filter, decide_eq_true_eq] at he
    obtain ⟨j, hj, hptr, hjid, hhome⟩ := hs.tasks.jobs e he.1
    refine ⟨j, ?_, hptr, hjid, ?_⟩
    · rw [h.heap, List.mem_filter, decide_eq_true_eq]
      refine ⟨hj, fun hgone => he.2 ?_⟩
      rw [← hjid]
      exact hid j hj hgone
    · simpa only [Home, h.css] using hhome
  · rw [h.jobRequests]
    exact hs.tasks.queue
  · rw [h.jobRequests, h.newPtr]
    exact hs.tasks.queueFresh
  · rw [h.jobRequests]
    exact fun e he j hj => hs.tasks.queued e he j (hheap j hj)
  · rw [h.jobRequests]
    simpa only [Home, h.css] using hs.tasks.requests
  · intro hnumbered j hj
    rw [h.heap, List.mem_filter, decide_eq_true_eq] at hj
    rw [h.jobs, List.mem_filter, decide_eq_true_eq]
    have hlisted := hs.tasks.listed hnumbered j hj.1
    exact ⟨hlisted, fun heq => hj.2 (hentry hnumbered _ hlisted heq)⟩

/-- Two entries with one id are one entry. -/
theorem Tasks.entry {s : Scheduler} {e e' : UInt32 × ℕ} (h : Tasks mode extra s) (he : e ∈ s.jobs)
    (he' : e' ∈ s.jobs) (hid : e.1 = e'.1) : e = e' := List.inj_on_of_nodup_map h.keys he he' hid

theorem freeJob_drops {s : Scheduler} {id : UInt32} {ptr : ℕ} (h : Peers extra s)
    (hlive : mode.strict → s.live (s.job ptr).submitter = true) :
    Ends (tolerated mode) (Drops id ptr s) ((s.eraseJob id).freeJob ptr) := by
  unfold freeJob
  refine (touch_ends hlive).bind fun _ _ => ?_
  have hput := Keeps.put (s := s) (c := { s.conn (s.job ptr).submitter with
    submittedJobsCount := (s.conn (s.job ptr).submitter).submittedJobsCount - 1 })
    (s.job ptr).submitter h.cids rfl rfl
  refine .pure ⟨?_, rfl, rfl, rfl, rfl, rfl⟩
  exact { hput.toLoses with }

theorem removeJob_keeps {s : Scheduler} {cid ptr : ℕ} (h : Peers extra s)
    (hlive : mode.strict → s.live cid = true) :
    Ends (tolerated mode) (Keeps (fun _ => False) s) (s.removeJob cid ptr) := by
  unfold removeJob
  refine (touch_ends hlive).bind fun _ _ => ?_
  exact .pure (.put cid h.cids rfl rfl)

/-! ## The end of a daemon -/

theorem Home.live {s : Scheduler} {cid : ℕ} (h : Peers extra s) (hcid : Home extra s cid) :
    s.live cid = true := (h.home hcid).live

theorem Keeps.home {lost : ℕ → Prop} {s t : Scheduler} {cid : ℕ} (h : Keeps lost s t)
    (hcid : Home extra s cid) : Home extra t cid := by
  rw [Home, h.same]
  exact hcid

/-- A request in the queue has no server yet, so that only its submitter is touched. -/
theorem dropQueued_drops {s : Scheduler} {cid ptr : ℕ} (h : Facts mode extra s)
    (hwait : (cid, ptr) ∈ waiting s.jobRequests) (hcid : Home extra s cid) :
    Ends (tolerated mode) (fun t => Facts mode extra t ∧ ∃ id, Drops id ptr s t)
      (s.dropQueued ptr) := by
  unfold dropQueued
  refine touchJob_ends.bind fun _ hjob => ?_
  obtain ⟨hmem, hptr⟩ := job_mem hjob
  obtain ⟨hsubmitter, hserver⟩ := h.tasks.queued _ hwait _ hmem hptr
  refine (notifyMonitors_aside h.peers rfl).bind fun t ht => ?_
  have hfacts := ht.facts h
  have hsame : t.job ptr = s.job ptr := by simp only [job, ht.heap]
  rw [hserver]
  have hlive : t.live (t.job ptr).submitter = true := by
    rw [hsame, hsubmitter]
    exact (ht.home hcid).live hfacts.peers
  refine (freeJob_drops hfacts.peers fun _ => hlive).mono fun u hu => ?_
  have hdrops := hu.after ht.toKeeps
  refine ⟨hdrops.facts h ?_ fun hnumbered e he hid => ?_, _, hdrops⟩
  · intro j hj hjptr
    rw [← hjptr, job_eq h.tasks.ptrs hj]
  · rw [h.tasks.entry he (h.tasks.listed hnumbered _ hmem) hid, hptr]

theorem leaveServer_keeps {s : Scheduler} (cid : ℕ) {j : Job} (h : Facts mode extra s)
    (hserver : mode.tame → ∀ server, j.server = some server → Home extra s server) :
    Ends (tolerated mode) (Keeps (fun _ => False) s) (s.leaveServer cid j) := by
  unfold leaveServer
  cases hj : j.server with
  | none => exact .pure (Aside.refl s).toKeeps
  | some server =>
    have hhome : mode.strict → Home extra s server := fun hstrict =>
      hserver (mode.strict_tame hstrict) server hj
    have hremove : Ends (tolerated mode) (Keeps (fun _ => False) s)
        (if server ≠ cid then s.removeJob server j.ptr else pure s) := by
      refine .ite (fun _ => ?_) fun _ => .pure (Aside.refl s).toKeeps
      exact removeJob_keeps h.peers fun hstrict => (hhome hstrict).live h.peers
    refine hremove.bind fun t ht => ?_
    have hpeers := ht.peers h.peers
    have hbusy := setBusyInstalling_still 0 hpeers fun hstrict =>
      (ht.home (hhome hstrict)).live hpeers
    exact hbusy.mono fun u hu => ht.trans hu.toKeeps

theorem dropJob_drops {s : Scheduler} {cid : ℕ} {e : UInt32 × ℕ} (h : Facts mode extra s)
    (he : e ∈ s.jobs) :
    Ends (tolerated mode) (fun t => Facts mode extra t ∧ Drops e.1 e.2 s t) (dropJob cid s e) := by
  obtain ⟨hmem, hptr, hid, hhome⟩ := (h.tasks.jobs e he).job h.tasks.ptrs
  unfold dropJob
  refine (notifyMonitors_aside h.peers rfl).bind fun t ht => ?_
  have hleave := leaveServer_keeps cid (ht.facts h) fun htame server hj =>
    ht.home ((hhome htame).2 server hj)
  refine hleave.bind fun u hu => ?_
  have hkeeps := ht.toKeeps.trans hu
  have hfacts := hkeeps.facts h
  have hsame : u.job e.2 = s.job e.2 := by simp only [job, hkeeps.heap]
  have hlive : mode.strict → u.live (u.job e.2).submitter = true := by
    intro hstrict
    rw [hsame]
    exact (hkeeps.home (hhome (mode.strict_tame hstrict)).1).live hfacts.peers
  refine (freeJob_drops hfacts.peers hlive).mono fun v hv => ?_
  have hdrops := hv.after hkeeps
  refine ⟨hdrops.facts h ?_ fun _ e' he' hsame => ?_, hdrops⟩
  · intro j hj hjptr
    rw [← hid, ← hjptr, job_eq h.tasks.ptrs hj]
  · rw [h.tasks.entry he' he hsame]

/-- An entry of `jobs` that the end of `cid` does not concern -/
def Unrelated (cid : ℕ) (s : Scheduler) (e : UInt32 × ℕ) : Prop :=
  (s.job e.2).submitter ≠ cid ∧ (s.job e.2).server ≠ some cid

theorem dropAssigned_ends {s : Scheduler} {cid : ℕ} {e : UInt32 × ℕ} (h : Facts mode extra s)
    (he : e ∈ s.jobs) :
    Ends (tolerated mode) (fun t => Facts mode extra t ∧
      (Drops e.1 e.2 s t ∨ t = s ∧ Unrelated cid s e)) (dropAssigned cid s e) := by
  unfold dropAssigned
  refine touchJob_ends.bind fun _ _ => ?_
  refine .ite (fun _ => ?_) fun hother => ?_
  · exact (dropJob_drops h he).mono fun t ht => ⟨ht.1, .inl ht.2⟩
  · obtain ⟨hserver, hsubmitter⟩ := not_or.mp hother
    exact .pure ⟨h, .inr ⟨rfl, hsubmitter, hserver⟩⟩

theorem Drops.job {id : UInt32} {ptr ptr' : ℕ} {s t : Scheduler} (h : Drops id ptr s t)
    (hne : ptr' ≠ ptr) : t.job ptr' = s.job ptr' := by
  have hfind : t.heap.find? (fun j => j.ptr = ptr') = s.heap.find? fun j => j.ptr = ptr' := by
    rw [h.heap]
    exact Records.find_remove _ hne
  simp only [Scheduler.job, hfind]

/-- The loop over `jobs`: an entry is there when its turn comes. -/
theorem dropAssigned_turns {s : Scheduler} {allowed : Fault → Prop} {P : Scheduler → Prop} (cid : ℕ)
    (h : Facts mode extra s) (hs : P s)
    (hturn : ∀ t, ∀ e ∈ t.jobs, Facts mode extra t → P t → Ends allowed P (dropAssigned cid t e)) :
    Ends allowed P (s.jobs.foldlM (dropAssigned cid) s) := by
  refine (Ends.foldlM (fun rest t => Facts mode extra t ∧ P t ∧ (rest.map Prod.fst).Nodup ∧
    rest ⊆ t.jobs) ⟨h, hs, h.tasks.keys, fun _ he => he⟩ ?_).mono fun t ht => ht.2.1
  rintro e rest t ⟨hfacts, ht, hnodup, hahead⟩
  rw [List.map_cons, List.nodup_cons] at hnodup
  have he := hahead List.mem_cons_self
  refine ((hturn t e he hfacts ht).and
    ((dropAssigned_ends hfacts he).weaken fun _ _ => trivial)).mono fun u hu => ?_
  obtain ⟨hP, hufacts, hdrops | ⟨rfl, -⟩⟩ := hu
  · refine ⟨hufacts, hP, hnodup.2, fun x hx => ?_⟩
    rw [hdrops.jobs, List.mem_filter, decide_eq_true_eq]
    refine ⟨hahead (List.mem_cons_of_mem _ hx), fun heq => hnodup.1 ?_⟩
    exact List.mem_map.mpr ⟨x, hx, heq⟩
  · exact ⟨hfacts, hP, hnodup.2, fun x hx => hahead (List.mem_cons_of_mem _ hx)⟩

/-- The loop over `jobs`: what is behind does not concern the connection, and what is
ahead is still there. -/
theorem dropAssigned_loop {s : Scheduler} (cid : ℕ) (h : Facts mode extra s) :
    Ends (tolerated mode) (fun t => Facts mode extra t ∧ Loses (fun _ => False) s t ∧
      t.css = s.css ∧ t.jobRequests = s.jobRequests ∧ ∀ e ∈ t.jobs, Unrelated cid t e)
      (s.jobs.foldlM (dropAssigned cid) s) := by
  refine (Ends.foldlM (fun rest t => Facts mode extra t ∧ Loses (fun _ => False) s t ∧
      t.css = s.css ∧ t.jobRequests = s.jobRequests ∧ (rest.map Prod.fst).Nodup ∧ rest ⊆ t.jobs ∧
      ∀ e ∈ t.jobs, e ∈ rest ∨ Unrelated cid t e)
    ⟨h, (Aside.refl s).toLoses, rfl, rfl, h.tasks.keys, fun _ he => he, fun _ he => .inl he⟩
    ?_).mono fun t ht => ?_
  · rintro e rest t ⟨hfacts, hloses, hcss, hrequests, hnodup, hahead, hdone⟩
    rw [List.map_cons, List.nodup_cons] at hnodup
    refine (dropAssigned_ends hfacts (hahead List.mem_cons_self)).mono fun u hu => ?_
    obtain ⟨hufacts, hdrops | ⟨rfl, hother⟩⟩ := hu
    · refine ⟨hufacts, hloses.trans hdrops.loses, hdrops.css.trans hcss,
        hdrops.jobRequests.trans hrequests, hnodup.2, ?_, ?_⟩
      · intro x hx
        rw [hdrops.jobs, List.mem_filter, decide_eq_true_eq]
        refine ⟨hahead (List.mem_cons_of_mem _ hx), fun heq => hnodup.1 ?_⟩
        exact List.mem_map.mpr ⟨x, hx, heq⟩
      · intro x hx
        rw [hdrops.jobs, List.mem_filter, decide_eq_true_eq] at hx
        rcases hdone x hx.1 with hmem | hunrelated
        · rcases List.mem_cons.mp hmem with rfl | hrest
          · exact absurd rfl hx.2
          · exact .inl hrest
        · right
          have hptr : x.2 ≠ e.2 := by
            intro heq
            obtain ⟨-, -, hid, -⟩ := (hfacts.tasks.jobs x hx.1).job hfacts.tasks.ptrs
            obtain ⟨-, -, hid', -⟩ :=
              (hfacts.tasks.jobs e (hahead List.mem_cons_self)).job hfacts.tasks.ptrs
            rw [heq, hid'] at hid
            exact hx.2 hid.symm
          rw [Unrelated, hdrops.job hptr]
          exact hunrelated
    · refine ⟨hfacts, hloses, hcss, hrequests, hnodup.2,
        fun x hx => hahead (List.mem_cons_of_mem _ hx), fun x hx => ?_⟩
      rcases hdone x hx with hmem | hunrelated
      · rcases List.mem_cons.mp hmem with rfl | hrest
        · exact .inr hother
        · exact .inl hrest
      · exact .inr hunrelated
  · obtain ⟨hfacts, hloses, hcss, hrequests, -, -, hdone⟩ := ht
    exact ⟨hfacts, hloses, hcss, hrequests, fun e he => (hdone e he).resolve_left (by simp)⟩

/-- Requests may leave the queue. -/
theorem Tasks.requeue {s t : Scheduler} (h : Tasks mode extra s)
    (hnodup : ((waiting t.jobRequests).map Prod.snd).Nodup)
    (hsub : waiting t.jobRequests ⊆ waiting s.jobRequests)
    (hgroups : ∀ g ∈ t.jobRequests, ∃ g' ∈ s.jobRequests, g'.submitter = g.submitter)
    (css : t.css = s.css) (heap : t.heap = s.heap) (jobs : t.jobs = s.jobs)
    (newPtr : t.newPtr = s.newPtr) : Tasks mode extra t where
  keys := by
    rw [jobs]
    exact h.keys
  ptrs := by
    rw [heap]
    exact h.ptrs
  fresh := by
    rw [heap, newPtr]
    exact h.fresh
  jobs := by
    simp only [Tied, Home, jobs, heap, css]
    exact h.jobs
  queue := hnodup
  queueFresh := by
    rw [newPtr]
    exact fun e he => h.queueFresh e (hsub he)
  queued := by
    rw [heap]
    exact fun e he => h.queued e (hsub he)
  requests htame g hg := by
    obtain ⟨g', hg', hsubmitter⟩ := hgroups g hg
    rw [← hsubmitter, Home, css]
    exact h.requests htame g' hg'
  listed := by
    rw [heap, jobs]
    exact h.listed

theorem Drops.liveJob {s t : Scheduler} {id : UInt32} {ptr p : ℕ} (h : Drops id ptr s t) (hne : p ≠ ptr)
    (hp : s.liveJob p = true) : t.liveJob p = true := by
  obtain ⟨hmem, hptr⟩ := job_mem hp
  refine liveJob_iff.mpr (List.mem_map.mpr ⟨s.job p, ?_, hptr⟩)
  rw [h.heap, List.mem_filter, decide_eq_true_eq, hptr]
  exact ⟨hmem, hne⟩

/-- The loops over the requests of `cid`: no request is twice in the queue, so that the jobs
of those still to come are there. -/
theorem dropGroups_turns {s : Scheduler} {cid : ℕ} {allowed : Fault → Prop} {P : Scheduler → Prop} (h : Facts mode extra s)
    (hcid : Home extra s cid) (hs : P s)
    (hturn : ∀ t ptr, Facts mode extra t → Home extra t cid → P t →
      (cid, ptr) ∈ waiting t.jobRequests → (s.liveJob ptr = true → t.liveJob ptr = true) →
      Ends allowed P (t.dropQueued ptr)) :
    Ends allowed (fun u => ∃ t, Facts mode extra t ∧ P t ∧ t.css = s.css ∧
      t.jobRequests = s.jobRequests ∧
      u = { t with jobRequests := t.jobRequests.filter fun g => g.submitter ≠ cid })
      (s.dropGroups cid) := by
  unfold dropGroups
  have hqueue := h.tasks.queue
  rw [waiting_ptrs] at hqueue
  refine (Ends.foldlM (fun rest t => Facts mode extra t ∧ P t ∧ t.css = s.css ∧
      t.jobRequests = s.jobRequests ∧ rest.Nodup ∧
      ∀ ptr ∈ rest, (cid, ptr) ∈ waiting s.jobRequests ∧
        (s.liveJob ptr = true → t.liveJob ptr = true))
    ⟨h, hs, rfl, rfl, hqueue.sublist (List.filter_sublist.flatMap _), ?_⟩ ?_).bind fun t ht => ?_
  · intro ptr hptr
    obtain ⟨g, hg, hmem⟩ := List.mem_flatMap.mp hptr
    rw [List.mem_filter, decide_eq_true_eq] at hg
    exact ⟨mem_waiting.mpr ⟨g, hg.1, hg.2, hmem⟩, id⟩
  · rintro ptr rest t ⟨hfacts, ht, hcss, hrequests, hnodup, hwait⟩
    rw [List.nodup_cons] at hnodup
    obtain ⟨hhere, hkept⟩ := hwait ptr List.mem_cons_self
    rw [← hrequests] at hhere
    have hhome : Home extra t cid := by
      rw [Home, hcss]
      exact hcid
    refine ((hturn t ptr hfacts hhome ht hhere hkept).and
      ((dropQueued_drops hfacts hhere hhome).weaken fun _ _ => trivial)).mono fun u hu => ?_
    obtain ⟨hP, hufacts, id, hdrops⟩ := hu
    refine ⟨hufacts, hP, hdrops.css.trans hcss, hdrops.jobRequests.trans hrequests, hnodup.2, ?_⟩
    intro p hp
    obtain ⟨hpwait, hpjob⟩ := hwait p (List.mem_cons_of_mem _ hp)
    exact ⟨hpwait, fun hlive => hdrops.liveJob (fun heq => hnodup.1 (heq ▸ hp)) (hpjob hlive)⟩
  · obtain ⟨hfacts, hP, hcss, hrequests, -⟩ := ht
    exact .pure ⟨t, hfacts, hP, hcss, hrequests, rfl⟩

theorem dropGroups_ends {s : Scheduler} {cid : ℕ} (h : Facts mode extra s) (hcid : Home extra s cid) :
    Ends (tolerated mode) (fun t => Facts mode extra t ∧ Loses (fun _ => False) s t ∧
      t.css = s.css ∧ ∀ g ∈ t.jobRequests, g.submitter ≠ cid) (s.dropGroups cid) := by
  refine (dropGroups_turns (P := Loses (fun _ => False) s) h hcid (Aside.refl s).toLoses
    fun t ptr hfacts hhome hloses hwait _ => ?_).mono fun u hu => ?_
  · refine (dropQueued_drops hfacts hwait hhome).mono fun u hu => ?_
    obtain ⟨-, id, hdrops⟩ := hu
    exact hloses.trans hdrops.loses
  · obtain ⟨t, hfacts, hloses, hcss, -, rfl⟩ := hu
    have hfilter := waiting_filter cid t.jobRequests
    refine ⟨⟨?_, ?_⟩, { hloses with }, hcss, ?_⟩
    · exact { hfacts.peers with }
    · apply hfacts.tasks.requeue
      · change ((waiting (t.jobRequests.filter _)).map Prod.snd).Nodup
        rw [hfilter]
        exact hfacts.tasks.queue.sublist (List.filter_sublist.map _)
      · change waiting (t.jobRequests.filter _) ⊆ _
        rw [hfilter]
        exact fun e he => List.mem_of_mem_filter he
      · exact fun g hg => ⟨g, List.mem_of_mem_filter hg, rfl⟩
      all_goals rfl
    · intro g hg
      simpa using (List.mem_filter.mp hg).2

/-- `css` changes, and whoever had a home has one. -/
theorem Facts.setCss {s : Scheduler} {extra' css : List ℕ} (h : Facts mode extra s)
    (hhome : ∀ x, Home extra s x → Home extra' { s with css := css } x)
    (hcss : ∀ x ∈ css, s.Has x .daemon) (hleaving : ∀ x ∈ extra', s.Has x .daemon)
    (hnodup : css.Nodup) : Facts mode extra' { s with css := css } where
  peers := { h.peers with
    css := hcss
    leaving := hleaving
    cssNodup := hnodup
    loggedIn := fun k hk hstate =>
      ⟨(h.peers.loggedIn k hk hstate).1, fun ht => hhome _ ((h.peers.loggedIn k hk hstate).2 ht)⟩ }
  tasks := { h.tasks with
    jobs := fun e he => by
      obtain ⟨j, hj, hptr, hid, hties⟩ := h.tasks.jobs e he
      exact ⟨j, hj, hptr, hid, fun htame =>
        ⟨hhome _ (hties htame).1, fun x hx => hhome _ ((hties htame).2 x hx)⟩⟩
    requests := fun htame g hg => hhome _ (h.tasks.requests htame g hg) }

/-- The daemon is out of `css` but its record is still there. -/
theorem Facts.leave {s : Scheduler} {cid : ℕ} (h : Facts mode [] s) (hcid : s.Has cid .daemon) :
    Facts mode [cid] { s with css := s.css.filter (· ≠ cid) } := by
  have hhome : ∀ x, Home [] s x → Home [cid] { s with css := s.css.filter (· ≠ cid) } x := by
    rintro x (hx | hx)
    · by_cases hne : x = cid
      · right
        simp [hne]
      · left
        simp [hx, hne]
    · simp at hx
  refine h.setCss hhome (fun x hx => h.peers.css x (List.mem_of_mem_filter hx)) (fun x hx => ?_)
    (h.peers.cssNodup.sublist List.filter_sublist)
  rwa [List.mem_singleton.mp hx]

theorem forgetBlacklist_keeps {s : Scheduler} {cid other : ℕ} (h : Peers extra s)
    (hother : other ∈ s.css) (hcid : cid ∉ s.css) :
    Ends (tolerated mode) (Keeps (fun _ => False) s) (forgetBlacklist cid s other) := by
  unfold forgetBlacklist
  refine (touch_ends fun _ => (h.css other hother).live).bind fun _ _ => ?_
  refine .pure (.put_of_subset other h.cids rfl fun x hx => ?_)
  have hne : x ≠ cid := by
    rintro rfl
    exact hcid hx
  simp [CompileServer.against, AList.lookup_erase_ne hne]

/-- A loop over the servers that leaves the servers alone -/
theorem css_loop {s : Scheduler} {f : Scheduler → ℕ → Except Fault Scheduler}
    (h : Facts mode extra s) (hf : ∀ t other, Facts mode extra t → Keeps (fun _ => False) s t →
      other ∈ t.css → Ends (tolerated mode) (Keeps (fun _ => False) t) (f t other)) :
    Ends (tolerated mode) (Keeps (fun _ => False) s) (s.css.foldlM f s) := by
  refine (Ends.foldlM (fun rest t => Keeps (fun _ => False) s t ∧ rest ⊆ s.css)
    ⟨(Aside.refl s).toKeeps, fun _ hx => hx⟩ ?_).mono fun t ht => ht.1
  rintro other rest t ⟨hkeeps, hrest⟩
  have hmem : other ∈ t.css := by
    rw [hkeeps.same]
    exact hrest List.mem_cons_self
  refine (hf t other (hkeeps.facts h) hkeeps hmem).mono fun u hu => ?_
  exact ⟨hkeeps.trans hu, fun x hx => hrest (List.mem_cons_of_mem _ hx)⟩

/-- What the deletion of a daemon's jobs leaves, while its record is still there -/
structure Departed (mode : Mode) (cid : ℕ) (s t : Scheduler) : Prop where
  facts : Facts mode [cid] t
  loses : Loses (fun _ => False) { s with css := s.css.filter (· ≠ cid) } t
  css : t.css = s.css.filter (· ≠ cid)
  jobs : ∀ e ∈ t.jobs, Unrelated cid t e
  requests : ∀ g ∈ t.jobRequests, g.submitter ≠ cid

theorem endDaemon_departed {s : Scheduler} {cid : ℕ} (h : Facts mode [] s) (hcid : s.Has cid .daemon) :
    Ends (tolerated mode) (Departed mode cid s) (s.endDaemon cid) := by
  unfold endDaemon
  refine (notifyMonitors_aside h.peers rfl).bind fun t ht => ?_
  have hhas := hcid.kept ht.toLoses not_false
    fun hm => absurd hm (h.peers.not_monitor hcid (by decide))
  have hleft := (ht.facts h).leave hhas
  refine (dropGroups_ends hleft (.inr (by simp))).bind fun u hu => ?_
  obtain ⟨hufacts, huloses, hucss, hurequests⟩ := hu
  refine (dropAssigned_loop cid hufacts).bind fun v hv => ?_
  obtain ⟨hvfacts, hvloses, hvcss, hvrequests, hvjobs⟩ := hv
  have hgone : cid ∉ v.css := by simp [hvcss, hucss]
  refine (css_loop hvfacts fun w other hw hkeeps hother =>
    forgetBlacklist_keeps hw.peers hother (by rwa [hkeeps.same])).mono fun w hw => ?_
  have hcss : v.css = s.css.filter (· ≠ cid) := by
    rw [hvcss, hucss]
    simp only [ht.same]
  constructor
  · exact hw.facts hvfacts
  · have hfirst : Loses (fun _ => False) { s with css := s.css.filter (· ≠ cid) }
        { t with css := t.css.filter (· ≠ cid) } := by
      exact { ht.toLoses with
        css := by
          simp only [ht.same]
          exact .refl _
        cssKept := fun x hx _ => by simpa only [ht.same] using hx
        blacklists := fun x hx y hy =>
          ht.blacklists x hx y (List.mem_of_mem_filter hy) }
    exact ((hfirst.trans huloses).trans hvloses).trans hw.toLoses
  · exact hw.same.trans hcss
  · rw [hw.jobs]
    intro e he
    simpa only [Unrelated, job, hw.heap] using hvjobs e he
  · rw [hw.jobRequests, hvrequests]
    exact hurequests

/-- The record of a connection that is in no container is deleted. -/
theorem Peers.free {s t : Scheduler} {cid : ℕ} (h : Peers extra s)
    (hloses : Loses (· = cid) s t) (hkinds : t.kinds = (s.free cid).kinds)
    (hcss : t.css = s.css) (hextra : ∀ x ∈ extra, x = cid) (hnot : cid ∉ s.css)
    (hmonitors : cid ∉ t.monitors) (hcontrols : cid ∉ t.controls) : Peers [] t where
  cids := h.cids.sublist (hloses.kinds.map _)
  fds := h.fds.sublist (hloses.kinds.map _)
  fresh k hk := by
    rw [hloses.newCid]
    exact h.fresh k (hloses.kinds.subset hk)
  css x hx := by
    have hmem := hloses.css.subset hx
    have hhas := h.css x hmem
    refine hhas.kept hloses ?_ fun hm => absurd hm (h.not_monitor hhas (by decide))
    rintro rfl
    exact hnot hmem
  leaving x hx := by simp at hx
  monitors x hx := by
    have hhas := h.monitors x (hloses.monitors.subset hx)
    refine hhas.kept hloses ?_ fun _ => hx
    rintro rfl
    exact hmonitors hx
  controls x hx := by
    have hhas := h.controls x (hloses.controls.subset hx)
    refine hhas.kept hloses ?_ fun hm => absurd hm (h.not_monitor hhas (by decide))
    rintro rfl
    exact hcontrols hx
  cssNodup := h.cssNodup.sublist hloses.css
  monitorsNodup := h.monitorsNodup.sublist hloses.monitors
  controlsNodup := h.controlsNodup.sublist hloses.controls
  entries e he := by
    obtain ⟨k, hk, hcid, hfd, hstate⟩ := h.entries e (hloses.fd2cs.subset he)
    exact ⟨k, hloses.entriesLive e he k hk hcid hfd, hcid, hfd, hstate⟩
  loggedIn k hk hstate := by
    obtain ⟨htype, hhome⟩ := h.loggedIn k (hloses.kinds.subset hk) hstate
    refine ⟨htype, fun hdaemon => .inl ?_⟩
    rw [hkinds, free_kinds, List.mem_filter, decide_eq_true_eq] at hk
    rw [hcss]
    exact (hhome hdaemon).resolve_right fun hx => hk.2 (hextra _ hx)

/-- What `handle_end` does to the others: nothing. -/
structure Ended (mode : Mode) (cid : ℕ) (s t : Scheduler) : Prop where
  facts : Facts mode [] t
  loses : Loses (· = cid) s t
  gone : ∀ k ∈ t.kinds, k.cid ≠ cid
  css : t.css = s.css.filter (· ≠ cid)

theorem notMem_of_type {s : Scheduler} {cid : ℕ} {t : ConnType} (h : Peers extra s)
    (hcid : s.Has cid t) :
    (t ≠ .daemon → cid ∉ s.css) ∧ (t ≠ .monitor → cid ∉ s.monitors) ∧
      (t ≠ .line → cid ∉ s.controls) := by
  refine ⟨fun ht hmem => ?_, fun ht => h.not_monitor hcid ht, fun ht hmem => ?_⟩
  · have htype := conn_type h.cids (h.css cid hmem)
    rw [conn_type h.cids hcid] at htype
    exact ht htype
  · have htype := conn_type h.cids (h.controls cid hmem)
    rw [conn_type h.cids hcid] at htype
    exact ht htype

theorem free_loses_of_notMem {s : Scheduler} {cid : ℕ} (h : Peers extra s)
    (hlive : s.live cid = true) (hcss : cid ∉ s.css) (hmonitors : cid ∉ s.monitors)
    (hcontrols : cid ∉ s.controls) : Loses (· = cid) s (s.free cid) :=
  free_loses h hlive rfl rfl (filter_ne_of_notMem hcss).symm (filter_ne_of_notMem hmonitors).symm
    (filter_ne_of_notMem hcontrols).symm (.note (o := .ended cid) rfl rfl) rfl rfl rfl le_rfl

theorem gone_of_kinds {s t : Scheduler} {cid : ℕ} (h : t.kinds = (s.free cid).kinds) :
    ∀ k ∈ t.kinds, k.cid ≠ cid := by
  rw [h, free_kinds]
  intro k hk
  simpa using (List.mem_filter.mp hk).2

theorem handleEnd_ended {s : Scheduler} {cid : ℕ} (h : Facts mode [] s)
    (hlive : mode.strict → s.live cid = true) :
    Ends (tolerated mode) (Ended mode cid s) (s.handleEnd cid) := by
  unfold handleEnd
  refine (touch_ends hlive).bind fun _ hlive => ?_
  have hhas : s.Has cid (s.conn cid).type := ⟨_, conn_kind_mem hlive, conn_cid s cid, rfl⟩
  obtain ⟨hcss, hmonitors, hcontrols⟩ := notMem_of_type h.peers hhas
  cases htype : (s.conn cid).type with
  | monitor =>
    simp only [htype, ne_eq, reduceCtorEq, not_false_eq_true, forall_const] at hcss hcontrols
    rw [htype] at hhas
    refine (endMonitor_keeps h.peers hhas).mono fun t ht => ?_
    obtain ⟨hkeeps, hgone, -, hkinds⟩ := ht
    rw [← free_kinds] at hkinds
    refine ⟨⟨?_, ?_⟩, hkeeps.toLoses, gone_of_kinds hkinds, ?_⟩
    · apply h.peers.free hkeeps.toLoses hkinds hkeeps.same (by simp) hcss
      · simp [hgone]
      · exact fun hm => hcontrols (hkeeps.controls.subset hm)
    · exact h.tasks.of_eq hkeeps.same hkeeps.heap hkeeps.jobs hkeeps.jobRequests hkeeps.newPtr
    · rw [hkeeps.same, filter_ne_of_notMem hcss]
  | unknown =>
    simp only [htype, ne_eq, reduceCtorEq, not_false_eq_true, forall_const] at hcss hmonitors hcontrols
    have hloses := free_loses_of_notMem h.peers hlive hcss hmonitors hcontrols
    refine .pure ⟨⟨?_, h.tasks.of_eq rfl rfl rfl rfl rfl⟩, hloses, gone_of_kinds rfl, ?_⟩
    · exact h.peers.free hloses rfl rfl (by simp) hcss hmonitors hcontrols
    · exact (filter_ne_of_notMem hcss).symm
  | line =>
    simp only [htype, ne_eq, reduceCtorEq, not_false_eq_true, forall_const] at hcss hmonitors
    refine (send_still (fun _ => hlive) rfl).bind fun r hr => ?_
    obtain ⟨⟨haside, -, hsame⟩, -⟩ := hr
    have hpeers := haside.peers h.peers
    have hrlive : r.1.live cid = true := by
      refine (hhas.kept haside.toLoses not_false fun hm => ?_).live
      exact absurd hm hmonitors
    have hrcss : cid ∉ r.1.css := by rwa [haside.same]
    have hrmonitors : cid ∉ r.1.monitors := by rwa [hsame]
    have hloses : Loses (· = cid) r.1
        ({ r.1 with controls := r.1.controls.filter (· ≠ cid) }.free cid) :=
      free_loses hpeers hrlive rfl rfl (filter_ne_of_notMem hrcss).symm
        (filter_ne_of_notMem hrmonitors).symm rfl (.note (o := .ended cid) rfl rfl) rfl rfl rfl
        le_rfl
    refine .pure ⟨⟨?_, ?_⟩, ?_, gone_of_kinds (s := r.1) rfl, ?_⟩
    · exact hpeers.free hloses rfl rfl (by simp) hrcss hrmonitors (by simp [free, note])
    · exact (haside.facts h).tasks.of_eq rfl rfl rfl rfl rfl
    · exact (haside.toLoses.mono fun _ hf => hf.elim).trans hloses
    · change r.1.css = _
      rw [haside.same, filter_ne_of_notMem hcss]
  | daemon =>
    simp only [htype, ne_eq, reduceCtorEq, not_false_eq_true, forall_const] at hmonitors hcontrols
    rw [htype] at hhas
    refine (endDaemon_departed h hhas).bind fun t ht => ?_
    have htlive := (ht.facts.peers.leaving cid (by simp)).live
    have htcss : cid ∉ t.css := by simp [ht.css]
    have htmonitors : cid ∉ t.monitors := fun hm => hmonitors (ht.loses.monitors.subset hm)
    have htcontrols : cid ∉ t.controls := fun hm => hcontrols (ht.loses.controls.subset hm)
    have hfree := free_loses_of_notMem ht.facts.peers htlive htcss htmonitors htcontrols
    have hhome : ∀ x, Home [cid] t x → x ≠ cid → x ∈ t.css := by
      rintro x (hx | hx) hne
      · exact hx
      · exact absurd (List.mem_singleton.mp hx) hne
    have hout : Loses (· = cid) s { s with css := s.css.filter (· ≠ cid) } :=
      { (Aside.refl s).toLoses.mono fun _ hf => hf.elim with
        css := List.filter_sublist
        cssKept := fun x hx hne => by simp [hx, hne]
        blacklists := fun _ _ _ _ => List.Subset.refl _ }
    refine .pure ⟨⟨?_, ?_⟩, ?_, gone_of_kinds rfl, ht.css⟩
    · exact ht.facts.peers.free hfree rfl rfl (by simp) htcss htmonitors htcontrols
    · exact { ht.facts.tasks with
        jobs := fun e he => by
          obtain ⟨hother, hserver⟩ := ht.jobs e he
          have htied := ht.facts.tasks.jobs e he
          obtain ⟨hmem, hptr, hid, hties⟩ := htied.job ht.facts.tasks.ptrs
          refine ⟨t.job e.2, hmem, hptr, hid, fun htame => ?_⟩
          refine ⟨.inl (hhome _ (hties htame).1 hother), fun server hj => ?_⟩
          refine .inl (hhome _ ((hties htame).2 server hj) ?_)
          rintro rfl
          exact hserver hj
        requests := fun htame g hg =>
          .inl (hhome _ (ht.facts.tasks.requests htame g hg) (ht.requests g hg)) }
    · exact (hout.trans (ht.loses.mono fun _ hf => hf.elim)).trans hfree

end Scheduler

end Icecream.IceccScheduler
