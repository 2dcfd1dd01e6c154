import Icecream.Scheduler.Choice
import Icecream.Scheduler.Commands

/-!
# Requests, placements and finished jobs

The handlers that make a job, give it a server or delete it keep the facts about
connections and jobs.
-/

namespace Icecream.IceccScheduler

open Icecream.Comm
open Icecream.Fault

namespace Scheduler

variable {mode : Mode} {lost : ℕ → Prop} {s : Scheduler} {cid : ℕ}

theorem Leaves.still {t : Scheduler} (h : Still s t) (hs : Facts mode [] s) :
    Leaves mode lost s t := (Calms.aside h.toAside hs).toLeaves

/-! ## Requests -/

theorem insertJob_perm (id : UInt32) (ptr : ℕ) (jobs : List (UInt32 × ℕ)) :
    (insertJob id ptr jobs).Perm ((id, ptr) :: jobs.filter fun e => e.1 ≠ id) := by
  unfold insertJob
  refine List.perm_middle.trans (.cons _ ?_)
  have hsplit := List.filter_append_perm (fun e : UInt32 × ℕ => e.1 < id)
    (jobs.filter fun e => e.1 ≠ id)
  rw [List.filter_filter, List.filter_filter] at hsplit
  refine .trans (.of_eq ?_) hsplit
  congr 1
  · apply List.filter_congr
    intro e _
    have hne : e.1 < id → e.1 ≠ id := UInt32.ne_of_lt
    by_cases hlt : e.1 < id <;> simp [hlt, hne]
  · apply List.filter_congr
    intro e _
    simp only [UInt32.lt_iff_toNat_lt, ne_eq, ← UInt32.toNat_inj, decide_not]
    rw [Bool.eq_iff_iff]
    simp
    omega

theorem mem_insertJob {id : UInt32} {ptr : ℕ} {jobs : List (UInt32 × ℕ)} {e : UInt32 × ℕ} :
    e ∈ insertJob id ptr jobs ↔ e = (id, ptr) ∨ (e ∈ jobs ∧ e.1 ≠ id) := by
  rw [(insertJob_perm id ptr jobs).mem_iff]
  simp

/-- A new job in `jobs` and in the queue -/
theorem Tasks.request {t : Scheduler} {j : Job} (h : Tasks mode [] s) (hptr : j.ptr = s.newPtr)
    (hserver : j.server = none) (hcid : j.submitter = cid) (hdaemon : mode.tame → cid ∈ s.css)
    (hfresh : mode.numbered → ∀ e ∈ s.jobs, e.1 ≠ j.id) (css : t.css = s.css)
    (heap : t.heap = j :: s.heap) (jobs : t.jobs = insertJob j.id j.ptr s.jobs)
    (jobRequests : t.jobRequests = enqueueJobRequest j.ptr cid j.niceness s.jobRequests)
    (newPtr : t.newPtr = j.ptr + 1) : Tasks mode [] t := by
  have hwaiting := enqueueJobRequest_waiting j.ptr cid j.niceness s.jobRequests
  rw [← jobRequests] at hwaiting
  have hnew : ∀ e ∈ waiting t.jobRequests, e = (cid, j.ptr) ∨ e ∈ waiting s.jobRequests := by
    intro e he
    exact List.mem_cons.mp (hwaiting.mem_iff.mp he)
  constructor
  · rw [jobs, ((insertJob_perm _ _ _).map _).nodup_iff, List.map_cons, List.nodup_cons]
    refine ⟨?_, h.keys.sublist (List.filter_sublist.map _)⟩
    simp
  · rw [heap, List.map_cons, List.nodup_cons]
    refine ⟨fun hmem => ?_, h.ptrs⟩
    obtain ⟨j', hj', hsame⟩ := List.mem_map.mp hmem
    exact (h.fresh j' hj').ne (hsame.trans hptr)
  · rw [heap, newPtr, hptr]
    intro j' hj'
    rcases List.mem_cons.mp hj' with rfl | hold
    · exact hptr ▸ Nat.lt_succ_self _
    · exact (h.fresh j' hold).trans (Nat.lt_succ_self _)
  · intro e he
    rw [jobs, mem_insertJob] at he
    rcases he with rfl | ⟨hold, -⟩
    · refine ⟨j, by simp [heap], rfl, rfl, fun htame => ⟨.inl ?_, by simp [hserver]⟩⟩
      rw [css, hcid]
      exact hdaemon htame
    · obtain ⟨j', hj', hrest⟩ := h.jobs e hold
      simp only [Tied, Home, css, heap] at hrest ⊢
      exact ⟨j', List.mem_cons_of_mem _ hj', hrest⟩
  · rw [(hwaiting.map _).nodup_iff, List.map_cons, List.nodup_cons]
    refine ⟨fun hmem => ?_, h.queue⟩
    obtain ⟨e, he, hsame⟩ := List.mem_map.mp hmem
    exact (h.queueFresh e he).ne (hsame.trans hptr)
  · rw [newPtr, hptr]
    intro e he
    rcases hnew e he with rfl | hold
    · simp [hptr]
    · exact (h.queueFresh e hold).trans (Nat.lt_succ_self _)
  · rw [heap]
    intro e he j' hj' hsame
    rcases hnew e he with rfl | hold
    · rcases List.mem_cons.mp hj' with rfl | hj'
      · exact ⟨hcid, hserver⟩
      · exact absurd (hsame.trans hptr) (h.fresh j' hj').ne
    · rcases List.mem_cons.mp hj' with rfl | hj'
      · exact absurd (hsame.symm.trans hptr) (h.queueFresh e hold).ne
      · exact h.queued e hold j' hj' hsame
  · intro htame g hg
    rw [jobRequests] at hg
    rw [Home, css]
    rcases enqueueJobRequest_submitter hg with hsame | ⟨g', hg', hsame⟩
    · exact .inl (hsame ▸ hdaemon htame)
    · exact hsame ▸ h.requests htame g' hg'
  · rw [heap, jobs]
    intro hnumbered j' hj'
    rw [mem_insertJob]
    rcases List.mem_cons.mp hj' with rfl | hold
    · exact .inl rfl
    · have hlisted := h.listed hnumbered j' hold
      exact .inr ⟨hlisted, hfresh hnumbered _ hlisted⟩

theorem findJob_none {id : UInt32} : s.findJob id = none ↔ ∀ e ∈ s.jobs, e.1 ≠ id := by
  simp [findJob]

/-- One job of a request -/
theorem requestJob_leaves (m : GetCSMsg) (h : Facts mode [] s)
    (hlive : mode.strict → s.live cid = true) (hdaemon : mode.tame → cid ∈ s.css)
    (hfresh : mode.numbered → ∀ e ∈ s.jobs, e.1 ≠ s.newJobId + 1) :
    Ends (tolerated mode) (fun t => Leaves mode (fun _ => False) s t ∧
        t.newJobId = s.newJobId + 1 ∧ t.jobs = insertJob (s.newJobId + 1) s.newPtr s.jobs ∧
        t.css = s.css)
      (s.requestJob cid m (s.requestedJob cid m)) := by
  unfold requestJob createNewJob
  have hrequire := Still.require s .newJobId (s.findJob (s.requestedJob cid m).id).isNone
  have hid : (s.requestedJob cid m).id = s.newJobId + 1 := rfl
  have hptr : (s.requestedJob cid m).ptr = s.newPtr := rfl
  have hsubmitter : (s.requestedJob cid m).submitter = cid := rfl
  have hserver : (s.requestedJob cid m).server = none := rfl
  generalize s.requestedJob cid m = j at hrequire hid hptr hsubmitter hserver
  generalize s.require .newJobId (s.findJob j.id).isNone = t at hrequire
  subst hsubmitter
  have htlive : mode.strict → t.live j.submitter = true := fun hstrict =>
    hrequire.live ▸ hlive hstrict
  rw [bind_assoc]
  refine (touch_ends htlive).bind fun _ _ => ?_
  rw [pure_bind]
  have hput := Still.put (s := t) (c := { t.conn j.submitter with
    submittedJobsCount := (t.conn j.submitter).submittedJobsCount + 1 }) j.submitter
    (hrequire.toAside.peers h.peers).cids rfl rfl rfl
  generalize t.put { t.conn j.submitter with
    submittedJobsCount := (t.conn j.submitter).submittedJobsCount + 1 } = u at hput
  have hstill := hrequire.trans hput
  have hleaves : Leaves mode (fun _ => False) s
      { u with newJobId := j.id, newPtr := j.ptr + 1, heap := j :: t.heap,
               jobs := insertJob j.id j.ptr t.jobs,
               jobRequests := enqueueJobRequest j.ptr j.submitter j.niceness u.jobRequests } := by
    refine ⟨⟨{ hstill.toAside.peers h.peers with }, ?_⟩, { hstill.toLoses with }⟩
    refine h.tasks.request hptr hserver rfl hdaemon (hid ▸ hfresh) hstill.same ?_ ?_ ?_ rfl
    · simp [hrequire.heap]
    · simp [hrequire.jobs]
    · simp [hstill.jobRequests]
  have hvlive : mode.strict → u.live j.submitter = true := fun hstrict =>
    hstill.live ▸ hlive hstrict
  refine (touch_ends (s := { u with newJobId := j.id, .. }) hvlive).bind fun _ _ => ?_
  have hniceness := Still.require (s := { u with
      newJobId := j.id, newPtr := j.ptr + 1, heap := j :: t.heap,
      jobs := insertJob j.id j.ptr t.jobs,
      jobRequests := enqueueJobRequest j.ptr j.submitter j.niceness u.jobRequests })
    .niceness (m.niceness ≤ 20)
  have hagain := hniceness.toAside.facts hleaves.facts
  refine (notifyMonitors_aside hagain.peers rfl).mono fun v hv => ?_
  have haside := hniceness.toAside.trans hv
  refine ⟨hleaves.trans ⟨haside.facts hleaves.facts, haside.toLoses⟩, ?_, ?_, ?_⟩
  · rw [haside.newJobId, hid]
  · rw [haside.jobs, hid, hptr, hrequire.jobs]
  · rw [haside.same]
    exact hstill.same

theorem Leaves.putJob {j : Job} (ptr : ℕ) (h : Facts mode [] s) (hptr : (s.job ptr).ptr = ptr)
    (hties : j.ties = (s.job ptr).ties) : Leaves mode lost s (s.putJob j) where
  facts := by
    have hheap : (s.putJob j).heap.map Job.ties = s.heap.map Job.ties :=
      putJob_map _ ptr h.tasks.ptrs ((congrArg (·.1) hties).trans hptr) hties
    exact ⟨{ h.peers with }, h.tasks.rewrite hheap rfl rfl rfl rfl⟩
  loses := { (Aside.refl s).toLoses.mono fun _ hf => hf.elim with }

theorem appendMaster_leaves {master ptr : ℕ} (h : Facts mode [] s) :
    Ends (tolerated mode) (fun t => Leaves mode lost s t ∧ t.newJobId = s.newJobId ∧
      t.jobs = s.jobs ∧ t.css = s.css) (s.appendMaster master ptr) := by
  unfold appendMaster
  refine touchJob_ends.bind fun _ hjob => .pure ⟨?_, rfl, rfl, rfl⟩
  exact .putJob master h (job_mem hjob).2 rfl

theorem newJobId_ne {i : UInt32} {k : ℕ} (hpos : 1 ≤ k) (hk : k < 2 ^ 32) :
    i + 1 + UInt32.ofNat k ≠ i + 1 := by
  intro heq
  have hzero : UInt32.ofNat k = 0 := by simpa using heq
  have hnat := congrArg UInt32.toNat hzero
  rw [UInt32.toNat_ofNat_of_lt' (by simpa [UInt32.size] using hk)] at hnat
  simp only [UInt32.toNat_zero] at hnat
  omega

/-- The next `n` ids are those of no job. -/
def Unused (s : Scheduler) (n : ℕ) : Prop :=
  ∀ k, 1 ≤ k → k ≤ n → ∀ e ∈ s.jobs, e.1 ≠ s.newJobId + UInt32.ofNat k

theorem Unused.next {t : Scheduler} {n : ℕ} {ptr : ℕ} (h : s.Unused (n + 1)) (hn : n + 1 < 2 ^ 32)
    (hid : t.newJobId = s.newJobId + 1) (hjobs : t.jobs = insertJob (s.newJobId + 1) ptr s.jobs) :
    t.Unused n := by
  intro k hpos hk e he
  rw [hid]
  rw [hjobs, mem_insertJob] at he
  rcases he with rfl | ⟨hold, -⟩
  · exact (newJobId_ne hpos (by omega)).symm
  · have hne := h (k + 1) (by omega) (by omega) e hold
    rwa [UInt32.ofNat_add, UInt32.add_comm (UInt32.ofNat k), ← UInt32.add_assoc] at hne

theorem requestJobs_leaves (m : GetCSMsg) {n : ℕ} {master : Option ℕ} (h : Facts mode [] s)
    (hdaemon : mode.tame → n ≠ 0 → cid ∈ s.css) (hn : n < 2 ^ 32)
    (hunused : mode.numbered → s.Unused n) :
    Ends (tolerated mode) (fun t => Leaves mode (fun _ => False) s t ∧ t.css = s.css ∧
      (n = 0 → t = s)) (requestJobs cid m n master s) := by
  induction n generalizing s master with
  | zero => exact .pure ⟨.still (.refl s) h, rfl, fun _ => rfl⟩
  | succ n ih =>
    have hcss : mode.tame → cid ∈ s.css := fun htame => hdaemon htame (Nat.succ_ne_zero n)
    have hlive : mode.strict → s.live cid = true := fun hstrict =>
      (h.peers.css cid (hcss (mode.strict_tame hstrict))).live
    simp only [requestJobs]
    refine (requestJob_leaves m h hlive hcss fun hnumbered => ?_).bind fun t ht => ?_
    · exact hunused hnumbered 1 le_rfl (by omega)
    · obtain ⟨hleaves, hid, hjobs, hsame⟩ := ht
      cases master with
      | none =>
        refine (ih hleaves.facts (fun htame _ => hsame ▸ hcss htame) (by omega)
          fun hnumbered => (hunused hnumbered).next hn hid hjobs).mono fun u hu => ?_
        exact ⟨hleaves.trans hu.1, hu.2.1.trans hsame, by simp⟩
      | some master =>
        have happend : Ends (tolerated mode) (fun u => Leaves mode (fun _ => False) t u ∧
            u.newJobId = t.newJobId ∧ u.jobs = t.jobs ∧ u.css = t.css)
            (t.appendMaster master (s.requestedJob cid m).ptr) := appendMaster_leaves hleaves.facts
        refine happend.bind fun u hu => ?_
        obtain ⟨huleaves, huid, hujobs, husame⟩ := hu
        have hboth := hleaves.trans huleaves
        refine (ih hboth.facts (fun htame _ => (husame.trans hsame) ▸ hcss htame) (by omega)
          fun hnumbered => ?_).mono fun v hv => ?_
        · exact (hunused hnumbered).next hn (huid.trans hid) (hujobs.trans hjobs)
        · exact ⟨hboth.trans hv.1, hv.2.1.trans (husame.trans hsame), by simp⟩

theorem handleCsRequest_served (m : GetCSMsg) (h : Facts mode [] s)
    (hlive : mode.strict → s.live cid = true)
    (hdaemon : mode.tame → m.count ≠ 0 → cid ∈ s.css)
    (hunused : mode.numbered → s.Unused m.count.toNat) :
    Ends (tolerated mode) (Served mode lost cid s) (s.handleCsRequest cid m) := by
  unfold handleCsRequest
  refine (setClientCount_still m.clientCount h.peers hlive).bind fun t ht => ?_
  have hfacts := ht.toAside.facts h
  have htlive : mode.strict → t.live cid = true := fun hstrict => ht.live ▸ hlive hstrict
  have hnonzero : m.count.toNat ≠ 0 → m.count ≠ 0 := by
    intro hne hzero
    simp [hzero] at hne
  refine (requestJobs_leaves m hfacts (fun htame hne => ?_) m.count.toNat_lt
    fun hnumbered => ?_).bind fun u hu => .pure ?_
  · rw [ht.same]
    exact hdaemon htame (hnonzero hne)
  · simp only [Unused, ht.jobs, ht.newJobId]
    exact hunused hnumbered
  · obtain ⟨hleaves, hcss, hnone⟩ := hu
    refine ⟨((Leaves.still ht h).trans hleaves).mono fun _ hf => hf.elim, fun hstrict _ => ?_⟩
    by_cases hzero : m.count = 0
    · rw [hnone (by simp [hzero])]
      exact htlive hstrict
    · have hcid := hdaemon (mode.strict_tame hstrict) hzero
      rw [← ht.same, ← hcss] at hcid
      exact (hleaves.facts.peers.css cid hcid).live

/-! ## Placements -/

/-- The job at a position of the queue gets a server and leaves the queue. -/
theorem Tasks.place {pos : JobRequestPosition} {j : Job} {useCs : ℕ} (h : Tasks mode [] s)
    (hpos : pos ∈ jobRequestPositions s.jobRequests) (hjob : s.liveJob pos.2 = true)
    (hhome : mode.tame → Home [] s useCs)
    (hties : j.ties = (pos.2, (s.job pos.2).id, (s.job pos.2).submitter, some useCs)) :
    Tasks mode [] ({ s with jobRequests := removeJobRequest s.jobRequests pos }.putJob j) := by
  obtain ⟨hmem, hptr⟩ := job_mem hjob
  obtain ⟨g, hg, hin⟩ := mem_positions hpos
  have hperm := removeJobRequest_waiting hg hin
  have hnodup := (hperm.map Prod.snd).nodup_iff.mp h.queue
  rw [List.map_cons, List.nodup_cons] at hnodup
  have hsub : waiting (removeJobRequest s.jobRequests pos) ⊆ waiting s.jobRequests :=
    fun e he => hperm.mem_iff.mpr (List.mem_cons_of_mem _ he)
  simp only [Job.ties, Prod.mk.injEq] at hties
  obtain ⟨hjptr, hjid, hjsubmitter, hjserver⟩ := hties
  have hold : ∀ x ∈ Records.replace Job.ptr j s.heap, x = j ∨ (x ∈ s.heap ∧ x.ptr ≠ pos.2) := by
    intro x hx
    rcases Records.mem_replace.mp hx with ⟨rfl, -⟩ | ⟨hx, hne⟩
    · exact .inl rfl
    · exact .inr ⟨hx, hjptr ▸ hne⟩
  have hnew : j ∈ Records.replace Job.ptr j s.heap :=
    Records.mem_replace.mpr (.inl ⟨rfl, List.mem_map.mpr ⟨_, hmem, hptr.trans hjptr.symm⟩⟩)
  constructor
  · exact h.keys
  · change ((Records.replace Job.ptr j s.heap).map Job.ptr).Nodup
    rw [Records.map_key_replace]
    exact h.ptrs
  · intro x hx
    rcases hold x hx with rfl | ⟨hx, -⟩
    · exact (hjptr.trans hptr.symm) ▸ h.fresh _ hmem
    · exact h.fresh x hx
  · intro e he
    obtain ⟨j', hj', hptr', hid', hties⟩ := h.jobs e he
    by_cases hsame : j'.ptr = pos.2
    · have hself : s.job pos.2 = j' := hsame ▸ job_eq h.ptrs hj'
      rw [hself] at hjid hjsubmitter
      refine ⟨j, hnew, ?_, hjid.trans hid', fun htame => ⟨?_, ?_⟩⟩
      · exact hjptr.trans (hsame.symm.trans hptr')
      · exact hjsubmitter ▸ (hties htame).1
      · intro server hserver
        rw [hjserver, Option.some.injEq] at hserver
        exact hserver ▸ hhome htame
    · refine ⟨j', ?_, hptr', hid', hties⟩
      exact Records.mem_replace.mpr (.inr ⟨hj', hjptr.symm ▸ hsame⟩)
  · exact hnodup.2
  · exact fun e he => h.queueFresh e (hsub he)
  · intro e he x hx hsame
    rcases hold x hx with rfl | ⟨hx, -⟩
    · refine absurd (List.mem_map.mpr ⟨e, he, ?_⟩) hnodup.1
      exact hsame.symm.trans hjptr
    · exact h.queued e (hsub he) x hx hsame
  · intro htame g hg
    obtain ⟨g', hg', hsame⟩ := removeJobRequest_submitter hg
    exact hsame ▸ h.requests htame g' hg'
  · intro hnumbered x hx
    rcases hold x hx with rfl | ⟨hx, -⟩
    · have hlisted := h.listed hnumbered _ hmem
      rwa [hptr, ← hjid, ← hjptr] at hlisted
    · exact h.listed hnumbered x hx

theorem shareEnvironment_leaves {platform env : Str} {ptr : ℕ} (h : Facts mode [] s) :
    Ends (tolerated mode) (Leaves mode lost s) (shareEnvironment platform env s ptr) := by
  unfold shareEnvironment
  refine touchJob_ends.bind fun _ hjob => .pure ?_
  exact .putJob ptr h (job_mem hjob).2 rfl

theorem Leaves.keeps {t : Scheduler} (h : Keeps (fun _ => False) s t) (hs : Facts mode [] s) :
    Leaves mode lost s t := ⟨h.facts hs, h.toLoses.mono fun _ hf => hf.elim⟩

theorem settle_leaves (j : Job) {useCs : ℕ} (gotit : Bool) (h : Facts mode [] s)
    (huse : mode.strict → s.live useCs = true) :
    Ends (tolerated mode) (Leaves mode (fun _ => False) s) (s.settle j useCs gotit) := by
  unfold settle appendJob
  rw [bind_assoc]
  refine (touch_ends huse).bind fun _ _ => ?_
  rw [pure_bind]
  have hput := Keeps.put (c := { s.conn useCs with
    lastPickedId := j.id, jobList := (s.conn useCs).jobList ++ [j.ptr] }) useCs h.peers.cids
    rfl rfl
  have hlive := put_live s { s.conn useCs with
    lastPickedId := j.id, jobList := (s.conn useCs).jobList ++ [j.ptr] }
  generalize s.put { s.conn useCs with
    lastPickedId := j.id, jobList := (s.conn useCs).jobList ++ [j.ptr] } = t at hput hlive
  have hfacts := hput.facts h
  have hbusy : Ends (tolerated mode) (Still t)
      (if gotit then pure t else t.asked.setBusyInstalling useCs t.now) := by
    refine .ite (fun _ => .pure (.refl t)) fun _ => ?_
    have hset := setBusyInstalling_still (s := t.asked) t.now { hfacts.peers with } fun hstrict =>
      (hlive useCs).trans (huse hstrict)
    exact hset.mono fun u hu => (Still.asked t).trans hu
  refine hbusy.bind fun u hu => ?_
  have hleaves : Leaves mode (fun _ => False) s u := (Leaves.keeps hput h).trans (.still hu hfacts)
  refine .ite (fun _ => .pure hleaves) fun _ => ?_
  refine (Ends.foldlM (fun _ v => Leaves mode (fun _ => False) s v) hleaves ?_).mono fun _ hv => hv
  intro ptr _ v hv
  exact (shareEnvironment_leaves hv.facts).mono fun _ hw => hv.trans hw

/-- What the submitter of the job at `ptr` is told when `useCs` is to compile it -/
def told (s : Scheduler) (ptr useCs : ℕ) : Msg :=
  let j := { s.job ptr with state := .waitingForCS, server := some useCs }
  let installed := envsMatch (s.conn useCs) j
  s.placement j useCs
    (if installed = [] then s.canInstall (s.conn useCs) j false else installed) (installed ≠ [])

theorem canInstall_congr {t : Scheduler} (hconns : t.conns = s.conns) (c : CompileServer) (j : Job)
    (b : Bool) : t.canInstall c j b = s.canInstall c j b := by
  have hconn : ∀ x, t.conn x = s.conn x := by simp only [conn, hconns, implies_true]
  have hagainst : ∀ e, t.blacklisted c j e = s.blacklisted c j e := by
    simp only [blacklisted, hconn, implies_true]
  simp only [canInstall, hagainst]

theorem told_congr {t : Scheduler} (hconns : t.conns = s.conns) (hheap : t.heap = s.heap)
    (ptr useCs : ℕ) : t.told ptr useCs = s.told ptr useCs := by
  have hconn : ∀ x, t.conn x = s.conn x := by simp only [conn, hconns, implies_true]
  have hjob : t.job ptr = s.job ptr := by simp only [job, hheap]
  have hinstall : ∀ c j b, t.canInstall c j b = s.canInstall c j b := canInstall_congr hconns
  have hplacement : ∀ j x platform gotit,
      t.placement j x platform gotit = s.placement j x platform gotit := by
    simp only [placement, hconn, implies_true]
  simp only [told, hjob, hconn, hinstall, hplacement]

/-- The submitter of the job at `ptr` has been told that `useCs` is to compile it; what
happened besides is the end of the submitter. -/
structure Placed (mode : Mode) (s : Scheduler) (ptr useCs : ℕ) (t : Scheduler) : Prop where
  facts : Facts mode [] t
  newCid : t.newCid = s.newCid
  kinds : t.kinds.Sublist s.kinds
  css : t.css.Sublist s.css
  blacklists : ∀ x, t.live x = true → ∀ h ∈ t.css, (s.conn x).against h ⊆ (t.conn x).against h
  log : ∃ new old ok,
    t.log = new ++ .sent (s.job ptr).submitter (s.told ptr useCs) ok :: (old ++ s.log) ∧
      ∀ o ∈ new ++ old, o.plain = true

/-- The job at `ptr` as it is given to `useCs` -/
def given (s : Scheduler) (ptr useCs : ℕ) : Job :=
  { s.job ptr with state := .waitingForCS, server := some useCs }

/-- The job is out of the queue and has its server, and its submitter has been told so. -/
def granted (s : Scheduler) (ptr useCs : ℕ) (pos : JobRequestPosition) : Scheduler :=
  ({ s with jobRequests := removeJobRequest s.jobRequests pos }.putJob (s.given ptr useCs)).asked.note
    (.sent (s.job ptr).submitter (s.told ptr useCs) (s.ask ≠ 0))

/-- What follows the checks and the answer in `empty_queue` -/
theorem assign_ends {good : Fault → Prop} {P : Scheduler → Prop} {ptr useCs : ℕ}
    (pos : JobRequestPosition)
    (hjob : Ends good (fun _ => s.liveJob ptr = true) (s.touchJob ptr))
    (huse : Ends good (fun _ => s.live useCs = true) (s.touch useCs))
    (hsubmitter : s.liveJob ptr = true →
      Ends good (fun _ => s.live (s.job ptr).submitter = true) (s.touch (s.job ptr).submitter))
    (hsettle : s.liveJob ptr = true → s.ask ≠ 0 → ∀ gotit,
      Ends good P ((s.granted ptr useCs pos).settle (s.given ptr useCs) useCs gotit))
    (hend : s.liveJob ptr = true → s.ask = 0 →
      Ends good P ((s.granted ptr useCs pos).handleEnd (s.job ptr).submitter)) :
    Ends good P (s.assign ptr useCs pos) := by
  unfold assign
  refine hjob.bind fun _ hlive => huse.bind fun _ _ => (hsubmitter hlive).bind fun _ _ => ?_
  unfold send
  rw [bind_assoc]
  refine (hsubmitter hlive).bind fun _ _ => ?_
  rw [pure_bind]
  refine .ite (fun hok => hsettle hlive (of_decide_eq_true (p := s.ask ≠ 0) hok) _) fun hfailed => ?_
  exact hend hlive (not_not.mp fun hne => hfailed (decide_eq_true hne))

theorem granted_facts {pos : JobRequestPosition} {useCs : ℕ} (h : Facts mode [] s)
    (hpos : pos ∈ jobRequestPositions s.jobRequests) (hjob : s.liveJob pos.2 = true)
    (hhome : mode.tame → Home [] s useCs) : Facts mode [] (s.granted pos.2 useCs pos) := by
  have htasks := h.tasks.place (j := s.given pos.2 useCs) hpos hjob hhome
    (by simp [Job.ties, given, (job_mem hjob).2])
  exact ⟨{ h.peers with }, htasks.of_eq rfl rfl rfl rfl rfl⟩

theorem assign_placed {pos : JobRequestPosition} {useCs : ℕ} (h : Facts mode [] s)
    (hpos : pos ∈ jobRequestPositions s.jobRequests) (hhome : mode.tame → Home [] s useCs) :
    Ends (tolerated mode) (Placed mode s pos.2 useCs) (s.assign pos.2 useCs pos) := by
  have hsubmitter : s.liveJob pos.2 = true → mode.strict →
      s.live (s.job pos.2).submitter = true := fun hjob hstrict => (h.jobLive hjob hstrict).1
  have huse : mode.strict → s.live useCs = true := fun hstrict =>
    (hhome (mode.strict_tame hstrict)).live h.peers
  have hplaced : ∀ t, Leaves mode (· = (s.job pos.2).submitter) (s.granted pos.2 useCs pos) t →
      Placed mode s pos.2 useCs t := by
    intro t ht
    obtain ⟨new, hnew, hplain⟩ := ht.loses.quiet
    refine ⟨ht.facts, ht.loses.newCid, ht.loses.kinds, ht.loses.css, ht.loses.blacklists, new, [],
      decide (s.ask ≠ 0), hnew, ?_⟩
    simpa using hplain
  refine assign_ends pos touchJob_ends (touch_ends huse) (fun hjob => touch_ends (hsubmitter hjob))
    (fun hjob _ gotit => ?_) fun hjob _ => ?_
  · have hfacts := granted_facts h hpos hjob hhome
    refine (settle_leaves _ _ hfacts huse).mono fun t ht => ?_
    exact hplaced t (ht.mono fun _ hf => hf.elim)
  · have hfacts := granted_facts h hpos hjob hhome
    refine (handleEnd_calms hfacts (hsubmitter hjob) ?_).mono fun t ht => hplaced t ht.toLeaves
    rfl

/-- The job that the queue is searched for -/
def firstRequest (s : Scheduler) : Option ℕ :=
  (jobRequestPositions s.jobRequests).head?.map Prod.snd

/-- A server that suits the job, or the job's submitter -/
def Eligible (s : Scheduler) (ptr useCs : ℕ) : Prop :=
  s.Suits (s.job ptr) useCs ∨ useCs = (s.job ptr).submitter

/-- The queue has been searched: nothing but the log and the number of answers is new. -/
structure Searched (s t : Scheduler) : Prop extends Still s t where
  conns : t.conns = s.conns

namespace Searched

variable {t : Scheduler}

theorem conn (h : Searched s t) (x : ℕ) : t.conn x = s.conn x := by
  simp only [Scheduler.conn, h.conns]

theorem job (h : Searched s t) (ptr : ℕ) : t.job ptr = s.job ptr := by
  simp only [Scheduler.job, h.heap]

theorem suits (h : Searched s t) (j : Job) (x : ℕ) : t.Suits j x ↔ s.Suits j x := by
  have hinstall : ∀ c b, t.canInstall c j b = s.canInstall c j b := fun c =>
    canInstall_congr h.conns c j
  have hever : ∀ c, t.isEligibleEver c j = s.isEligibleEver c j := fun c =>
    decide_eq_decide.mpr (by simp only [hinstall])
  have hnow : ∀ c, t.isEligibleNow c j = s.isEligibleNow c j := fun c =>
    decide_eq_decide.mpr (by simp only [hever, hinstall])
  simp only [Suits, hnow, h.conn, h.same]

theorem eligible (h : Searched s t) (ptr useCs : ℕ) :
    t.Eligible ptr useCs ↔ s.Eligible ptr useCs := by
  rw [Eligible, Eligible, h.job, h.suits]

end Searched

/-- The queue is either left as it is or serves its first request. -/
theorem emptyQueue_rule {P : Scheduler → Prop} {allowed : Fault → Prop}
    (himp : ∀ f, tolerated mode f → allowed f) (h : Facts mode [] s) (hidle : ∀ t, Searched s t → P t)
    (hassign : ∀ t pos useCs, Searched s t →
      (jobRequestPositions s.jobRequests).head? = some pos → s.liveJob pos.2 = true →
      s.Eligible pos.2 useCs → Ends allowed P (t.assign pos.2 useCs pos)) :
    Ends allowed (fun r => P r.1) s.emptyQueue := by
  unfold emptyQueue
  cases hqueue : jobRequestPositions s.jobRequests with
  | nil => exact .pure (hidle s ⟨.refl s, rfl⟩)
  | cons first rest =>
    have hrequire : Searched s (s.require .emptyQueue (s.css ≠ [])) := by
      refine ⟨Still.require s .emptyQueue (s.css ≠ []), ?_⟩
      unfold Scheduler.require
      split <;> rfl
    generalize s.require .emptyQueue (s.css ≠ []) = t at hrequire
    have hfacts := hrequire.toAside.facts h
    refine (touchJob_ends.weaken himp).bind fun _ hjob => ?_
    have hcss : Ends (tolerated mode) (fun _ => True) (t.css.forM t.touch) :=
      touch_each fun _ x hx => (hfacts.peers.css x hx).live
    refine (hcss.weaken himp).bind fun _ _ => ?_
    have hsubmitter : Ends (tolerated mode) _ (t.touch (t.job first.2).submitter) :=
      touch_ends fun hstrict => (hfacts.jobLive hjob hstrict).1
    refine (hsubmitter.weaken himp).bind fun _ _ => ?_
    obtain ⟨n, hn, hsearch⟩ := search_asked (t.job first.2) (first :: rest) t
    have hasked : Still t { t with calls := n } :=
      .of_eq (.refl _) rfl hn rfl
    have hsearched : Searched s { t with calls := n } :=
      ⟨hrequire.toStill.trans hasked, hrequire.conns⟩
    have hserved : ∀ useCs, t.Eligible first.2 useCs →
        Ends allowed P (Scheduler.assign { t with calls := n } first.2 useCs first) := by
      intro useCs huse
      have hhead : (jobRequestPositions s.jobRequests).head? = some first := by rw [hqueue]; rfl
      have hlive : s.liveJob first.2 = true := by simpa only [liveJob, hrequire.heap] using hjob
      exact hassign _ first useCs hsearched hhead hlive ((hrequire.eligible _ _).mp huse)
    simp only [hsearch]
    cases hfound : (search (t.job first.2) (first :: rest) t).2 with
    | some found =>
      obtain ⟨pos, useCs⟩ := found
      obtain ⟨rfl, hsuits⟩ := search_first hfound
      exact (hserved useCs hsuits).bind fun u hu => .pure hu
    | none =>
      refine .ite (fun _ => .pure (hidle _ hsearched)) fun _ => ?_
      exact (hserved _ (.inr rfl)).bind fun u hu => .pure hu

theorem Placed.searched {t u : Scheduler} {ptr useCs : ℕ} (hsearch : Searched s t)
    (h : Placed mode t ptr useCs u) : Placed mode s ptr useCs u := by
  obtain ⟨old, hold, hplain⟩ := hsearch.quiet
  obtain ⟨new, middle, ok, hlog, hnew⟩ := h.log
  refine ⟨h.facts, h.newCid.trans hsearch.newCid, hsearch.all ▸ h.kinds, hsearch.same ▸ h.css, ?_,
    new, middle ++ old, ok, ?_, fun o ho => ?_⟩
  · simpa only [hsearch.conn] using h.blacklists
  · rw [hlog, hsearch.job, told_congr hsearch.conns hsearch.heap, hold, List.append_assoc]
  · rw [← List.append_assoc] at ho
    exact (List.mem_append.mp ho).elim (hnew o) (hplain o)

theorem Searched.position {t : Scheduler} {pos : JobRequestPosition} (h : Searched s t)
    (hpos : (jobRequestPositions s.jobRequests).head? = some pos) :
    pos ∈ jobRequestPositions t.jobRequests := by
  rw [h.jobRequests]
  exact List.mem_of_mem_head? hpos

/-- What the queue is served with -/
theorem emptyQueue_ends (h : Facts mode [] s) :
    Ends (tolerated mode) (fun r => Leaves mode (fun _ => False) s r.1 ∨
      ∃ ptr useCs, s.firstRequest = some ptr ∧ s.Eligible ptr useCs ∧
        Placed mode s ptr useCs r.1) s.emptyQueue := by
  refine emptyQueue_rule (P := fun t => Leaves mode (fun _ => False) s t ∨ ∃ ptr useCs,
      s.firstRequest = some ptr ∧ s.Eligible ptr useCs ∧ Placed mode s ptr useCs t) (fun _ hf => hf) h
    (fun t ht => .inl (.still ht.toStill h)) fun t pos useCs ht hpos hjob huse => ?_
  have htfacts := ht.toAside.facts h
  have hhome : mode.tame → Home [] t useCs := by
    intro htame
    rcases huse with hsuits | rfl
    · exact .inl (ht.same.symm ▸ hsuits.1)
    · obtain ⟨submitter, hwait⟩ := position_waiting (ht.position hpos)
      obtain ⟨hheap, hptr⟩ := job_mem hjob
      obtain ⟨hsubmitter, -⟩ := htfacts.tasks.queued _ hwait _ (ht.heap ▸ hheap) hptr
      obtain ⟨g, hg, hgsubmitter, -⟩ := mem_waiting.mp hwait
      rw [hsubmitter]
      exact hgsubmitter ▸ htfacts.tasks.requests htame g hg
  refine (assign_placed htfacts (ht.position hpos) hhome).mono fun u hu => ?_
  exact .inr ⟨pos.2, useCs, by rw [firstRequest, hpos, Option.map_some], huse, hu.searched ht⟩

/-! ## Finished jobs -/

/-- A live home is reached through strict facts. -/
theorem Facts.tied {e : UInt32 × ℕ} (h : Facts mode [] s) (he : e ∈ s.jobs)
    (hstrict : mode.strict) : s.live (s.job e.2).submitter = true ∧
      ∀ server, (s.job e.2).server = some server → s.live server = true := by
  obtain ⟨-, -, -, hhome⟩ := (h.tasks.jobs e he).job h.tasks.ptrs
  obtain ⟨hsubmitter, hserver⟩ := hhome (mode.strict_tame hstrict)
  exact ⟨hsubmitter.live h.peers, fun server hs => (hserver server hs).live h.peers⟩

theorem countCompiled_still (st : JobStat) (h : Peers [] s)
    (hlive : mode.strict → s.live cid = true) :
    Ends (tolerated mode) (Still s) (s.countCompiled cid st) := by
  unfold countCompiled
  exact (touch_ends hlive).bind fun _ _ => .pure (.put cid h.cids rfl rfl rfl)

theorem countRequested_still (st : JobStat) (h : Peers [] s)
    (hlive : mode.strict → s.live cid = true) :
    Ends (tolerated mode) (Still s) (s.countRequested cid st) := by
  unfold countRequested
  exact (touch_ends hlive).bind fun _ _ => .pure (.put cid h.cids rfl rfl rfl)

theorem addJobStats_still {j : Job} (m : JobDoneMsg) (h : Peers [] s)
    (hsubmitter : mode.strict → s.live j.submitter = true)
    (hserver : mode.strict → ∀ server, j.server = some server → s.live server = true) :
    Ends (tolerated mode) (Still s) (s.addJobStats j m) := by
  unfold addJobStats
  refine .ite (fun _ => .pure (.refl s)) fun _ => ?_
  cases hj : j.server with
  | none => exact .throw fun hf => by cases hf
  | some server =>
    refine (countCompiled_still _ h fun hstrict => hserver hstrict server hj).bind fun t ht => ?_
    refine (countRequested_still _ (ht.toAside.peers h) fun hstrict => ?_).bind fun u hu => ?_
    · exact ht.live ▸ hsubmitter hstrict
    · exact .pure ((ht.trans hu).trans (.of_eq (.refl _) rfl le_rfl rfl))

theorem touchServer_ends {j : Job}
    (hserver : mode.strict → ∀ server, j.server = some server → s.live server = true) :
    Ends (tolerated mode) (fun _ => True) (s.touchServer j) := by
  unfold touchServer
  cases hj : j.server with
  | none => exact .throw fun hf => by cases hf
  | some server =>
    exact (touch_ends fun hstrict => hserver hstrict server hj).mono fun _ _ => trivial

theorem finishJob_leaves {ptr : ℕ} {m : JobDoneMsg} (h : Facts mode [] s)
    (hentry : (m.jobId, ptr) ∈ s.jobs) (hlive : mode.strict → s.live cid = true) :
    Ends (tolerated mode) (Leaves mode (fun _ => False) s) (s.finishJob cid ptr m) := by
  unfold finishJob
  refine (setClientCount_still m.clientCount h.peers hlive).bind fun t ht => ?_
  have htfacts := ht.toAside.facts h
  have htentry : (m.jobId, ptr) ∈ t.jobs := ht.jobs ▸ hentry
  have htied := fun hstrict => htfacts.tied htentry hstrict
  have htouch : Ends (tolerated mode) (fun _ => True)
      (if m.exitcode = 0 then t.touchServer (t.job ptr) else pure ()) :=
    .ite (fun _ => touchServer_ends fun hstrict => (htied hstrict).2) fun _ => .pure trivial
  refine htouch.bind fun _ _ => ?_
  refine Ends.bind (P := fun u => Keeps (fun _ => False) t u ∧ ∀ x, u.live x = t.live x) ?_
    fun u hu => ?_
  · cases hj : (t.job ptr).server with
    | none => exact .pure ⟨(Aside.refl t).toKeeps, fun _ => rfl⟩
    | some server =>
      unfold removeJob
      refine (touch_ends fun hstrict => (htied hstrict).2 server hj).bind fun _ _ => ?_
      exact .pure ⟨.put server htfacts.peers.cids rfl rfl, put_live t _⟩
  have hufacts := hu.1.facts htfacts
  refine (addJobStats_still m hufacts.peers (fun hstrict => ?_) fun hstrict server hj => ?_).bind
    fun v hv => ?_
  · exact hu.2 _ ▸ (htied hstrict).1
  · exact hu.2 _ ▸ (htied hstrict).2 server hj
  have hvfacts := hv.toAside.facts hufacts
  refine (notifyMonitors_aside hvfacts.peers rfl).bind fun w hw => ?_
  have hkeeps := ((ht.toKeeps.trans hu.1).trans hv.toKeeps).trans hw.toKeeps
  have hwfacts := hkeeps.facts h
  have hwentry : (m.jobId, ptr) ∈ w.jobs := hkeeps.jobs ▸ hentry
  refine (freeJob_drops hwfacts.peers fun hstrict => (hwfacts.tied hwentry hstrict).1).mono
    fun x hx => ?_
  obtain ⟨hmem, hptr, hid, -⟩ := (hwfacts.tasks.jobs _ hwentry).job hwfacts.tasks.ptrs
  refine (Leaves.keeps hkeeps h).trans ⟨hx.facts hwfacts ?_ fun _ e he hsame => ?_, hx.loses⟩
  · intro j hj hjptr
    have hself := job_eq hwfacts.tasks.ptrs hj
    rw [hjptr] at hself
    rw [← hself]
    exact hid
  · rw [hwfacts.tasks.entry he hwentry hsame]

theorem cancelQueued_leaves {clientId : UInt32} {found : Option ℕ} {e : UInt32 × ℕ}
    (h : Facts mode [] s) :
    Ends (tolerated mode) (fun r => Leaves mode (fun _ => False) s r.1 ∧ r.1.conns = s.conns ∧
        r.1.jobs = s.jobs ∧ r.1.heap = s.heap ∧ (r.2 = found ∨ r.2 = some e.2))
      (cancelQueued cid clientId (s, found) e) := by
  unfold cancelQueued
  refine touchJob_ends.bind fun _ _ => ?_
  refine .ite (fun _ => ?_) fun _ => ?_
  · refine .pure ⟨⟨⟨{ h.peers with }, ?_⟩, { (Aside.refl s).toLoses with }⟩, rfl, rfl, rfl, .inr rfl⟩
    have hsub := dequeue_sublist cid e.2 s.jobRequests
    exact h.tasks.requeue (h.tasks.queue.sublist (hsub.map _)) hsub.subset
      (fun g hg => dequeue_submitter hg) rfl rfl rfl rfl
  · exact .pure ⟨.still (.refl s) h, rfl, rfl, rfl, .inl rfl⟩

theorem jobOfDone_leaves (m : JobDoneMsg) (h : Facts mode [] s) :
    Ends (tolerated mode) (fun r => Leaves mode (fun _ => False) s r.1.1 ∧
        r.1.1.conns = s.conns ∧ ∀ ptr, r.1.2 = some ptr → (r.2.jobId, ptr) ∈ r.1.1.jobs)
      (s.jobOfDone cid m) := by
  unfold jobOfDone
  refine .ite (fun _ => ?_) fun _ => ?_
  · refine (Ends.foldlM (fun rest r => Leaves mode (fun _ => False) s r.1 ∧ r.1.conns = s.conns ∧
        r.1.jobs = s.jobs ∧ r.1.heap = s.heap ∧ rest ⊆ s.jobs ∧
        ∀ ptr, r.2 = some ptr → ∃ e ∈ s.jobs, e.2 = ptr)
      ⟨.still (.refl s) h, rfl, rfl, rfl, fun _ hx => hx, by simp⟩ ?_).bind fun r hr => ?_
    · rintro e rest ⟨t, found⟩ ⟨hleaves, hconns, hjobs, hheap, hrest, hfound⟩
      refine (cancelQueued_leaves hleaves.facts).mono fun r hr => ?_
      obtain ⟨hnext, hnconns, hnjobs, hnheap, hnfound⟩ := hr
      refine ⟨hleaves.trans hnext, hnconns.trans hconns, hnjobs.trans hjobs, hnheap.trans hheap,
        fun x hx => hrest (List.mem_cons_of_mem _ hx), fun ptr hptr => ?_⟩
      rcases hnfound with hsame | hnew
      · exact hfound ptr (hsame ▸ hptr)
      · rw [hnew, Option.some.injEq] at hptr
        exact ⟨e, hrest List.mem_cons_self, hptr⟩
    · obtain ⟨hleaves, hconns, hjobs, hheap, -, hfound⟩ := hr
      cases hr2 : r.2 with
      | none => exact .pure ⟨hleaves, hconns, by simp [hr2]⟩
      | some ptr =>
        refine .pure ⟨hleaves, hconns, fun ptr' hptr' => ?_⟩
        rw [hr2, Option.some.injEq] at hptr'
        subst hptr'
        obtain ⟨e, he, rfl⟩ := hfound ptr hr2
        obtain ⟨-, -, hid, -⟩ := (h.tasks.jobs e he).job h.tasks.ptrs
        have hsame : r.1.job e.2 = s.job e.2 := by simp only [job, hheap]
        change ((r.1.job e.2).id, e.2) ∈ r.1.jobs
        rw [hsame, hid, hjobs]
        exact he
  · exact .pure ⟨.still (.refl s) h, rfl, fun ptr hptr => findJob_mem hptr⟩

theorem handleJobDone_served (m : JobDoneMsg) (h : Facts mode [] s)
    (hlive : mode.strict → s.live cid = true) :
    Ends (tolerated mode) (Served mode lost cid s) (s.handleJobDone cid m) := by
  unfold handleJobDone
  refine (jobOfDone_leaves m h).bind fun r hr => ?_
  obtain ⟨⟨t, found⟩, m⟩ := r
  obtain ⟨hleaves, hconns, hentry⟩ := hr
  simp only at hleaves hconns hentry
  have hfacts := hleaves.facts
  have htlive : mode.strict → t.live cid = true := by
    simpa only [live, hconns] using hlive
  have hclosed : ∀ u, Handled mode lost cid t (u, false) → Served mode lost cid s (u, false) := by
    intro u hu
    exact ⟨(hleaves.mono fun _ hf => hf.elim).trans hu.toLeaves, hu.stays⟩
  cases found with
  | none => exact .pure (hclosed t (.still (.refl t) hfacts false htlive))
  | some ptr =>
    have hhere := hentry ptr rfl
    have htied := fun hstrict => hfacts.tied hhere hstrict
    refine touchJob_ends.bind fun _ _ => ?_
    refine .ite (fun _ => ?_) fun hserver => ?_
    · refine (touchServer_ends fun hstrict => (htied hstrict).2).bind fun _ _ => ?_
      exact (handleEnd_handled hfacts htlive).bind fun u hu => .pure (hclosed u hu)
    refine .ite (fun _ => ?_) fun hsubmitter => ?_
    · refine (touch_ends fun hstrict => (htied hstrict).1).bind fun _ _ => ?_
      exact (handleEnd_handled hfacts htlive).bind fun u hu => .pure (hclosed u hu)
    refine (finishJob_leaves hfacts hhere htlive).bind fun u hu => .pure ⟨?_, fun hstrict _ => ?_⟩
    · exact (hleaves.trans hu).mono fun _ hf => hf.elim
    · obtain ⟨-, -, -, hhome⟩ := (hfacts.tasks.jobs _ hhere).job hfacts.tasks.ptrs
      obtain ⟨hsub, hsrv⟩ := hhome (mode.strict_tame hstrict)
      have hcid : Home [] t cid := by
        by_cases hfrom : m.isFromServer = true
        · exact hsrv cid (by simpa [hfrom] using hserver)
        · have hsame : (t.job ptr).submitter = cid := by simpa [hfrom] using hsubmitter
          exact hsame ▸ hsub
      refine hu.loses.live (htlive hstrict) not_false fun hm => ?_
      exact absurd hm (hfacts.peers.not_monitor (hfacts.peers.home hcid) (by decide))

end Scheduler

end Icecream.IceccScheduler
