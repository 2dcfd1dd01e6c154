import Icecream.Scheduler.Blacklist

/-!
# What comes of a request

`handle_cs_request` queues as many jobs as the message asks for and makes a `MonGetCSMsg`
for each, with the message's client count where the required features stand and with the
niceness as it came.
-/

namespace Icecream.IceccScheduler

open Icecream.Comm
open Icecream.Fault

namespace Scheduler

variable {s t : Scheduler} {cid : ℕ} {extra : List ℕ}

/-! ## Telling the monitors -/

def Announces (m : Msg) (o : Obs) : Prop := (∃ x ok, o = .sent x m ok) ∨ ∃ x, o = .ended x

/-- The monitors have been told, and those that could not be are gone. -/
structure Told (m : Msg) (s t : Scheduler) : Prop where
  log : ∃ new, t.log = new ++ s.log ∧ ∀ o ∈ new, Announces m o
  conns : ∀ x, t.live x = true → s.live x = true ∧ t.conn x = s.conn x

theorem Told.refl (m : Msg) (s : Scheduler) : Told m s s :=
  ⟨⟨[], rfl, nofun⟩, fun _ hx => ⟨hx, rfl⟩⟩

theorem Told.trans {m : Msg} {u : Scheduler} (h : Told m s t) (h' : Told m t u) : Told m s u where
  log := by
    obtain ⟨new, hlog, hnew⟩ := h.log
    obtain ⟨new', hlog', hnew'⟩ := h'.log
    refine ⟨new' ++ new, by rw [hlog', hlog, List.append_assoc], fun o ho => ?_⟩
    exact (List.mem_append.mp ho).elim (hnew' o) (hnew o)
  conns x hx := by
    obtain ⟨hmid, hlater⟩ := h'.conns x hx
    obtain ⟨hlive, hfirst⟩ := h.conns x hmid
    exact ⟨hlive, hlater.trans hfirst⟩

theorem touch_within {allowed : Fault → Prop} (h : s.live cid = false → allowed .readAfterFree) :
    Ends allowed (fun _ => s.live cid = true) (s.touch cid) := by
  unfold touch
  refine .ite (fun hlive => .pure hlive) fun hdead => .throw (h ?_)
  simpa using hdead

theorem free_told (m : Msg) (s : Scheduler) (cid : ℕ) : Told m s (s.free cid) where
  log := ⟨[.ended cid], rfl, fun _ ho => .inr ⟨cid, List.mem_singleton.mp ho⟩⟩
  conns x hx := by
    have hne : x ≠ cid := by
      rintro rfl
      simp [live, free, note, Records.remove] at hx
    refine ⟨?_, free_conn hne⟩
    rw [live_iff, free_kinds] at hx
    exact live_iff.mpr (List.map_subset _ List.filter_sublist.subset hx)

theorem endMonitor_told (m : Msg) (hlive : s.live cid = true) (hcid : cid ∈ s.monitors) :
    Ends (fun _ => False) (Told m s) (s.endMonitor cid) := by
  unfold endMonitor
  refine (touch_within fun hdead => ?_).bind fun _ _ => .pure ?_
  · simp [hlive] at hdead
  · have hrequire : s.require .monitorListed (cid ∈ s.monitors) = s := if_pos (by simpa using hcid)
    rw [hrequire]
    have hfree := free_told m { s with monitors := s.monitors.filter (· ≠ cid) } cid
    exact ⟨hfree.log, hfree.conns⟩

theorem notify_told {m : Msg} (h : Peers extra s) (hcid : cid ∈ s.monitors) :
    Ends (fun _ => False) (Told m s) (notify m s cid) := by
  have hlive := (h.monitors cid hcid).live
  unfold notify send
  rw [bind_assoc]
  refine (touch_within fun hdead => ?_).bind fun _ _ => ?_
  · simp [hlive] at hdead
  rw [pure_bind]
  have hsent : Told m s (s.asked.note (.sent cid m (s.ask ≠ 0))) := by
    refine ⟨⟨[.sent cid m (s.ask ≠ 0)], rfl, ?_⟩, fun _ hx => ⟨hx, rfl⟩⟩
    intro o ho
    exact .inl ⟨cid, _, List.mem_singleton.mp ho⟩
  refine .ite (fun _ => .pure hsent) fun _ => ?_
  exact (endMonitor_told m (s := s.asked.note (.sent cid m (s.ask ≠ 0))) hlive hcid).mono
    fun u hu => hsent.trans hu

theorem notifyMonitors_told {m : Msg} (h : Peers extra s) (hplain : plain m = true) :
    Ends (fun _ => False) (Told m s) (s.notifyMonitors m) := by
  refine (Ends.foldlM (fun rest t => Told m s t ∧ Peers extra t ∧ rest.Nodup ∧ rest ⊆ t.monitors)
    ⟨.refl m s, h, h.monitorsNodup, List.Subset.refl _⟩ ?_).mono fun t ht => ht.1
  rintro x rest t ⟨htold, hpeers, hnodup, hrest⟩
  have hx := hrest List.mem_cons_self
  have haside : Ends (tolerated Loop.anyMode) _ (notify m t x) := notify_aside hpeers hx hplain
  refine ((notify_told hpeers hx).and (haside.weaken fun _ _ => trivial)).mono fun u hu => ?_
  obtain ⟨hnext, hkeeps, hothers⟩ := hu
  obtain ⟨hnotin, hnodup⟩ := List.nodup_cons.mp hnodup
  refine ⟨htold.trans hnext, hkeeps.peers hpeers, hnodup, fun y hy => ?_⟩
  refine hothers y (hrest (List.mem_cons_of_mem _ hy)) ?_
  rintro rfl
  exact hnotin hy

/-! ## One job -/

/-- What an assertion adds to the log -/
def failure (a : Assertion) (holds : Bool) : List Obs := if holds then [] else [.assertionFailed a]

theorem require_log (s : Scheduler) (a : Assertion) (holds : Bool) :
    s.require a holds = { s with log := failure a holds ++ s.log } := by
  cases holds <;> rfl

theorem mem_failure {a b : Assertion} {holds : Bool} :
    Obs.assertionFailed b ∈ failure a holds ↔ b = a ∧ holds = false := by
  cases holds <;> simp [failure]

/-- The assertions of one job of a request -/
def failures (s : Scheduler) (m : GetCSMsg) (j : Job) : List Obs :=
  failure .niceness (m.niceness ≤ 20) ++ failure .newJobId (s.findJob j.id).isNone

/-- The state in which the monitors are told about `j` -/
def entered (s : Scheduler) (m : GetCSMsg) (j : Job) : Scheduler :=
  { s.put { s.conn j.submitter with
      submittedJobsCount := (s.conn j.submitter).submittedJobsCount + 1 } with
    newJobId := j.id
    newPtr := j.ptr + 1
    heap := j :: s.heap
    jobs := insertJob j.id j.ptr s.jobs
    jobRequests := enqueueJobRequest j.ptr j.submitter j.niceness s.jobRequests
    log := s.failures m j ++ s.log }

theorem touch_live (h : s.live cid = true) : s.touch cid = .ok () := if_pos h

theorem put_conn_at {c : CompileServer} (hcid : c.cid = cid) (hlive : s.live cid = true) :
    (s.put c).conn cid = c := by
  subst hcid
  exact put_conn_live hlive

theorem entered_hostId {j : Job} (m : GetCSMsg) (hlive : s.live j.submitter = true) :
    ((s.entered m j).conn j.submitter).hostId = (s.conn j.submitter).hostId := by
  change ((s.put _).conn j.submitter).hostId = _
  rw [put_conn_at ?_ hlive]
  exact conn_cid s j.submitter

theorem entered_peers (m : GetCSMsg) (j : Job) (h : Peers extra s) : Peers extra (s.entered m j) := by
  have hput := Still.put (s := s) (c := { s.conn j.submitter with
    submittedJobsCount := (s.conn j.submitter).submittedJobsCount + 1 }) j.submitter h.cids
    rfl rfl rfl
  exact { hput.toAside.peers h with }

theorem createNewJob_eq {j : Job} (hlive : s.live j.submitter = true) :
    s.createNewJob j = .ok
      { s.put { s.conn j.submitter with
          submittedJobsCount := (s.conn j.submitter).submittedJobsCount + 1 } with
        newJobId := j.id
        newPtr := j.ptr + 1
        heap := j :: s.heap
        jobs := insertJob j.id j.ptr s.jobs
        log := failure .newJobId (s.findJob j.id).isNone ++ s.log } := by
  have htouch : Scheduler.touch { s with
      log := failure .newJobId (s.findJob j.id).isNone ++ s.log } j.submitter = .ok () :=
    touch_live hlive
  unfold createNewJob
  simp only [require_log, htouch]
  rfl

theorem requestJob_eq {j : Job} (m : GetCSMsg) (hlive : s.live j.submitter = true) :
    s.requestJob j.submitter m j = (s.entered m j).notifyMonitors
      (.monGetCS (monGetCSMsg j.id (s.conn j.submitter).hostId m)) := by
  rw [← entered_hostId m hlive]
  unfold requestJob
  rw [createNewJob_eq hlive]
  change (Scheduler.touch _ _ >>= fun _ => _) = _
  rw [touch_live ?_]
  · simp only [require_log]
    change notifyMonitors _ _ = notifyMonitors _ _
    unfold entered failures
    simp only [List.append_assoc]
    rfl
  · exact (put_live s _ j.submitter).trans hlive

/-- What is left of one job of a request, `j` -/
structure Queues (m : GetCSMsg) (j : Job) (s t : Scheduler) : Prop where
  live : s.live j.submitter = true
  facts : Facts Loop.anyMode [] t
  css : t.css = s.css
  hostId : t.live j.submitter = true → (t.conn j.submitter).hostId = (s.conn j.submitter).hostId
  newJobId : t.newJobId = j.id
  newPtr : t.newPtr = j.ptr + 1
  heap : t.heap = j :: s.heap
  jobs : t.jobs = insertJob j.id j.ptr s.jobs
  jobRequests : t.jobRequests = enqueueJobRequest j.ptr j.submitter j.niceness s.jobRequests
  log : ∃ new, t.log = new ++ (s.failures m j ++ s.log) ∧
    ∀ o ∈ new, Announces (.monGetCS (monGetCSMsg j.id (s.conn j.submitter).hostId m)) o

theorem requestJob_queues (m : GetCSMsg) (h : Facts Loop.anyMode [] s) :
    Ends (fun _ => cid ∉ s.css) (Queues m (s.requestedJob cid m) s)
      (s.requestJob cid m (s.requestedJob cid m)) := by
  have hleaves := (@requestJob_leaves Loop.anyMode s cid m h (fun hf => hf.elim)
    (fun hf => hf.elim) (fun hf => hf.elim)).weaken (fun _ _ => trivial)
  have hsubmitter : (s.requestedJob cid m).submitter = cid := rfl
  generalize s.requestedJob cid m = j at hleaves hsubmitter
  subst hsubmitter
  by_cases hlive : s.live j.submitter = true
  · rw [requestJob_eq m hlive] at hleaves ⊢
    have hpeers := entered_peers m j h.peers
    have haside := (@notifyMonitors_aside Loop.anyMode _ _
      (.monGetCS (monGetCSMsg j.id (s.conn j.submitter).hostId m)) hpeers rfl).weaken
      (fun _ _ => trivial)
    have htold : Ends (fun _ => False) _ _ := notifyMonitors_told
      (m := .monGetCS (monGetCSMsg j.id (s.conn j.submitter).hostId m)) hpeers rfl
    refine ((htold.weaken fun _ hf => hf.elim).and (haside.and hleaves)).mono fun t ht => ?_
    obtain ⟨htold, haside, hleaves, -⟩ := ht
    refine ⟨hlive, hleaves.facts, haside.same, fun hthere => ?_, haside.newJobId, haside.newPtr,
      haside.heap, haside.jobs, haside.jobRequests, htold.log⟩
    rw [(htold.conns _ hthere).2, entered_hostId m hlive]
  · unfold requestJob createNewJob
    simp only [require_log, bind_assoc]
    refine (touch_within fun _ hcss => hlive (h.peers.css _ hcss).live).bind fun _ hno => ?_
    exact absurd hno hlive

theorem Announces.not_failure {m : Msg} {a : Assertion} :
    ¬ Announces m (.assertionFailed a) := by
  simp [Announces]

theorem Announces.msg {m m' : Msg} {x : ℕ} {ok : Bool} (h : Announces m (.sent x m' ok)) :
    m' = m := by
  obtain ⟨_, _, heq⟩ | ⟨_, heq⟩ := h
  · exact (Obs.sent.inj heq).2.1
  · cases heq

/-! ## The loop over the jobs of a request -/

/-- The message about the job after `k` others -/
def announcement (s : Scheduler) (hostId : UInt32) (m : GetCSMsg) (k : ℕ) : MonGetCSMsg :=
  monGetCSMsg (s.newJobId + UInt32.ofNat (k + 1)) hostId m

/-- What is left of `n` jobs of the request -/
structure Requested (hostId : UInt32) (m : GetCSMsg) (n : ℕ) (s t : Scheduler) : Prop where
  newPtr : s.newPtr ≤ t.newPtr
  kept : ∀ ptr, s.liveJob ptr = true → t.liveJob ptr = true ∧
    (t.job ptr).niceness = (s.job ptr).niceness
  made : ∀ ptr, s.newPtr ≤ ptr → ptr < t.newPtr → t.liveJob ptr = true ∧
    0 ≤ (t.job ptr).niceness ∧ (t.job ptr).niceness ≤ 20
  queued : ∀ e ∈ waiting t.jobRequests, e ∈ waiting s.jobRequests ∨
    (s.newPtr ≤ e.2 ∧ e.2 < t.newPtr)
  log : ∃ new, t.log = new ++ s.log ∧
    (∀ x u ok, .sent x (.monGetCS u) ok ∈ new → ∃ k < n, u = s.announcement hostId m k) ∧
    ∀ a, .assertionFailed a ∈ new ↔ (a = .niceness ∧ n ≠ 0 ∧ ¬ m.niceness ≤ 20) ∨
      (a = .newJobId ∧ ¬ s.Unused n)

theorem Requested.zero (hostId : UInt32) (m : GetCSMsg) (s : Scheduler) :
    Requested hostId m 0 s s where
  newPtr := le_rfl
  kept _ hlive := ⟨hlive, rfl⟩
  made ptr hle hlt := absurd hlt (Nat.not_lt.mpr hle)
  queued _ he := .inl he
  log := by
    refine ⟨[], rfl, nofun, fun a => ?_⟩
    have hunused : s.Unused 0 := fun k hpos hzero => absurd hpos (by omega)
    simp [hunused]

theorem unused_succ {j : Job} {n : ℕ} (hn : n + 1 < 2 ^ 32) (hid : j.id = s.newJobId + 1)
    (hnext : t.newJobId = j.id) (hjobs : t.jobs = insertJob j.id j.ptr s.jobs) :
    s.Unused (n + 1) ↔ (s.findJob j.id).isNone = true ∧ t.Unused n := by
  rw [Option.isNone_iff_eq_none, findJob_none]
  rw [hid] at hnext hjobs ⊢
  constructor
  · intro h
    exact ⟨h 1 le_rfl (by omega), h.next hn hnext hjobs⟩
  · rintro ⟨hfree, hrest⟩ k hpos hk e he
    obtain ⟨k, rfl⟩ := Nat.exists_eq_add_of_le' hpos
    cases k with
    | zero => exact hfree e he
    | succ k =>
      have hmem : e ∈ t.jobs := by
        rw [hjobs, mem_insertJob]
        exact .inr ⟨he, hfree e he⟩
      have hne := hrest (k + 1) (by omega) (by omega) e hmem
      rw [hnext] at hne
      rwa [UInt32.ofNat_add (k + 1) 1, UInt32.add_comm (UInt32.ofNat (k + 1)), ← UInt32.add_assoc]

theorem announcement_succ {j : Job} (hostId : UInt32) (m : GetCSMsg) (k : ℕ)
    (hid : j.id = s.newJobId + 1) (hnext : t.newJobId = j.id) :
    t.announcement hostId m k = s.announcement hostId m (k + 1) := by
  unfold announcement
  rw [hnext, hid, UInt32.ofNat_add (k + 1) 1, UInt32.add_comm (UInt32.ofNat (k + 1)),
    ← UInt32.add_assoc]
  rfl

theorem mem_failures {m : GetCSMsg} {j : Job} {a : Assertion} :
    .assertionFailed a ∈ s.failures m j ↔ (a = .niceness ∧ ¬ m.niceness ≤ 20) ∨
      (a = .newJobId ∧ ¬ (s.findJob j.id).isNone = true) := by
  simp [failures, mem_failure, ← Option.isSome_iff_ne_none]

theorem Queues.requested {m : GetCSMsg} {n : ℕ} {hostId : UInt32} {u : Scheduler}
    (h : Queues m (s.requestedJob cid m) s t) (hfresh : ∀ j ∈ s.heap, j.ptr < s.newPtr)
    (hn : n + 1 < 2 ^ 32) (hhost : (s.conn cid).hostId = hostId)
    (hrest : Requested hostId m n t u) : Requested hostId m (n + 1) s u := by
  have hid : (s.requestedJob cid m).id = s.newJobId + 1 := rfl
  have hptr : (s.requestedJob cid m).ptr = s.newPtr := rfl
  have hnext : t.newPtr = s.newPtr + 1 := h.newPtr
  have hself : t.liveJob s.newPtr = true ∧ t.job s.newPtr = s.requestedJob cid m := by
    simp [liveJob, job, h.heap, hptr]
  have hold : ∀ ptr, s.liveJob ptr = true → t.liveJob ptr = true ∧ t.job ptr = s.job ptr := by
    intro ptr hlive
    obtain ⟨hmem, hsame⟩ := job_mem hlive
    have hne : s.newPtr ≠ ptr := by
      rw [← hsame]
      exact (hfresh _ hmem).ne'
    rw [liveJob] at hlive
    simp [liveJob, job, h.heap, hptr, hne, hlive]
  have hgrown : s.newPtr ≤ t.newPtr := by omega
  constructor
  · exact hgrown.trans hrest.newPtr
  · intro ptr hlive
    obtain ⟨htlive, hsame⟩ := hold ptr hlive
    obtain ⟨hulive, hniceness⟩ := hrest.kept ptr htlive
    exact ⟨hulive, hniceness.trans (by rw [hsame])⟩
  · intro ptr hle hlt
    rcases hle.eq_or_lt with rfl | hlater
    · obtain ⟨hulive, hniceness⟩ := hrest.kept _ hself.1
      rw [hniceness, hself.2]
      exact ⟨hulive, le_max_left _ _, max_le (by decide) (min_le_left _ _)⟩
    · exact hrest.made ptr (hnext ▸ hlater) hlt
  · intro e he
    rcases hrest.queued e he with hmid | ⟨hle, hlt⟩
    · rw [h.jobRequests] at hmid
      rcases List.mem_cons.mp ((enqueueJobRequest_waiting _ _ _ _).mem_iff.mp hmid) with rfl | hmem
      · exact .inr ⟨hptr.ge, hptr ▸ lt_of_lt_of_le (hnext ▸ Nat.lt_succ_self _) hrest.newPtr⟩
      · exact .inl hmem
    · exact .inr ⟨hgrown.trans hle, hlt⟩
  · obtain ⟨new, hlog, hnew⟩ := h.log
    obtain ⟨new', hlog', hsent, hfailed⟩ := hrest.log
    refine ⟨new' ++ (new ++ s.failures m (s.requestedJob cid m)), ?_, ?_, fun a => ?_⟩
    · rw [hlog', hlog, List.append_assoc, List.append_assoc]
    · intro x v ok hmem
      rcases List.mem_append.mp hmem with hmem | hmem
      · obtain ⟨k, hk, rfl⟩ := hsent x v ok hmem
        exact ⟨k + 1, Nat.succ_lt_succ hk, announcement_succ hostId m k hid h.newJobId⟩
      · refine ⟨0, Nat.succ_pos n, ?_⟩
        rcases List.mem_append.mp hmem with hmem | hmem
        · have hmsg := (hnew _ hmem).msg
          rw [Msg.monGetCS.injEq] at hmsg
          rw [hmsg, ← hhost]
          rfl
        · simp [failures, failure] at hmem
    · rw [List.mem_append, List.mem_append, hfailed, mem_failures,
        unused_succ hn hid h.newJobId h.jobs]
      have hnone : .assertionFailed a ∉ new := fun hmem => (hnew _ hmem).not_failure
      tauto

theorem putJob_job {j : Job} (hniceness : j.niceness = (s.job j.ptr).niceness) (ptr : ℕ) :
    (s.putJob j).liveJob ptr = s.liveJob ptr ∧
      ((s.putJob j).job ptr).niceness = (s.job ptr).niceness := by
  constructor
  · rw [Bool.eq_iff_iff, liveJob_iff, liveJob_iff]
    simp only [putJob, Records.map_key_replace]
  · simp only [job, putJob, Records.find_replace] at hniceness ⊢
    cases hfind : s.heap.find? fun x => x.ptr = ptr with
    | none => rfl
    | some x =>
      by_cases hsame : j.ptr = ptr
      · subst hsame
        simpa [hfind] using hniceness
      · simp [hsame]

theorem Requested.appended {m : GetCSMsg} {n : ℕ} {hostId : UInt32} {u : Scheduler} {master : ℕ}
    {l : List ℕ} (hmaster : s.liveJob master = true)
    (h : Requested hostId m n (s.putJob { s.job master with masterJobFor := l }) u) :
    Requested hostId m n s u where
  newPtr := h.newPtr
  kept ptr hlive := by
    have hptr := (job_mem hmaster).2
    obtain ⟨hsame, hniceness⟩ := putJob_job (s := s)
      (j := { s.job master with masterJobFor := l }) (by simp only [hptr]) ptr
    obtain ⟨hulive, hkept⟩ := h.kept ptr (hsame.trans hlive)
    exact ⟨hulive, hkept.trans hniceness⟩
  made := h.made
  queued := h.queued
  log := h.log

theorem requestJobs_requested {m : GetCSMsg} {n : ℕ} {master : Option ℕ} {hostId : UInt32}
    (h : Facts Loop.anyMode [] s) (hn : n < 2 ^ 32)
    (hmaster : ∀ ptr ∈ master, s.liveJob ptr = true)
    (hhost : s.live cid = true → (s.conn cid).hostId = hostId) :
    Ends (fun _ => cid ∉ s.css) (Requested hostId m n s) (requestJobs cid m n master s) := by
  induction n generalizing s master with
  | zero => exact .pure (.zero hostId m s)
  | succ n ih =>
    rw [requestJobs]
    refine (requestJob_queues m h).bind fun t ht => ?_
    have hself : t.liveJob s.newPtr = true := by
      simp [liveJob, ht.heap, requestedJob]
    have hsucc : ∀ u, Requested hostId m n t u → Requested hostId m (n + 1) s u := fun u hu =>
      ht.requested h.tasks.fresh hn (hhost ht.live) hu
    have hhere : t.live cid = true → (t.conn cid).hostId = hostId := fun hlive =>
      (ht.hostId hlive).trans (hhost ht.live)
    have hcss : t.css = s.css := ht.css
    cases master with
    | none =>
      refine ((ih ht.facts (by omega) (fun ptr hptr => ?_) hhere).weaken ?_).mono hsucc
      · cases hptr
        exact hself
      · exact fun _ hnot => hcss ▸ hnot
    | some master =>
      have hlive : t.liveJob master = true := by
        have hold := hmaster master rfl
        rw [liveJob] at hold ⊢
        simp [ht.heap, hold]
      have hleaves := @appendMaster_leaves Loop.anyMode (fun _ => False) _ master s.newPtr ht.facts
      have happend : t.appendMaster master s.newPtr = .ok (t.putJob { t.job master with
          masterJobFor := (t.job master).masterJobFor ++ [s.newPtr] }) := by
        unfold appendMaster touchJob
        rw [if_pos hlive]
        rfl
      have hfacts := (hleaves.of_ok happend).1.facts
      change Ends _ _ (t.appendMaster master s.newPtr >>= _)
      rw [happend]
      refine ((ih hfacts (by omega) (fun ptr hptr => ?_) hhere).weaken ?_).mono fun u hu =>
        hsucc u (hu.appended hlive)
      · cases hptr
        have hptr := (job_mem hlive).2
        exact (putJob_job (by simp only [hptr]) master).1.trans hlive
      · exact fun _ hnot => hcss ▸ hnot

/-! ## The whole request -/

/-- The messages made for the monitors -/
def announced (s : Scheduler) (cid : ℕ) (m : GetCSMsg) : List MonGetCSMsg :=
  (List.range m.count.toNat).map (s.announcement (s.conn cid).hostId m)

/-- What is meant to come of a request, with `new` added to the log: no assertion fails,
the jobs have a niceness of 0 to 20, and so have the messages, which tell the clients of
the sender and ask for no features. -/
structure Sound (s : Scheduler) (cid : ℕ) (m : GetCSMsg) (t : Scheduler) (new : List Obs) :
    Prop where
  assertions : ∀ a, .assertionFailed a ∉ new
  queued : ∀ e ∈ waiting t.jobRequests, e ∉ waiting s.jobRequests → t.liveJob e.2 = true ∧
    0 ≤ (t.job e.2).niceness ∧ (t.job e.2).niceness ≤ 20
  messages : ∀ u ∈ s.announced cid m, u.clientCount = m.clientCount ∧ u.requiredFeatures = 0 ∧
    u.niceness ≤ 20

/-- Nothing is asked for, or the request counts no clients, has a niceness of at most 20
and comes while the ids are free. -/
def Answerable (s : Scheduler) (m : GetCSMsg) : Prop :=
  m.count = 0 ∨ (m.clientCount = 0 ∧ m.niceness ≤ 20 ∧ s.Unused m.count.toNat)

theorem mem_announced {m : GetCSMsg} {u : MonGetCSMsg} :
    u ∈ s.announced cid m ↔
      ∃ k < m.count.toNat, u = s.announcement (s.conn cid).hostId m k := by
  simp [announced, eq_comm]

theorem Requested.sound_iff {m : GetCSMsg} {new : List Obs}
    (h : Requested (s.conn cid).hostId m m.count.toNat s t)
    (hfailed : ∀ a, .assertionFailed a ∈ new ↔ (a = .niceness ∧ m.count.toNat ≠ 0 ∧
      ¬ m.niceness ≤ 20) ∨ (a = .newJobId ∧ ¬ s.Unused m.count.toNat)) :
    Sound s cid m t new ↔ s.Answerable m := by
  have hzero : m.count.toNat = 0 ↔ m.count = 0 := by
    rw [← UInt32.toNat_inj, UInt32.toNat_zero]
  constructor
  · intro hsound
    by_cases hcount : m.count = 0
    · exact .inl hcount
    · have hpos : 0 < m.count.toNat := Nat.pos_of_ne_zero fun h => hcount (hzero.mp h)
      obtain ⟨hclients, hfeatures, hniceness⟩ :=
        hsound.messages _ (mem_announced.mpr ⟨0, hpos, rfl⟩)
      refine .inr ⟨hfeatures, hniceness, ?_⟩
      by_contra hused
      exact hsound.assertions .newJobId ((hfailed _).mpr (.inr ⟨rfl, hused⟩))
  · intro hanswerable
    refine ⟨fun a ha => ?_, fun e he hnew => ?_, fun u hu => ?_⟩
    · rcases (hfailed a).mp ha with ⟨-, hcount, hniceness⟩ | ⟨-, hused⟩
      · rcases hanswerable with hnone | ⟨-, hgood, -⟩
        · exact hcount (hzero.mpr hnone)
        · exact hniceness hgood
      · rcases hanswerable with hnone | ⟨-, -, hunused⟩
        · refine hused fun k hpos hk => ?_
          rw [hzero.mpr hnone] at hk
          omega
        · exact hused hunused
    · obtain ⟨hle, hlt⟩ := (h.queued e he).resolve_left hnew
      exact h.made e.2 hle hlt
    · obtain ⟨k, hk, rfl⟩ := mem_announced.mp hu
      rcases hanswerable with hnone | ⟨hclients, hniceness, -⟩
      · rw [hzero.mpr hnone] at hk
        omega
      · exact ⟨hclients.symm, hclients, hniceness⟩

theorem handleCsRequest_requested (m : GetCSMsg) (h : Facts Loop.anyMode [] s) :
    Ends (fun _ => cid ∉ s.css) (fun r => Requested (s.conn cid).hostId m m.count.toNat s r.1)
      (s.handleCsRequest cid m) := by
  unfold handleCsRequest setClientCount
  rw [bind_assoc]
  have hdead : s.live cid = false → cid ∉ s.css := by
    intro hdead hcss
    simp [(h.peers.css cid hcss).live] at hdead
  refine (touch_within hdead).bind fun _ hlive => ?_
  rw [pure_bind]
  have hput := Still.put (s := s) (c := { s.conn cid with
    clientCount := m.clientCount.toInt32.toInt }) cid h.peers.cids rfl rfl rfl
  have hhost : ((s.put { s.conn cid with clientCount := m.clientCount.toInt32.toInt }).conn
      cid).hostId = (s.conn cid).hostId := by
    rw [put_conn_at ?_ hlive]
    exact conn_cid s cid
  refine Ends.bind ((requestJobs_requested (hput.toAside.facts h) m.count.toNat_lt
    (fun _ hnone => by cases hnone) fun _ => hhost).weaken fun _ hnot => hnot) fun t ht => .pure ?_
  exact { ht with }

end Scheduler

namespace Loop

open Scheduler

variable {l : Loop} {cid : ℕ}

/-- A request of a daemon is answered, and it is answered as it is meant to be if and only
if the request is answerable. -/
theorem request_sound_iff (h : system.Reachable l) (cid : ℕ) (m : GetCSMsg) :
    Ends (fun _ => cid ∉ l.scheduler.css) (fun r => ∃ new, r.1.log = new ++ l.scheduler.log ∧
      (∀ x u ok, .sent x (.monGetCS u) ok ∈ new → u ∈ l.scheduler.announced cid m) ∧
      (Scheduler.Sound l.scheduler cid m r.1 new ↔ l.scheduler.Answerable m))
      (l.scheduler.handleCsRequest cid m) := by
  have hfacts := (reachable_between h).facts
  refine (handleCsRequest_requested m hfacts).mono fun r hr => ?_
  obtain ⟨new, hlog, hsent, hfailed⟩ := hr.log
  exact ⟨new, hlog, fun x u ok hmem => mem_announced.mpr (hsent x u ok hmem),
    hr.sound_iff hfailed⟩

/-- A monitor and a daemon -/
def watchedDaemon : List Event :=
  polling 0 ++ [newcomer 9 1 "m", .activity (some .monLogin), .idle, newcomer 7 2 "n",
    .activity (some (daemonLogin "n"))]

theorem request_sound_iff_niceness : ∃ l, system.Reachable l ∧ l.scheduler.css = [1] ∧
    Ends (fun _ => 1 ∉ l.scheduler.css) (fun r => ∃ new, r.1.log = new ++ l.scheduler.log ∧
      (∀ x u ok, .sent x (.monGetCS u) ok ∈ new →
        u ∈ l.scheduler.announced 1 { lang := 0, niceness := 7 }) ∧
      (Scheduler.Sound l.scheduler 1 { lang := 0, niceness := 7 } r.1 new ↔
        l.scheduler.Answerable { lang := 0, niceness := 7 }))
      (l.scheduler.handleCsRequest 1 { lang := 0, niceness := 7 }) := by
  have hrun : (system.exec (started fun _ => 1) watchedDaemon).map (fun l => l.scheduler.css) =
      some [1] := by decide +kernel
  obtain ⟨l, hl, hcss⟩ := Option.map_eq_some_iff.mp hrun
  have hreach := (Transition.System.Reaches.init (started_init _)).exec (fun _ _ _ => trivial) hl
  exact ⟨l, hreach, hcss, request_sound_iff hreach 1 _⟩

/-- What is sent last to answer the request, or which assertion fails -/
def answered (l : Loop) (m : GetCSMsg) : Option (Option Obs × Bool) :=
  (l.scheduler.handleCsRequest 1 m).toOption.map fun r =>
    (r.1.log.head?, decide (.assertionFailed .niceness ∈ r.1.log))

theorem answered_eq {l : Loop} {m : GetCSMsg} {o : Option Obs × Bool}
    (h : answered l m = some o) : ∃ t b, l.scheduler.handleCsRequest 1 m = .ok (t, b) ∧
      t.log.head? = o.1 ∧ decide (.assertionFailed .niceness ∈ t.log) = o.2 := by
  obtain ⟨r, hr, rfl⟩ := Option.map_eq_some_iff.mp h
  cases hx : l.scheduler.handleCsRequest 1 m with
  | error f => simp [hx, Except.toOption] at hr
  | ok x =>
    obtain rfl : x = r := by simpa [hx, Except.toOption] using hr
    exact ⟨x.1, x.2, rfl, rfl, rfl⟩

/-- A daemon with one client asks for a server: the monitor is told of no client, and that
feature 1 is required. A client with nice level -1 makes the scheduler abort. -/
theorem request_unsound : ∃ l, system.Reachable l ∧ l.scheduler.css = [1] ∧
    .assertionFailed .niceness ∉ l.scheduler.log ∧
    (∃ t b, l.scheduler.handleCsRequest 1 { lang := 0, clientCount := 1 } = .ok (t, b) ∧
      ∃ u : MonGetCSMsg, t.log.head? = some (.sent 0 (.monGetCS u) true) ∧ u.clientCount = 0 ∧
        u.requiredFeatures = 1) ∧
    ∃ t b, l.scheduler.handleCsRequest 1 { lang := 0, niceness := 4294967295 } = .ok (t, b) ∧
      .assertionFailed .niceness ∈ t.log := by
  have hrun : (system.exec (started fun _ => 1) watchedDaemon).map (fun l =>
      ((l.scheduler.css, decide (.assertionFailed .niceness ∈ l.scheduler.log)),
        answered l { lang := 0, clientCount := 1 },
        (answered l { lang := 0, niceness := 4294967295 }).map Prod.snd)) =
      some (([1], false), some (some (.sent 0 (.monGetCS
        { lang := 0, minimalHostVersion := 42, requiredFeatures := 1, jobId := 1, clientid := 1 })
        true), false), some true) := by decide +kernel
  obtain ⟨l, hl, hstate⟩ := Option.map_eq_some_iff.mp hrun
  simp only [Prod.mk.injEq, decide_eq_false_iff_not, and_assoc] at hstate
  obtain ⟨hcss, hclear, hclients, hnice⟩ := hstate
  have hreach := (Transition.System.Reaches.init (started_init _)).exec (fun _ _ _ => trivial) hl
  refine ⟨l, hreach, hcss, hclear, ?_, ?_⟩
  · obtain ⟨t, b, hok, hhead, -⟩ := answered_eq hclients
    exact ⟨t, b, hok, _, hhead, rfl, rfl⟩
  · obtain ⟨o, ho, htrue⟩ := Option.map_eq_some_iff.mp hnice
    obtain ⟨t, b, hok, -, hfailed⟩ := answered_eq ho
    rw [htrue, decide_eq_true_eq] at hfailed
    exact ⟨t, b, hok, hfailed⟩

end Loop

end Icecream.IceccScheduler
