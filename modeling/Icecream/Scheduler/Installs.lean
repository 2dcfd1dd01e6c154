import Icecream.Scheduler.Lasting

/-!
# Installing one environment at a time

A job that comes to a server without its environment makes the server busy installing, and
no other job is given to it meanwhile. The end of any submitter with a job there clears that
as well, whatever the server is installing.
-/

namespace Icecream.IceccScheduler

open Icecream.Comm
open Icecream.Fault

namespace Scheduler

variable {s t : Scheduler} {bad : ℕ → Prop} {x p cid : ℕ}

/-- Jobs on `x` other than `p` are those of `x` and of the submitters in `bad`, and not queued.
The clock never reads 0, which would mean that nothing is being installed. -/
structure Taken (bad : ℕ → Prop) (x p : ℕ) (s : Scheduler) : Prop where
  server : x < s.newCid
  submitters : ∀ y, bad y → y < s.newCid
  job : p < s.newPtr
  clock : ∀ n, s.host.clock n ≠ 0
  fresh : ∀ j ∈ s.heap, j.ptr < s.newPtr
  queued : ∀ j ∈ s.heap, j.server = some x → ∀ e ∈ waiting s.jobRequests, e.2 ≠ j.ptr
  jobs : ∀ j ∈ s.heap, j.server = some x → j.ptr = p ∨ j.submitter = x ∨ bad j.submitter

/-- As long as `x` and `p` are there, `x` is busy installing, or one of `bad` has gone. -/
structure Occupied (bad : ℕ → Prop) (x p : ℕ) (s : Scheduler) : Prop extends Taken bad x p s where
  busy : s.live x = true → s.liveJob p = true →
    (s.conn x).busyInstalling ≠ 0 ∨ ∃ y, bad y ∧ s.live y = false

/-! ## What keeps them -/

theorem Taken.of_heap (h : Taken bad x p s) (hnewCid : t.newCid = s.newCid)
    (hnewPtr : t.newPtr = s.newPtr) (hhost : t.host = s.host)
    (hqueue : waiting t.jobRequests ⊆ waiting s.jobRequests)
    (hheap : ∀ j ∈ t.heap, ∃ i ∈ s.heap, j.ties = i.ties) : Taken bad x p t := by
  have hold : ∀ j ∈ t.heap, ∃ i ∈ s.heap, j.ptr = i.ptr ∧ j.submitter = i.submitter ∧
      j.server = i.server := by
    intro j hj
    obtain ⟨i, hi, hties⟩ := hheap j hj
    simp only [Job.ties, Prod.mk.injEq] at hties
    exact ⟨i, hi, hties.1, hties.2.2.1, hties.2.2.2⟩
  constructor
  · exact hnewCid ▸ h.server
  · exact hnewCid ▸ h.submitters
  · exact hnewPtr ▸ h.job
  · exact hhost ▸ h.clock
  · intro j hj
    obtain ⟨i, hi, hptr, -⟩ := hold j hj
    rw [hnewPtr, hptr]
    exact h.fresh i hi
  · intro j hj hserver e he
    obtain ⟨i, hi, hptr, -, hsame⟩ := hold j hj
    rw [hptr]
    exact h.queued i hi (hsame ▸ hserver) e (hqueue he)
  · intro j hj hserver
    obtain ⟨i, hi, hptr, hsubmitter, hsame⟩ := hold j hj
    rw [hptr, hsubmitter]
    exact h.jobs i hi (hsame ▸ hserver)

theorem taken_lasting : Lasting (Taken bad x p) where
  aside h _ hheap hnewCid hnewPtr hhost hqueue :=
    h.of_heap hnewCid hnewPtr hhost hqueue fun j hj => ⟨j, hheap ▸ hj, rfl⟩
  update _ h _ := h.of_heap rfl rfl rfl (List.Subset.refl _) fun j hj => ⟨j, hj, rfl⟩
  free _ h := h.of_heap rfl rfl rfl (List.Subset.refl _) fun j hj => ⟨j, hj, rfl⟩
  join _ h _ _ := { h with
    server := h.server.trans (Nat.lt_succ_self _)
    submitters := fun y hy => (h.submitters y hy).trans (Nat.lt_succ_self _) }
  relabel j h hlive hties := h.of_heap rfl rfl rfl (List.Subset.refl _) fun i hi => by
    rcases Records.mem_replace.mp hi with ⟨rfl, -⟩ | ⟨hi, -⟩
    · exact ⟨_, (job_mem hlive).1, hties⟩
    · exact ⟨i, hi, rfl⟩
  create {s t} j h hptr hserver _ _ hheap hnewCid hnewPtr hhost hqueue := by
    have hold : ∀ i ∈ t.heap, i.server = some x → i ∈ s.heap := by
      intro i hi hix
      rw [hheap] at hi
      refine (List.mem_cons.mp hi).resolve_left ?_
      rintro rfl
      cases hserver.symm.trans hix
    constructor
    · exact hnewCid ▸ h.server
    · exact hnewCid ▸ h.submitters
    · exact hnewPtr ▸ h.job.trans (Nat.lt_succ_self _)
    · exact hhost ▸ h.clock
    · intro i hi
      rw [hheap] at hi
      rw [hnewPtr]
      rcases List.mem_cons.mp hi with rfl | hi
      · exact hptr ▸ Nat.lt_succ_self _
      · exact (h.fresh i hi).trans (Nat.lt_succ_self _)
    · intro i hi hix e he
      rcases List.mem_cons.mp (hqueue he) with rfl | he
      · exact hptr ▸ (h.fresh i (hold i hi hix)).ne'
      · exact h.queued i (hold i hi hix) hix e he
    · exact fun i hi hix => h.jobs i (hold i hi hix) hix
  remove _ h := h.of_heap rfl rfl rfl (List.Subset.refl _) fun j hj =>
    ⟨j, (Records.mem_remove.mp hj).1, rfl⟩

/-- A job of `x` has been given to it, or a job to another server. -/
theorem Taken.place {ptr useCs : ℕ} (h : Taken bad x p s) (hlive : s.liveJob ptr = true)
    (hmine : useCs = x → (s.job ptr).submitter = x ∧ ∀ e ∈ waiting s.jobRequests, e.2 ≠ ptr) :
    Taken bad x p (s.putJob { s.job ptr with state := .waitingForCS, server := some useCs }) := by
  obtain ⟨hmem, hptr⟩ := job_mem hlive
  constructor
  · exact h.server
  · exact h.submitters
  · exact h.job
  · exact h.clock
  · intro j hj
    rcases Records.mem_replace.mp hj with ⟨rfl, -⟩ | ⟨hj, -⟩
    · exact h.fresh (s.job ptr) hmem
    · exact h.fresh j hj
  · intro j hj hserver e he
    rcases Records.mem_replace.mp hj with ⟨rfl, -⟩ | ⟨hj, -⟩
    · rw [hptr]
      exact (hmine (Option.some.inj hserver)).2 e he
    · exact h.queued j hj hserver e he
  · intro j hj hserver
    rcases Records.mem_replace.mp hj with ⟨rfl, -⟩ | ⟨hj, -⟩
    · exact .inr (.inl (hmine (Option.some.inj hserver)).1)
    · exact h.jobs j hj hserver

theorem Occupied.of_taken (h : Occupied bad x p s) (htaken : Taken bad x p t)
    (hlive : ∀ y, t.live y = true → y < s.newCid → s.live y = true)
    (hjob : t.liveJob p = true → s.liveJob p = true)
    (hbusy : t.live x = true → (t.conn x).busyInstalling = (s.conn x).busyInstalling) :
    Occupied bad x p t := by
  refine ⟨htaken, fun hx hp => ?_⟩
  rcases h.busy (hlive x hx h.server) (hjob hp) with hbusy' | ⟨y, hy, hgone⟩
  · exact .inl (hbusy hx ▸ hbusy')
  · refine .inr ⟨y, hy, ?_⟩
    cases hlater : t.live y with
    | false => rfl
    | true => exact absurd (hlive y hlater (h.submitters y hy)) (by simp [hgone])

theorem Taken.put (h : Taken bad x p s) (c : CompileServer) : Taken bad x p (s.put c) :=
  h.of_heap rfl rfl rfl (List.Subset.refl _) fun j hj => ⟨j, hj, rfl⟩

theorem Occupied.rewrite (h : Occupied bad x p s) {c : CompileServer}
    (hsame : c.busyInstalling = (s.conn c.cid).busyInstalling) : Occupied bad x p (s.put c) := by
  refine h.of_taken (h.toTaken.put c) (fun y hy _ => ?_) (fun hp => hp) fun hx => ?_
  · rwa [put_live] at hy
  · by_cases hc : c.cid = x
    · subst hc
      rw [put_live] at hx
      rw [put_conn_live hx, hsame]
    · rw [put_conn_of_ne hc]

theorem occupied_lasting : Lasting (Occupied bad x p) where
  aside h hconns hheap hnewCid hnewPtr hhost hqueue := by
    refine h.of_taken
      (taken_lasting.aside h.toTaken hconns hheap hnewCid hnewPtr hhost hqueue) ?_ ?_ ?_
    · exact fun y hy _ => by simpa only [live, hconns] using hy
    · exact fun hp => by simpa only [liveJob, hheap] using hp
    · exact fun _ => by simp only [conn, hconns]
  update c h hgauges := h.rewrite (congrArg Prod.fst hgauges)
  free {s} cid h := by
    refine h.of_taken (taken_lasting.free cid h.toTaken) ?_ (fun hp => hp) fun hx => ?_
    · exact fun y hy _ => ((free_told (.jobLocalDone 0) s cid).conns y hy).1
    · rw [((free_told (.jobLocalDone 0) s cid).conns x hx).2]
  join {s} c h hcid hgauges := by
    have hother : ∀ y < s.newCid, c.cid ≠ y := fun y hy => hcid ▸ hy.ne'
    refine h.of_taken (taken_lasting.join c h.toTaken hcid hgauges) ?_ (fun hp => hp) fun _ => ?_
    · intro y hy hlt
      simpa only [live, addConn, asked, List.any_cons, hother y hlt, decide_false,
        Bool.false_or] using hy
    · simp only [conn, addConn, asked, List.find?_cons, hother x h.server, decide_false]
  relabel {s} j h hlive hties := by
    refine h.of_taken (taken_lasting.relabel j h.toTaken hlive hties) (fun _ hy _ => hy) ?_
      fun _ => rfl
    intro hp
    rw [liveJob_iff] at hp ⊢
    rwa [putJob, Records.map_key_replace] at hp
  create {s t} j h hptr hserver hlive hconns hheap hnewCid hnewPtr hhost hqueue := by
    refine h.of_taken (taken_lasting.create j h.toTaken hptr hserver hlive hconns hheap hnewCid
      hnewPtr hhost hqueue) ?_ ?_ ?_
    · exact fun y hy _ => by simpa only [live, hconns] using hy
    · intro hp
      have hne : j.ptr ≠ p := hptr ▸ h.job.ne'
      simpa only [liveJob, hheap, List.any_cons, hne, decide_false, Bool.false_or] using hp
    · exact fun _ => by simp only [conn, hconns]
  remove {s} ptr h := by
    refine h.of_taken (taken_lasting.remove ptr h.toTaken) (fun _ hy _ => hy) ?_ fun _ => rfl
    exact fun hp => liveJob_subset List.filter_sublist.subset hp

/-- A server that is busy installing suits no job. -/
theorem Suits.idle {job : Job} (h : s.Suits job x) : (s.conn x).busyInstalling = 0 := by
  by_contra hbusy
  exact h.canInstall (if_pos ⟨by simp, hbusy⟩)

theorem submitterFree_idle {job : Job} (h : s.submitterFree job = true) :
    (s.conn job.submitter).busyInstalling = 0 := by
  by_contra hbusy
  exact (of_decide_eq_true h).2.2 (if_pos ⟨by simp, hbusy⟩)

/-! ## The end of a connection -/

theorem Occupied.put (h : Occupied bad x p s) {c : CompileServer} (hc : c.cid ≠ x) :
    Occupied bad x p (s.put c) := by
  refine h.of_taken (h.toTaken.put c) (fun y hy _ => ?_) (fun hp => hp) fun _ => ?_
  · rwa [put_live] at hy
  · rw [put_conn_of_ne hc]

/-- A server starts to install, at `time`. -/
theorem Occupied.occupy (h : Occupied bad x p s) (cid : ℕ) {time : ℤ} (htime : time ≠ 0) :
    Occupied bad x p (s.put { s.conn cid with busyInstalling := time }) := by
  by_cases hcid : cid = x
  · subst hcid
    refine ⟨h.toTaken.put _, fun hlive _ => .inl ?_⟩
    rw [put_live] at hlive
    rw [put_conn_at ?_ hlive]
    · exact htime
    · exact conn_cid s cid
  · refine h.put ?_
    simpa only [conn_cid] using hcid

theorem free_gone (s : Scheduler) (cid : ℕ) : (s.free cid).live cid = false := by
  simp [live, free, note, Records.remove]

theorem handleEnd_gone (s : Scheduler) (cid : ℕ) :
    Ends (fun _ => True) (fun t => t.live cid = false) (s.handleEnd cid) := by
  unfold handleEnd
  refine (touch_any s cid).bind fun _ _ => ?_
  cases (s.conn cid).type with
  | monitor =>
    unfold endMonitor
    exact (touch_any s cid).bind fun _ _ => .pure (free_gone _ cid)
  | daemon =>
    have hend : Ends (fun _ => True) (fun _ => True) (s.endDaemon cid) := .any fun _ => trivial
    exact hend.bind fun t _ => .pure (free_gone t cid)
  | line =>
    have hsend : Ends (fun _ => True) (fun _ => True)
        (s.send cid (.text (str "200 Good Bye!"))) := .any fun _ => trivial
    exact hsend.bind fun r _ => .pure (free_gone _ cid)
  | unknown => exact .pure (free_gone s cid)

theorem handleEnd_taken (h : Taken bad x p s) (cid : ℕ) :
    Ends (fun _ => True) (Taken bad x p) (s.handleEnd cid) :=
  taken_lasting.abiding.handleEndBusy (fun c h _ _ => h.put c) cid h

/-- A queued job has no server to clear. -/
theorem dropQueued_occupied {ptr : ℕ} (h : Occupied bad x p s)
    (hwaiting : (cid, ptr) ∈ waiting s.jobRequests) :
    Ends (fun _ => True) (Occupied bad x p) (s.dropQueued ptr) := by
  unfold dropQueued
  refine (touchJob_any s ptr).bind fun _ hlive => ?_
  obtain ⟨hmem, hptr⟩ := job_mem hlive
  have hserver : (s.job ptr).server ≠ some x := fun hserver =>
    h.queued _ hmem hserver _ hwaiting hptr.symm
  refine (occupied_lasting.abiding.notifyMonitors h _).bind fun t ht => ?_
  refine Ends.bind (P := Occupied bad x p) ?_ fun u hu => ?_
  · cases hany : (s.job ptr).server with
    | none => exact .pure ht
    | some server =>
      unfold setBusyInstalling
      refine (touch_any t server).bind fun _ _ => .pure (ht.put ?_)
      rw [conn_cid]
      rintro rfl
      exact hserver hany
  have herased : Occupied bad x p (u.eraseJob (s.job ptr).id) := occupied_lasting.elsewhere hu rfl
  exact occupied_lasting.freeJob herased ptr

/-- The server that is cleared is another one, or the job is `p`. -/
theorem dropJob_occupied {e : UInt32 × ℕ} (h : Occupied bad x p s) (hcid : cid ≠ x)
    (hgood : ¬ bad cid) (hlive : s.liveJob e.2 = true)
    (hmine : (s.job e.2).server = some cid ∨ (s.job e.2).submitter = cid) :
    Ends (fun _ => True) (Occupied bad x p) (dropJob cid s e) := by
  by_cases hserver : (s.job e.2).server = some x
  · have hsubmitter : (s.job e.2).submitter = cid := by
      refine hmine.resolve_left fun hsame => hcid ?_
      exact Option.some.inj (hsame.symm.trans hserver)
    obtain ⟨hmem, hptr⟩ := job_mem hlive
    have hp : e.2 = p := by
      rcases h.jobs _ hmem hserver with hp | hsame | hbad
      · exact hptr.symm.trans hp
      · exact absurd (hsubmitter.symm.trans hsame) hcid
      · exact absurd (hsubmitter ▸ hbad) hgood
    have hgone : Ends (fun _ => True) (fun t => t.liveJob p = false) (dropJob cid s e) := by
      unfold dropJob
      refine Ends.bind (P := fun _ => True) (.any fun _ => trivial) fun t _ => ?_
      refine Ends.bind (P := fun _ => True) (.any fun _ => trivial) fun u _ => ?_
      unfold freeJob
      refine (touch_any _ _).bind fun _ _ => .pure ?_
      simp [liveJob, Records.remove, hp]
    have htaken := taken_lasting.abiding.dropJob h.toTaken cid hlive fun c h _ _ => h.put c
    refine (htaken.and hgone).mono fun t ht => ⟨ht.1, fun _ hp => ?_⟩
    exact absurd (hp.symm.trans ht.2) (by decide)
  · unfold dropJob
    refine (occupied_lasting.abiding.notifyMonitors h _).bind fun t ht => ?_
    have hleave : Ends (fun _ => True) (Occupied bad x p) (t.leaveServer cid (s.job e.2)) := by
      unfold leaveServer
      cases hany : (s.job e.2).server with
      | none => exact .pure ht
      | some server =>
        have hremove : Ends (fun _ => True) (Occupied bad x p)
            (if server ≠ cid then t.removeJob server (s.job e.2).ptr else pure t) :=
          .ite (fun _ => occupied_lasting.abiding.removeJob ht server _) fun _ => .pure ht
        refine hremove.bind fun u hu => ?_
        unfold setBusyInstalling
        refine (touch_any u server).bind fun _ _ => .pure (hu.put ?_)
        rw [conn_cid]
        rintro rfl
        exact hserver hany
    refine hleave.bind fun u hu => ?_
    have herased : Occupied bad x p (u.eraseJob e.1) := occupied_lasting.elsewhere hu rfl
    exact occupied_lasting.freeJob herased e.2

theorem handleEnd_occupied (h : Occupied bad x p s) (cid : ℕ) :
    Ends (fun _ => True) (Occupied bad x p) (s.handleEnd cid) := by
  by_cases hcid : cid = x ∨ bad cid
  · refine ((handleEnd_taken h.toTaken cid).and (handleEnd_gone s cid)).mono fun t ht => ?_
    refine ⟨ht.1, fun hx _ => ?_⟩
    rcases hcid with rfl | hbad
    · exact absurd (hx.symm.trans ht.2) (by decide)
    · exact .inr ⟨cid, hbad, ht.2⟩
  · rw [not_or] at hcid
    exact occupied_lasting.abiding.handleEnd h (fun ptr ht hwaiting => dropQueued_occupied ht hwaiting)
      fun e ht hlive hmine => dropJob_occupied ht hcid.1 hcid.2 hlive hmine

/-! ## What whole runs keep -/

/-- Connections have been numbered, and the submitters of jobs among them. -/
structure Owned (s : Scheduler) : Prop where
  lives : ∀ y, s.live y = true → y < s.newCid
  jobs : ∀ j ∈ s.heap, j.submitter < s.newCid

/-- `x` or `p` is gone for good. -/
structure Spent (x p : ℕ) (s : Scheduler) : Prop where
  server : x < s.newCid
  job : p < s.newPtr
  gone : s.live x = true → s.liveJob p = false

theorem putJob_submitter {j : Job} {i : Job} (hlive : s.liveJob j.ptr = true)
    (hsubmitter : j.submitter = (s.job j.ptr).submitter) (hi : i ∈ (s.putJob j).heap) :
    ∃ k ∈ s.heap, i.submitter = k.submitter := by
  rcases Records.mem_replace.mp hi with ⟨rfl, -⟩ | ⟨hi, -⟩
  · exact ⟨_, (job_mem hlive).1, hsubmitter⟩
  · exact ⟨i, hi, rfl⟩

theorem putJob_live (s : Scheduler) (j : Job) (ptr : ℕ) :
    (s.putJob j).liveJob ptr = s.liveJob ptr := by
  rw [Bool.eq_iff_iff, liveJob_iff, liveJob_iff, putJob, Records.map_key_replace]

theorem owned_lasting : Lasting Owned where
  aside h hconns hheap hnewCid _ _ _ := by
    refine ⟨fun y hy => ?_, fun j hj => ?_⟩
    · rw [hnewCid]
      exact h.lives y (by simpa only [live, hconns] using hy)
    · rw [hnewCid]
      exact h.jobs j (hheap ▸ hj)
  update c h _ := ⟨fun y hy => h.lives y (by rwa [put_live] at hy), h.jobs⟩
  free {s} cid h :=
    ⟨fun y hy => h.lives y ((free_told (.jobLocalDone 0) s cid).conns y hy).1, h.jobs⟩
  join c h hcid _ := by
    refine ⟨fun y hy => ?_, fun j hj => (h.jobs j hj).trans (Nat.lt_succ_self _)⟩
    rcases addConn_live hy with rfl | hy
    · exact hcid ▸ Nat.lt_succ_self _
    · exact (h.lives y hy).trans (Nat.lt_succ_self _)
  relabel j h hlive hties := by
    refine ⟨h.lives, fun i hi => ?_⟩
    obtain ⟨k, hk, hsame⟩ := putJob_submitter hlive (congrArg (fun t => t.2.2.1) hties) hi
    exact hsame ▸ h.jobs k hk
  create j h _ _ hlive hconns hheap hnewCid _ _ _ := by
    refine ⟨fun y hy => ?_, fun i hi => ?_⟩
    · rw [hnewCid]
      exact h.lives y (by simpa only [live, hconns] using hy)
    · rw [hheap] at hi
      rw [hnewCid]
      rcases List.mem_cons.mp hi with rfl | hi
      · exact h.lives _ hlive
      · exact h.jobs i hi
  remove _ h := ⟨h.lives, fun j hj => h.jobs j (Records.mem_remove.mp hj).1⟩

theorem clock_lasting : Lasting fun s => ∀ n, s.host.clock n ≠ 0 where
  aside h _ _ _ _ hhost _ := hhost ▸ h
  update _ h _ := h
  free _ h := h
  join _ h _ _ := h
  relabel _ h _ _ := h
  create _ h _ _ _ _ _ _ _ hhost _ := hhost ▸ h
  remove _ h := h

theorem spent_lasting : Lasting (Spent x p) where
  aside h hconns hheap hnewCid hnewPtr _ _ := by
    refine ⟨hnewCid ▸ h.server, hnewPtr ▸ h.job, fun hx => ?_⟩
    simp only [live, liveJob, hconns, hheap] at hx ⊢
    exact h.gone hx
  update c h _ := ⟨h.server, h.job, fun hx => h.gone (by rwa [put_live] at hx)⟩
  free {s} cid h :=
    ⟨h.server, h.job, fun hx => h.gone ((free_told (.jobLocalDone 0) s cid).conns x hx).1⟩
  join c h hcid _ := by
    refine ⟨h.server.trans (Nat.lt_succ_self _), h.job, fun hx => ?_⟩
    rcases addConn_live hx with hsame | hx
    · exact absurd (hsame.trans hcid) h.server.ne
    · exact h.gone hx
  relabel j h _ _ := ⟨h.server, h.job, fun hx => (putJob_live _ j p).trans (h.gone hx)⟩
  create {s t} j h hptr _ _ hconns hheap hnewCid hnewPtr _ _ := by
    refine ⟨hnewCid ▸ h.server, hnewPtr ▸ h.job.trans (Nat.lt_succ_self _), fun hx => ?_⟩
    have hne : j.ptr ≠ p := hptr ▸ h.job.ne'
    have hgone := h.gone (by simpa only [live, hconns] using hx)
    simpa only [liveJob, hheap, List.any_cons, hne, decide_false, Bool.false_or] using hgone
  remove ptr h := by
    refine ⟨h.server, h.job, fun hx => ?_⟩
    have hgone := h.gone hx
    simp only [liveJob, List.any_eq_false, decide_eq_true_eq] at hgone ⊢
    exact fun j hj => hgone j (Records.mem_remove.mp hj).1

/-! ## Where jobs get their servers -/

def Unplaced (x p : ℕ) (s : Scheduler) : Prop := ∀ j ∈ s.heap, j.ptr = p → j.server ≠ some x

theorem unplaced_lasting : Lasting (Unplaced x p) where
  aside h _ hheap _ _ _ _ := fun j hj => h j (hheap ▸ hj)
  update _ h _ := h
  free _ h := h
  join _ h _ _ := h
  relabel j h hlive hties := by
    simp only [Job.ties, Prod.mk.injEq] at hties
    intro i hi hp
    rcases Records.mem_replace.mp hi with ⟨rfl, -⟩ | ⟨hi, -⟩
    · rw [hties.2.2.2]
      exact h _ (job_mem hlive).1 ((job_mem hlive).2.trans hp)
    · exact h i hi hp
  create j h _ hserver _ _ hheap _ _ _ _ := by
    intro i hi hp
    rcases List.mem_cons.mp (hheap ▸ hi) with rfl | hi
    · simp [hserver]
    · exact h i hi hp
  remove _ h := fun j hj => h j (Records.mem_remove.mp hj).1

theorem handleEnd_unplaced (h : Unplaced x p s) (cid : ℕ) :
    Ends (fun _ => True) (Unplaced x p) (s.handleEnd cid) :=
  unplaced_lasting.abiding.handleEndBusy (fun _ h _ _ => h) cid h

/-- What is shared afterwards does not end the install. -/
theorem settle_busy {j : Job} {gotit : Bool} (hgotit : gotit = false)
    (hclock : ∀ n, s.host.clock n ≠ 0) :
    Ends (fun _ => True) (fun t => (t.conn x).busyInstalling ≠ 0) (s.settle j x gotit) := by
  subst hgotit
  unfold settle appendJob setBusyInstalling
  rw [bind_assoc]
  refine (touch_any s x).bind fun _ _ => ?_
  rw [pure_bind]
  generalize hput : s.put { s.conn x with
    lastPickedId := j.id, jobList := (s.conn x).jobList ++ [j.ptr] } = t
  have hhost : t.host = s.host := hput ▸ rfl
  simp only [Bool.false_eq_true, if_false, bind_assoc, pure_bind]
  refine (touch_any t.asked x).bind fun _ hlive => ?_
  have hbusy : ((t.asked.put { t.asked.conn x with busyInstalling := t.now }).conn x).busyInstalling
      ≠ 0 := by
    rw [put_conn_at ?_ hlive]
    · have hnow := hclock t.calls
      rwa [← hhost] at hnow
    · exact conn_cid t.asked x
  refine .ite (fun _ => .pure hbusy) fun _ => ?_
  refine Ends.foldlM (fun _ (u : Scheduler) => (u.conn x).busyInstalling ≠ 0) hbusy
    fun ptr _ u hu => ?_
  unfold shareEnvironment
  exact (touchJob_any u ptr).bind fun _ _ => .pure hu

/-- A submitter that cannot be told is gone. -/
theorem assign_installs {ptr : ℕ} (pos : JobRequestPosition)
    (hmissing : envsMatch (s.conn x) (s.job ptr) = []) (hclock : ∀ n, s.host.clock n ≠ 0) :
    Ends (fun _ => True) (fun u => s.live x = true ∧
      (u.live (s.job ptr).submitter = true → (u.conn x).busyInstalling ≠ 0))
      (s.assign ptr x pos) := by
  unfold assign
  refine (touchJob_any _ ptr).bind fun _ _ => ?_
  refine (touch_any _ x).bind fun _ hlive => (touch_any _ _).bind fun _ _ => ?_
  have hsend : ∀ {t : Scheduler} {cid : ℕ} {m : Msg}, t.host = s.host →
      Ends (fun _ => True) (fun r => r.1.host = s.host) (t.send cid m) := by
    intro t cid m hhost
    unfold send
    exact (touch_any t cid).bind fun _ _ => .pure hhost
  refine (hsend ?_).bind fun r hhost => .ite (fun _ => ?_) fun _ => ?_
  · rfl
  · refine (settle_busy ?_ ?_).mono fun u hu => ⟨hlive, fun _ => hu⟩
    · exact decide_eq_false (not_not.mpr hmissing)
    · rwa [hhost]
  · refine (handleEnd_gone r.1 _).mono fun u hu => ⟨hlive, fun hheard => ?_⟩
    exact absurd (hheard.symm.trans hu) (by decide)

/-- Either the job at `p` is not given to `x`, or `x` has been chosen for it and installs. -/
theorem emptyQueue_gives (hunplaced : Unplaced x p s)
    (hmissing : envsMatch (s.conn x) (s.job p) = []) (hclock : ∀ n, s.host.clock n ≠ 0) :
    Ends (fun _ => True) (fun r => Unplaced x p r.1 ∨ (s.firstRequest = some p ∧ s.Chosen p x ∧
      s.live x = true ∧ (r.1.live (s.job p).submitter = true → (r.1.conn x).busyInstalling ≠ 0)))
      s.emptyQueue := by
  refine emptyQueue_chosen (fun n log => .inl hunplaced) ?_
  intro n log pos useCs hpos hlive hchosen
  by_cases hsame : pos.2 = p ∧ useCs = x
  · obtain ⟨rfl, rfl⟩ := hsame
    have hfirst : s.firstRequest = some pos.2 := by rw [firstRequest, hpos, Option.map_some]
    have hinstalls := assign_installs (s := { s with calls := n, log := log }) pos hmissing hclock
    exact hinstalls.mono fun u hu => .inr ⟨hfirst, hchosen, hu⟩
  · refine .mono ?_ fun u hu => .inl hu
    refine unplaced_lasting.abiding.assign pos.2 useCs pos (fun _ => ?_) (fun ht => ht) (fun ht _ => ht)
      fun ht => handleEnd_unplaced ht _
    intro j hj hp
    rcases Records.mem_replace.mp hj with ⟨rfl, -⟩ | ⟨hj, -⟩
    · have hptr := (job_mem hlive).2
      exact fun hserver => hsame ⟨hptr.symm.trans hp, Option.some.inj hserver⟩
    · exact hunplaced j hj hp

end Scheduler

namespace Loop

open Scheduler

variable {l l' : Loop} {e : Event} {x p : ℕ}

theorem next_owned (h : Owned l.scheduler) (hnext : l.next e = some l') : Owned l'.scheduler := by
  refine next_endures owned_lasting.abiding (fun c h _ => ?_) (fun ptr useCs h hlive => ?_) h hnext
  · exact ⟨fun y hy => h.lives y (by rwa [put_live] at hy), h.jobs⟩
  · refine ⟨h.lives, fun i hi => ?_⟩
    have hptr := (job_mem hlive).2
    obtain ⟨k, hk, hsame⟩ := putJob_submitter (by rwa [hptr]) (by simp only [hptr]) hi
    exact hsame ▸ h.jobs k hk

theorem next_spent (h : Spent x p l.scheduler) (hnext : l.next e = some l') :
    Spent x p l'.scheduler := by
  refine next_endures spent_lasting.abiding (fun c h _ => ?_) (fun ptr useCs h _ => ?_) h hnext
  · exact ⟨h.server, h.job, fun hx => h.gone (by rwa [put_live] at hx)⟩
  · exact ⟨h.server, h.job, fun hx => (putJob_live _ _ p).trans (h.gone hx)⟩

theorem next_clock (h : ∀ n, l.scheduler.host.clock n ≠ 0) (hnext : l.next e = some l') :
    ∀ n, l'.scheduler.host.clock n ≠ 0 :=
  next_endures clock_lasting.abiding (fun _ h _ => h) (fun _ _ h _ => h) h hnext

theorem reachable_owned (h : system.Reachable l) : Owned l.scheduler := by
  refine h.invariant (fun l hinit => ?_) fun l e l' hl _ hnext => next_owned hl hnext
  refine ⟨fun y hy => ?_, fun j hj => ?_⟩
  · simp [live, hinit.conns] at hy
  · simp [hinit.heap] at hj

/-! ## One install at a time -/

/-- In a step a job has been given to `x`, which had no environment for it, and the job's
submitter knows. -/
structure Installs (l l' : Loop) (ptr x : ℕ) : Prop where
  waits : (l.scheduler.job ptr).server ≠ some x
  job : l'.scheduler.liveJob ptr = true
  given : (l'.scheduler.job ptr).server = some x
  heard : l'.scheduler.live (l.scheduler.job ptr).submitter = true
  missing : envsMatch (l.scheduler.conn x) (l.scheduler.job ptr) = []

theorem Installs.served (h : Installs l l' p x) (hl : Between anyMode l)
    (hclock : ∀ n, l.scheduler.host.clock n ≠ 0) (hnext : l.next e = some l') :
    e = .emptyQueue ∧ l.scheduler.firstRequest = some p ∧ l.scheduler.Chosen p x ∧
      l.scheduler.live x = true ∧ (l'.scheduler.conn x).busyInstalling ≠ 0 := by
  have hunplaced : Unplaced x p l.scheduler := by
    rintro j hj rfl
    rw [← job_eq hl.facts.tasks.ptrs hj]
    exact h.waits
  have hgiven : ¬ Unplaced x p l'.scheduler := fun hstill =>
    hstill _ (job_mem h.job).1 (job_mem h.job).2 h.given
  have hqueue : e = .emptyQueue := by
    by_contra hqueue
    refine hgiven (next_abiding unplaced_lasting.abiding (fun cid hs => handleEnd_unplaced hs cid) hunplaced
      hqueue (fun cid m _ _ _ => ?_) hnext)
    cases m with
    | login m => exact unplaced_lasting.abiding.handleRelogin cid m hunplaced
    | _ =>
      exact unplaced_lasting.abiding.dispatchCounting (fun cid hs => handleEnd_unplaced hs cid)
        (fun _ hs _ _ _ => hs) (unplaced_lasting.abiding.note hunplaced _) cid nofun
  subst hqueue
  obtain ⟨again, hr⟩ := next_emptyQueue hnext
  obtain ⟨hfirst, hchosen, hlive, hbusy⟩ :=
    ((emptyQueue_gives hunplaced h.missing hclock).of_ok hr).resolve_left hgiven
  exact ⟨rfl, hfirst, hchosen, hlive, hbusy h.heard⟩

def logsIn : Msg → Bool
  | .login _ => true
  | _ => false

/-- `x` logs in again. -/
def Relogs (x : ℕ) (l : Loop) (e : Event) : Prop := ∃ r ∈ l.handled e, r.1 = x ∧ logsIn r.2 = true

instance (x : ℕ) (l : Loop) (e : Event) : Decidable (Relogs x l e) :=
  inferInstanceAs (Decidable (∃ r ∈ l.handled e, _))

/-- While the environment of `p` is being installed at `x`: the server does not log in again, no
submitter of another job there ends, and a server that has told no platform gets no job that
nobody else can take. -/
structure Undisturbed (x p : ℕ) (l : Loop) (e : Event) : Prop where
  login : ¬ Relogs x l e
  others : ∀ l', l.next e = some l' → ∀ j ∈ l.scheduler.heap, j.server = some x → j.ptr ≠ p →
    j.submitter ≠ x → l'.scheduler.live j.submitter = true
  platform : e = .emptyQueue → ∀ ptr ∈ l.scheduler.firstRequest,
    (l.scheduler.job ptr).submitter = x → (l.scheduler.conn x).hostPlatform = [] →
    l.scheduler.Placeable ptr ∨ l.scheduler.anyEligibleEver (l.scheduler.job ptr) = true

/-- The submitters of other jobs at `x` -/
def Others (x p : ℕ) (s : Scheduler) (y : ℕ) : Prop :=
  ∃ j ∈ s.heap, j.server = some x ∧ j.ptr ≠ p ∧ j.submitter = y

structure Installing (x p : ℕ) (l : Loop) : Prop where
  between : Between anyMode l
  owned : Owned l.scheduler
  clock : ∀ n, l.scheduler.host.clock n ≠ 0
  server : x < l.scheduler.newCid
  job : p < l.scheduler.newPtr
  busy : l.scheduler.live x = true → l.scheduler.liveJob p = true →
    (l.scheduler.conn x).busyInstalling ≠ 0

theorem Installing.occupied (h : Installing x p l) :
    Occupied (Others x p l.scheduler) x p l.scheduler where
  server := h.server
  submitters := by
    rintro y ⟨j, hj, -, -, rfl⟩
    exact h.owned.jobs j hj
  job := h.job
  clock := h.clock
  fresh := h.between.facts.tasks.fresh
  queued j hj hserver e he hptr := by
    have hnone := (h.between.facts.tasks.queued e he j hj hptr.symm).2
    cases hnone.symm.trans hserver
  jobs j hj hserver := by
    by_cases hp : j.ptr = p
    · exact .inl hp
    · exact .inr (.inr ⟨j, hj, hserver, hp, rfl⟩)
  busy hx hp := .inl (h.busy hx hp)

theorem Installing.busy_chosen (h : Installing x p l) (hx : l.scheduler.live x = true)
    (hp : l.scheduler.liveJob p = true) {ptr useCs : ℕ} (hchosen : l.scheduler.Chosen ptr useCs)
    (hsame : useCs = x) : (l.scheduler.job ptr).submitter = x ∧ ¬ l.scheduler.Placeable ptr ∧
      l.scheduler.anyEligibleEver (l.scheduler.job ptr) = false := by
  subst hsame
  rcases hchosen with hsuits | ⟨hsubmitter, hfree | hnever⟩
  · exact absurd hsuits.idle (h.busy hx hp)
  · exact absurd (hsubmitter ▸ submitterFree_idle hfree) (h.busy hx hp)
  · exact ⟨hsubmitter.symm, hnever⟩

/-- The next server is chosen, and `x` stays busy. -/
theorem Installing.occupied_emptyQueue (h : Installing x p l) (hx : l.scheduler.live x = true)
    (hp : l.scheduler.liveJob p = true) : Ends (fun _ => True)
      (fun r => Occupied (Others x p l.scheduler) x p r.1) l.scheduler.emptyQueue := by
  have hclosed : Lasting (Occupied (Others x p l.scheduler) x p) := occupied_lasting
  refine emptyQueue_chosen (fun n log => hclosed.elsewhere h.occupied rfl) ?_
  intro n log pos useCs hpos hlive hchosen
  have hsearched : Occupied (Others x p l.scheduler) x p
      { l.scheduler with calls := n, log := log } := hclosed.elsewhere h.occupied rfl
  refine hclosed.abiding.assign pos.2 useCs pos (fun _ => ?_) (fun {t} ht => ?_) (fun {t} ht hlive => ?_)
    fun {t} ht => ?_
  · have hremoved : Occupied (Others x p l.scheduler) x p
        { l.scheduler with
          calls := n, log := log
          jobRequests := removeJobRequest l.scheduler.jobRequests pos } :=
      hclosed.aside hsearched rfl rfl rfl rfl rfl (Abiding.removeJobRequest_subset _ pos)
    have hmine : useCs = x → (l.scheduler.job pos.2).submitter = x ∧
        ∀ e ∈ waiting (removeJobRequest l.scheduler.jobRequests pos), e.2 ≠ pos.2 := by
      intro hsame
      refine ⟨(h.busy_chosen hx hp hchosen hsame).1, fun e he => ?_⟩
      obtain ⟨g, hg, hin⟩ := mem_positions (List.mem_of_mem_head? hpos)
      have hperm := removeJobRequest_waiting hg hin
      have hnodup := (hperm.map Prod.snd).nodup_iff.mp h.between.facts.tasks.queue
      rw [List.map_cons, List.nodup_cons] at hnodup
      exact fun heq => hnodup.1 (heq ▸ List.mem_map.mpr ⟨e, he, rfl⟩)
    exact hremoved.of_taken (hremoved.toTaken.place hlive hmine) (fun _ hy _ => hy)
      (fun hjob => (putJob_live _ _ p).symm.trans hjob) fun _ => rfl
  · exact ht.rewrite (by simp only [conn_cid])
  · exact (hclosed.abiding.asked ht).occupy useCs (ht.clock _)
  · exact handleEnd_occupied ht _

/-- What one step keeps -/
theorem Installing.next (h : Installing x p l) (hok : Undisturbed x p l e)
    (hnext : l.next e = some l') : Installing x p l' := by
  have hstep := next_stepped h.between (permitted_any l e) hnext
  have howned := next_owned h.owned hnext
  by_cases hthere : l.scheduler.live x = true → l.scheduler.liveJob p = false
  · have hspent : Spent x p l'.scheduler :=
      next_spent ⟨h.server, h.job, hthere⟩ hnext
    refine ⟨hstep.between, howned, next_clock h.clock hnext, hspent.server, hspent.job, ?_⟩
    intro hx hp
    exact absurd (hp.symm.trans (hspent.gone hx)) (by decide)
  · obtain ⟨hx, hp⟩ : l.scheduler.live x = true ∧ l.scheduler.liveJob p = true := by
      simpa using hthere
    have hoccupied : Occupied (Others x p l.scheduler) x p l'.scheduler := by
      by_cases hqueue : e = .emptyQueue
      · subst hqueue
        obtain ⟨again, hr⟩ := next_emptyQueue hnext
        exact (h.occupied_emptyQueue hx hp).of_ok hr
      · refine next_abiding occupied_lasting.abiding (fun cid hs => handleEnd_occupied hs cid) h.occupied
          hqueue (fun cid m hm _ _ => ?_) hnext
        have hnote := occupied_lasting.abiding.note h.occupied (.received cid (some m))
        by_cases hlogin : ∃ r, m = .login r
        · obtain ⟨r, rfl⟩ := hlogin
          refine occupied_lasting.abiding.handleRelogin cid r (hnote.put ?_)
          rintro hcid
          rw [conn_cid] at hcid
          exact hok.login ⟨(cid, .login r), hm, hcid, rfl⟩
        · exact occupied_lasting.abiding.dispatchCounting (fun cid hs => handleEnd_occupied hs cid)
            (fun c hs hsame _ _ => hs.rewrite hsame) hnote cid fun r hr => hlogin ⟨r, hr⟩
    refine ⟨hstep.between, howned, hoccupied.clock, hoccupied.server, hoccupied.job, ?_⟩
    intro hx' hp'
    refine (hoccupied.busy hx' hp').resolve_right ?_
    rintro ⟨y, ⟨j, hj, hserver, hne, rfl⟩, hgone⟩
    by_cases hmine : j.submitter = x
    · exact absurd (hx'.symm.trans (hmine ▸ hgone)) (by decide)
    · have hlive := hok.others l' hnext j hj hserver hne hmine
      exact absurd (hlive.symm.trans hgone) (by decide)

/-- A job that is installed keeps others away. -/
theorem Installs.installing (h : Installs l l' p x) (hreach : system.Reachable l)
    (hclock : ∀ n, l.scheduler.host.clock n ≠ 0) (hnext : l.next e = some l') :
    Installing x p l' := by
  have hl := reachable_between hreach
  have hstep := next_stepped hl (permitted_any l e) hnext
  have howned := reachable_owned hreach
  obtain ⟨-, -, -, hlive, hbusy⟩ := h.served hl hclock hnext
  have hserver := (howned.lives x hlive).trans_le hstep.follows.newCid
  have hjob : p < l'.scheduler.newPtr := by
    obtain ⟨hmem, hptr⟩ := job_mem h.job
    exact hptr ▸ hstep.between.facts.tasks.fresh _ hmem
  refine ⟨hstep.between, next_owned howned hnext, ?_, hserver, hjob, fun _ _ => hbusy⟩
  exact next_clock hclock hnext

/-- In a run in which nothing disturbs an install, no other job whose environment is missing there
is given to the server, as long as the server and the job are there. -/
theorem install_alone {e₀ : Event} {l₀ l₁ l₂ l₃ : Loop} {q : ℕ} (hreach : system.Reachable l₀)
    (hclock : ∀ n, l₀.scheduler.host.clock n ≠ 0) (hfirst : l₀.next e₀ = some l₁)
    (hinstalls : Installs l₀ l₁ p x) (hsteps : system.Steps (Undisturbed x p) l₁ l₂)
    (hserver : l₂.scheduler.live x = true) (hjob : l₂.scheduler.liveJob p = true)
    (hok : Undisturbed x p l₂ e) (hnext : l₂.next e = some l₃) : ¬ Installs l₂ l₃ q x := by
  have hl : Installing x p l₂ := hsteps.invariant (hinstalls.installing hreach hclock hfirst)
    fun _ _ _ hl hok hnext => hl.next hok hnext
  intro hsecond
  obtain ⟨hqueue, hq, hchosen, -⟩ := hsecond.served hl.between hl.clock hnext
  obtain ⟨hsubmitter, hplace, hnever⟩ := hl.busy_chosen hserver hjob hchosen rfl
  have hplatform : (l₂.scheduler.conn x).hostPlatform = [] := by
    have hmissing := hsecond.missing
    rwa [envsMatch, if_pos (hsubmitter.trans (conn_cid _ x).symm)] at hmissing
  rcases hok.platform hqueue q hq hsubmitter hplatform with hnow | hever
  · exact hplace hnow
  · exact absurd (hever.symm.trans hnever) (by decide)

/-! ## Runs -/

instance (l l' : Loop) (ptr x : ℕ) : Decidable (Installs l l' ptr x) :=
  decidable_of_iff ((l.scheduler.job ptr).server ≠ some x ∧ l'.scheduler.liveJob ptr = true ∧
      (l'.scheduler.job ptr).server = some x ∧
      l'.scheduler.live (l.scheduler.job ptr).submitter = true ∧
      envsMatch (l.scheduler.conn x) (l.scheduler.job ptr) = [])
    ⟨fun ⟨h₁, h₂, h₃, h₄, h₅⟩ => ⟨h₁, h₂, h₃, h₄, h₅⟩,
      fun ⟨h₁, h₂, h₃, h₄, h₅⟩ => ⟨h₁, h₂, h₃, h₄, h₅⟩⟩

instance (l : Loop) (e : Event) (P : Loop → Prop) [DecidablePred P] :
    Decidable (∀ l', l.next e = some l' → P l') :=
  decidable_of_iff (∀ l' ∈ l.next e, P l') Iff.rfl

instance (x p : ℕ) (l : Loop) (e : Event) : Decidable (Undisturbed x p l e) :=
  decidable_of_iff (¬ Relogs x l e ∧
      (∀ l', l.next e = some l' → ∀ j ∈ l.scheduler.heap, j.server = some x → j.ptr ≠ p →
        j.submitter ≠ x → l'.scheduler.live j.submitter = true) ∧
      (e = .emptyQueue → ∀ ptr ∈ l.scheduler.firstRequest,
        (l.scheduler.job ptr).submitter = x → (l.scheduler.conn x).hostPlatform = [] →
        (((l.scheduler.pickServer (l.scheduler.job ptr)).isSome = true ∨
          l.scheduler.submitterFree (l.scheduler.job ptr) = true) ∨
        l.scheduler.anyEligibleEver (l.scheduler.job ptr) = true)))
    ⟨fun ⟨h₁, h₂, h₃⟩ => ⟨h₁, h₂, h₃⟩, fun ⟨h₁, h₂, h₃⟩ => ⟨h₁, h₂, h₃⟩⟩

/-- Two daemons without load to tell and a third with the first's environment. The first asks
for a server, and so does the second, which names another environment. -/
def threeDaemons : List Event :=
  polling 0 ++ [newcomer 7 1 "y", .activity (some (daemonLogin "y"))] ++ quietTurn ++
    polling 1 ++ [newcomer 8 2 "z", .activity (some (daemonLogin "z"))] ++ quietTurn ++
    polling 2 ++ [newcomer 9 3 "x", .activity (some (daemonLogin "x" listed)),
      .activity (some (.stats { loadAvg1 := 0, loadAvg5 := 0, loadAvg10 := 0, freeMem := 0 })),
      .idle, .accepted, .controlled, .noDatagram, .advance,
      .activity (some (.getCS { lang := 0, target := str "x86_64", versions := listed })),
      .idle, .advance]

def another : Event :=
  .activity (some (.getCS
    { lang := 0, target := str "x86_64", versions := [(str "x86_64", str "f")] }))

/-- On to the next turn's queue, once the first daemon has said `first` -/
def turnWith (first : List Event) : List Event :=
  .emptyQueue :: (polling 3).drop 2 ++ [.accepted, .controlled, .noDatagram, .advance] ++ first ++
    [.advance, another, .idle, .advance, .idle, .visited, .tested true, .prune]

theorem started_clock {l : Loop} {es : List Event}
    (h : system.run (fun _ _ => True) (started fun _ => 1) es = some l) :
    system.Reachable l ∧ ∀ n, l.scheduler.host.clock n ≠ 0 := by
  refine ⟨(Transition.System.Reaches.init (started_init _)).run h, ?_⟩
  have hsteps : system.Steps (fun _ _ => True) (started fun _ => 1) l := .run .refl h
  exact hsteps.invariant (fun _ => one_ne_zero) fun _ _ _ hl _ hnext => next_clock hl hnext

/-- The first daemon leaves while the second's job is being installed, and the next job is given
to the same server. -/
theorem installs_together : ∃ l₀ l₁ l₂ l₃, system.Reachable l₀ ∧
    (∀ n, l₀.scheduler.host.clock n ≠ 0) ∧ l₀.next .emptyQueue = some l₁ ∧ Installs l₀ l₁ 1 2 ∧
    system.Steps (fun l e => ¬ Relogs 2 l e) l₁ l₂ ∧ l₂.scheduler.live 2 = true ∧
    l₂.scheduler.liveJob 1 = true ∧ l₂.next .emptyQueue = some l₃ ∧ Installs l₂ l₃ 2 2 := by
  have hrun : ((system.run (fun _ _ => True) (started fun _ => 1) (threeDaemons ++
      [another, .idle, .advance, .idle, .visited, .tested true, .prune, .emptyQueue])).bind fun l₀ =>
      (l₀.next .emptyQueue).bind fun l₁ =>
      (system.run (fun l e => ¬ Relogs 2 l e) l₁ (turnWith [.activity none])).bind fun l₂ =>
      (l₂.next .emptyQueue).map fun l₃ => decide (Installs l₀ l₁ 1 2 ∧ l₂.scheduler.live 2 = true ∧
        l₂.scheduler.liveJob 1 = true ∧ Installs l₂ l₃ 2 2)) = some true := by decide +kernel
  obtain ⟨l₀, h₀, hrun⟩ := Option.bind_eq_some_iff.mp hrun
  obtain ⟨l₁, h₁, hrun⟩ := Option.bind_eq_some_iff.mp hrun
  obtain ⟨l₂, h₂, hrun⟩ := Option.bind_eq_some_iff.mp hrun
  obtain ⟨l₃, h₃, hrun⟩ := Option.map_eq_some_iff.mp hrun
  obtain ⟨hfirst, hserver, hjob, hsecond⟩ := of_decide_eq_true hrun
  obtain ⟨hreach, hclock⟩ := started_clock h₀
  exact ⟨l₀, l₁, l₂, l₃, hreach, hclock, h₁, hfirst, .run .refl h₂, hserver, hjob, h₃, hsecond⟩

/-- It stays, and the next job is left to its submitter. -/
theorem install_alone_queued : ∃ l₂ l₃, l₂.next .emptyQueue = some l₃ ∧
    l₂.scheduler.firstRequest = some 2 ∧ ¬ Installs l₂ l₃ 2 2 := by
  have hrun : ((system.run (fun _ _ => True) (started fun _ => 1) (threeDaemons ++
      [another, .idle, .advance, .idle, .visited, .tested true, .prune, .emptyQueue])).bind fun l₀ =>
      (l₀.next .emptyQueue).bind fun l₁ =>
      (system.run (Undisturbed 2 1) l₁ (turnWith [.idle])).bind fun l₂ =>
      (l₂.next .emptyQueue).map fun _ => decide (Installs l₀ l₁ 1 2 ∧
        Undisturbed 2 1 l₂ .emptyQueue ∧ l₂.scheduler.live 2 = true ∧
        l₂.scheduler.liveJob 1 = true ∧ l₂.scheduler.firstRequest = some 2)) = some true := by
    decide +kernel
  obtain ⟨l₀, h₀, hrun⟩ := Option.bind_eq_some_iff.mp hrun
  obtain ⟨l₁, h₁, hrun⟩ := Option.bind_eq_some_iff.mp hrun
  obtain ⟨l₂, h₂, hrun⟩ := Option.bind_eq_some_iff.mp hrun
  obtain ⟨l₃, h₃, hrun⟩ := Option.map_eq_some_iff.mp hrun
  obtain ⟨hfirst, hok, hserver, hjob, hqueued⟩ := of_decide_eq_true hrun
  obtain ⟨hreach, hclock⟩ := started_clock h₀
  exact ⟨l₂, l₃, h₃, hqueued, install_alone hreach hclock h₁ hfirst (.run .refl h₂) hserver hjob
    hok h₃⟩

end Loop

end Icecream.IceccScheduler
