import Icecream.Scheduler.Finishing
import Icecream.Scheduler.Lifetimes
import Icecream.Scheduler.Shape

/-!
# A daemon leaves

When queue, jobs and the lists of the servers agree, `handle_end` of a daemon leaves nothing
of it: no deleted record is used on the way, and whatever is not the daemon's stays as it is.
-/

namespace Icecream.IceccScheduler

open Icecream.Comm
open Icecream.Fault

namespace Scheduler

variable {mode : Mode} {extra : List ℕ} {s t : Scheduler} {cid ptr : ℕ}

/-! ## No deleted job is used -/

theorem touch_gone (s : Scheduler) (cid : ℕ) :
    Ends (· = .readAfterFree) (fun _ => s.live cid = true) (s.touch cid) := by
  unfold touch
  exact .ite (fun hlive => .pure hlive) fun _ => .throw rfl

theorem touchJob_there (h : s.liveJob ptr = true) :
    Ends (· = .readAfterFree) (fun _ => True) (s.touchJob ptr) := by
  unfold touchJob
  exact .ite (fun _ => .pure trivial) fun hdead => absurd h hdead

theorem freeJob_there (s : Scheduler) (ptr : ℕ) :
    Ends (· = .readAfterFree) (fun _ => True) (s.freeJob ptr) := by
  unfold freeJob
  exact (touch_gone s _).bind fun _ _ => .pure trivial

theorem told_there {m : Msg} (h : Peers extra s) (hplain : plain m = true) :
    Ends (· = .readAfterFree) (Aside s) (s.notifyMonitors m) := by
  have htold : Ends (fun _ => False) (Conns Matches s) (s.notifyMonitors m) :=
    notifyMonitors_matches h hplain
  exact ((htold.weaken fun _ hf => hf.elim).and (told_aside h hplain)).mono fun _ ht => ht.2.1

theorem setBusyInstalling_there (s : Scheduler) (cid : ℕ) (time : ℤ) :
    Ends (· = .readAfterFree) (fun _ => True) (s.setBusyInstalling cid time) := by
  unfold setBusyInstalling
  exact (touch_gone s cid).bind fun _ _ => .pure trivial

theorem dropQueued_there (h : Facts mode extra s) (hwait : (cid, ptr) ∈ waiting s.jobRequests)
    (hjob : s.liveJob ptr = true) :
    Ends (· = .readAfterFree) (fun _ => True) (s.dropQueued ptr) := by
  unfold dropQueued
  refine (touchJob_there hjob).bind fun _ _ => (told_there h.peers rfl).bind fun t _ => ?_
  obtain ⟨hmem, hptr⟩ := job_mem hjob
  rw [(h.tasks.queued _ hwait _ hmem hptr).2]
  exact freeJob_there _ ptr

theorem leaveServer_there (s : Scheduler) (cid : ℕ) (j : Job) :
    Ends (· = .readAfterFree) (fun _ => True) (s.leaveServer cid j) := by
  unfold leaveServer
  cases j.server with
  | none => exact .pure trivial
  | some server =>
    have hremove : Ends (· = .readAfterFree) (fun _ => True)
        (if server ≠ cid then s.removeJob server j.ptr else pure s) := by
      refine .ite (fun _ => ?_) fun _ => .pure trivial
      unfold removeJob
      exact (touch_gone s server).bind fun _ _ => .pure trivial
    exact hremove.bind fun t _ => setBusyInstalling_there t server 0

theorem dropAssigned_there {e : UInt32 × ℕ} (h : Facts mode extra s) (he : e ∈ s.jobs) :
    Ends (· = .readAfterFree) (fun _ => True) (dropAssigned cid s e) := by
  have hjob : s.liveJob e.2 = true := by
    obtain ⟨j, hj, hptr, -⟩ := h.tasks.jobs e he
    exact liveJob_iff.mpr (List.mem_map.mpr ⟨j, hj, hptr⟩)
  unfold dropAssigned dropJob
  refine (touchJob_there hjob).bind fun _ _ => .ite (fun _ => ?_) fun _ => .pure trivial
  refine (told_there h.peers rfl).bind fun t _ => ?_
  exact (leaveServer_there t cid _).bind fun u _ => freeJob_there _ _

theorem dropGroups_there (h : Facts mode extra s) (hcid : Home extra s cid)
    (hwaits : ∀ e ∈ waiting s.jobRequests, s.liveJob e.2 = true) :
    Ends (· = .readAfterFree) (fun _ => True) (s.dropGroups cid) := by
  refine (dropGroups_turns (P := fun t => t.jobRequests = s.jobRequests) h hcid rfl
    fun t ptr hfacts hhome hrequests hwait hkept => ?_).mono fun _ _ => trivial
  have hjob := hkept (hwaits _ (hrequests ▸ hwait))
  refine ((dropQueued_there hfacts hwait hjob).and
    ((dropQueued_drops hfacts hwait hhome).weaken fun _ _ => trivial)).mono fun u hu => ?_
  obtain ⟨-, -, id, hdrops⟩ := hu
  exact hdrops.jobRequests.trans hrequests

theorem forgetBlacklist_there (s : Scheduler) (cid : ℕ) (l : List ℕ) :
    Ends (· = .readAfterFree) (fun _ => True) (l.foldlM (forgetBlacklist cid) s) := by
  refine Ends.foldlM (fun _ _ => True) trivial fun other _ t _ => ?_
  unfold forgetBlacklist
  exact (touch_gone t other).bind fun _ _ => .pure trivial

theorem endDaemon_there (h : Facts mode [] s) (hcid : s.Has cid .daemon)
    (hwaits : ∀ e ∈ waiting s.jobRequests, s.liveJob e.2 = true) :
    Ends (· = .readAfterFree) (fun _ => True) (s.endDaemon cid) := by
  unfold endDaemon
  refine (told_there h.peers rfl).bind fun t ht => ?_
  have hhas := hcid.kept ht.toLoses not_false
    fun hm => absurd hm (h.peers.not_monitor hcid (by decide))
  have hleft := (ht.facts h).leave hhas
  have hhome : Home [cid] { t with css := t.css.filter (· ≠ cid) } cid := .inr (by simp)
  have htwaits : ∀ e ∈ waiting t.jobRequests, t.liveJob e.2 = true := by
    simpa only [ht.jobRequests, liveJob, ht.heap] using hwaits
  refine ((dropGroups_there hleft hhome htwaits).and
    ((dropGroups_ends hleft hhome).weaken fun _ _ => trivial)).bind fun u hu => ?_
  have hloop : Ends (· = .readAfterFree) (fun _ => True)
      (u.jobs.foldlM (dropAssigned cid) u) :=
    dropAssigned_turns cid hu.2.1 trivial fun v e he hfacts _ => dropAssigned_there hfacts he
  exact hloop.bind fun v _ => forgetBlacklist_there v cid v.css

/-! ## Blacklists -/

/-- No server that has been seen holds anything against `cid`. -/
theorem forgetBlacklist_forgets (s : Scheduler) (cid : ℕ) (l : List ℕ) :
    Ends (fun _ => True) (fun t => t.css = s.css ∧ ∀ x ∈ l, cid ∉ (t.conn x).blacklist)
      (l.foldlM (forgetBlacklist cid) s) := by
  refine (Ends.foldlM (fun rest t => t.css = s.css ∧ ∀ x ∈ l, x ∉ rest →
    cid ∉ (t.conn x).blacklist) ⟨rfl, fun x hx hrest => absurd hx hrest⟩
      fun other rest t hdone => ?_).mono
      fun t ht => ⟨ht.1, fun x hx => ht.2 x hx List.not_mem_nil⟩
  unfold forgetBlacklist
  refine (touch_any t other).bind fun _ hlive => .pure ⟨hdone.1, fun x hx hrest => ?_⟩
  by_cases hsame : x = other
  · subst hsame
    rw [put_conn_at ?_ hlive]
    · simp [AList.mem_erase]
    · exact conn_cid t x
  · rw [put_conn_of_ne (by simpa [conn_cid] using Ne.symm hsame)]
    exact hdone.2 x hx (by simp [hsame, hrest])

theorem endDaemon_forgets (s : Scheduler) (cid : ℕ) :
    Ends (fun _ => True) (fun t => ∀ x ∈ t.css, cid ∉ (t.conn x).blacklist) (s.endDaemon cid) := by
  have hany : ∀ e : Except Fault Scheduler, Ends (fun _ => True) (fun _ => True) e :=
    fun e => .any fun _ => trivial
  unfold endDaemon
  refine (hany _).bind fun t _ => (hany _).bind fun u _ => (hany _).bind fun v _ => ?_
  exact (forgetBlacklist_forgets v cid v.css).mono fun w hw x hx => hw.2 x (hw.1 ▸ hx)

/-! ## The end of a daemon -/

/-- Every job is in `jobs` under its number and belongs to servers that are there, what is
in the list of a server is its job, and what is in the queue is there and has none. -/
structure Agreed (s : Scheduler) : Prop where
  facts : Facts Loop.strictMode [] s
  ledger : Ledger (fun _ => False) s
  waits : ∀ e ∈ waiting s.jobRequests, s.liveJob e.2 = true

/-- A job of others -/
def Other (cid : ℕ) (j : Job) : Prop := j.submitter ≠ cid ∧ j.server ≠ some cid

/-- Nothing of `cid` is left, and the others have what they had. -/
structure Departs (cid : ℕ) (s t : Scheduler) : Prop where
  heap : ∀ j, j ∈ t.heap ↔ j ∈ s.heap ∧ Other cid j
  jobs : ∀ e, e ∈ t.jobs ↔ e ∈ s.jobs ∧ Unrelated cid s e
  jobRequests : t.jobRequests = s.jobRequests.filter fun g => g.submitter ≠ cid
  lists : ∀ x, t.live x = true → (t.conn x).jobList = (s.conn x).jobList.filter t.liveJob
  css : t.css = s.css.filter (· ≠ cid)
  gone : t.live cid = false
  fd2cs : ∀ e ∈ t.fd2cs, e.2 ≠ cid
  blacklists : ∀ x ∈ t.css, cid ∉ (t.conn x).blacklist
  agreed : Agreed t

/-- No deleted record is used. -/
theorem handleEnd_ok (h : Agreed s) (hlive : s.live cid = true)
    (htype : (s.conn cid).type = .daemon) : ∃ t, s.handleEnd cid = .ok t := by
  have hhas : s.Has cid .daemon := ⟨_, conn_kind_mem hlive, conn_cid s cid, htype⟩
  have hthere : Ends (· = .readAfterFree) (fun _ => True) (s.handleEnd cid) := by
    unfold handleEnd
    refine (touch_gone s cid).bind fun _ _ => ?_
    rw [htype]
    exact (endDaemon_there h.facts hhas h.waits).bind fun t _ => .pure trivial
  cases hend : s.handleEnd cid with
  | ok t => exact ⟨t, rfl⟩
  | error f =>
    have htolerated := (handleEnd_ended h.facts fun _ => hlive).of_error hend
    exact absurd trivial (htolerated (hthere.of_error hend))

theorem handleEnd_forgets (s : Scheduler) (cid : ℕ) (htype : (s.conn cid).type = .daemon) :
    Ends (fun _ => True) (fun t => ∀ x ∈ t.css, x ≠ cid → cid ∉ (t.conn x).blacklist)
      (s.handleEnd cid) := by
  unfold handleEnd
  refine (touch_any s cid).bind fun _ _ => ?_
  rw [htype]
  refine (endDaemon_forgets s cid).bind fun t ht => .pure fun x hx hne => ?_
  rw [free_conn hne]
  exact ht x hx

theorem Ended.other {j : Job} (h : Ended Loop.strictMode cid s t) (hj : j ∈ t.heap) :
    Other cid j := by
  have hcss : ∀ x, Home [] t x → x ≠ cid := by
    intro x hx
    have hmem := hx.resolve_right List.not_mem_nil
    rw [h.css, List.mem_filter, decide_eq_true_eq] at hmem
    exact hmem.2
  have hlisted := h.facts.tasks.listed trivial j hj
  obtain ⟨-, -, -, hhome⟩ := (h.facts.tasks.jobs _ hlisted).job h.facts.tasks.ptrs
  obtain ⟨hsubmitter, hserver⟩ := hhome trivial
  rw [job_eq h.facts.tasks.ptrs hj] at hsubmitter hserver
  exact ⟨hcss _ hsubmitter, fun hj => hcss _ (hserver cid hj) rfl⟩

/-- A request of others has no server, so that its job is not deleted. -/
theorem Agreed.waiting_ended (h : Agreed s)
    (hheap : ∀ j ∈ s.heap, Other cid j → j ∈ t.heap)
    (hqueue : t.jobRequests = s.jobRequests.filter fun g => g.submitter ≠ cid) :
    ∀ e ∈ waiting t.jobRequests, t.liveJob e.2 = true := by
  intro e he
  rw [hqueue, waiting_filter, List.mem_filter, decide_eq_true_eq] at he
  obtain ⟨hmem, hptr⟩ := job_mem (h.waits e he.1)
  obtain ⟨hsubmitter, hserver⟩ := h.facts.tasks.queued e he.1 _ hmem hptr
  have hother : Other cid (s.job e.2) :=
    ⟨by rw [hsubmitter]; exact he.2, by rw [hserver]; exact nofun⟩
  exact liveJob_iff.mpr (List.mem_map.mpr ⟨_, hheap _ hmem hother, hptr⟩)

theorem departs_of_ended (h : Agreed s) (htype : (s.conn cid).type = .daemon)
    (hended : Ended Loop.strictMode cid s t) (hretires : Retires cid s t)
    (hforgets : ∀ x ∈ t.css, x ≠ cid → cid ∉ (t.conn x).blacklist) : Departs cid s t := by
  have htasks := h.facts.tasks
  have httasks := hended.facts.tasks
  have hne : ∀ x, t.live x = true → x ≠ cid := by
    rintro x hx rfl
    exact hended.gone _ (conn_kind_mem hx) (conn_cid t x)
  have hspared : ∀ j ∈ s.heap, Other cid j → j ∈ t.heap := fun j hj hother =>
    hretires.spared j hj hother.1 hother.2
  have hledger : Ledger (· = cid) s := h.ledger.mono fun _ hf => hf.elim
  constructor
  case heap =>
    exact fun j => ⟨fun hj => ⟨hretires.heap.subset hj, hended.other hj⟩,
      fun hj => hspared j hj.1 hj.2⟩
  case jobs =>
    refine fun e => ⟨fun he => ?_, fun he => ?_⟩
    · obtain ⟨hmem, hptr, -⟩ := (httasks.jobs e he).job httasks.ptrs
      have hjob : t.liveJob e.2 = true := liveJob_iff.mpr (List.mem_map.mpr ⟨_, hmem, hptr⟩)
      have hother := hended.other hmem
      rw [job_sublist hretires.heap htasks.ptrs hjob] at hother
      exact ⟨hretires.jobs.subset he, hother⟩
    · obtain ⟨hmem, hptr, hid, -⟩ := (htasks.jobs e he.1).job htasks.ptrs
      have hlisted := httasks.listed trivial _ (hspared _ hmem he.2)
      rwa [hptr, hid] at hlisted
  case jobRequests => exact hretires.daemon htype
  case lists => exact fun x hx => (hretires.conns x hx).2.1 (hne x hx)
  case css => exact hended.css
  case gone => exact Bool.eq_false_iff.mpr fun hx => hne cid hx rfl
  case fd2cs =>
    intro e he
    obtain ⟨k, hk, hcid, -⟩ := hended.facts.peers.entries e he
    exact hcid ▸ hended.gone k hk
  case blacklists => exact fun x hx => hforgets x hx (hne x (hended.facts.peers.css x hx).live)
  case agreed =>
    exact ⟨hended.facts, (hretires.ledger htasks.ptrs hledger).closed hended.gone,
      h.waiting_ended hspared (hretires.daemon htype)⟩

end Scheduler

namespace Loop

open Scheduler

variable {l : Loop}

/-- Queue, jobs and lists agree in a run with careful messages in which no submitter reports a
job that is still queued. -/
theorem reaches_agreed (h : system.Reaches (fun l e => Careful l e ∧ Orderly l e) l) :
    Agreed l.scheduler where
  facts := (reaches_between (fun _ _ hok => hok.1.permitted) h).facts
  ledger := (reaches_accounted h).ledger
  waits e he := by
    obtain ⟨g, hg, -, hmem⟩ := mem_waiting.mp he
    exact ((reaches_shaped (h.mono fun _ _ hok => hok.2)).filed g hg e.2 hmem).1

instance (l : Loop) (e : Event) : Decidable (Careful l e ∧ Orderly l e) :=
  inferInstanceAs (Decidable (_ ∧ _))

/-- A daemon logs in and then a monitor, whose first read brings one more message. -/
def overseen (m : Msg) : List Event :=
  polling 0 ++ [newcomer 7 1 "n", .activity (some (daemonLogin "n" [(str "x86_64", str "e")])),
    .activity (some (.stats { loadAvg1 := 0, loadAvg5 := 0, loadAvg10 := 0, freeMem := 0 })),
    .idle, newcomer 9 2 "m", .activity (some .monLogin), .activity (some m)]

end Loop

end Icecream.IceccScheduler
