import Icecream.Scheduler.Counts
import Icecream.Scheduler.Load

/-!
# The jobs that daemons have asked for

A job counts at its submitter from its construction to its destruction. As long as no id is given
out twice, the jobs that are there are the entries of `jobs`.
-/

namespace Icecream.IceccScheduler

open Icecream.Comm
open Icecream.Fault

namespace Scheduler

variable {s t : Scheduler} {x : ℕ}

/-- 1 for a job that `x` has asked for -/
def submits (x : ℕ) (j : Job) : ℤ := if j.submitter = x then 1 else 0

/-- The jobs that `x` has asked for and that are still there -/
def submitted (s : Scheduler) (x : ℕ) : ℤ := (s.heap.map (submits x)).sum

theorem sum_submits (l : List Job) :
    (l.map (submits x)).sum = ((l.filter fun j => j.submitter = x).length : ℤ) := by
  induction l with
  | nil => rfl
  | cons j l ih =>
    rw [List.map_cons, List.sum_cons, ih, List.filter_cons]
    by_cases hsubmitter : j.submitter = x
    · simp [submits, hsubmitter, add_comm]
    · simp [submits, hsubmitter]

theorem submitted_congr (hheap : t.heap = s.heap) : t.submitted x = s.submitted x := by
  rw [submitted, hheap, submitted]

/-- Every connection knows how many jobs there are that it has asked for. -/
structure Submits (s : Scheduler) : Prop extends Owned s where
  ptrs : (s.heap.map Job.ptr).Nodup
  fresh : ∀ j ∈ s.heap, j.ptr < s.newPtr
  counted : ∀ x, s.live x = true → (s.conn x).submittedJobsCount = s.submitted x

namespace Submits

/-- Whoever is there has been there, and knows what it knew. -/
theorem of_conns (h : s.Submits) (howned : t.Owned) (hheap : t.heap = s.heap)
    (hnewPtr : t.newPtr = s.newPtr) (hconns : ∀ x, t.live x = true → s.live x = true ∧
      (t.conn x).submittedJobsCount = (s.conn x).submittedJobsCount) : t.Submits := by
  refine ⟨howned, hheap ▸ h.ptrs, ?_, fun x hx => ?_⟩
  · rw [hheap, hnewPtr]
    exact h.fresh
  · obtain ⟨hlive, hsame⟩ := hconns x hx
    rw [hsame, h.counted x hlive, submitted_congr hheap]

theorem put (h : s.Submits) (c : CompileServer)
    (hcount : c.submittedJobsCount = (s.conn c.cid).submittedJobsCount) : (s.put c).Submits := by
  have howned : (s.put c).Owned := ⟨fun y hy => h.lives y (by rwa [put_live] at hy), h.jobs⟩
  refine h.of_conns howned rfl rfl fun x hx => ?_
  rw [put_live] at hx
  refine ⟨hx, ?_⟩
  by_cases hc : c.cid = x
  · subst hc
    rw [put_conn_live hx, hcount]
  · rw [put_conn_of_ne hc]

/-- The count of one connection changes as the jobs do. -/
theorem recount (h : s.Submits) {c : CompileServer} (howned : t.Owned)
    (hconns : t.conns = (s.put c).conns) (hptrs : (t.heap.map Job.ptr).Nodup)
    (hfresh : ∀ j ∈ t.heap, j.ptr < t.newPtr) (hmine : c.submittedJobsCount = t.submitted c.cid)
    (hother : ∀ x, x ≠ c.cid → t.submitted x = s.submitted x) : t.Submits := by
  refine ⟨howned, hptrs, hfresh, fun x hx => ?_⟩
  have hlive : (s.put c).live x = true := by simpa only [live, hconns] using hx
  have hconn : t.conn x = (s.put c).conn x := by simp only [conn, hconns]
  rw [put_live] at hlive
  rw [hconn]
  by_cases hc : x = c.cid
  · subst hc
    rw [put_conn_live hlive, hmine]
  · rw [put_conn_of_ne (Ne.symm hc), h.counted x hlive, hother x hc]

theorem join (h : s.Submits) (c : CompileServer) (hcid : c.cid = s.newCid)
    (htallies : c.tallies = (0, ([], {}), [], {})) (howned : (s.addConn c).Owned) :
    (s.addConn c).Submits := by
  refine ⟨howned, h.ptrs, h.fresh, fun x hx => ?_⟩
  by_cases hc : c.cid = x
  · have hnone : s.submitted x = 0 := by
      rw [submitted, sum_submits, List.filter_eq_nil_iff.mpr, List.length_nil, Nat.cast_zero]
      intro j hj
      have hlt := h.jobs j hj
      simpa using (hlt.trans_eq (hcid.symm.trans hc)).ne
    have hnew : (s.addConn c).conn x = c := by
      simp only [conn, addConn, asked, List.find?_cons, hc, decide_true, Option.getD_some]
    rw [hnew]
    exact (congrArg Prod.fst htallies).trans hnone.symm
  · have hold := (addConn_live hx).resolve_left (Ne.symm hc)
    have hsame : (s.addConn c).conn x = s.conn x := by
      simp only [conn, addConn, asked, List.find?_cons, hc, decide_false]
    rw [hsame, h.counted x hold]
    rfl

/-- A job that is there is rewritten, but not who has asked for it. -/
theorem reword (h : s.Submits) {j : Job} (hlive : s.liveJob j.ptr = true)
    (hsubmitter : j.submitter = (s.job j.ptr).submitter) : (s.putJob j).Submits := by
  have hptrs : (s.putJob j).heap.map Job.ptr = s.heap.map Job.ptr := Records.map_key_replace
  refine ⟨⟨h.lives, fun i hi => ?_⟩, hptrs ▸ h.ptrs, fun i hi => ?_, fun x hx => ?_⟩
  · obtain ⟨k, hk, hsame⟩ := putJob_submitter hlive hsubmitter hi
    exact hsame ▸ h.jobs k hk
  · have hmem : i.ptr ∈ s.heap.map Job.ptr := hptrs ▸ List.mem_map_of_mem hi
    obtain ⟨k, hk, hsame⟩ := List.mem_map.mp hmem
    exact hsame ▸ h.fresh k hk
  · refine (h.counted x hx).trans (congrArg List.sum ?_)
    exact (putJob_map (submits x) j.ptr h.ptrs rfl (by simp only [submits, hsubmitter])).symm

end Submits

theorem submits_abiding : Abiding Submits where
  aside h hconns hheap hnewCid hnewPtr hhost hstatistics hqueue := by
    have howned := owned_lasting.abiding.aside h.toOwned hconns hheap hnewCid hnewPtr hhost
      hstatistics hqueue
    refine h.of_conns howned hheap hnewPtr fun x hx => ⟨?_, ?_⟩
    · simpa only [live, hconns] using hx
    · simp only [conn, hconns]
  update c h _ htallies := h.put c (congrArg Prod.fst htallies)
  free {s} cid h := by
    refine h.of_conns (owned_lasting.abiding.free cid h.toOwned) rfl rfl fun x hx => ?_
    obtain ⟨hlive, hconn⟩ := (free_told (.jobLocalDone 0) s cid).conns x hx
    exact ⟨hlive, by rw [hconn]⟩
  join c h hcid hgauges htallies :=
    h.join c hcid htallies (owned_lasting.abiding.join c h.toOwned hcid hgauges htallies)
  relabel j h hlive hties := h.reword hlive (congrArg (fun t => t.2.2.1) hties)
  create {s t} j h hptr hserver hlive hconns hheap hnewCid hnewPtr hhost hstatistics hqueue := by
    have howned := owned_lasting.abiding.create j h.toOwned hptr hserver hlive hconns hheap hnewCid
      hnewPtr hhost hstatistics hqueue
    have hsubmitted : ∀ x, t.submitted x = submits x j + s.submitted x := by
      intro x
      rw [submitted, hheap, List.map_cons, List.sum_cons, submitted]
    refine h.recount howned hconns ?_ ?_ ?_ fun x hx => ?_
    · rw [hheap, List.map_cons, List.nodup_cons, hptr]
      refine ⟨fun hmem => ?_, h.ptrs⟩
      obtain ⟨i, hi, hsame⟩ := List.mem_map.mp hmem
      exact (h.fresh i hi).ne hsame
    · rw [hheap, hnewPtr]
      refine List.forall_mem_cons.mpr ⟨by omega, fun i hi => (h.fresh i hi).trans (Nat.lt_succ_self _)⟩
    · simp only [conn_cid]
      rw [hsubmitted, h.counted _ hlive, submits, if_pos rfl, add_comm]
    · simp only [conn_cid] at hx
      rw [hsubmitted, submits, if_neg (Ne.symm hx), zero_add]
  remove {s} ptr h hjob hlive := by
    obtain ⟨hmem, hptr⟩ := job_mem hjob
    have hsum : ∀ x, ((Records.remove Job.ptr ptr s.heap).map (submits x)).sum +
        submits x (s.job ptr) = s.submitted x := by
      intro x
      have hremove := Records.sum_remove (submits x) h.ptrs hmem
      rwa [hptr] at hremove
    refine h.recount (owned_lasting.abiding.remove ptr h.toOwned hjob hlive) rfl ?_ ?_ ?_ fun x hx => ?_
    · exact h.ptrs.sublist (List.filter_sublist.map _)
    · exact fun i hi => h.fresh i (Records.mem_remove.mp hi).1
    · simp only [conn_cid]
      rw [h.counted _ hlive, ← hsum, submits, if_pos rfl, add_sub_cancel_right]
      rfl
    · simp only [conn_cid] at hx
      rw [← hsum x, submits, if_neg (Ne.symm hx), add_zero]
      rfl
  stats {s} j m h := addJobStats_put (fun c h _ hcount => h.put c hcount)
    (fun _ _ h => h.of_conns ⟨h.lives, h.jobs⟩ rfl rfl fun x hx => ⟨hx, rfl⟩) h j m

/-- An entry of `jobs` for each job -/
theorem Tasks.submitted {mode : Mode} {extra : List ℕ} (h : Tasks mode extra s)
    (hnumbered : mode.numbered) (x : ℕ) :
    s.submitted x = ((s.jobs.filter fun e => (s.job e.2).submitter = x).length : ℤ) := by
  have hentry : ∀ e ∈ s.jobs, s.job e.2 ∈ s.heap ∧ (s.job e.2).ptr = e.2 ∧ (s.job e.2).id = e.1 := by
    intro e he
    obtain ⟨hmem, hptr, hid, -⟩ := (h.jobs e he).job h.ptrs
    exact ⟨hmem, hptr, hid⟩
  have hnodup : (s.jobs.map Prod.snd).Nodup := by
    refine (List.Nodup.of_map _ h.keys).map_on fun e he e' he' hsame => ?_
    have hid := (hentry e he).2.2
    rw [hsame, (hentry e' he').2.2] at hid
    exact Prod.ext hid.symm hsame
  have hperm : (s.heap.map Job.ptr).Perm (s.jobs.map Prod.snd) := by
    refine (List.perm_ext_iff_of_nodup h.ptrs hnodup).mpr fun p => ⟨fun hp => ?_, fun hp => ?_⟩
    · obtain ⟨j, hj, rfl⟩ := List.mem_map.mp hp
      exact List.mem_map.mpr ⟨_, h.listed hnumbered j hj, rfl⟩
    · obtain ⟨e, he, rfl⟩ := List.mem_map.mp hp
      exact List.mem_map.mpr ⟨_, (hentry e he).1, (hentry e he).2.1⟩
  have hlength := (hperm.filter fun p => (s.job p).submitter = x).length_eq
  rw [List.filter_map, List.filter_map, List.length_map, List.length_map] at hlength
  rw [Scheduler.submitted, sum_submits, Nat.cast_inj]
  refine Eq.trans (congrArg List.length (List.filter_congr fun j hj => ?_)) hlength
  simp only [Function.comp_apply, job_eq h.ptrs hj]

end Scheduler

namespace Loop

open Scheduler

variable {l l' : Loop} {e : Event}

theorem Init.submits (h : l.Init) : l.scheduler.Submits := by
  have hlive : ∀ x, ¬ l.scheduler.live x = true := by simp [live, h.conns]
  have hheap : ∀ j, j ∉ l.scheduler.heap := by simp [h.heap]
  refine ⟨⟨fun x hx => absurd hx (hlive x), fun j hj => absurd hj (hheap j)⟩, ?_,
    fun j hj => absurd hj (hheap j), fun x hx => absurd hx (hlive x)⟩
  rw [h.heap]
  exact List.nodup_nil

theorem next_submits (h : l.scheduler.Submits) (hnext : l.next e = some l') :
    l'.scheduler.Submits := by
  refine next_endures submits_abiding (fun c h htallies => h.put c (congrArg Prod.fst htallies))
    (fun {s} ptr useCs h hlive => ?_) h hnext
  have hptr := (job_mem hlive).2
  refine h.reword ?_ ?_
  · simpa only [hptr] using hlive
  · simp only [hptr]

/-- The ids of jobs tell them apart. -/
def numberedMode : Mode := ⟨False, True, False, fun h => h.elim, fun h => h.elim⟩

/-- The log grows. -/
theorem next_log (h : Between anyMode l) (hnext : l.next e = some l') :
    ∃ new, l'.scheduler.log = new ++ l.scheduler.log := by
  obtain ⟨u, hu, -, -⟩ := next_moves h hnext
  rcases hu with ⟨-, new, hlog, -⟩ | ⟨ptr, useCs, -, hplaced⟩
  · exact ⟨new, hlog⟩
  · obtain ⟨new, old, ok, hlog, -⟩ := hplaced.log
    refine ⟨new ++ .sent (l.scheduler.job ptr).submitter (l.scheduler.told ptr useCs) ok :: old, ?_⟩
    rw [hlog, List.append_assoc, List.cons_append]

/-- The assertion in `create_new_job` looks at every id that a request takes. -/
theorem numbered_of_log (h : Between anyMode l) (hnext : l.next e = some l')
    (hids : .assertionFailed .newJobId ∉ l'.scheduler.log) :
    ∀ r ∈ l.handled e, l.scheduler.Numbered r.1 r.2 := by
  intro r hr
  obtain ⟨cid, m⟩ := r
  cases m with
  | getCS m =>
    intro hstate
    cases e with
    | activity msg =>
      cases msg with
      | none => cases hr
      | some m' =>
        obtain ⟨⟨cid', rest⟩, hcurrent, hpair⟩ := Option.map_eq_some_iff.mp hr
        obtain ⟨rfl, rfl⟩ := Prod.mk.inj hpair
        obtain ⟨b, hok⟩ := next_activity hcurrent hnext
        have hnote : Facts anyMode []
            (l.scheduler.note (.received cid' (some (.getCS m)))) :=
          (Aside.note l.scheduler rfl).facts h.facts
        have hrequested : Ends (fun _ => True) (fun r => Requested (l.scheduler.conn cid').hostId m
            m.count.toNat (l.scheduler.note (.received cid' (some (.getCS m)))) r.1)
            (l.scheduler.handleActivity cid' (some (.getCS m))) := by
          unfold handleActivity
          refine (touch_any l.scheduler cid').bind fun _ _ => .ite (fun hnot => ?_) fun _ => ?_
          · exact absurd (hstate.symm.trans hnot) (by decide)
          · exact (handleCsRequest_requested m hnote).weaken fun _ _ => trivial
        obtain ⟨new, hlog, -, hfailed⟩ := (hrequested.of_ok hok).log
        by_contra hused
        exact hids (hlog ▸ List.mem_append_left _ ((hfailed .newJobId).mpr (.inr ⟨rfl, hused⟩)))
    | _ => cases hr
  | _ => trivial

/-- What holds between two steps, and as long as no assertion about a new id has failed -/
structure Identified (l : Loop) : Prop where
  between : Between anyMode l
  numbered : .assertionFailed .newJobId ∉ l.scheduler.log → Between numberedMode l

theorem Identified.next (h : Identified l) (hnext : l.next e = some l') : Identified l' := by
  refine ⟨(next_stepped h.between (permitted_any l e) hnext).between, fun hids => ?_⟩
  obtain ⟨new, hlog⟩ := next_log h.between hnext
  have hbefore : .assertionFailed .newJobId ∉ l.scheduler.log := fun hmem =>
    hids (hlog ▸ List.mem_append_right new hmem)
  have hpermitted : Permitted numberedMode l e := by
    refine ⟨fun r hr => ⟨fun hf => hf.elim, fun _ => ?_, fun hf => hf.elim⟩, fun hf => hf.elim⟩
    exact numbered_of_log h.between hnext hids r hr
  exact (next_stepped (h.numbered hbefore) hpermitted hnext).between

/-- In every state that is reached before an assertion about a new id fails, every connection's
count is the number of entries of `jobs` that it has asked for. -/
theorem submissions_counted (h : system.Reachable l)
    (hids : .assertionFailed .newJobId ∉ l.scheduler.log) :
    ∀ x, l.scheduler.live x = true → (l.scheduler.conn x).submittedJobsCount =
        ((l.scheduler.jobs.filter fun e => (l.scheduler.job e.2).submitter = x).length : ℤ) ∧
      0 ≤ (l.scheduler.conn x).submittedJobsCount := by
  have hsubmits : l.scheduler.Submits :=
    h.invariant (fun _ hinit => hinit.submits) fun _ _ _ hl _ hnext => next_submits hl hnext
  have hidentified : Identified l :=
    h.invariant (fun _ hinit => ⟨hinit.between, fun _ => hinit.between⟩)
      fun _ _ _ hl _ hnext => hl.next hnext
  intro x hx
  have hcount := hsubmits.counted x hx
  rw [(hidentified.numbered hids).facts.tasks.submitted trivial] at hcount
  exact ⟨hcount, hcount ▸ Nat.cast_nonneg _⟩

/-- A daemon asks for two servers, one after the other. -/
theorem submissions_counted_two : ∃ l, system.Reachable l ∧
    .assertionFailed .newJobId ∉ l.scheduler.log ∧ l.scheduler.live 0 = true ∧
    (l.scheduler.conn 0).submittedJobsCount = 2 ∧
    (l.scheduler.conn 0).submittedJobsCount =
      ((l.scheduler.jobs.filter fun e => (l.scheduler.job e.2).submitter = 0).length : ℤ) := by
  have hrun : (system.exec (started fun _ => 1) (polling 0 ++
      [newcomer 7 1 "n", .activity (some (daemonLogin "n")),
        .activity (some (.getCS { lang := 0 })), .activity (some (.getCS { lang := 0 }))])).map
      (fun l => decide (.assertionFailed .newJobId ∉ l.scheduler.log ∧ l.scheduler.live 0 = true ∧
        (l.scheduler.conn 0).submittedJobsCount = 2)) = some true := by decide +kernel
  obtain ⟨l, hl, hall⟩ := Option.map_eq_some_iff.mp hrun
  obtain ⟨hids, hlive, hcount⟩ := of_decide_eq_true hall
  have hreach := (Transition.System.Reaches.init (started_init _)).exec (fun _ _ _ => trivial) hl
  exact ⟨l, hreach, hids, hlive, hcount, (submissions_counted hreach hids 0 hlive).1⟩

end Loop

end Icecream.IceccScheduler
