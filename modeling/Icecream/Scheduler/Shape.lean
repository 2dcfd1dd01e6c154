import Icecream.Scheduler.Accounts

/-!
# The queue over a run

The queue keeps its shape, and its groups hold jobs that are there and belong in them, as
long as no submitter says that a job is done which is still queued: such a job is deleted
and stays in its group.
-/

namespace Icecream.IceccScheduler

open Icecream.Comm
open Icecream.Fault

namespace Scheduler

variable {tidy : Prop} {s t : Scheduler} {p ptr useCs : ℕ}

/-- The job is there, with this submitter and this niceness. -/
def Belongs (s : Scheduler) (submitter : ℕ) (niceness : ℤ) (ptr : ℕ) : Prop :=
  s.liveJob ptr = true ∧ (s.job ptr).submitter = submitter ∧ (s.job ptr).niceness = niceness

/-- The groups are sorted by niceness and not empty, there is one at most for a submitter and a
niceness, and every job in a group belongs there. -/
structure Shaped (s : Scheduler) : Prop where
  grouped : Grouped s.jobRequests
  filed : Filed s.Belongs s.jobRequests

theorem Belongs.of_label {submitter : ℕ} {niceness : ℤ} (h : s.Belongs submitter niceness p)
    (hp : t.liveJob p = true) (hlabel : (t.job p).label = (s.job p).label) :
    t.Belongs submitter niceness p := by
  obtain ⟨hsubmitter, -, hniceness⟩ := Job.label_eq hlabel
  exact ⟨hp, hsubmitter.trans h.2.1, hniceness.trans h.2.2⟩

/-- The job is one of those that are left. -/
theorem Belongs.of_sublist {submitter : ℕ} {niceness : ℤ} (h : s.Belongs submitter niceness p)
    (hs : Facts Loop.anyMode [] s) (hsub : t.heap.Sublist s.heap) (hmem : s.job p ∈ t.heap) :
    t.Belongs submitter niceness p := by
  have hp : t.liveJob p = true := liveJob_iff.mpr (List.mem_map.mpr ⟨_, hmem, (job_mem h.1).2⟩)
  exact h.of_label hp (by rw [job_sublist hsub hs.tasks.ptrs hp])

/-- The queue is as it was, and so are the jobs in it. -/
theorem Shaped.kept (h : Shaped s) (hqueue : t.jobRequests = s.jobRequests)
    (hjobs : ∀ g ∈ s.jobRequests, ∀ p ∈ g.l, s.Belongs g.submitter g.niceness p →
      t.Belongs g.submitter g.niceness p) : Shaped t := by
  refine ⟨hqueue ▸ h.grouped, ?_⟩
  rw [hqueue]
  exact h.filed.mono hjobs

theorem Shaped.ended {cid : ℕ} (h : Shaped s) (hs : Facts Loop.anyMode [] s)
    (hretires : Retires cid s t) : Shaped t := by
  by_cases hdaemon : (s.conn cid).type = .daemon
  · have hqueue := hretires.daemon hdaemon
    have hsub : t.jobRequests.Sublist s.jobRequests := by
      rw [hqueue]
      exact List.filter_sublist
    refine ⟨h.grouped.sublist hsub, (h.filed.subset hsub.subset).mono fun g hg p hp hbelongs => ?_⟩
    rw [hqueue, List.mem_filter, decide_eq_true_eq] at hg
    have hserver := (hs.tasks.grouped hg.1 hp hbelongs.1).2
    refine hbelongs.of_sublist hs hretires.heap (hretires.spared _ (job_mem hbelongs.1).1 ?_ ?_)
    · rw [hbelongs.2.1]
      exact hg.2
    · rw [hserver]
      exact nofun
  · obtain ⟨hqueue, hheap⟩ := hretires.others hdaemon
    refine h.kept hqueue fun g _ p _ hbelongs => ?_
    simpa only [Belongs, liveJob, job, hheap] using hbelongs

theorem Change.shaped (h : Change tidy s t) (hs : Facts Loop.anyMode [] s)
    (ht : Facts Loop.anyMode [] t) (hledger : Ledger (fun _ => False) s) (htidy : tidy)
    (hshaped : Shaped s) : Shaped t := by
  cases h with
  | still heap jobRequests lists =>
    refine hshaped.kept jobRequests fun g _ p _ hbelongs => ?_
    obtain ⟨hp, hlabel⟩ := relabelled (fun _ => rfl) ht.tasks.ptrs heap hbelongs.1
    exact hbelongs.of_label hp hlabel
  | ended cid h =>
    exact hshaped.ended hs ((handleEnd_retires hs (hledger.mono fun _ hf => hf.elim)).of_ok h)
  | requested j server fresh heap jobRequests lists =>
    have hsub : s.heap.Sublist t.heap := by
      rw [heap]
      exact List.sublist_cons_self j s.heap
    have hold : Filed t.Belongs s.jobRequests := hshaped.filed.mono fun g _ p _ hbelongs => by
      refine hbelongs.of_label (liveJob_subset hsub.subset hbelongs.1) ?_
      rw [job_sublist hsub ht.tasks.ptrs hbelongs.1]
    have hmem : j ∈ t.heap := by
      rw [heap]
      exact List.mem_cons_self
    have hnew : t.Belongs j.submitter j.niceness j.ptr := by
      refine ⟨liveJob_iff.mpr (List.mem_map_of_mem hmem), ?_⟩
      rw [job_eq ht.tasks.ptrs hmem]
      exact ⟨rfl, rfl⟩
    refine ⟨?_, ?_⟩
    · rw [jobRequests]
      exact hshaped.grouped.enqueueJobRequest j.ptr j.submitter j.niceness
    · rw [jobRequests]
      exact hold.enqueueJobRequest hshaped.grouped hnew
  | withdrawn cid ptr heap jobRequests conns =>
    have hsame : t.Belongs = s.Belongs := by
      funext submitter niceness p
      simp only [Belongs, liveJob, job, heap]
    refine ⟨?_, ?_⟩
    · rw [jobRequests]
      exact dequeue_grouped cid ptr hshaped.grouped
    · rw [jobRequests, hsame]
      exact dequeue_filed cid ptr hshaped.filed
  | finished ptr gone heap jobRequests lists =>
    have hsub : t.heap.Sublist s.heap := by
      rw [heap]
      exact List.filter_sublist
    refine hshaped.kept jobRequests fun g hg p hp hbelongs => hbelongs.of_sublist hs hsub ?_
    obtain ⟨hmem, hptr⟩ := job_mem hbelongs.1
    rw [heap, List.mem_filter, hptr]
    refine ⟨hmem, decide_eq_true ?_⟩
    rintro rfl
    exact gone htidy g hg hp

theorem Moves.shaped (h : Moves tidy s t) (hs : Facts Loop.anyMode [] s)
    (hledger : Ledger (fun _ => False) s) (htidy : tidy) (hshaped : Shaped s) : Shaped t := by
  have hboth : Ledger (fun _ => False) t ∧ Shaped t := by
    refine h.invariant (I := fun s => Ledger (fun _ => False) s ∧ Shaped s) hs ⟨hledger, hshaped⟩ ?_
    intro s t hs ht hchange hall
    exact ⟨(hchange.carries hs ht hall.1).ledger hall.1, hchange.shaped hs ht hall.1 htidy hall.2⟩
  exact hboth.2

theorem Assigns.shaped (h : Assigns s ptr useCs t) (hshaped : Shaped s) : Shaped t := by
  obtain ⟨pos, -, -, hqueue⟩ := h.jobRequests
  have hold : Filed t.Belongs s.jobRequests := by
    refine hshaped.filed.mono fun g _ p _ hbelongs => ?_
    obtain ⟨hp, hlabel⟩ := h.relabelled hbelongs.1
    obtain ⟨hsubmitter, hniceness⟩ : (t.job p).submitter = (s.job p).submitter ∧
        (t.job p).niceness = (s.job p).niceness := by
      unfold relabel at hlabel
      split at hlabel
      · exact ⟨(Job.label_eq hlabel).1, (Job.label_eq hlabel).2.2⟩
      · exact ⟨(Job.label_eq hlabel).1, (Job.label_eq hlabel).2.2⟩
    exact ⟨hp, hsubmitter.trans hbelongs.2.1, hniceness.trans hbelongs.2.2⟩
  refine ⟨?_, ?_⟩
  · rw [hqueue]
    exact hshaped.grouped.removeJobRequest pos
  · rw [hqueue]
    exact hold.removeJobRequest pos

end Scheduler

namespace Loop

open Scheduler

variable {l l' : Loop} {e : Event}

theorem Init.shaped (h : l.Init) : Shaped l.scheduler := by
  constructor
  · rw [h.jobRequests]
    exact .nil
  · simp [h.jobRequests, Filed]

theorem next_shaped (h : Accounted l) (horderly : Orderly l e) (hshaped : Shaped l.scheduler)
    (hnext : l.next e = some l') : Shaped l'.scheduler := by
  obtain ⟨u, hu, hfacts, hmoves⟩ := next_moves h.between hnext
  have htidy : Orderly l e ∧ Grouped l.scheduler.jobRequests := ⟨horderly, hshaped.grouped⟩
  rcases hu with ⟨rfl, -⟩ | ⟨ptr, useCs, hassigns, -⟩
  · exact hmoves.shaped hfacts h.ledger htidy hshaped
  · have hledger := hassigns.ledger h.ledger h.between.facts
    exact hmoves.shaped hfacts hledger htidy (hassigns.shaped hshaped)

/-- What holds between two steps as long as no queued job is reported -/
structure Ordered (l : Loop) : Prop where
  accounted : Accounted l
  shaped : Shaped l.scheduler

theorem Ordered.next (h : Ordered l) (horderly : Orderly l e) (hnext : l.next e = some l') :
    Ordered l' := ⟨h.accounted.next hnext, next_shaped h.accounted horderly h.shaped hnext⟩

theorem Init.ordered (h : l.Init) : Ordered l := ⟨h.accounted, h.shaped⟩

/-- In a run in which no submitter reports a job that is still queued, the queue keeps its
shape. -/
theorem reaches_shaped (h : system.Reaches Orderly l) : Shaped l.scheduler :=
  Ordered.shaped (h.invariant (fun _ hinit => hinit.ordered) fun _ _ _ hl horderly hnext =>
    hl.next horderly hnext)

instance (s : Scheduler) (cid : ℕ) (m : JobDoneMsg) : Decidable (s.Premature cid m) :=
  inferInstanceAs (Decidable (_ ∧ _))

instance (l : Loop) (e : Event) : Decidable (Orderly l e) :=
  inferInstanceAs (Decidable (∀ _ ∈ _, _))

/-- A daemon asks for two servers, and then for one with less niceness. -/
def asksTwice : List Event :=
  polling 0 ++ [newcomer 7 1 "n", .activity (some (daemonLogin "n")),
    .activity (some (.getCS { lang := 0, count := 2, niceness := 5 })),
    .activity (some (.getCS { lang := 0 }))]

theorem reaches_shaped_asked : ∃ l, system.Reaches Orderly l ∧
    l.scheduler.jobRequests = [⟨[2], 0, 0⟩, ⟨[0, 1], 0, 5⟩] ∧ Shaped l.scheduler := by
  have hrun : (system.run Orderly (started fun _ => 1) asksTwice).map
      (fun l => l.scheduler.jobRequests) = some [⟨[2], 0, 0⟩, ⟨[0, 1], 0, 5⟩] := by decide +kernel
  obtain ⟨l, hl, hqueue⟩ := Option.map_eq_some_iff.mp hrun
  have hreach := (Transition.System.Reaches.init (started_init _)).run hl
  exact ⟨l, hreach, hqueue, reaches_shaped hreach⟩

/-- The submitter gives up a job that it knows the id of. The job is deleted, and its request
stays. -/
theorem queued_job_deleted : ∃ l, system.Reachable l ∧ ¬ Shaped l.scheduler := by
  have hrun : (system.exec (started fun _ => 1) (asksTwice ++
      [.activity (some (.jobDone { jobId := 3, exitcode := 1, flags := JobDoneMsg.fromSubmitter }))])).map
      (fun l => (l.scheduler.jobRequests, l.scheduler.liveJob 2)) =
        some ([⟨[2], 0, 0⟩, ⟨[0, 1], 0, 5⟩], false) := by decide +kernel
  obtain ⟨l, hl, hstate⟩ := Option.map_eq_some_iff.mp hrun
  obtain ⟨hqueue, hgone⟩ := Prod.mk.inj hstate
  refine ⟨l, (Transition.System.Reaches.init (started_init _)).exec (fun _ _ _ => trivial) hl, ?_⟩
  intro hshaped
  have hbelongs := hshaped.filed ⟨[2], 0, 0⟩ (by simp [hqueue]) 2 (by simp)
  exact Bool.false_ne_true (hgone.symm.trans hbelongs.1)

end Loop

end Icecream.IceccScheduler
