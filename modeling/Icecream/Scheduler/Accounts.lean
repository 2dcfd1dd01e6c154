import Icecream.Scheduler.Moves

/-!
# The lists of the servers over a run

A step takes jobs out of the servers' lists and changes no other job in them, but for the
one that is given a server, which comes to the end of that server's list. So a list holds
jobs of its server only, in every state that is reached.
-/

namespace Icecream.IceccScheduler

open Icecream.Comm
open Icecream.Fault

theorem Job.label_eq {i j : Job} (h : i.label = j.label) :
    i.submitter = j.submitter ∧ i.server = j.server ∧ i.niceness = j.niceness := by
  simp only [Job.label, Job.ties, Prod.mk.injEq] at h
  exact ⟨h.1.2.2.1, h.1.2.2.2, h.2⟩

theorem Job.label_id {i j : Job} (h : i.label = j.label) : i.id = j.id := by
  simp only [Job.label, Job.ties, Prod.mk.injEq] at h
  exact h.1.2.1

namespace Scheduler

variable {tidy : Prop} {s t : Scheduler} {p ptr useCs : ℕ}

/-! ## Jobs by their labels -/

theorem relabelled {f : Job → (ℕ × UInt32 × ℕ × Option ℕ) × ℤ} (hf : ∀ j, (f j).1.1 = j.ptr)
    (hnd : (t.heap.map Job.ptr).Nodup) (hmap : t.heap.map Job.label = s.heap.map f)
    (hp : s.liveJob p = true) : t.liveJob p = true ∧ (t.job p).label = f (s.job p) := by
  obtain ⟨hmem, hptr⟩ := job_mem hp
  obtain ⟨j, hj, hlabel⟩ : ∃ j ∈ t.heap, j.label = f (s.job p) := by
    have hin : f (s.job p) ∈ t.heap.map Job.label := hmap ▸ List.mem_map_of_mem hmem
    exact List.mem_map.mp hin
  have hjptr : j.ptr = p := by
    have hfirst : j.label.1.1 = (f (s.job p)).1.1 := by rw [hlabel]
    rw [hf, hptr] at hfirst
    exact hfirst
  have hself := job_eq hnd hj
  rw [hjptr] at hself
  refine ⟨liveJob_iff.mpr (List.mem_map.mpr ⟨j, hj, hjptr⟩), ?_⟩
  rw [hself, hlabel]

theorem relabel_other (hne : p ≠ ptr) (hp : s.liveJob p = true) :
    relabel ptr useCs (s.job p) = (s.job p).label := by
  rw [relabel, if_neg]
  rwa [(job_mem hp).2]

theorem relabel_ptr (j : Job) : (relabel ptr useCs j).1.1 = j.ptr := by
  unfold relabel
  split <;> rfl

/-! ## What is left in the lists -/

/-- Whatever is in a list was in it before, and its job is there as it was. -/
def Carries (s t : Scheduler) : Prop :=
  ∀ x, t.live x = true → (t.conn x).jobList ≠ [] →
    s.live x = true ∧ (t.conn x).jobList.Sublist (s.conn x).jobList ∧
      ∀ p ∈ (t.conn x).jobList, t.liveJob p = true ∧ (t.job p).label = (s.job p).label

theorem Carries.ledger (h : Carries s t) (hs : Ledger (fun _ => False) s) :
    Ledger (fun _ => False) t := by
  intro x hx _ p hp
  obtain ⟨hlive, hsub, hjobs⟩ := h x hx (List.ne_nil_of_mem hp)
  obtain ⟨hjob, hlabel⟩ := hjobs p hp
  refine ⟨hjob, ?_⟩
  rw [(Job.label_eq hlabel).2.1]
  exact (hs x hlive not_false p (hsub.subset hp)).2

theorem Change.carries (h : Change tidy s t) (hs : Facts Loop.anyMode [] s)
    (ht : Facts Loop.anyMode [] t) (hledger : Ledger (fun _ => False) s) : Carries s t := by
  intro x hx hfull
  have hthere : ∀ p ∈ (s.conn x).jobList, s.live x = true → s.liveJob p = true := fun p hp hlive =>
    (hledger x hlive not_false p hp).1
  cases h with
  | still heap jobRequests lists =>
    obtain ⟨hlive, hlist⟩ := (lists x hx).resolve_left hfull
    refine ⟨hlive, by rw [hlist], fun p hp => ?_⟩
    exact relabelled (fun _ => rfl) ht.tasks.ptrs heap (hthere p (hlist ▸ hp) hlive)
  | ended cid h =>
    have hended : Ends (tolerated Loop.anyMode) (Ended Loop.anyMode cid s) (s.handleEnd cid) :=
      handleEnd_ended hs fun hf => hf.elim
    have hne : x ≠ cid := by
      rintro rfl
      exact (hended.of_ok h).gone _ (conn_kind_mem hx) (conn_cid t x)
    have hretires := (handleEnd_retires hs (hledger.mono fun _ hf => hf.elim)).of_ok h
    obtain ⟨hlive, hlist, -⟩ := hretires.conns x hx
    rw [hlist hne]
    refine ⟨hlive, List.filter_sublist, fun p hp => ?_⟩
    have hjob := (List.mem_filter.mp hp).2
    exact ⟨hjob, by rw [job_sublist hretires.heap hs.tasks.ptrs hjob]⟩
  | requested j server fresh heap jobRequests lists =>
    obtain ⟨hlive, hlist, -⟩ := lists x hx
    have hsub : s.heap.Sublist t.heap := by
      rw [heap]
      exact List.sublist_cons_self j s.heap
    refine ⟨hlive, by rw [hlist], fun p hp => ?_⟩
    have hjob := hthere p (hlist ▸ hp) hlive
    exact ⟨liveJob_subset hsub.subset hjob, by rw [job_sublist hsub ht.tasks.ptrs hjob]⟩
  | withdrawn cid ptr heap jobRequests conns =>
    simp only [live, conn, conns] at hx hfull ⊢
    refine ⟨hx, .refl _, fun p hp => ?_⟩
    simpa only [liveJob, job, heap, and_true] using hthere p hp hx
  | finished ptr gone heap jobRequests lists =>
    obtain ⟨hlive, hlist⟩ := lists x hx
    have hsub : t.heap.Sublist s.heap := by
      rw [heap]
      exact List.filter_sublist
    have hkept : ∀ p ∈ (t.conn x).jobList, p ∈ (s.conn x).jobList ∧ p ≠ ptr := by
      intro p hp
      rw [hlist] at hp
      split at hp
      · simpa using List.mem_filter.mp hp
      · rename_i hserver
        refine ⟨hp, ?_⟩
        rintro rfl
        exact hserver (hledger x hlive not_false p hp).2
    refine ⟨hlive, ?_, fun p hp => ?_⟩
    · rw [hlist]
      split
      · exact List.filter_sublist
      · exact .refl _
    · obtain ⟨hmem, hne⟩ := hkept p hp
      obtain ⟨hheap, hptr⟩ := job_mem (hthere p hmem hlive)
      have hjob : t.liveJob p = true := by
        refine liveJob_iff.mpr (List.mem_map.mpr ⟨s.job p, ?_, hptr⟩)
        rw [heap, List.mem_filter, hptr]
        exact ⟨hheap, decide_eq_true hne⟩
      exact ⟨hjob, by rw [job_sublist hsub hs.tasks.ptrs hjob]⟩

/-- What a step keeps of every change -/
theorem Moves.invariant {I : Scheduler → Prop} (h : Moves tidy s t)
    (hs : Facts Loop.anyMode [] s) (hI : I s)
    (hchange : ∀ {s t}, Facts Loop.anyMode [] s → Facts Loop.anyMode [] t → Change tidy s t →
      I s → I t) : I t := by
  have hboth : Facts Loop.anyMode [] t ∧ I t := by
    induction h with
    | refl => exact ⟨hs, hI⟩
    | tail _ hlast ih => exact ⟨hlast.1, hchange ih.1 hlast.1 hlast.2 ih.2⟩
  exact hboth.2

theorem Moves.ledger (h : Moves tidy s t) (hs : Facts Loop.anyMode [] s)
    (hledger : Ledger (fun _ => False) s) : Ledger (fun _ => False) t :=
  h.invariant hs hledger fun hs ht hchange hledger => (hchange.carries hs ht hledger).ledger hledger

/-! ## The job that gets a server -/

theorem Assigns.waiting (h : Assigns s ptr useCs t) : ∃ x, (x, ptr) ∈ waiting s.jobRequests := by
  obtain ⟨pos, hpos, rfl, -⟩ := h.jobRequests
  exact position_waiting (List.mem_of_mem_head? hpos)

theorem Assigns.unserved (h : Assigns s ptr useCs t) (hs : Facts Loop.anyMode [] s) :
    (s.job ptr).server = none := by
  obtain ⟨x, hx⟩ := h.waiting
  obtain ⟨hmem, hptr⟩ := job_mem h.job
  exact (hs.tasks.queued _ hx _ hmem hptr).2

theorem Assigns.relabelled (h : Assigns s ptr useCs t) (hp : s.liveJob p = true) :
    t.liveJob p = true ∧ (t.job p).label = relabel ptr useCs (s.job p) :=
  Scheduler.relabelled relabel_ptr h.facts.tasks.ptrs h.heap hp

theorem Assigns.ledger (h : Assigns s ptr useCs t) (hledger : Ledger (fun _ => False) s)
    (hs : Facts Loop.anyMode [] s) : Ledger (fun _ => False) t := by
  have hold : ∀ x p, s.live x = true → p ∈ (s.conn x).jobList →
      t.liveJob p = true ∧ (t.job p).server = some x := by
    intro x p hx hp
    obtain ⟨hjob, hserver⟩ := hledger x hx not_false p hp
    have hne : p ≠ ptr := by
      rintro rfl
      cases hserver.symm.trans (h.unserved hs)
    obtain ⟨hlive, hlabel⟩ := h.relabelled hjob
    rw [relabel_other hne hjob] at hlabel
    exact ⟨hlive, (Job.label_eq hlabel).2.1.trans hserver⟩
  intro x hx _ p hp
  obtain ⟨hlive, hlist | ⟨rfl, hlist⟩⟩ := h.lists x hx
  · exact hold x p hlive (hlist ▸ hp)
  · rw [hlist, List.mem_append, List.mem_singleton] at hp
    rcases hp with hp | rfl
    · exact hold x p hlive hp
    · obtain ⟨hjob, hlabel⟩ := h.relabelled h.job
      rw [relabel, if_pos (job_mem h.job).2] at hlabel
      exact ⟨hjob, (Job.label_eq hlabel).2.1⟩

end Scheduler

namespace Loop

open Scheduler

variable {l l' : Loop} {e : Event}

theorem Init.ledger (h : l.Init) : Ledger (fun _ => False) l.scheduler := by
  intro x hx
  simp [live, h.conns] at hx

/-- What holds between two steps, with the lists of the servers -/
structure Accounted (l : Loop) : Prop where
  between : Between anyMode l
  ledger : Ledger (fun _ => False) l.scheduler

theorem Accounted.next (h : Accounted l) (hnext : l.next e = some l') : Accounted l' := by
  refine ⟨(next_stepped h.between (permitted_any l e) hnext).between, ?_⟩
  obtain ⟨u, hu, hfacts, hmoves⟩ := next_moves h.between hnext
  refine hmoves.ledger hfacts ?_
  rcases hu with ⟨rfl, -⟩ | ⟨ptr, useCs, hassigns, -⟩
  · exact h.ledger
  · exact hassigns.ledger h.ledger h.between.facts

theorem Init.accounted (h : l.Init) : Accounted l := ⟨h.between, h.ledger⟩

/-- Every job in a server's list is there and is that server's. -/
theorem reaches_accounted {ok : Loop → Event → Prop} (h : system.Reaches ok l) : Accounted l :=
  h.invariant (fun _ hinit => hinit.accounted) fun _ _ _ hl _ hnext => hl.next hnext

end Loop

end Icecream.IceccScheduler
