import Mathlib.Algebra.Order.BigOperators.Group.List
import Icecream.Scheduler.Accounts

/-!
# The load of the servers

Whatever way a server comes to a job, it is eligible for it or is the job's submitter. So the
jobs that others have on a server fill its slots and its places for preloading at most.
-/

namespace Icecream.IceccScheduler

open Icecream.Comm
open Icecream.Fault

namespace CompileServer

variable {c : CompileServer}

theorem currentJobCountLocal_nonneg (h : 0 < c.maxJobs) : 0 ≤ c.currentJobCountLocal := by
  refine List.sum_nonneg fun n hn => ?_
  obtain ⟨e, -, rfl⟩ := List.mem_map.mp hn
  split
  · exact h.le
  · exact zero_le_one

end CompileServer

namespace Scheduler

variable {tidy : Prop} {s t : Scheduler} {p x ptr useCs : ℕ}

/-! ## Jobs of others -/

/-- The number of jobs of other submitters that the server has -/
def foreign (s : Scheduler) (x : ℕ) : ℕ :=
  ((s.conn x).jobList.filter fun p => (s.job p).submitter ≠ x).length

theorem foreign_le_length (s : Scheduler) (x : ℕ) : s.foreign x ≤ (s.conn x).jobList.length :=
  List.length_filter_le _ _

theorem foreign_le (hsub : (t.conn x).jobList.Sublist (s.conn x).jobList)
    (hsame : ∀ p ∈ (t.conn x).jobList, (t.job p).submitter = (s.job p).submitter) :
    t.foreign x ≤ s.foreign x := by
  unfold foreign
  rw [List.filter_congr fun p hp => by rw [hsame p hp]]
  exact (hsub.filter _).length_le

theorem conn_of_not_live (h : s.live x ≠ true) : (s.conn x).jobList = [] := by
  have hnone : s.conns.find? (fun c => c.cid = x) = none := by
    rw [List.find?_eq_none]
    intro c hc hcid
    exact h (List.any_eq_true.mpr ⟨c, hc, hcid⟩)
  simp only [conn, hnone, Option.getD_none]

theorem Carries.foreign (h : Carries s t) (x : ℕ) : t.foreign x ≤ s.foreign x := by
  by_cases hfull : (t.conn x).jobList = []
  · simp [Scheduler.foreign, hfull]
  · have hlive : t.live x = true := by
      by_contra hnot
      exact hfull (conn_of_not_live hnot)
    obtain ⟨-, hsub, hjobs⟩ := h x hlive hfull
    exact foreign_le hsub fun p hp => (Job.label_eq (hjobs p hp).2).1

theorem Moves.foreign (h : Moves tidy s t) (hs : Facts Loop.anyMode [] s)
    (hledger : Ledger (fun _ => False) s) (x : ℕ) : t.foreign x ≤ s.foreign x := by
  have hboth : Ledger (fun _ => False) t ∧ t.foreign x ≤ s.foreign x := by
    refine h.invariant (I := fun t => Ledger (fun _ => False) t ∧ t.foreign x ≤ s.foreign x)
      hs ⟨hledger, le_rfl⟩ ?_
    intro u v hu hv hchange hboth
    have hcarries := hchange.carries hu hv hboth.1
    exact ⟨hcarries.ledger hboth.1, (hcarries.foreign x).trans hboth.2⟩
  exact hboth.2

/-- There is room for one more job when the server is eligible. -/
theorem Suits.room {job : Job} (h : s.Suits job x) :
    ((s.conn x).jobList.length : ℤ) + 1 ≤ (s.conn x).maxJobs + 1 + (s.conn x).maxJobs / 4 := by
  obtain ⟨hever, hroom, -⟩ := of_decide_eq_true h.2.1
  have hpos : 0 < (s.conn x).maxJobs := (of_decide_eq_true hever).1
  have hlocal := CompileServer.currentJobCountLocal_nonneg hpos
  have hquarter : (s.conn x).maxJobs.tdiv 4 = (s.conn x).maxJobs / 4 :=
    Int.tdiv_eq_ediv_of_nonneg hpos.le
  simp only [CompileServer.currentJobCount, CompileServer.currentJobCountRemote,
    CompileServer.maxPreloadCount, hquarter] at hroom
  omega

theorem Assigns.foreign (h : Assigns s ptr useCs t) (hs : Facts Loop.anyMode [] s)
    (hledger : Ledger (fun _ => False) s) {m : ℤ} (hm : x ∈ s.css → (s.conn x).maxJobs = m)
    (hbound : (s.foreign x : ℤ) ≤ m + 1 + m / 4) : (t.foreign x : ℤ) ≤ m + 1 + m / 4 := by
  by_cases hfull : (t.conn x).jobList = []
  · have hzero : t.foreign x = 0 := by simp [Scheduler.foreign, hfull]
    exact le_trans (by simp [hzero]) hbound
  have hlive : t.live x = true := by
    by_contra hnot
    exact hfull (conn_of_not_live hnot)
  obtain ⟨hslive, hlist⟩ := h.lists x hlive
  have hsame : ∀ p ∈ (s.conn x).jobList, (t.job p).submitter = (s.job p).submitter := by
    intro p hp
    obtain ⟨hjob, hserver⟩ := hledger x hslive not_false p hp
    have hne : p ≠ ptr := by
      rintro rfl
      cases hserver.symm.trans (h.unserved hs)
    have hlabel := (h.relabelled hjob).2
    rw [relabel_other hne hjob] at hlabel
    exact (Job.label_eq hlabel).1
  rcases hlist with hlist | ⟨rfl, hlist⟩
  · have hle : t.foreign x ≤ s.foreign x :=
      foreign_le (by rw [hlist]) fun p hp => hsame p (hlist ▸ hp)
    exact (Int.ofNat_le.mpr hle).trans hbound
  · rcases h.choice with hsuits | hself
    · have hlength : t.foreign x ≤ (s.conn x).jobList.length + 1 := by
        refine (foreign_le_length t x).trans ?_
        rw [hlist, List.length_append, List.length_singleton]
      have hroom := hsuits.room
      rw [hm hsuits.1] at hroom
      omega
    · have hmine : (t.job ptr).submitter = x := by
        have hlabel := (h.relabelled h.job).2
        rw [relabel, if_pos (job_mem h.job).2] at hlabel
        exact (Job.label_eq hlabel).1.trans hself.symm
      have hcount : t.foreign x = s.foreign x := by
        unfold Scheduler.foreign
        rw [hlist, List.filter_append, List.filter_congr fun p hp => by rw [hsame p hp]]
        simp [hmine]
      rwa [hcount]

/-! ## Jobs that get a server -/

theorem told_platform {u : UseCSMsg} (hu : s.told ptr useCs = .useCS u)
    (hinstall : s.canInstall (s.conn useCs) (s.job ptr) false ≠ []) : u.hostPlatform ≠ [] := by
  simp only [told, placement] at hu
  split at hu
  · cases hu
  · cases hu
    simp only
    split
    · exact hinstall
    · assumption

/-- Another server than the submitter is always named. -/
theorem told_other (hne : useCs ≠ (s.job ptr).submitter) :
    ∃ u, s.told ptr useCs = .useCS u := by
  simp only [told, placement]
  split
  · rename_i hself
    exact absurd hself.2 hne
  · exact ⟨_, rfl⟩

/-- A job that has a server has had it before. -/
def Retains (s t : Scheduler) : Prop :=
  ∀ p x, t.liveJob p = true → (t.job p).server = some x →
    s.liveJob p = true ∧ (t.job p).label = (s.job p).label

theorem Retains.trans {u : Scheduler} (h : Retains s t) (h' : Retains t u) : Retains s u := by
  intro p x hp hx
  obtain ⟨hmid, hlater⟩ := h' p x hp hx
  obtain ⟨hlive, hfirst⟩ := h p x hmid ((Job.label_eq hlater).2.1 ▸ hx)
  exact ⟨hlive, hlater.trans hfirst⟩

theorem Retains.of_sublist (hsub : t.heap.Sublist s.heap) (hnd : (s.heap.map Job.ptr).Nodup) :
    Retains s t := fun _ _ hp _ =>
  ⟨liveJob_subset hsub.subset hp, by rw [job_sublist hsub hnd hp]⟩

theorem Change.retains (h : Change tidy s t) (hs : Facts Loop.anyMode [] s)
    (hledger : Ledger (fun _ => False) s) : Retains s t := by
  cases h with
  | still heap jobRequests lists =>
    intro p x hp hx
    have hback := relabelled (fun _ => rfl) hs.tasks.ptrs heap.symm hp
    exact ⟨hback.1, hback.2.symm⟩
  | ended cid h =>
    have hretires := (handleEnd_retires hs (hledger.mono fun _ hf => hf.elim)).of_ok h
    exact .of_sublist hretires.heap hs.tasks.ptrs
  | requested j server fresh heap jobRequests lists =>
    intro p x hp hx
    obtain ⟨hmem, hptr⟩ := job_mem hp
    rw [heap] at hmem
    rcases List.mem_cons.mp hmem with hnew | hold
    · rw [hnew, server] at hx
      cases hx
    · have hlive : s.liveJob p = true := liveJob_iff.mpr (List.mem_map.mpr ⟨_, hold, hptr⟩)
      have hself := job_eq hs.tasks.ptrs hold
      rw [hptr] at hself
      exact ⟨hlive, by rw [hself]⟩
  | withdrawn cid ptr heap jobRequests conns =>
    exact .of_sublist (by rw [heap]) hs.tasks.ptrs
  | finished ptr gone heap jobRequests lists =>
    refine .of_sublist ?_ hs.tasks.ptrs
    rw [heap]
    exact List.filter_sublist

theorem Moves.retains (h : Moves tidy s t) (hs : Facts Loop.anyMode [] s)
    (hledger : Ledger (fun _ => False) s) : Retains s t := by
  have hboth : Ledger (fun _ => False) t ∧ Retains s t := by
    refine h.invariant (I := fun t => Ledger (fun _ => False) t ∧ Retains s t) hs
      ⟨hledger, fun _ _ hp _ => ⟨hp, rfl⟩⟩ ?_
    intro u v hu hv hchange hboth
    exact ⟨(hchange.carries hu hv hboth.1).ledger hboth.1,
      hboth.2.trans (hchange.retains hu hboth.1)⟩
  exact hboth.2

/-- What becomes of the requests in a step: a job that gets another server than its submitter
suits it, and its submitter is told a platform; nobody is told of a server but for a job. -/
structure Fits (s t : Scheduler) : Prop where
  jobs : ∀ p x, t.liveJob p = true → (t.job p).server = some x → x ≠ (t.job p).submitter →
    ¬ (s.liveJob p = true ∧ (s.job p).server = some x) → s.Suits (s.job p) x ∧
      ∃ new u ok, t.log = new ++ s.log ∧ .sent (t.job p).submitter (.useCS u) ok ∈ new ∧
        u.jobId = (t.job p).id ∧ u.hostPlatform ≠ []
  messages : ∀ new y u ok, t.log = new ++ s.log → .sent y (.useCS u) ok ∈ new →
    ∃ p x, s.liveJob p = true ∧ (s.job p).submitter = y ∧ (s.job p).id = u.jobId ∧
      s.told p x = .useCS u ∧ (x ≠ y → s.Suits (s.job p) x ∧ u.hostPlatform ≠ [])

theorem Retains.fits (h : Retains s t) (hquiet : Quiet s t) : Fits s t where
  jobs p x hp hx _ hnew := by
    obtain ⟨hlive, hlabel⟩ := h p x hp hx
    exact absurd ⟨hlive, (Job.label_eq hlabel).2.1 ▸ hx⟩ hnew
  messages new y u ok hlog hsent := absurd hsent (hquiet.unsaid hlog)

theorem Assigns.fits {u : Scheduler} (h : Assigns s ptr useCs u) (hretains : Retains u t)
    (hplaced : Placed Loop.anyMode s ptr useCs t) : Fits s t where
  jobs p x hp hx hother hnew := by
    obtain ⟨hlive, hlabel⟩ := hretains p x hp hx
    have hslive : s.liveJob p = true := by
      rw [liveJob_iff] at hlive ⊢
      rwa [ptrs_of_label relabel_ptr h.heap] at hlive
    have hnow := hlabel.trans (h.relabelled hslive).2
    unfold relabel at hnow
    split at hnow
    · rename_i hsame
      rw [(job_mem hslive).2] at hsame
      subst hsame
      obtain ⟨hsubmitter, hserver, -⟩ := Job.label_eq hnow
      obtain rfl : useCs = x := Option.some.inj (hserver.symm.trans hx)
      have hsubmitter : (t.job p).submitter = (s.job p).submitter := hsubmitter
      rw [hsubmitter] at hother ⊢
      have hsuits := h.choice.resolve_right hother
      obtain ⟨u, hu⟩ := told_other hother
      obtain ⟨new, old, ok, hlog, -⟩ := hplaced.log
      refine ⟨hsuits, new ++ .sent (s.job p).submitter (.useCS u) ok :: old, u, ok, ?_, ?_, ?_,
        told_platform hu hsuits.canInstall⟩
      · rw [hlog, hu, List.append_assoc, List.cons_append]
      · simp
      · exact (told_useCS hu).1.trans (Job.label_id hnow).symm
    · exact absurd ⟨hslive, (Job.label_eq hnow).2.1 ▸ hx⟩ hnew
  messages new y u ok hlog hsent := by
    obtain ⟨rfl, htold⟩ := hplaced.said hlog hsent
    refine ⟨ptr, useCs, h.job, rfl, (told_useCS htold).1.symm, htold, fun hother => ?_⟩
    have hsuits := h.choice.resolve_right hother
    exact ⟨hsuits, told_platform htold hsuits.canInstall⟩

end Scheduler

namespace Loop

open Scheduler

variable {l l' : Loop} {e : Event} {x : ℕ} {m : ℤ}

/-- As long as the server is one, it has `m` slots. -/
def Steady (x : ℕ) (m : ℤ) (l : Loop) (_ : Event) : Prop :=
  x ∈ l.scheduler.css → (l.scheduler.conn x).maxJobs = m

instance (x : ℕ) (m : ℤ) (l : Loop) (e : Event) : Decidable (Steady x m l e) :=
  inferInstanceAs (Decidable (_ → _))

/-- The server has no more jobs of others than fill its slots and its places for preloading. -/
structure Loaded (x : ℕ) (m : ℤ) (l : Loop) : Prop where
  accounted : Accounted l
  foreign : (l.scheduler.foreign x : ℤ) ≤ m + 1 + m / 4

theorem Loaded.next (h : Loaded x m l) (hsteady : Steady x m l e) (hnext : l.next e = some l') :
    Loaded x m l' := by
  refine ⟨h.accounted.next hnext, ?_⟩
  obtain ⟨u, hu, hfacts, hmoves⟩ := next_moves h.accounted.between hnext
  have hmoved : Ledger (fun _ => False) u → (u.foreign x : ℤ) ≤ m + 1 + m / 4 →
      (l'.scheduler.foreign x : ℤ) ≤ m + 1 + m / 4 := fun hledger hbound =>
    (Int.ofNat_le.mpr (hmoves.foreign hfacts hledger x)).trans hbound
  rcases hu with ⟨rfl, -⟩ | ⟨ptr, useCs, hassigns, -⟩
  · exact hmoved h.accounted.ledger h.foreign
  · exact hmoved (hassigns.ledger h.accounted.ledger h.accounted.between.facts)
      (hassigns.foreign h.accounted.between.facts h.accounted.ledger hsteady h.foreign)

theorem Init.loaded (h : l.Init) (hm : 0 < m) : Loaded x m l := by
  refine ⟨h.accounted, ?_⟩
  have hzero : l.scheduler.foreign x = 0 := by simp [foreign, conn, h.conns]
  rw [hzero]
  omega

theorem Accounted.fits (h : Accounted l) (hnext : l.next e = some l') :
    Fits l.scheduler l'.scheduler := by
  obtain ⟨u, hu, hfacts, hmoves⟩ := next_moves h.between hnext
  rcases hu with ⟨rfl, hquiet⟩ | ⟨ptr, useCs, hassigns, hplaced⟩
  · exact (hmoves.retains hfacts h.ledger).fits hquiet
  · have hledger := hassigns.ledger h.ledger h.between.facts
    exact hassigns.fits (hmoves.retains hfacts hledger) hplaced

/-- As long as a server keeps its slots, the jobs that others have on it are bounded, and in
every run a server is only given the jobs that it suits. -/
theorem servers_suit (h : system.Reachable l) :
    (∀ x m, 0 < m ∧ m < 2 ^ 30 → system.Reaches (Steady x m) l →
      (l.scheduler.foreign x : ℤ) ≤ m + 1 + m / 4) ∧
    ∀ e l', system.next l e = some l' → Fits l.scheduler l'.scheduler := by
  refine ⟨fun x m hm hrun => ?_, fun e l' hnext => (reaches_accounted h).fits hnext⟩
  exact Loaded.foreign (hrun.invariant (fun _ hinit => hinit.loaded hm.1) fun _ _ _ hl hsteady hn =>
    hl.next hsteady hn)

theorem servers_suit_other : ∃ l l', system.next l .emptyQueue = some l' ∧
    (l'.scheduler.job 0).server = some 1 ∧ l'.scheduler.foreign 1 = 1 ∧
    (l'.scheduler.foreign 1 : ℤ) ≤ 4 + 1 + 4 / 4 ∧ Fits l.scheduler l'.scheduler := by
  have hrun : ((system.run (Steady 1 4) (started fun _ => 1) (twoDaemons [] ++
      asksFor "x86_64" [(str "x86_64", str "e")])).bind fun l =>
      (l.next .emptyQueue).map fun l' => decide (Steady 1 4 l .emptyQueue ∧
        (l'.scheduler.job 0).server = some 1 ∧ l'.scheduler.foreign 1 = 1)) = some true := by
    decide +kernel
  obtain ⟨l, hl, hrun⟩ := Option.bind_eq_some_iff.mp hrun
  obtain ⟨l', hl', hall⟩ := Option.map_eq_some_iff.mp hrun
  obtain ⟨hsteady, hserver, hforeign⟩ := of_decide_eq_true hall
  have hreach := (Transition.System.Reaches.init (started_init _)).run hl
  have hreach' := Transition.System.Reaches.step _ hreach hsteady hl'
  have hload := (servers_suit (hreach'.mono fun _ _ _ => trivial)).1 1 4 (by decide) hreach'
  have hfits := (servers_suit (hreach.mono fun _ _ _ => trivial)).2 .emptyQueue l' hl'
  exact ⟨l, l', hl', hserver, hforeign, hload, hfits⟩

end Loop

end Icecream.IceccScheduler
