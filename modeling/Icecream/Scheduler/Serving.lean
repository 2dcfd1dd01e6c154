import Icecream.Scheduler.Fairness

/-!
# One call of `empty_queue`

The scan moves a position through the queue, but the job it examines is the first one. It
serves that job or nobody: what comes behind waits, whether or not there is a server for
it, and stays in its group and in order.
-/

namespace Icecream.IceccScheduler

open Icecream.Comm
open Icecream.Fault

namespace Scheduler

variable {s t u : Scheduler} {cid ptr : ℕ}

/-! ## When nobody is served -/

def queued (s : Scheduler) : List ℕ := (jobRequestPositions s.jobRequests).map Prod.snd

/-- There is a server for the job now, or its submitter has a free slot it may use. -/
def Placeable (s : Scheduler) (ptr : ℕ) : Prop :=
  (s.pickServer (s.job ptr)).isSome = true ∨ s.submitterFree (s.job ptr) = true

/-- What the search for the job at `ptr` reads has not been freed. -/
structure Readable (s : Scheduler) (ptr : ℕ) : Prop where
  job : s.liveJob ptr = true
  css : ∀ x ∈ s.css, s.live x = true
  submitter : s.live (s.job ptr).submitter = true

theorem search_isSome (job : Job) (first : JobRequestPosition) (rest : List JobRequestPosition) :
    (search job (first :: rest) s).2.isSome =
      ((s.pickServer job).isSome || s.submitterFree job) := by
  cases hpick : s.pickServer job with
  | some c => simp [search, hpick]
  | none =>
    by_cases hfree : s.submitterFree job = true
    · simp [search, hpick, hfree]
    · rw [Bool.not_eq_true] at hfree
      have hnone := search_none (l := first :: rest) (by rw [hpick]; rfl) hfree
      simp [hnone, hfree]

theorem touch_ok_iff : s.touch cid = .ok () ↔ s.live cid = true := by
  unfold touch
  by_cases hlive : s.live cid = true
  · rw [if_pos hlive]
    exact ⟨fun _ => hlive, fun _ => rfl⟩
  · rw [if_neg hlive]
    exact ⟨nofun, fun h => absurd h hlive⟩

theorem forM_touch_ok_iff {l : List ℕ} :
    l.forM s.touch = .ok () ↔ ∀ x ∈ l, s.live x = true := by
  induction l with
  | nil => exact ⟨fun _ => by simp, fun _ => rfl⟩
  | cons x l ih =>
    rw [List.forall_mem_cons, ← touch_ok_iff, ← ih]
    change (s.touch x >>= fun _ => l.forM s.touch) = _ ↔ _
    cases s.touch x with
    | ok _ => exact ⟨fun h => ⟨rfl, h⟩, fun h => h.2⟩
    | error f => exact ⟨nofun, fun h => nomatch h.1⟩

theorem touchJob_ok_iff : s.touchJob ptr = .ok () ↔ s.liveJob ptr = true := by
  unfold touchJob
  by_cases hlive : s.liveJob ptr = true
  · rw [if_pos hlive]
    exact ⟨fun _ => hlive, fun _ => rfl⟩
  · rw [if_neg hlive]
    exact ⟨nofun, fun h => absurd h hlive⟩

theorem pickServer_nil (s : Scheduler) (job : Job) (h : s.css = []) :
    s.pickServer job = none := by
  unfold pickServer filterIneligibleServers
  rw [h]
  split <;> rfl

/-- The assertion about the servers does not bear on the search. -/
theorem require_isSome (job : Job) (l : List JobRequestPosition) :
    (search job l (s.require .emptyQueue (s.css ≠ []))).2.isSome = (search job l s).2.isSome := by
  by_cases hcss : s.css = []
  · rw [require_log]
    cases l with
    | nil => rfl
    | cons first rest =>
      have hnone := pickServer_nil { s with log := failure .emptyQueue (s.css ≠ []) ++ s.log } job hcss
      rw [search_isSome, search_isSome, pickServer_nil s job hcss, hnone]
      rfl
  · have hsame : s.require .emptyQueue (s.css ≠ []) = s := if_pos (decide_eq_true hcss)
    rw [hsame]

namespace Searched

theorem require (s : Scheduler) : Searched s (s.require .emptyQueue (s.css ≠ [])) :=
  ⟨Still.require s .emptyQueue (s.css ≠ []), require_conns s .emptyQueue _⟩

theorem live (h : Searched s t) (x : ℕ) : t.live x = s.live x := by
  simp only [Scheduler.live, h.conns]

theorem anyEligibleEver (h : Searched s t) (j : Job) :
    t.anyEligibleEver j = s.anyEligibleEver j := by
  have hever : ∀ c, t.isEligibleEver c j = s.isEligibleEver c j := fun c =>
    decide_eq_decide.mpr (by simp only [canInstall_congr h.conns])
  have hconns : t.css.map t.conn = s.css.map s.conn := by
    rw [h.same]
    exact List.map_congr_left fun x _ => h.conn x
  simp only [Scheduler.anyEligibleEver, hconns, hever]

theorem readable (h : Searched s t) (ptr : ℕ) : t.Readable ptr ↔ s.Readable ptr := by
  have hjobs : t.liveJob ptr = s.liveJob ptr := by simp only [liveJob, h.heap]
  constructor
  · rintro ⟨hjob, hcss, hsubmitter⟩
    rw [hjobs] at hjob
    rw [h.same] at hcss
    rw [h.job, h.live] at hsubmitter
    exact ⟨hjob, fun x hx => h.live x ▸ hcss x hx, hsubmitter⟩
  · rintro ⟨hjob, hcss, hsubmitter⟩
    refine ⟨hjobs ▸ hjob, fun x hx => ?_, ?_⟩
    · rw [h.live]
      exact hcss x (h.same ▸ hx)
    · rwa [h.job, h.live]

end Searched

/-- A call after which the loop goes on to the clients, with requests left -/
theorem emptyQueue_false_iff (hfirst : s.firstRequest = some ptr) :
    (∃ t, s.emptyQueue = .ok (t, false)) ↔
      s.Readable ptr ∧ ¬ s.Placeable ptr ∧ s.anyEligibleEver (s.job ptr) = true := by
  obtain ⟨first, hhead, rfl⟩ := Option.map_eq_some_iff.mp hfirst
  obtain ⟨rest, hqueue⟩ := List.head?_eq_some_iff.mp hhead
  have hrequire := Searched.require s
  have hplaceable : s.Placeable first.2 ↔
      (search (s.job first.2) (first :: rest) (s.require .emptyQueue (s.css ≠ []))).2.isSome := by
    rw [require_isSome, search_isSome, Bool.or_eq_true]
    rfl
  rw [emptyQueue, hqueue, hplaceable, ← hrequire.readable]
  simp only [hrequire.job]
  generalize s.require .emptyQueue (s.css ≠ []) = t at hrequire
  have hsubmitter : (t.job first.2).submitter = (s.job first.2).submitter := by rw [hrequire.job]
  obtain ⟨n, hn, hasked⟩ := search_asked (s.job first.2) (first :: rest) t
  have hstill : Still t { t with calls := n } :=
    .of_eq (.refl _) rfl hn rfl
  have hever := Searched.anyEligibleEver ⟨hrequire.toStill.trans hstill, hrequire.conns⟩
    (s.job first.2)
  simp only [hasked, hever]
  constructor
  · rintro ⟨r, hr⟩
    refine @Ends.of_ok Fault (Scheduler × Bool) (fun _ => True) (fun q => q.2 = false → _) _ (r, false)
      ?_ hr rfl
    refine (touchJob_any t first.2).bind fun _ hjob => ?_
    have hall : Ends (fun _ => True) (fun _ => True) (t.css.forM t.touch) := .any fun _ => trivial
    refine hall.eq.bind fun _ hcss => ?_
    refine (touch_any t _).bind fun _ hlive => ?_
    cases hfound : (search (s.job first.2) (first :: rest) t).2 with
    | some found =>
      have hassign : Ends (fun _ => True) (fun _ => True)
          (assign { t with calls := n } first.2 found.2 found.1) := .any fun _ => trivial
      exact hassign.bind fun _ _ => .pure nofun
    | none =>
      refine .ite (fun hyes => .pure fun _ => ?_) fun _ => ?_
      · exact ⟨⟨hjob, forM_touch_ok_iff.mp hcss.2, hsubmitter ▸ hlive⟩, Bool.false_ne_true, hyes⟩
      · have hassign : Ends (fun _ => True) (fun _ => True)
            (assign { t with calls := n } first.2 (s.job first.2).submitter first) :=
          .any fun _ => trivial
        exact hassign.bind fun _ _ => .pure nofun
  · rintro ⟨⟨hjob, hcss, hlive⟩, hno, hyes⟩
    rw [Bool.not_eq_true, Option.isSome_eq_false_iff, Option.isNone_iff_eq_none] at hno
    rw [hsubmitter] at hlive
    refine ⟨{ t with calls := n }, ?_⟩
    simp only [touchJob_ok_iff.mpr hjob, forM_touch_ok_iff.mpr hcss, touch_ok_iff.mpr hlive, hno, hyes]
    rfl

theorem queued_cons {first : ℕ} (h : s.firstRequest = some first) :
    s.queued = first :: s.queued.tail := by
  rw [firstRequest, ← List.head?_map] at h
  exact (List.head?_eq_some_iff.mp h).elim fun rest hrest => by rw [queued, hrest]; rfl

/-- A call that serves nobody leaves no job waiting that could be placed, just when the first
job can be placed, or never could be, or none behind it can. -/
theorem emptyQueue_delays_iff (s : Scheduler) :
    (∀ t, s.emptyQueue = .ok (t, false) → ∀ ptr ∈ s.queued, ¬ s.Placeable ptr) ↔
      ∀ first, s.firstRequest = some first → s.Readable first →
        s.Placeable first ∨ s.anyEligibleEver (s.job first) = false ∨
          ∀ ptr ∈ s.queued.tail, ¬ s.Placeable ptr := by
  constructor
  · intro h first hfirst hread
    by_cases hplace : s.Placeable first
    · exact .inl hplace
    cases hever : s.anyEligibleEver (s.job first) with
    | false => exact .inr (.inl rfl)
    | true =>
      obtain ⟨t, ht⟩ := (emptyQueue_false_iff hfirst).mpr ⟨hread, hplace, hever⟩
      exact .inr (.inr fun ptr hptr => h t ht ptr (List.mem_of_mem_tail hptr))
  · intro h t ht ptr hptr
    cases hfirst : s.firstRequest with
    | none =>
      have hnone : s.queued = [] := by
        rw [firstRequest, Option.map_eq_none_iff, List.head?_eq_none_iff] at hfirst
        rw [queued, hfirst, List.map_nil]
      rw [hnone] at hptr
      exact absurd hptr List.not_mem_nil
    | some first =>
      obtain ⟨hread, hplace, hever⟩ := (emptyQueue_false_iff hfirst).mp ⟨t, ht⟩
      rcases h first hfirst hread with hyes | hnever | hall
      · exact absurd hyes hplace
      · exact absurd (hever.symm.trans hnever) (by decide)
      · rw [queued_cons hfirst] at hptr
        rcases List.mem_cons.mp hptr with rfl | hbehind
        · exact hplace
        · exact hall ptr hbehind

end Scheduler

namespace Loop

open Scheduler

def listed : Environments := [(str "x86_64", str "e")]

/-- The first of two daemons wants a job compiled by itself, with its load as high as before it
has said anything, and then one by anybody. -/
def pinned : List Event :=
  twoDaemons [] ++
    [.activity (some (.getCS
      { lang := 0, target := str "x86_64", versions := listed, preferredHost := str "s" })),
    .activity (some (.getCS { lang := 0, target := str "x86_64", versions := listed })),
    .idle, .advance, .idle, .visited, .tested true, .prune]

/-- The second request waits behind the first, though the other daemon is idle. -/
theorem emptyQueue_delays_placeable : ∃ l t, system.Reachable l ∧
    l.scheduler.emptyQueue = .ok (t, false) ∧ l.scheduler.queued = [0, 1] ∧
    l.scheduler.Placeable 1 := by
  have hrun : (system.exec (started fun _ => 1) pinned).map (fun l =>
      (l.scheduler.emptyQueue.toOption.map Prod.snd, l.scheduler.queued,
        (l.scheduler.pickServer (l.scheduler.job 1)).isSome)) =
      some (some false, [0, 1], true) := by decide +kernel
  obtain ⟨l, hl, hstate⟩ := Option.map_eq_some_iff.mp hrun
  obtain ⟨hresult, hqueued, hpick⟩ : _ ∧ _ ∧ _ := by simpa only [Prod.mk.injEq] using hstate
  have hreach := (Transition.System.Reaches.init (started_init _)).exec (fun _ _ _ => trivial) hl
  obtain ⟨⟨t, again⟩, hcall, rfl⟩ := Option.map_eq_some_iff.mp hresult
  exact ⟨l, t, hreach, ok_of_toOption hcall, hqueued, .inl hpick⟩

end Loop

namespace Scheduler

variable {s t u : Scheduler} {cid ptr : ℕ}

/-! ## When the submitter cannot be told -/

/-- Jobs may be deleted and connections closed, and `groups` are left in the queue. -/
structure Fades (groups : List JobRequestsGroup) (s t : Scheduler) : Prop where
  heap : t.heap.Sublist s.heap
  jobRequests : t.jobRequests = groups
  quiet : Quiet s t

namespace Fades

variable {groups : List JobRequestsGroup}

theorem trans (h : Fades groups s t) (h' : Fades t.jobRequests t u) : Fades groups s u :=
  ⟨h'.heap.trans h.heap, h'.jobRequests.trans h.jobRequests, h.quiet.trans h'.quiet⟩

theorem of_eq (heap : t.heap.Sublist s.heap) (jobRequests : t.jobRequests = groups)
    (log : t.log = s.log) : Fades groups s t :=
  ⟨heap, jobRequests, [], log, by simp⟩

theorem note {o : Obs} (h : o.plain = true) (heap : t.heap = s.heap)
    (jobRequests : t.jobRequests = groups) (log : t.log = o :: s.log) : Fades groups s t :=
  ⟨by rw [heap], jobRequests, .note h log⟩

end Fades

theorem endMonitor_fades (s : Scheduler) (cid : ℕ) :
    Ends (fun _ => True) (Fades s.jobRequests s) (s.endMonitor cid) := by
  unfold endMonitor
  refine (touch_any s cid).bind fun _ _ => .pure ?_
  have hrequire : Fades s.jobRequests s (s.require .monitorListed (cid ∈ s.monitors)) := by
    unfold Scheduler.require
    split
    · exact .of_eq (.refl _) rfl rfl
    · exact .note (o := .assertionFailed .monitorListed) rfl rfl rfl rfl
  exact hrequire.trans (.note (o := .ended cid) rfl rfl rfl rfl)

theorem notify_fades {m : Msg} (hplain : plain m = true) (s : Scheduler) (cid : ℕ) :
    Ends (fun _ => True) (Fades s.jobRequests s) (s.notify m cid) := by
  unfold notify send
  rw [bind_assoc]
  refine (touch_any s cid).bind fun _ _ => ?_
  rw [pure_bind]
  have hsent : Fades s.jobRequests s (s.asked.note (.sent cid m (s.ask ≠ 0))) :=
    .note (o := .sent cid m (s.ask ≠ 0)) hplain rfl rfl rfl
  refine .ite (fun _ => .pure hsent) fun _ => ?_
  exact (endMonitor_fades _ cid).mono fun t ht => hsent.trans ht

theorem notifyMonitors_fades {m : Msg} (s : Scheduler) (hplain : plain m = true) :
    Ends (fun _ => True) (Fades s.jobRequests s) (s.notifyMonitors m) := by
  unfold notifyMonitors
  refine Ends.foldlM (fun _ t => Fades s.jobRequests s t) (.of_eq (.refl _) rfl rfl)
    fun c _ t ht => ?_
  exact (notify_fades hplain t c).mono fun u hu => ht.trans hu

theorem setBusyInstalling_fades (s : Scheduler) (cid : ℕ) (time : ℤ) :
    Ends (fun _ => True) (Fades s.jobRequests s) (s.setBusyInstalling cid time) := by
  unfold setBusyInstalling
  exact (touch_any s cid).bind fun _ _ => .pure (.of_eq (.refl _) rfl rfl)

theorem freed_fades (s : Scheduler) (id : UInt32) (ptr : ℕ) :
    Ends (fun _ => True) (Fades s.jobRequests s) ((s.eraseJob id).freeJob ptr) := by
  unfold freeJob
  exact (touch_any _ _).bind fun _ _ => .pure (.of_eq List.filter_sublist rfl rfl)

theorem dropQueued_fades (s : Scheduler) (ptr : ℕ) :
    Ends (fun _ => True) (Fades s.jobRequests s) (s.dropQueued ptr) := by
  unfold dropQueued
  refine (touchJob_any s ptr).bind fun _ _ => ?_
  refine (notifyMonitors_fades s rfl).bind fun t ht => ?_
  refine Ends.bind (P := Fades t.jobRequests t) ?_ fun u hu => ?_
  · cases (s.job ptr).server with
    | some server => exact setBusyInstalling_fades t server 0
    | none => exact .pure (.of_eq (.refl _) rfl rfl)
  exact (freed_fades u _ ptr).mono fun v hv => (ht.trans hu).trans hv

theorem leaveServer_fades (s : Scheduler) (cid : ℕ) (j : Job) :
    Ends (fun _ => True) (Fades s.jobRequests s) (s.leaveServer cid j) := by
  unfold leaveServer
  cases j.server with
  | none => exact .pure (.of_eq (.refl _) rfl rfl)
  | some server =>
    have hremove : Ends (fun _ => True) (Fades s.jobRequests s)
        (if server ≠ cid then s.removeJob server j.ptr else pure s) := by
      refine .ite (fun _ => ?_) fun _ => .pure (.of_eq (.refl _) rfl rfl)
      unfold removeJob
      exact (touch_any s server).bind fun _ _ => .pure (.of_eq (.refl _) rfl rfl)
    refine hremove.bind fun t ht => ?_
    exact (setBusyInstalling_fades t server 0).mono fun u hu => ht.trans hu

theorem dropAssigned_fades (s : Scheduler) (cid : ℕ) (e : UInt32 × ℕ) :
    Ends (fun _ => True) (Fades s.jobRequests s) (dropAssigned cid s e) := by
  unfold dropAssigned
  refine (touchJob_any s e.2).bind fun _ _ => ?_
  refine .ite (fun _ => ?_) fun _ => .pure (.of_eq (.refl _) rfl rfl)
  unfold dropJob
  refine (notifyMonitors_fades s rfl).bind fun t ht => ?_
  refine (leaveServer_fades t cid _).bind fun u hu => ?_
  exact (freed_fades u e.1 e.2).mono fun v hv => (ht.trans hu).trans hv

/-- What the end of `cid` takes out of the queue -/
def without (cid : ℕ) (groups : List JobRequestsGroup) : List JobRequestsGroup :=
  groups.filter fun g => g.submitter ≠ cid

theorem endDaemon_fades (s : Scheduler) (cid : ℕ) :
    Ends (fun _ => True) (Fades (without cid s.jobRequests) s) (s.endDaemon cid) := by
  unfold endDaemon
  refine (notifyMonitors_fades s rfl).bind fun t ht => ?_
  have hgroups : Ends (fun _ => True) (Fades (without cid s.jobRequests) s)
      (dropGroups { t with css := t.css.filter (· ≠ cid) } cid) := by
    unfold dropGroups
    refine Ends.bind (Ends.foldlM (fun _ u => Fades s.jobRequests s u)
      (ht.trans (.of_eq (.refl _) rfl rfl)) fun p _ u hu =>
        (dropQueued_fades u p).mono fun v hv => hu.trans hv) fun u hu => .pure ?_
    exact ⟨hu.heap, congrArg (without cid) hu.jobRequests, hu.quiet⟩
  refine hgroups.bind fun u hu => ?_
  refine (Ends.foldlM (fun _ v => Fades (without cid s.jobRequests) s v) hu
    fun e _ v hv => (dropAssigned_fades v cid e).mono fun w hw => hv.trans hw).bind fun v hv => ?_
  refine (Ends.foldlM (fun _ w => Fades (without cid s.jobRequests) s w) hv fun x _ w hw => ?_)
  unfold forgetBlacklist
  exact (touch_any w x).bind fun _ _ => .pure (hw.trans (.of_eq (.refl _) rfl rfl))

theorem handleEnd_fades (s : Scheduler) (cid : ℕ) :
    Ends (fun _ => True) (Fades (if (s.conn cid).type = .daemon then without cid s.jobRequests
      else s.jobRequests) s) (s.handleEnd cid) := by
  unfold handleEnd
  refine (touch_any s cid).bind fun _ _ => ?_
  cases htype : (s.conn cid).type with
  | monitor =>
    exact endMonitor_fades s cid
  | daemon =>
    rw [if_pos rfl]
    refine (endDaemon_fades s cid).bind fun t ht => .pure ?_
    exact ht.trans (.note (o := .ended cid) rfl rfl rfl rfl)
  | line =>
    unfold send
    rw [bind_assoc]
    refine (touch_any s cid).bind fun _ _ => ?_
    rw [pure_bind]
    have hsent : Fades s.jobRequests s (s.asked.note
        (.sent cid (.text (str "200 Good Bye!")) (s.ask ≠ 0))) :=
      .note (o := .sent cid (.text (str "200 Good Bye!")) (s.ask ≠ 0)) rfl rfl rfl rfl
    exact .pure (hsent.trans (.note (o := .ended cid) rfl rfl rfl rfl))
  | unknown => exact .pure (.note (o := .ended cid) rfl rfl rfl rfl)

/-! ## What is served -/

/-- `ptr`, the first of its group, is taken out. The other requests stay in their groups, and
the other groups in their order. -/
def Withdraws (ptr : ℕ) (groups groups' : List JobRequestsGroup) : Prop :=
  ∃ front g l back before after, groups = front ++ g :: back ∧ g.l = ptr :: l ∧
    front ++ back = before ++ after ∧
      groups' = before ++ (if l = [] then [] else [{ g with l := l }]) ++ after

theorem enqueueJobRequestsGroup_split (group : JobRequestsGroup) (groups : List JobRequestsGroup) :
    ∃ before after, groups = before ++ after ∧
      enqueueJobRequestsGroup group groups = before ++ [group] ++ after := by
  induction groups with
  | nil => exact ⟨[], [], rfl, rfl⟩
  | cons g rest ih =>
    by_cases hlt : group.niceness < g.niceness
    · refine ⟨[], g :: rest, rfl, ?_⟩
      rw [enqueueJobRequestsGroup, if_pos hlt]
      rfl
    · obtain ⟨before, after, hrest, hgroups⟩ := ih
      refine ⟨g :: before, after, by rw [hrest]; rfl, ?_⟩
      rw [enqueueJobRequestsGroup, if_neg hlt, hgroups]
      rfl

theorem head_split {groups : List JobRequestsGroup} {n : ℕ} {pos : JobRequestPosition}
    (h : ((groups.zipIdx n).flatMap fun e => e.1.l.map fun ptr => (e.2, ptr)).head? = some pos) :
    ∃ front g l back, groups = front ++ g :: back ∧ pos.1 = n + front.length ∧
      g.l = pos.2 :: l := by
  induction groups generalizing n with
  | nil => cases h
  | cons g rest ih =>
    rw [List.zipIdx_cons, List.flatMap_cons] at h
    cases hl : g.l with
    | nil =>
      rw [hl, List.map_nil, List.nil_append] at h
      obtain ⟨front, g', l, back, rfl, hpos, hl'⟩ := ih h
      exact ⟨g :: front, g', l, back, rfl, by rw [hpos, List.length_cons]; omega, hl'⟩
    | cons ptr l =>
      rw [hl] at h
      cases h
      exact ⟨[], g, l, rest, rfl, rfl, hl⟩

theorem removeJobRequest_withdraws {groups : List JobRequestsGroup} {pos : JobRequestPosition}
    (h : (jobRequestPositions groups).head? = some pos) :
    Withdraws pos.2 groups (removeJobRequest groups pos) := by
  obtain ⟨front, g, l, back, rfl, hpos, hl⟩ := head_split h
  rw [zero_add] at hpos
  have hget : (front ++ g :: back)[pos.1]? = some g := by rw [hpos]; simp
  have hrest : (front ++ g :: back).eraseIdx pos.1 = front ++ back := by
    rw [hpos, List.eraseIdx_append_of_length_le le_rfl]
    simp
  simp only [removeJobRequest, hget, hrest, hl, List.erase_cons_head]
  by_cases hempty : l = []
  · refine ⟨front, g, l, back, front, back, rfl, hl, rfl, ?_⟩
    rw [if_pos hempty, if_pos hempty, List.append_nil]
  · obtain ⟨before, after, hsplit, hgroups⟩ :=
      enqueueJobRequestsGroup_split { g with l := l } (front ++ back)
    refine ⟨front, g, l, back, before, after, rfl, hl, hsplit, ?_⟩
    rw [if_neg hempty, if_neg hempty, hgroups]

/-- The job that a message gives to a server -/
def named : Msg → Option UInt32
  | .useCS m => some m.jobId
  | .noCS m => some m.jobId
  | _ => none

theorem placement_named (s : Scheduler) (j : Job) (useCs : ℕ) (platform : Str) (gotit : Bool) :
    named (s.placement j useCs platform gotit) = some j.id := by
  simp only [placement]
  split
  · rfl
  · rfl

theorem told_named (s : Scheduler) (ptr useCs : ℕ) :
    named (s.told ptr useCs) = some (s.job ptr).id := placement_named _ _ _ _ _

/-- No job comes or goes or changes its server. -/
structure Settles (s t : Scheduler) : Prop where
  heap : ∀ j ∈ t.heap, ∃ i ∈ s.heap, i.ptr = j.ptr ∧ i.server = j.server ∧ i.state = j.state
  ptrs : t.heap.map Job.ptr = s.heap.map Job.ptr
  jobRequests : t.jobRequests = s.jobRequests
  log : t.log = s.log

namespace Settles

theorem of_eq (heap : t.heap = s.heap) (jobRequests : t.jobRequests = s.jobRequests)
    (log : t.log = s.log) : Settles s t := by
  refine ⟨fun j hj => ⟨j, heap ▸ hj, rfl, rfl, rfl⟩, ?_, jobRequests, log⟩
  rw [heap]

theorem trans (h : Settles s t) (h' : Settles t u) : Settles s u := by
  refine ⟨fun j hj => ?_, h'.ptrs.trans h.ptrs, h'.jobRequests.trans h.jobRequests,
    h'.log.trans h.log⟩
  obtain ⟨i, hi, hptr, hserver, hstate⟩ := h'.heap j hj
  obtain ⟨k, hk, hptr', hserver', hstate'⟩ := h.heap i hi
  exact ⟨k, hk, hptr'.trans hptr, hserver'.trans hserver, hstate'.trans hstate⟩

end Settles

theorem shareEnvironment_settles (platform env : Str) (s : Scheduler) (ptr : ℕ) :
    Ends (fun _ => True) (Settles s) (shareEnvironment platform env s ptr) := by
  unfold shareEnvironment
  refine (touchJob_any s ptr).bind fun _ hjob => .pure ?_
  refine ⟨fun j hj => ?_, Records.map_key_replace, rfl, rfl⟩
  rcases Records.mem_replace.mp hj with ⟨rfl, -⟩ | ⟨hj, -⟩
  · exact ⟨s.job ptr, (job_mem hjob).1, rfl, rfl, rfl⟩
  · exact ⟨j, hj, rfl, rfl, rfl⟩

theorem settle_settles (s : Scheduler) (j : Job) (useCs : ℕ) (gotit : Bool) :
    Ends (fun _ => True) (Settles s) (s.settle j useCs gotit) := by
  unfold settle appendJob
  rw [bind_assoc]
  refine (touch_any s useCs).bind fun _ _ => ?_
  rw [pure_bind]
  obtain ⟨t, ht⟩ : ∃ t, t = s.put { s.conn useCs with
    lastPickedId := j.id, jobList := (s.conn useCs).jobList ++ [j.ptr] } := ⟨_, rfl⟩
  rw [← ht]
  have hput : Settles s t := by
    rw [ht]
    exact .of_eq rfl rfl rfl
  have hbusy : Ends (fun _ => True) (Settles s)
      (if gotit then pure t else t.asked.setBusyInstalling useCs t.now) := by
    refine .ite (fun _ => .pure hput) fun _ => ?_
    unfold setBusyInstalling
    exact (touch_any t.asked useCs).bind fun _ _ => .pure (hput.trans (.of_eq rfl rfl rfl))
  refine hbusy.bind fun u hu => ?_
  refine .ite (fun _ => .pure hu) fun _ => ?_
  refine Ends.foldlM (fun _ v => Settles s v) hu fun p _ v hv => ?_
  exact (shareEnvironment_settles _ _ v p).mono fun w hw => hv.trans hw

/-- The job at `ptr` is given to `useCs`, and its submitter is told so if `ok` says so. A
daemon that could not be told is gone, with the requests it had. -/
structure Serves (s : Scheduler) (ptr useCs : ℕ) (ok : Bool) (t : Scheduler) : Prop where
  told : ∃ m new old, named m = some (s.job ptr).id ∧
    t.log = new ++ .sent (s.job ptr).submitter m ok :: (old ++ s.log) ∧
      ∀ o ∈ new ++ old, o.plain = true
  given : ∀ j ∈ t.heap, j.ptr = ptr → j.server = some useCs ∧ j.state = .waitingForCS
  live : ok = true → t.liveJob ptr = true
  others : ∀ j ∈ t.heap, j.ptr ≠ ptr →
    ∃ i ∈ s.heap, i.ptr = j.ptr ∧ i.server = j.server ∧ i.state = j.state
  requests : ∃ groups, Withdraws ptr s.jobRequests groups ∧ t.jobRequests =
    if ok = false ∧ (s.conn (s.job ptr).submitter).type = .daemon
      then without (s.job ptr).submitter groups else groups

theorem assign_serves {pos : JobRequestPosition} (useCs : ℕ)
    (hpos : (jobRequestPositions s.jobRequests).head? = some pos) :
    Ends (fun _ => True) (fun t => ∃ ok, Serves s pos.2 useCs ok t)
      (s.assign pos.2 useCs pos) := by
  have hwithdraws := removeJobRequest_withdraws hpos
  have htold := told_named s pos.2 useCs
  have hheap : s.liveJob pos.2 = true → ∀ j ∈ (s.granted pos.2 useCs pos).heap,
      (j.ptr = pos.2 → j.server = some useCs ∧ j.state = .waitingForCS) ∧
        (j.ptr ≠ pos.2 → j ∈ s.heap) := by
    intro hjob j hj
    have hptr : (s.given pos.2 useCs).ptr = pos.2 := (job_mem hjob).2
    rcases Records.mem_replace.mp hj with ⟨rfl, -⟩ | ⟨hj, hne⟩
    · exact ⟨fun _ => ⟨rfl, rfl⟩, fun hne => absurd hptr hne⟩
    · exact ⟨fun hsame => absurd (hsame.trans hptr.symm) hne, fun _ => hj⟩
  have hsettled : s.liveJob pos.2 = true → s.ask ≠ 0 → ∀ t,
      Settles (s.granted pos.2 useCs pos) t → ∃ ok, Serves s pos.2 useCs ok t := by
    intro hjob hok t ht
    have hlive : pos.2 ∈ (s.granted pos.2 useCs pos).heap.map Job.ptr := by
      rw [liveJob_iff] at hjob
      change pos.2 ∈ (Records.replace _ _ _).map Job.ptr
      rwa [Records.map_key_replace]
    have hsent : (s.granted pos.2 useCs pos).log =
        .sent (s.job pos.2).submitter (s.told pos.2 useCs) true :: s.log := by
      rw [← decide_eq_true hok]
      rfl
    refine ⟨true, ⟨_, [], [], htold, ht.log.trans hsent, by simp⟩, fun j hj hsame => ?_, fun _ => ?_,
      fun j hj hne => ?_, _, hwithdraws, ht.jobRequests⟩
    · obtain ⟨i, hi, hiptr, hserver, hstate⟩ := ht.heap j hj
      rw [← hserver, ← hstate]
      exact (hheap hjob i hi).1 (hiptr.trans hsame)
    · rw [liveJob_iff, ht.ptrs]
      exact hlive
    · obtain ⟨i, hi, hiptr, hserver, hstate⟩ := ht.heap j hj
      exact ⟨i, (hheap hjob i hi).2 (hiptr ▸ hne), hiptr, hserver, hstate⟩
  refine assign_ends pos (touchJob_any s pos.2) (touch_any s useCs) (fun _ => touch_any s _)
    (fun hjob hok gotit => (settle_settles _ _ useCs gotit).mono (hsettled hjob hok))
    fun hjob hfailed => (handleEnd_fades _ (s.job pos.2).submitter).mono fun t ht => ?_
  obtain ⟨new, hnew, hplain⟩ := ht.quiet
  have hsent : (s.granted pos.2 useCs pos).log =
      .sent (s.job pos.2).submitter (s.told pos.2 useCs) false :: s.log := by
    rw [← decide_eq_false (not_not.mpr hfailed)]
    rfl
  refine ⟨false, ⟨_, new, [], htold, by rw [hnew, hsent]; rfl, by simpa using hplain⟩,
    fun j hj => (hheap hjob j (ht.heap.subset hj)).1, nofun,
    fun j hj hne => ⟨j, (hheap hjob j (ht.heap.subset hj)).2 hne, rfl, rfl, rfl⟩, _, hwithdraws, ?_⟩
  rw [ht.jobRequests]
  simp only [true_and]
  rfl

theorem Serves.searched {useCs : ℕ} {ok : Bool} (hsearch : Searched s t)
    (h : Serves t ptr useCs ok u) : Serves s ptr useCs ok u := by
  obtain ⟨old, hold, hplain⟩ := hsearch.quiet
  obtain ⟨m, new, middle, hnamed, hlog, hnew⟩ := h.told
  have hothers := h.others
  have hrequests := h.requests
  rw [hsearch.job] at hnamed hlog hrequests
  rw [hsearch.heap] at hothers
  rw [hsearch.jobRequests, hsearch.conn] at hrequests
  refine ⟨⟨m, new, middle ++ old, hnamed, ?_, fun o ho => ?_⟩, h.given, h.live, hothers, hrequests⟩
  · rw [hlog, hold, List.append_assoc]
  · rw [← List.append_assoc] at ho
    exact (List.mem_append.mp ho).elim (hnew o) (hplain o)

/-- The queue is either left as it is or serves its first request, with the server that the
algorithm picks if it picks one. -/
theorem emptyQueue_picked {P : Scheduler × Bool → Prop} (hidle : ∀ t, Searched s t → P (t, false))
    (hassign : ∀ t pos useCs, Searched s t → (jobRequestPositions s.jobRequests).head? = some pos →
      (∀ c, s.pickServer (s.job pos.2) = some c → useCs = c.cid) →
      Ends (fun _ => True) (fun u => P (u, true)) (t.assign pos.2 useCs pos)) :
    Ends (fun _ => True) P s.emptyQueue := by
  rw [emptyQueue]
  cases hqueue : jobRequestPositions s.jobRequests with
  | nil => exact .pure (hidle s ⟨.refl s, rfl⟩)
  | cons first rest =>
    have hrequire := Searched.require s
    have hlog := pickServer_log s (s.job first.2) (failure .emptyQueue (s.css ≠ []) ++ s.log)
    rw [← require_log] at hlog
    generalize s.require .emptyQueue (s.css ≠ []) = t at hrequire hlog
    rw [← hrequire.job] at hlog
    refine (touchJob_any t first.2).bind fun _ _ => ?_
    refine Ends.bind (P := fun _ => True) (.any fun _ => trivial) fun _ _ => ?_
    refine (touch_any t _).bind fun _ _ => ?_
    obtain ⟨n, hn, hasked⟩ := search_asked (t.job first.2) (first :: rest) t
    have hstill : Still t { t with calls := n } :=
      .of_eq (.refl _) rfl hn rfl
    have hsearched : Searched s { t with calls := n } :=
      ⟨hrequire.toStill.trans hstill, hrequire.conns⟩
    have hhead : (jobRequestPositions s.jobRequests).head? = some first := by rw [hqueue]; rfl
    have hserved : ∀ useCs, (∀ c, s.pickServer (s.job first.2) = some c → useCs = c.cid) →
        Ends (fun _ => True) P
          (do return (← Scheduler.assign { t with calls := n } first.2 useCs first, true)) :=
      fun useCs hpick => (hassign _ first useCs hsearched hhead hpick).bind fun u hu => .pure hu
    rw [← hrequire.job, ← hlog] at hserved
    simp only [hasked]
    cases hpick : t.pickServer (t.job first.2) with
    | some c =>
      have hfound : (search (t.job first.2) (first :: rest) t).2 = some (first, c.cid) := by
        simp only [search, hpick]
      rw [hfound]
      exact hserved c.cid fun d hd => by rw [Option.some.inj (hpick.symm.trans hd)]
    | none =>
      have hnone : ∀ useCs c, t.pickServer (t.job first.2) = some c → useCs = c.cid :=
        fun _ c hc => by simp [hpick] at hc
      cases hfound : (search (t.job first.2) (first :: rest) t).2 with
      | some found =>
        obtain ⟨pos, useCs⟩ := found
        obtain ⟨rfl, -⟩ := search_first hfound
        exact hserved useCs (hnone useCs)
      | none =>
        exact .ite (fun _ => .pure (hidle _ hsearched)) fun _ => hserved _ (hnone _)

theorem emptyQueue_ends_serves (s : Scheduler) : Ends (fun _ => True)
    (fun r => r.2 = true → ∃ ptr useCs ok, s.firstRequest = some ptr ∧ Serves s ptr useCs ok r.1)
    s.emptyQueue := by
  refine emptyQueue_picked (fun _ _ => nofun) fun t pos useCs hsearched hhead _ => ?_
  have hthead : (jobRequestPositions t.jobRequests).head? = some pos := by
    rw [hsearched.jobRequests, hhead]
  refine (assign_serves useCs hthead).mono fun u hu _ => ?_
  obtain ⟨ok, hserves⟩ := hu
  refine ⟨pos.2, useCs, ok, ?_, hserves.searched hsearched⟩
  rw [firstRequest, hhead, Option.map_some]

/-- Whatever the algorithm and the answers of the system, the request that is taken out is the
one whose job is given away. Every other request stays where it is, unless the submitter could
not be told and it is the submitter's. -/
theorem emptyQueue_serves (h : s.emptyQueue = .ok (t, true)) :
    ∃ ptr useCs ok, s.firstRequest = some ptr ∧ Serves s ptr useCs ok t :=
  (emptyQueue_ends_serves s).of_ok h rfl

end Scheduler

namespace Loop

open Scheduler

/-- A daemon asks for two servers, and the next turn comes to the queue. -/
def asksForTwo : List Event :=
  twoDaemons [] ++
    [.activity (some (.getCS { lang := 0, target := str "x86_64", versions := listed, count := 2 })),
    .idle, .advance, .idle, .visited, .tested true, .prune]

theorem emptyQueue_serves_first : ∃ (l : Loop) (t : Scheduler), l.scheduler.queued = [0, 1] ∧
    l.scheduler.emptyQueue = .ok (t, true) ∧
      ∃ ptr useCs ok, l.scheduler.firstRequest = some ptr ∧ Serves l.scheduler ptr useCs ok t := by
  have hrun : (system.exec (started fun _ => 1) asksForTwo).map (fun l =>
      (l.scheduler.queued, l.scheduler.emptyQueue.toOption.map Prod.snd)) =
      some ([0, 1], some true) := by decide +kernel
  obtain ⟨l, -, hstate⟩ := Option.map_eq_some_iff.mp hrun
  obtain ⟨hqueued, hresult⟩ := Prod.mk.inj hstate
  obtain ⟨⟨t, again⟩, hcall, rfl⟩ := Option.map_eq_some_iff.mp hresult
  exact ⟨l, t, hqueued, ok_of_toOption hcall, emptyQueue_serves (ok_of_toOption hcall)⟩

/-- The answer for the first job cannot be sent: the second, of the same submitter, goes too. -/
theorem emptyQueue_unheard : ∃ l t, system.Reachable l ∧ l.scheduler.queued = [0, 1] ∧
    l.scheduler.emptyQueue = .ok (t, true) ∧ t.queued = [] := by
  have hrun : (system.exec (started fun n => if n = 14 then 0 else 1) asksForTwo).map (fun l =>
      (l.scheduler.queued, l.scheduler.emptyQueue.toOption.map fun r => (r.2, r.1.queued))) =
      some ([0, 1], some (true, [])) := by decide +kernel
  obtain ⟨l, hl, hstate⟩ := Option.map_eq_some_iff.mp hrun
  obtain ⟨hqueued, hresult⟩ := Prod.mk.inj hstate
  have hreach := (Transition.System.Reaches.init (started_init _)).exec (fun _ _ _ => trivial) hl
  obtain ⟨⟨t, again⟩, hr, hsame⟩ := Option.map_eq_some_iff.mp hresult
  obtain ⟨rfl, hnone⟩ := Prod.mk.inj hsame
  exact ⟨l, t, hreach, hqueued, ok_of_toOption hr, hnone⟩

end Loop

end Icecream.IceccScheduler
