import Mathlib.Logic.Relation
import Icecream.Scheduler.Tasks

/-!
# What the handlers leave

Each handler keeps the facts about connections and jobs, and closes no connection but
the one it serves, monitors that could not be told, and those it was asked to close.
Most are calm: what they do to jobs and requests is done by `handle_end`.
-/

namespace Icecream.IceccScheduler

open Icecream.Comm
open Icecream.Fault

namespace Scheduler

variable {mode : Mode} {extra : List ℕ} {lost : ℕ → Prop}

/-- Jobs, requests and the servers' lists of jobs stay. -/
structure Idle (s t : Scheduler) : Prop where
  heap : t.heap.map Job.core = s.heap.map Job.core
  jobs : t.jobs = s.jobs
  jobRequests : t.jobRequests = s.jobRequests
  newPtr : t.newPtr = s.newPtr
  holdings : (t.conns.map CompileServer.holdings).Sublist (s.conns.map CompileServer.holdings)

/-- A piece of an operation after which the facts hold -/
def Piece (mode : Mode) (s t : Scheduler) : Prop :=
  Facts mode [] t ∧ (Idle s t ∨ ∃ cid, s.handleEnd cid = .ok t)

def Calm (mode : Mode) : Scheduler → Scheduler → Prop := Relation.ReflTransGen (Piece mode)

structure Leaves (mode : Mode) (lost : ℕ → Prop) (s t : Scheduler) : Prop where
  facts : Facts mode [] t
  loses : Loses lost s t

structure Calms (mode : Mode) (lost : ℕ → Prop) (s t : Scheduler) : Prop
    extends Leaves mode lost s t where
  calm : Calm mode s t

theorem Aside.idle {s t : Scheduler} (h : Aside s t) : Idle s t :=
  ⟨by rw [h.heap], h.jobs, h.jobRequests, h.newPtr, h.holdings⟩

theorem Leaves.trans {s t u : Scheduler} (h : Leaves mode lost s t) (h' : Leaves mode lost t u) :
    Leaves mode lost s u := ⟨h'.facts, h.loses.trans h'.loses⟩

theorem Leaves.mono {lost' : ℕ → Prop} {s t : Scheduler} (h : Leaves mode lost s t)
    (himp : ∀ x, lost x → lost' x) : Leaves mode lost' s t := ⟨h.facts, h.loses.mono himp⟩

namespace Calms

variable {s t u : Scheduler}

theorem trans (h : Calms mode lost s t) (h' : Calms mode lost t u) : Calms mode lost s u :=
  ⟨h.toLeaves.trans h'.toLeaves, h.calm.trans h'.calm⟩

theorem mono {lost' : ℕ → Prop} (h : Calms mode lost s t) (himp : ∀ x, lost x → lost' x) :
    Calms mode lost' s t := ⟨h.toLeaves.mono himp, h.calm⟩

theorem aside (h : Aside s t) (hs : Facts mode [] s) : Calms mode lost s t where
  facts := h.facts hs
  loses := h.toLoses.mono fun _ hf => hf.elim
  calm := .single ⟨h.facts hs, .inl h.idle⟩

theorem refl (hs : Facts mode [] s) : Calms mode lost s s := aside (.refl s) hs

theorem ended {cid : ℕ} (h : Ended mode cid s t) (heq : s.handleEnd cid = .ok t)
    (hlost : lost cid) : Calms mode lost s t where
  facts := h.facts
  loses := h.loses.mono fun x hx => by rwa [hx]
  calm := .single ⟨h.facts, .inr ⟨cid, heq⟩⟩

end Calms

theorem handleEnd_calms {s : Scheduler} {cid : ℕ} (h : Facts mode [] s)
    (hlive : mode.strict → s.live cid = true) (hlost : lost cid) :
    Ends (tolerated mode) (Calms mode lost s) (s.handleEnd cid) :=
  (handleEnd_ended h hlive).eq.mono fun _ ht => .ended ht.1 ht.2 hlost

/-- What may get lost while `cid` is served with the result `b` -/
def Closing (lost : ℕ → Prop) (cid : ℕ) (b : Bool) (x : ℕ) : Prop := lost x ∨ (x = cid ∧ b = false)

/-- A connection that is no monitor outlives what does not close it. -/
theorem Loses.live {s t : Scheduler} {cid : ℕ} (h : Loses lost s t)
    (hlive : s.live cid = true) (hlost : ¬ lost cid) (hmonitor : cid ∈ s.monitors → cid ∈ t.monitors) :
    t.live cid = true := by
  have hcid : (s.conn cid).kind.cid = cid := conn_cid s cid
  have hkept := h.kept _ (conn_kind_mem hlive) (by rwa [hcid]) (by rwa [hcid])
  exact live_iff.mpr (List.mem_map.mpr ⟨_, hkept, hcid⟩)

/-- A handler's result `r`, with the connection it serves still there when `r` says so -/
structure Served (mode : Mode) (lost : ℕ → Prop) (cid : ℕ) (s : Scheduler)
    (r : Scheduler × Bool) : Prop extends Leaves mode (Closing lost cid r.2) s r.1 where
  stays : mode.strict → r.2 = true → r.1.live cid = true

structure Handled (mode : Mode) (lost : ℕ → Prop) (cid : ℕ) (s : Scheduler)
    (r : Scheduler × Bool) : Prop extends Served mode lost cid s r where
  calm : Calm mode s r.1

namespace Handled

variable {s t : Scheduler} {cid : ℕ}

theorem of_calms {b : Bool} (h : Calms mode (Closing lost cid b) s t)
    (hstays : mode.strict → b = true → t.live cid = true) : Handled mode lost cid s (t, b) :=
  ⟨⟨h.toLeaves, hstays⟩, h.calm⟩

theorem still (h : Still s t) (hs : Facts mode [] s) (b : Bool)
    (hlive : mode.strict → s.live cid = true) : Handled mode lost cid s (t, b) :=
  of_calms (.aside h.toAside hs) fun hstrict _ => by
    rw [h.live]
    exact hlive hstrict

theorem closed (h : Calms mode (Closing lost cid false) s t) :
    Handled mode lost cid s (t, false) := of_calms h fun _ hb => by simp at hb

theorem after {r : Scheduler × Bool} (h : Calms mode lost s t)
    (h' : Handled mode lost cid t r) : Handled mode lost cid s r where
  toLeaves := (h.toLeaves.mono fun _ hx => .inl hx).trans h'.toLeaves
  stays := h'.stays
  calm := h.calm.trans h'.calm

end Handled

theorem handleEnd_handled {s : Scheduler} {cid : ℕ} (h : Facts mode [] s)
    (hlive : mode.strict → s.live cid = true) :
    Ends (tolerated mode) (fun t => Handled mode lost cid s (t, false)) (s.handleEnd cid) :=
  (handleEnd_calms h hlive (.inr ⟨rfl, rfl⟩)).mono fun _ ht => .closed ht

/-! ## Loops that close nothing -/

theorem still_loop {α : Type} {f : Scheduler → α → Except Fault Scheduler} {s : Scheduler}
    {l : List α} (h : Facts mode [] s) (hf : ∀ t, ∀ x ∈ l, Facts mode [] t → Still s t →
      Ends (tolerated mode) (Still t) (f t x)) :
    Ends (tolerated mode) (Still s) (l.foldlM f s) := by
  refine (Ends.foldlM (fun rest t => Still s t ∧ rest ⊆ l) ⟨.refl s, fun _ hx => hx⟩ ?_).mono
    fun t ht => ht.1
  rintro x rest t ⟨hstill, hrest⟩
  have hfacts := hstill.toAside.facts h
  refine (hf t x (hrest List.mem_cons_self) hfacts hstill).mono fun u hu => ?_
  exact ⟨hstill.trans hu, fun y hy => hrest (List.mem_cons_of_mem _ hy)⟩

theorem touch_each {s : Scheduler} {l : List ℕ}
    (h : mode.strict → ∀ x ∈ l, s.live x = true) :
    Ends (tolerated mode) (fun _ => True) (l.forM s.touch) := by
  induction l with
  | nil => exact .pure trivial
  | cons x rest ih =>
    change Ends (tolerated mode) _ (s.touch x >>= fun _ => rest.forM s.touch)
    refine (touch_ends fun hstrict => h hstrict x List.mem_cons_self).bind fun _ _ => ?_
    exact ih fun hstrict y hy => h hstrict y (List.mem_cons_of_mem _ hy)

/-! ## Monitors that answer -/

/-- The monitors that can be told something when the next question is the `n`-th -/
def survivors (answer : ℕ → ℕ) : ℕ → List ℕ → List ℕ
  | _, [] => []
  | n, x :: rest =>
    if answer n = 0 then survivors answer (n + 1) rest else x :: survivors answer (n + 1) rest

theorem notify_survivors (m : Msg) (s : Scheduler) (cid : ℕ) :
    Ends (fun _ => True) (fun t => t.host = s.host ∧ t.calls = s.calls + 1 ∧
      t.monitors = if s.host.answer s.calls = 0 then s.monitors.filter (· ≠ cid) else s.monitors)
      (notify m s cid) := by
  have htouch : ∀ (u : Scheduler) x, Ends (fun _ => True) (fun _ => True) (u.touch x) :=
    fun _ _ => .any fun _ => trivial
  unfold notify send
  rw [bind_assoc]
  refine (htouch s cid).bind fun _ _ => ?_
  rw [pure_bind]
  by_cases hanswer : s.host.answer s.calls = 0
  · simp only [ask, hanswer, ne_eq, not_true_eq_false, decide_false, Bool.false_eq_true, if_false,
      if_true]
    unfold endMonitor
    refine (htouch _ cid).bind fun _ _ => .pure ?_
    simp only [Scheduler.require]
    split <;> exact ⟨rfl, rfl, rfl⟩
  · simp only [ask, hanswer, ne_eq, not_false_eq_true, decide_true, if_true, if_false]
    exact .pure ⟨rfl, rfl, rfl⟩

theorem notifyMonitors_survivors (m : Msg) {s : Scheduler} (hnodup : s.monitors.Nodup) :
    Ends (fun _ => True) (fun t => t.host = s.host ∧ t.calls = s.calls + s.monitors.length ∧
      t.monitors = survivors s.host.answer s.calls s.monitors) (s.notifyMonitors m) := by
  have hloop : ∀ rest done (t : Scheduler), t.monitors = done ++ rest → t.monitors.Nodup →
      Ends (fun _ => True) (fun u => u.host = t.host ∧ u.calls = t.calls + rest.length ∧
        u.monitors = done ++ survivors t.host.answer t.calls rest) (rest.foldlM (notify m) t) := by
    intro rest
    induction rest with
    | nil =>
      intro done t hsplit _
      exact .pure ⟨rfl, rfl, by simpa [survivors] using hsplit⟩
    | cons x rest ih =>
      intro done t hsplit hnodup
      rw [List.foldlM_cons]
      refine (notify_survivors m t x).bind fun u hu => ?_
      obtain ⟨hhost, hcalls, hmonitors⟩ := hu
      by_cases hanswer : t.host.answer t.calls = 0
      · rw [if_pos hanswer] at hmonitors
        have hleft : u.monitors = done ++ rest := by
          rw [hsplit] at hnodup
          obtain ⟨-, htail, hdisjoint⟩ := List.nodup_append.mp hnodup
          have hdone : x ∉ done := fun hx => hdisjoint x hx x List.mem_cons_self rfl
          rw [hmonitors, hsplit, List.filter_append, filter_ne_of_notMem hdone,
            List.filter_cons_of_neg (by simp), filter_ne_of_notMem (List.nodup_cons.mp htail).1]
        refine (ih done u hleft ?_).mono fun v hv => ?_
        · rw [hmonitors]
          exact hnodup.filter _
        · obtain ⟨hv, hvcalls, hvmonitors⟩ := hv
          refine ⟨hv.trans hhost, ?_, ?_⟩
          · rw [hvcalls, hcalls, List.length_cons]
            omega
          · rw [hvmonitors, hhost, hcalls, survivors, if_pos hanswer]
      · rw [if_neg hanswer] at hmonitors
        have hleft : u.monitors = (done ++ [x]) ++ rest := by simp [hmonitors, hsplit]
        refine (ih (done ++ [x]) u hleft ?_).mono fun v hv => ?_
        · rwa [hmonitors]
        · obtain ⟨hv, hvcalls, hvmonitors⟩ := hv
          refine ⟨hv.trans hhost, ?_, ?_⟩
          · rw [hvcalls, hcalls, List.length_cons]
            omega
          · rw [hvmonitors, hhost, hcalls, survivors, if_neg hanswer]
            simp
  exact hloop s.monitors [] s rfl hnodup

theorem mem_survivors {answer : ℕ → ℕ} {x : ℕ} {l : List ℕ} (hx : x ∈ l) (n : ℕ)
    (hanswer : answer (n + l.idxOf x) ≠ 0) : x ∈ survivors answer n l := by
  induction l generalizing n with
  | nil => simp at hx
  | cons y rest ih =>
    by_cases hsame : y = x
    · subst hsame
      simp only [List.idxOf_cons_self, add_zero] at hanswer
      simp [survivors, hanswer]
    · have hrest : x ∈ rest := (List.mem_cons.mp hx).resolve_left fun h => hsame h.symm
      rw [List.idxOf_cons_ne _ hsame, Nat.add_succ, ← Nat.succ_add] at hanswer
      have hmem := ih hrest (n + 1) hanswer
      simp only [survivors]
      split
      · exact hmem
      · exact List.mem_cons_of_mem _ hmem

/-- The next message to the monitor `cid`, if it is one, is not refused. -/
def Tells (s : Scheduler) (cid : ℕ) : Prop :=
  cid ∈ s.monitors → s.host.answer (s.calls + s.monitors.idxOf cid) ≠ 0

theorem notifyMonitors_stays {s : Scheduler} {cid : ℕ} {m : Msg} (h : Peers extra s)
    (hlive : mode.strict → s.live cid = true) (htells : mode.strict → s.Tells cid)
    (hplain : plain m = true) :
    Ends (tolerated mode) (fun t => Aside s t ∧ (mode.strict → t.live cid = true))
      (s.notifyMonitors m) := by
  refine ((notifyMonitors_aside h hplain).and
    (notifyMonitors_survivors m h.monitorsNodup)).mono fun t ht => ⟨ht.1, fun hstrict => ?_⟩
  obtain ⟨haside, -, -, hmonitors⟩ := ht
  refine haside.toLoses.live (hlive hstrict) not_false fun hmem => ?_
  rw [hmonitors]
  exact mem_survivors hmem _ (htells hstrict hmem)

/-! ## Single messages -/

section Messages

variable {s : Scheduler} {cid : ℕ}

theorem configure_still (hlive : mode.strict → s.live cid = true) :
    Ends (tolerated mode) (Still s) (s.configure cid) := by
  unfold configure
  refine (touch_ends hlive).bind fun _ _ => ?_
  refine .ite (fun _ => ?_) fun _ => .pure (.refl s)
  refine (send_still hlive rfl).bind fun r hr => ?_
  exact .pure hr.1

theorem handleRelogin_handled (m : LoginMsg) (h : Facts mode [] s)
    (hlive : mode.strict → s.live cid = true) :
    Ends (tolerated mode) (Handled mode lost cid s) (s.handleRelogin cid m) := by
  unfold handleRelogin
  refine (touch_ends hlive).bind fun _ _ => ?_
  have hput := Still.put (s := s) (c := { s.conn cid with
    compilerVersions := m.envs, busyInstalling := 0 }) cid h.peers.cids rfl rfl rfl
  refine (configure_still fun hstrict => hput.live ▸ hlive hstrict).bind fun t ht => ?_
  exact .pure (.still (hput.trans ht) h false hlive)

theorem handlePing_still (h : Facts mode [] s) (hlive : mode.strict → s.live cid = true) :
    Ends (tolerated mode) (fun r => Still s r.1 ∧ r.2 = true) (s.handlePing cid) := by
  unfold handlePing
  refine (touch_ends hlive).bind fun _ _ => ?_
  exact .pure ⟨(Still.asked s).trans (.put cid h.peers.cids rfl rfl rfl), rfl⟩

theorem handlePing_handled (h : Facts mode [] s) (hlive : mode.strict → s.live cid = true) :
    Ends (tolerated mode) (Handled mode lost cid s) (s.handlePing cid) :=
  (handlePing_still h hlive).mono fun r hr => .still hr.1 h r.2 hlive

theorem setClientCount_still (count : UInt32) (h : Peers extra s)
    (hlive : mode.strict → s.live cid = true) :
    Ends (tolerated mode) (Still s) (s.setClientCount cid count) := by
  unfold setClientCount
  refine (touch_ends hlive).bind fun _ _ => ?_
  exact .pure (.put cid h.cids rfl rfl rfl)

theorem handleStats_handled (m : StatsMsg) (h : Facts mode [] s)
    (hlive : mode.strict → s.live cid = true) :
    Ends (tolerated mode) (Handled mode lost cid s) (s.handleStats cid m) := by
  unfold handleStats
  have hping : Ends (tolerated mode) (Still s)
      (if (s.conn cid).protocol < 25 then Prod.fst <$> s.handlePing cid else pure s) := by
    refine .ite (fun _ => ?_) fun _ => .pure (.refl s)
    exact (handlePing_still h hlive).map fun r hr => hr.1
  refine hping.bind fun t ht => ?_
  have hfacts := ht.toAside.facts h
  have htlive : mode.strict → t.live cid = true := fun hstrict => ht.live ▸ hlive hstrict
  refine .ite (fun hcss => ?_) fun _ => .pure (.still ht h false hlive)
  refine (touch_ends htlive).bind fun _ _ => ?_
  have hput := ht.trans (.put (c := { t.conn cid with
    load := m.load, clientCount := m.clientCount.toInt32.toInt }) cid hfacts.peers.cids rfl rfl rfl)
  have hputfacts := hput.toAside.facts h
  refine (handleMonitorStats_aside hputfacts.peers fun hstrict =>
    hput.live ▸ hlive hstrict).bind fun u hu => ?_
  have haside := hput.toAside.trans hu
  refine .pure (.of_calms (.aside haside h) fun hstrict _ => ?_)
  rw [ht.same] at hcss
  refine haside.toLoses.live (hlive hstrict) not_false fun hmonitor => ?_
  exact absurd hmonitor (h.peers.not_monitor (h.peers.css cid hcss) (by decide))

theorem blacklistCompileServer_still {other : ℕ} (m : BlacklistHostEnvMsg) (h : Facts mode [] s)
    (hlive : mode.strict → s.live cid = true) (hother : other ∈ s.css) :
    Ends (tolerated mode) (Still s) (blacklistCompileServer cid m s other) := by
  unfold blacklistCompileServer
  refine (touch_ends fun _ => (h.peers.css other hother).live).bind fun _ _ => ?_
  refine (touch_ends hlive).bind fun _ _ => ?_
  refine .ite (fun _ => ?_) fun _ => .pure (.refl s)
  refine .pure (.put_of_keeps cid h.peers.cids rfl rfl ?_)
  refine .put_of_subset cid h.peers.cids rfl fun x _ => ?_
  simp only [CompileServer.against]
  by_cases hx : x = other
  · subst hx
    simp
  · simp [AList.lookup_insert_ne hx]

theorem handleBlacklistHostEnv_handled (m : BlacklistHostEnvMsg) (h : Facts mode [] s)
    (hlive : mode.strict → s.live cid = true) :
    Ends (tolerated mode) (Handled mode lost cid s) (s.handleBlacklistHostEnv cid m) := by
  unfold handleBlacklistHostEnv
  refine (still_loop h fun t other hother ht hstill => ?_).bind fun t ht =>
    .pure (.still ht h true hlive)
  refine blacklistCompileServer_still m ht (fun hstrict => hstill.live ▸ hlive hstrict) ?_
  rwa [hstill.same]

theorem Calms.renumber (id : UInt32) (h : Facts mode [] s) :
    Calms mode lost s { s with newJobId := id } where
  facts := ⟨{ h.peers with }, h.tasks.of_eq rfl rfl rfl rfl rfl⟩
  loses := { (Aside.refl s).toLoses.mono fun _ hf => hf.elim with }
  calm := .single
    ⟨⟨{ h.peers with }, h.tasks.of_eq rfl rfl rfl rfl rfl⟩, .inl ⟨rfl, rfl, rfl, rfl, .refl _⟩⟩

theorem told_handled {m : Msg} (h : Facts mode [] s) (hlive : mode.strict → s.live cid = true)
    (htells : mode.strict → s.Tells cid) (hplain : plain m = true) :
    Ends (tolerated mode) (Handled mode lost cid s) (do return (← s.notifyMonitors m, true)) := by
  refine (notifyMonitors_stays h.peers hlive htells hplain).bind fun t ht => .pure ?_
  exact .of_calms (.aside ht.1 h) fun hstrict _ => ht.2 hstrict

theorem handleLocalJob_handled (m : JobLocalBeginMsg) (h : Facts mode [] s)
    (hlive : mode.strict → s.live cid = true) (htells : mode.strict → s.Tells cid) :
    Ends (tolerated mode) (Handled mode lost cid s) (s.handleLocalJob cid m) := by
  unfold handleLocalJob
  refine (touch_ends hlive).bind fun _ _ => ?_
  have hput := Still.put (s := s) (c := { s.conn cid with
    clientLocalMap := (s.conn cid).clientLocalMap.insert m.id ⟨s.newJobId + 1, m.fulljob⟩ })
    cid h.peers.cids rfl rfl rfl
  have hcalms : Calms mode lost s _ := (Calms.aside hput.toAside h).trans
    (.renumber (s.newJobId + 1) (hput.toAside.facts h))
  refine (told_handled hcalms.facts (fun hstrict => ?_) (fun hstrict => ?_) rfl).mono
    fun r hr => .after hcalms hr
  · exact hput.live ▸ hlive hstrict
  · exact htells hstrict

theorem handleLocalJobDone_handled (id : UInt32) (h : Facts mode [] s)
    (hlive : mode.strict → s.live cid = true) (htells : mode.strict → s.Tells cid) :
    Ends (tolerated mode) (Handled mode lost cid s) (s.handleLocalJobDone cid id) := by
  unfold handleLocalJobDone
  refine (touch_ends hlive).bind fun _ _ => ?_
  refine (notifyMonitors_stays h.peers hlive htells rfl).bind fun t ht => ?_
  have hfacts := ht.1.facts h
  refine (touch_ends ht.2).bind fun _ _ => .pure ?_
  refine .after (.aside ht.1 h) (.still (.put cid hfacts.peers.cids ?_ ?_ ?_) hfacts true ht.2) <;>
    rfl

theorem findJob_mem {id : UInt32} {ptr : ℕ} (h : s.findJob id = some ptr) : (id, ptr) ∈ s.jobs := by
  obtain ⟨e, he, rfl⟩ := Option.map_eq_some_iff.mp h
  have hid := List.find?_some he
  rw [decide_eq_true_eq] at hid
  rw [← hid]
  exact List.mem_of_find?_eq_some he

theorem Calms.rewrite {j : Job} (ptr : ℕ) (h : Facts mode [] s) (hptr : (s.job ptr).ptr = ptr)
    (hcore : j.core = (s.job ptr).core) : Calms mode lost s (s.putJob j) := by
  have hheap : (s.putJob j).heap.map Job.core = s.heap.map Job.core :=
    putJob_map _ ptr h.tasks.ptrs ((congrArg (·.1.1) hcore).trans hptr) hcore
  have hfacts : Facts mode [] (s.putJob j) :=
    ⟨{ h.peers with }, h.tasks.rewrite (ties_of_core hheap) rfl rfl rfl rfl⟩
  refine ⟨⟨hfacts, ?_⟩, .single ⟨hfacts, .inl ⟨hheap, rfl, rfl, rfl, .refl _⟩⟩⟩
  exact { (Aside.refl s).toLoses.mono fun _ hf => hf.elim with }

theorem handleJobBegin_handled (m : JobBeginMsg) (h : Facts mode [] s)
    (hlive : mode.strict → s.live cid = true) :
    Ends (tolerated mode) (Handled mode lost cid s) (s.handleJobBegin cid m) := by
  unfold handleJobBegin
  cases hfind : s.findJob m.jobId with
  | none => exact .pure (.still (.refl s) h false hlive)
  | some ptr =>
    refine touchJob_ends.bind fun _ hjob => ?_
    refine .ite (fun _ => .pure (.still (.refl s) h false hlive)) fun hserver => ?_
    rw [not_not] at hserver
    obtain ⟨hmem, hptr, -, hhome⟩ := (h.tasks.jobs _ (findJob_mem hfind)).job h.tasks.ptrs
    refine (setClientCount_still m.clientCount h.peers hlive).bind fun t ht => ?_
    have hfacts := ht.toAside.facts h
    have hsame : t.job ptr = s.job ptr := by simp only [job, ht.heap]
    have hrewrite : Calms mode lost t (t.putJob { t.job ptr with state := .compiling }) :=
      .rewrite ptr hfacts (by rw [hsame, hptr]) rfl
    refine (notifyMonitors_aside hrewrite.facts.peers rfl).bind fun u hu => ?_
    have hcalms := ((Calms.aside ht.toAside h).trans hrewrite).trans (.aside hu hrewrite.facts)
    have hentry : (m.jobId, ptr) ∈ u.jobs := by
      rw [hu.jobs]
      exact ht.jobs ▸ findJob_mem hfind
    obtain ⟨-, -, -, huhome⟩ := (hcalms.facts.tasks.jobs _ hentry).job hcalms.facts.tasks.ptrs
    have hcss : u.css = s.css := hu.same.trans ht.same
    have hulive : mode.strict → u.live cid = true := by
      intro hstrict
      have hcid := (hhome (mode.strict_tame hstrict)).2 cid hserver
      rw [Home, ← hcss] at hcid
      exact Home.live hcalms.facts.peers hcid
    refine (touch_ends fun hstrict =>
      (huhome (mode.strict_tame hstrict)).1.live hcalms.facts.peers).bind fun _ _ => ?_
    refine (touch_ends hulive).bind fun _ _ => .pure ?_
    exact .of_calms (hcalms.mono fun _ hx => .inl hx) fun hstrict _ => hulive hstrict

end Messages

end Scheduler

end Icecream.IceccScheduler
