import Icecream.Scheduler.Abiding

/-!
# Changes that leave the gauges alone

Apart from the end of daemons, few changes concern `busyInstalling`, `clientCount` and
`lastPickedId`. An invariant about them, about jobs and about the queue does not see what the
connections count.
-/

namespace Icecream.IceccScheduler

open Icecream.Comm
open Icecream.Fault

namespace Scheduler

/-- `Inv` is kept by the changes that leave the gauges alone. -/
structure Lasting (Inv : Scheduler → Prop) : Prop where
  aside : ∀ {s t : Scheduler}, Inv s → t.conns = s.conns → t.heap = s.heap →
    t.newCid = s.newCid → t.newPtr = s.newPtr → t.host = s.host →
    waiting t.jobRequests ⊆ waiting s.jobRequests → Inv t
  update : ∀ {s : Scheduler} (c : CompileServer), Inv s →
    c.gauges = (s.conn c.cid).gauges → Inv (s.put c)
  free : ∀ {s : Scheduler} (cid : ℕ), Inv s → Inv (s.free cid)
  join : ∀ {s : Scheduler} (c : CompileServer), Inv s → c.cid = s.newCid →
    c.gauges = (0, 0, 0) → Inv (s.addConn c)
  relabel : ∀ {s : Scheduler} (j : Job), Inv s → s.liveJob j.ptr = true →
    j.ties = (s.job j.ptr).ties → Inv (s.putJob j)
  create : ∀ {s t : Scheduler} (j : Job), Inv s → j.ptr = s.newPtr → j.server = none →
    s.live j.submitter = true → t.conns = s.conns → t.heap = j :: s.heap →
    t.newCid = s.newCid → t.newPtr = s.newPtr + 1 → t.host = s.host →
    waiting t.jobRequests ⊆ (j.submitter, j.ptr) :: waiting s.jobRequests → Inv t
  remove : ∀ {s : Scheduler} (ptr : ℕ), Inv s →
    Inv { s with heap := Records.remove Job.ptr ptr s.heap }

namespace Lasting

variable {Inv : Scheduler → Prop} (h : Lasting Inv) {s : Scheduler}

include h

theorem modify (hs : Inv s) (cid : ℕ) (c : CompileServer) (hcid : c.cid = cid)
    (hgauges : c.gauges = (s.conn cid).gauges) : Inv (s.put c) := by
  subst hcid
  exact h.update c hs hgauges

theorem elsewhere {t : Scheduler} (hs : Inv s) (hbody : t.body = s.body) : Inv t := by
  simp only [body, Prod.mk.injEq] at hbody
  obtain ⟨hconns, hheap, hnewCid, hnewPtr, hhost, hrequests⟩ := hbody
  exact h.aside hs hconns hheap hnewCid hnewPtr hhost (hrequests ▸ List.Subset.refl _)

theorem addJobStats (hs : Inv s) (j : Job) (m : JobDoneMsg) :
    Ends (fun _ => True) Inv (s.addJobStats j m) :=
  addJobStats_put (fun c hs hgauges _ => h.update c hs hgauges) (fun _ _ hs => h.elsewhere hs rfl)
    hs j m

/-- What the connections count may change. -/
theorem abiding : Abiding Inv where
  aside hs hconns hheap hnewCid hnewPtr hhost _ hqueue :=
    h.aside hs hconns hheap hnewCid hnewPtr hhost hqueue
  update c hs hgauges _ := h.update c hs hgauges
  free cid hs := h.free cid hs
  join c hs hcid hgauges _ := h.join c hs hcid hgauges
  relabel j hs hlive hties := h.relabel j hs hlive hties
  create j hs hptr hserver hlive hconns hheap hnewCid hnewPtr hhost _ hqueue := by
    refine h.create j (h.modify hs j.submitter _ ?_ ?_) hptr hserver ?_ hconns hheap hnewCid hnewPtr
      hhost hqueue
    · exact conn_cid _ j.submitter
    · rfl
    · rwa [put_live]
  remove {s} ptr hs _ _ := h.remove ptr (h.modify hs _ _ (conn_cid s _) rfl)
  stats j m hs := h.addJobStats hs j m

theorem freeJob (hs : Inv s) (ptr : ℕ) : Ends (fun _ => True) Inv (s.freeJob ptr) := by
  unfold Scheduler.freeJob
  refine (touch_any s _).bind fun _ _ => .pure ?_
  exact h.remove ptr (h.modify hs _ _ (conn_cid s _) rfl)

end Lasting

end Scheduler

end Icecream.IceccScheduler
