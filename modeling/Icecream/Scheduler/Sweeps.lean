import Icecream.Scheduler.Activity
import Icecream.Scheduler.Loop

/-!
# What the main loop does by itself

Servers and control connections that have been silent are closed, new connections are
taken in, and the scheduler closes everybody when there is a better one.
-/

namespace Icecream.IceccScheduler

open Icecream.Comm
open Icecream.Fault

namespace Scheduler

variable {mode : Mode} {lost : ℕ → Prop} {s : Scheduler} {cid : ℕ}

/-! ## `prune_servers` -/

/-- Each element of `l` may be closed while the loop is at it. -/
theorem closing_loop {f : Scheduler → ℕ → Except Fault Scheduler} {l : List ℕ}
    (There : Scheduler → ℕ → Prop) (h : Facts mode [] s) (hnodup : l.Nodup)
    (hthere : ∀ x ∈ l, There s x)
    (hstay : ∀ t u x y, Calms mode (· = x) t u → There t y → y ≠ x → There u y)
    (hf : ∀ t x, Facts mode [] t → There t x → Ends (tolerated mode) (Calms mode (· = x) t) (f t x)) :
    Ends (tolerated mode) (Calms mode (· ∈ l) s) (l.foldlM f s) := by
  refine (Ends.foldlM (fun rest t => Calms mode (· ∈ l) s t ∧ rest ⊆ l ∧ rest.Nodup ∧
    ∀ x ∈ rest, There t x) ⟨.refl h, fun _ hx => hx, hnodup, hthere⟩ ?_).mono fun t ht => ht.1
  intro x rest t hinv
  obtain ⟨hcalms, hrest, hnodup, hthere⟩ := hinv
  obtain ⟨hnotin, hnodup⟩ := List.nodup_cons.mp hnodup
  have hx : x ∈ l := hrest List.mem_cons_self
  refine (hf t x hcalms.facts (hthere x List.mem_cons_self)).mono fun u hu => ?_
  refine ⟨hcalms.trans (hu.mono fun y hy => hy ▸ hx), fun y hy => hrest (List.mem_cons_of_mem _ hy),
    hnodup, fun y hy => ?_⟩
  refine hstay t u x y hu (hthere y (List.mem_cons_of_mem _ hy)) ?_
  rintro rfl
  exact hnotin hy

theorem pruneControl_calms (h : Facts mode [] s) (hcid : cid ∈ s.controls) :
    Ends (tolerated mode) (Calms mode (· = cid) s) (s.pruneControl cid) := by
  have hlive := (h.peers.controls cid hcid).live
  unfold pruneControl
  refine (touch_ends fun _ => hlive).bind fun _ _ => ?_
  refine .ite (fun _ => ?_) fun _ => .pure (.refl h)
  exact handleEnd_calms h (fun _ => hlive) rfl

theorem updateInConnectivity_still (acceptingIn : Bool) (h : Facts mode [] s) :
    Still s (s.updateInConnectivity cid acceptingIn) := by
  have hasked : Facts mode [] s.asked := (Still.asked s).toAside.facts h
  unfold updateInConnectivity
  split
  · exact (Still.asked s).trans (.put cid hasked.peers.cids rfl rfl rfl)
  · exact (Still.asked s).trans (.put cid hasked.peers.cids rfl rfl rfl)

theorem startInConnectionTest_still (h : Facts mode [] s) :
    Still s (s.startInConnectionTest cid) := by
  have hput : ∀ t, Still s t → ∀ time, Still s (t.asked.put { t.conn cid with
      lastConnStartTime := time }) := by
    intro t ht time
    have hasked := ht.trans (.asked t)
    exact hasked.trans (.put cid (hasked.toAside.facts h).peers.cids rfl rfl rfl)
  have hconnecting : Still s (s.asked.put { s.conn cid with connecting := true }) :=
    (Still.asked s).trans (.put cid ((Still.asked s).toAside.facts h).peers.cids rfl rfl rfl)
  have hfacts := hconnecting.toAside.facts h
  simp only [startInConnectionTest]
  split
  · exact .refl s
  · refine hput _ ?_ _
    split
    · exact hconnecting.trans (updateInConnectivity_still false hfacts)
    · split
      · exact hconnecting.trans (updateInConnectivity_still _ hfacts)
      · exact hconnecting

theorem pingServer_calms (h : Facts mode [] s) (hlive : s.live cid = true) :
    Ends (tolerated mode) (Calms mode (· = cid) s) (s.pingServer cid) := by
  unfold pingServer
  refine .ite (fun _ => .pure (.refl h)) fun _ => ?_
  refine .ite (fun _ => handleEnd_calms h (fun _ => hlive) rfl) fun _ => ?_
  have hput := Still.put (s := s) (c := { s.conn cid with maxJobs := -(s.conn cid).maxJobs }) cid
    h.peers.cids rfl rfl rfl
  refine (send_still (fun _ => hput.live.trans hlive) rfl).bind fun r hr => ?_
  have hsent := hput.trans hr.1
  have hfacts := hsent.toAside.facts h
  refine .ite (fun _ => .pure ?_) fun _ => ?_
  · have hasked := (Still.asked r.1).toAside.facts hfacts
    have hstill := hsent.trans (.asked r.1)
    refine .aside (hstill.trans (.put cid hasked.peers.cids ?_ ?_ ?_)).toAside h <;> rfl
  · have hend : Ends (tolerated mode) (Calms mode (· = cid) r.1) (r.1.handleEnd cid) :=
      handleEnd_calms hfacts (fun _ => hsent.live.trans hlive) rfl
    exact hend.mono fun t ht => .trans (.aside hsent.toAside h) ht

theorem pruneServer_calms (h : Facts mode [] s) (hcid : cid ∈ s.css) :
    Ends (tolerated mode) (Calms mode (· = cid) s) (s.pruneServer cid) := by
  have hlive := (h.peers.css cid hcid).live
  unfold pruneServer
  refine (touch_ends fun _ => hlive).bind fun _ _ => ?_
  have htest : Still s (s.startInConnectionTest cid) := startInConnectionTest_still h
  generalize s.startInConnectionTest cid = t at htest
  have hfacts := htest.toAside.facts h
  have htlive : t.live cid = true := htest.live.trans hlive
  have hafter : ∀ u, Calms mode (· = cid) t u → Calms mode (· = cid) s u := fun u hu =>
    .trans (.aside htest.toAside h) hu
  refine .ite (fun _ => ?_) fun _ => ?_
  · have hend : Ends (tolerated mode) (Calms mode (· = cid) t) (t.handleEnd cid) :=
      handleEnd_calms hfacts (fun _ => htlive) rfl
    exact hend.mono hafter
  · refine .ite (fun _ => .pure (.aside htest.toAside h)) fun _ => ?_
    exact (pingServer_calms hfacts htlive).mono hafter

theorem pruneServers_calms (h : Facts mode [] s) :
    Ends (tolerated mode) (Calms mode (fun _ => True) s) s.pruneServers := by
  unfold pruneServers
  have hfacts : Facts mode [] s.asked := (Still.asked s).toAside.facts h
  refine (closing_loop (fun t x => x ∈ t.controls) hfacts hfacts.peers.controlsNodup
    (fun _ hx => hx) (fun t u x y hu hy hne => hu.loses.controlsKept y hy hne)
    fun t x ht hx => pruneControl_calms ht hx).bind fun t ht => ?_
  refine (closing_loop (fun t x => x ∈ t.css) ht.facts ht.facts.peers.cssNodup
    (fun _ hx => hx) (fun u v x y hv hy hne => hv.loses.cssKept y hy hne)
    fun u x hu hx => pruneServer_calms hu hx).mono fun u hu => ?_
  exact ((Calms.aside (.asked s) h).trans (ht.mono fun _ _ => trivial)).trans
    (hu.mono fun _ _ => trivial)

/-! ## Another scheduler -/

theorem endServers_calms {fuel : ℕ} (h : Facts mode [] s) :
    Ends (tolerated mode) (Calms mode (fun _ => True) s) (endServers fuel s) := by
  induction fuel generalizing s with
  | zero => exact .pure (.refl h)
  | succ fuel ih =>
    unfold endServers
    cases hcss : s.css with
    | nil => exact .pure (.refl h)
    | cons cid rest =>
      have hlive := (h.peers.css cid (by simp [hcss])).live
      have hend : Ends (tolerated mode) (Calms mode (fun _ => True) s) (s.handleEnd cid) :=
        handleEnd_calms h (fun _ => hlive) trivial
      exact hend.bind fun t ht => (ih ht.facts).mono fun u hu => ht.trans hu

theorem endMonitors_calms {fuel : ℕ} (h : Facts mode [] s) :
    Ends (tolerated mode) (Calms mode (fun _ => True) s) (endMonitors fuel s) := by
  induction fuel generalizing s with
  | zero => exact .pure (.refl h)
  | succ fuel ih =>
    unfold endMonitors
    cases hmonitors : s.monitors with
    | nil => exact .pure (.refl h)
    | cons cid rest =>
      have hlive := (h.peers.monitors cid (by simp [hmonitors])).live
      have hend : Ends (tolerated mode) (Calms mode (fun _ => True) s) (s.handleEnd cid) :=
        handleEnd_calms h (fun _ => hlive) trivial
      exact hend.bind fun t ht => (ih ht.facts).mono fun u hu => ht.trans hu

theorem disconnectAll_calms (h : Facts mode [] s) :
    Ends (tolerated mode) (Calms mode (fun _ => True) s) s.disconnectAll := by
  unfold disconnectAll
  exact (endServers_calms h).bind fun t ht =>
    (endMonitors_calms ht.facts).mono fun u hu => ht.trans hu

theorem handleDatagram_calms (buf : Bytes) (h : Facts mode [] s) :
    Ends (tolerated mode) (Calms mode (fun _ => True) s) (s.handleDatagram buf) := by
  unfold handleDatagram handleSchedulerAnnounce
  refine .ite (fun _ => ?_) fun _ => .pure (.refl h)
  exact .ite (fun _ => disconnectAll_calms h) fun _ => .pure (.refl h)

/-! ## New connections -/

theorem mem_insertFd {fd x : ℕ} {l : List (ℕ × ℕ)} {e : ℕ × ℕ} :
    e ∈ insertFd fd x l ↔ e = (fd, x) ∨ (e ∈ l ∧ e.1 ≠ fd) := by
  simp only [insertFd, List.mem_append, List.mem_filter, List.mem_cons, decide_eq_true_eq]
  constructor
  · rintro (⟨hmem, hlt⟩ | rfl | ⟨hmem, hlt⟩)
    · exact .inr ⟨hmem, hlt.ne⟩
    · exact .inl rfl
    · exact .inr ⟨hmem, hlt.ne'⟩
  · rintro (rfl | ⟨hmem, hne⟩)
    · exact .inr (.inl rfl)
    · rcases Nat.lt_or_gt_of_ne hne with hlt | hlt
      · exact .inl ⟨hmem, hlt⟩
      · exact .inr (.inr ⟨hmem, hlt⟩)

/-- The record of a new connection -/
structure Fresh (s : Scheduler) (c : CompileServer) : Prop where
  cid : c.cid = s.newCid
  fd : ∀ d ∈ s.conns, d.fd ≠ c.fd
  jobList : c.jobList = []
  blacklist : c.blacklist = ∅
  kind : (c.state = .connected ∧ c.type = .unknown) ∨ (c.state = .loggedIn ∧ c.type = .line)

theorem addConn_kinds (s : Scheduler) (c : CompileServer) :
    (s.addConn c).kinds = c.kind :: s.kinds := rfl

theorem Fresh.peers {c : CompileServer} (hc : s.Fresh c) (h : Peers [] s) :
    Peers [] (s.addConn c) := by
  have hhas : ∀ x t, s.Has x t → (s.addConn c).Has x t := by
    rintro x t ⟨k, hk, hsame⟩
    exact ⟨k, List.mem_cons_of_mem _ hk, hsame⟩
  have hnew : ∀ k ∈ s.kinds, k.cid ≠ c.cid := by
    intro k hk
    have hlt := h.fresh k hk
    rw [hc.cid]
    exact hlt.ne
  constructor
  · rw [addConn_kinds, List.map_cons, List.nodup_cons]
    refine ⟨fun hmem => ?_, h.cids⟩
    obtain ⟨k, hk, hsame⟩ := List.mem_map.mp hmem
    exact hnew k hk hsame
  · rw [addConn_kinds, List.map_cons, List.nodup_cons]
    refine ⟨fun hmem => ?_, h.fds⟩
    obtain ⟨k, hk, hsame⟩ := List.mem_map.mp hmem
    obtain ⟨d, hd, rfl⟩ := List.mem_map.mp hk
    exact hc.fd d hd hsame
  · intro k hk
    change k.cid < s.newCid + 1
    rcases List.mem_cons.mp hk with rfl | hk
    · exact hc.cid ▸ Nat.lt_succ_self _
    · exact (h.fresh k hk).trans (Nat.lt_succ_self _)
  · exact fun x hx => hhas x _ (h.css x hx)
  · simp
  · exact fun x hx => hhas x _ (h.monitors x hx)
  · exact fun x hx => hhas x _ (h.controls x hx)
  · exact h.cssNodup
  · exact h.monitorsNodup
  · exact h.controlsNodup
  · intro e he
    rcases mem_insertFd.mp he with rfl | ⟨he, -⟩
    · refine ⟨c.kind, List.mem_cons_self, rfl, rfl, fun hstate hmonitor => ?_⟩
      rcases hc.kind with ⟨hs, -⟩ | ⟨-, ht⟩
      · exact ConnState.noConfusion (hs.symm.trans hstate)
      · exact ConnType.noConfusion (ht.symm.trans hmonitor)
    · obtain ⟨k, hk, hrest⟩ := h.entries e he
      exact ⟨k, List.mem_cons_of_mem _ hk, hrest⟩
  · intro k hk hstate
    rcases List.mem_cons.mp hk with rfl | hk
    · rcases hc.kind with ⟨hs, -⟩ | ⟨-, ht⟩
      · exact ConnState.noConfusion (hs.symm.trans hstate)
      · have htype : c.kind.type = .line := ht
        simp [htype]
    · exact h.loggedIn k hk hstate

theorem Fresh.facts {c : CompileServer} (hc : s.Fresh c) (h : Facts mode [] s) :
    Facts mode [] (s.addConn c) := ⟨hc.peers h.peers, h.tasks.of_eq rfl rfl rfl rfl rfl⟩

theorem Fresh.raw {c : CompileServer} (hc : s.Fresh c) (h : s.Raw) : (s.addConn c).Raw := by
  intro k hk hstate
  rcases List.mem_cons.mp hk with rfl | hk
  · rcases hc.kind with ⟨-, ht⟩ | ⟨hs, -⟩
    · exact ht
    · exact ConnState.noConfusion (hs.symm.trans hstate)
  · exact h k hk hstate

end Scheduler

end Icecream.IceccScheduler
