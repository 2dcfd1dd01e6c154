import Icecream.Scheduler.Placing

/-!
# Logins

A connection becomes a daemon or a monitor. Until it is logged in it is in none of the
containers.
-/

namespace Icecream.IceccScheduler

open Icecream.Comm
open Icecream.Fault

namespace Scheduler

variable {mode : Mode} {lost : ℕ → Prop} {s : Scheduler} {cid : ℕ}

/-- A connection that is not logged in is not known to be anything. -/
def Raw (s : Scheduler) : Prop := ∀ k ∈ s.kinds, k.state = .connected → k.type = .unknown

theorem Raw.kept {t : Scheduler} (h : s.Raw) (hkinds : t.kinds ⊆ s.kinds) : t.Raw :=
  fun k hk hstate => h k (hkinds hk) hstate

/-! ## Records of connections that are in no container -/

theorem mem_put_kinds {c : CompileServer} {k : Kind} :
    k ∈ (s.put c).kinds ↔ (k = c.kind ∧ s.live c.cid = true) ∨ (k ∈ s.kinds ∧ k.cid ≠ c.cid) := by
  rw [live_iff, map_cid]
  simp only [kinds, put, List.mem_map (f := CompileServer.kind), Records.mem_replace]
  constructor
  · rintro ⟨d, ⟨rfl, hlive⟩ | ⟨hd, hne⟩, rfl⟩
    · exact .inl ⟨rfl, hlive⟩
    · exact .inr ⟨⟨d, hd, rfl⟩, hne⟩
  · rintro (⟨rfl, hlive⟩ | ⟨⟨d, hd, rfl⟩, hne⟩)
    · exact ⟨c, .inl ⟨rfl, hlive⟩, rfl⟩
    · exact ⟨d, .inr ⟨hd, hne⟩, rfl⟩

theorem put_fds {c : CompileServer} (hnd : (s.kinds.map Kind.cid).Nodup)
    (hfd : c.fd = (s.conn c.cid).fd) :
    (s.put c).kinds.map Kind.fd = s.kinds.map Kind.fd := by
  simp only [kinds, List.map_map]
  exact put_map (Kind.fd ∘ CompileServer.kind) hnd hfd

theorem put_cids (c : CompileServer) :
    (s.put c).kinds.map Kind.cid = s.kinds.map Kind.cid := by
  rw [map_cid, map_cid]
  simp only [put, Records.map_key_replace]

/-- A record that is rewritten but stays what its containers take it for -/
theorem Peers.renew {c : CompileServer} (h : Peers [] s) (hfd : c.fd = (s.conn c.cid).fd)
    (hcss : c.cid ∈ s.css → c.type = .daemon) (hmonitors : c.cid ∈ s.monitors → c.type = .monitor)
    (hcontrols : c.cid ∈ s.controls → c.type = .line)
    (hentries : c.state = .loggedIn → c.type = .monitor → ∀ e ∈ s.fd2cs, e.2 ≠ c.cid)
    (hlogin : c.state = .loggedIn → c.type ≠ .unknown ∧ (c.type = .daemon → c.cid ∈ s.css)) :
    Peers [] (s.put c) := by
  have hhas : ∀ x t, s.Has x t → (x = c.cid → c.type = t) → (s.put c).Has x t := by
    rintro x t ⟨k, hk, rfl, rfl⟩ hsame
    by_cases hx : k.cid = c.cid
    · exact ⟨c.kind, mem_put_kinds.mpr (.inl ⟨rfl, hx ▸ live_iff.mpr (List.mem_map_of_mem hk)⟩),
        hx.symm, hsame hx⟩
    · exact ⟨k, mem_put_kinds.mpr (.inr ⟨hk, hx⟩), rfl, rfl⟩
  constructor
  · rw [put_cids]
    exact h.cids
  · rw [put_fds h.cids hfd]
    exact h.fds
  · intro k hk
    rcases mem_put_kinds.mp hk with ⟨rfl, hlive⟩ | ⟨hk, -⟩
    · obtain ⟨k', hk', hcid⟩ := List.mem_map.mp (live_iff.mp hlive)
      exact (show c.kind.cid = k'.cid from hcid.symm) ▸ h.fresh k' hk'
    · exact h.fresh k hk
  · exact fun x hx => hhas x _ (h.css x hx) (by rintro rfl; exact hcss hx)
  · simp
  · exact fun x hx => hhas x _ (h.monitors x hx) (by rintro rfl; exact hmonitors hx)
  · exact fun x hx => hhas x _ (h.controls x hx) (by rintro rfl; exact hcontrols hx)
  · exact h.cssNodup
  · exact h.monitorsNodup
  · exact h.controlsNodup
  · intro e he
    obtain ⟨k, hk, hcid, hkfd, hstate⟩ := h.entries e he
    by_cases hx : k.cid = c.cid
    · have hlive : s.live c.cid = true := hx ▸ live_iff.mpr (List.mem_map_of_mem hk)
      refine ⟨c.kind, mem_put_kinds.mpr (.inl ⟨rfl, hlive⟩), hx.symm.trans hcid, ?_, ?_⟩
      · have hkind := conn_kind h.cids hk
        rw [hx] at hkind
        exact hfd.trans ((congrArg Kind.fd hkind).trans hkfd)
      · exact fun hlogged hmonitor =>
          hentries hlogged hmonitor e he (hcid.symm.trans hx)
    · exact ⟨k, mem_put_kinds.mpr (.inr ⟨hk, hx⟩), hcid, hkfd, hstate⟩
  · intro k hk hstate
    rcases mem_put_kinds.mp hk with ⟨rfl, -⟩ | ⟨hk, -⟩
    · exact ⟨(hlogin hstate).1, fun ht => .inl ((hlogin hstate).2 ht)⟩
    · exact h.loggedIn k hk hstate

/-! ## What a connection changes besides itself -/

/-- Nobody but `cid` gets into a container, and nobody but `cid`, monitors and `lost`
gets out of `fd2cs`. -/
structure Grown (lost : ℕ → Prop) (cid : ℕ) (s t : Scheduler) : Prop where
  host : t.host = s.host
  settings : t.settings = s.settings
  newCid : t.newCid = s.newCid
  others : ∀ k ∈ t.kinds, k.cid ≠ cid → k ∈ s.kinds
  lives : ∀ x, t.live x = true → s.live x = true
  monitors : ∀ x ∈ t.monitors, x ∈ s.monitors ∨ x = cid
  css : ∀ x ∈ t.css, x ∈ s.css ∨ x = cid
  entries : ∀ e ∈ s.fd2cs, e.2 ≠ cid → ¬ lost e.2 → e.2 ∉ s.monitors → e ∈ t.fd2cs
  quiet : Quiet s t
  blacklists : ∀ x, t.live x = true → ∀ h ∈ t.css, h ≠ cid →
    (s.conn x).against h ⊆ (t.conn x).against h

theorem Grown.trans {t u : Scheduler} (h : Grown lost cid s t) (h' : Grown lost cid t u) :
    Grown lost cid s u where
  host := h'.host.trans h.host
  settings := h'.settings.trans h.settings
  newCid := h'.newCid.trans h.newCid
  others k hk hne := h.others k (h'.others k hk hne) hne
  lives x hx := h.lives x (h'.lives x hx)
  monitors x hx := (h'.monitors x hx).elim (h.monitors x) .inr
  css x hx := (h'.css x hx).elim (h.css x) .inr
  entries e he hne hlost hmonitor := by
    refine h'.entries e (h.entries e he hne hlost hmonitor) hne hlost fun hm => ?_
    exact (h.monitors e.2 hm).elim hmonitor hne
  quiet := h.quiet.trans h'.quiet
  blacklists x hx y hy hne := by
    have hback := (h'.css y hy).resolve_right hne
    exact List.Subset.trans (h.blacklists x (h'.lives x hx) y hback hne)
      (h'.blacklists x hx y hy hne)

theorem Loses.grown {t : Scheduler} (h : Loses (fun x => lost x ∨ x = cid) s t) :
    Grown lost cid s t where
  host := h.host
  settings := h.settings
  newCid := h.newCid
  others k hk _ := h.kinds.subset hk
  lives x hx := live_iff.mpr ((h.kinds.map _).subset (live_iff.mp hx))
  monitors x hx := .inl (h.monitors.subset hx)
  css x hx := .inl (h.css.subset hx)
  entries e he hne hlost hmonitor := h.entries e he (by simp [hne, hlost]) hmonitor
  quiet := h.quiet
  blacklists x hx y hy _ := h.blacklists x hx y hy

theorem Grown.refl (lost : ℕ → Prop) (cid : ℕ) (s : Scheduler) : Grown lost cid s s :=
  ((Aside.refl s).toLoses.mono fun _ hf => hf.elim).grown

structure Enters (mode : Mode) (lost : ℕ → Prop) (cid : ℕ) (s t : Scheduler) : Prop where
  facts : Facts mode [] t
  grown : Grown lost cid s t
  calm : Calm mode s t

namespace Enters

variable {t u : Scheduler}

theorem trans (h : Enters mode lost cid s t) (h' : Enters mode lost cid t u) :
    Enters mode lost cid s u := ⟨h'.facts, h.grown.trans h'.grown, h.calm.trans h'.calm⟩

theorem calms (h : Calms mode (fun x => lost x ∨ x = cid) s t) : Enters mode lost cid s t :=
  ⟨h.facts, h.loses.grown, h.calm⟩

theorem aside (h : Aside s t) (hs : Facts mode [] s) : Enters mode lost cid s t :=
  calms (.aside h hs)

/-- The record of `cid` is rewritten. -/
theorem put {c : CompileServer} (h : Facts mode [] s) (hcid : c.cid = cid)
    (hpeers : Peers [] (s.put c)) (hholdings : c.holdings = (s.conn cid).holdings)
    (hblacklist : c.blacklist = (s.conn cid).blacklist) :
    Enters mode lost cid s (s.put c) := by
  subst hcid
  have hfacts : Facts mode [] (s.put c) := ⟨hpeers, h.tasks.of_eq rfl rfl rfl rfl rfl⟩
  refine ⟨hfacts, ?_, .single ⟨hfacts, .inl ⟨rfl, rfl, rfl, rfl, ?_⟩⟩⟩
  · constructor
    · rfl
    · rfl
    · rfl
    · intro k hk hne
      exact ((mem_put_kinds.mp hk).resolve_left fun hc => hne (by rw [hc.1]; rfl)).1
    · intro x hx
      rwa [put_live] at hx
    · exact fun x hx => .inl hx
    · exact fun x hx => .inl hx
    · exact fun e he _ _ _ => he
    · exact .refl _
    · intro x _ y _ _
      by_cases hx : c.cid = x
      · subst hx
        rcases put_conn_self s c with hsame | hsame
        · rw [hsame, CompileServer.against, CompileServer.against, hblacklist]
          exact List.Subset.refl _
        · rw [hsame]
          exact List.Subset.refl _
      · rw [put_conn_of_ne hx]
        exact List.Subset.refl _
  · rw [put_map _ h.peers.cids hholdings]

end Enters

/-- `css.push_back(cs)` -/
theorem Facts.join (h : Facts mode [] s) (hcid : s.Has cid .daemon) (hnot : cid ∉ s.css) :
    Facts mode [] { s with css := s.css ++ [cid] } := by
  have hhome : ∀ x, Home [] s x → Home [] { s with css := s.css ++ [cid] } x := by
    rintro x (hx | hx)
    · exact .inl (List.mem_append_left _ hx)
    · exact .inr hx
  refine h.setCss hhome (fun x hx => ?_) h.peers.leaving ?_
  · rcases List.mem_append.mp hx with hx | hx
    · exact h.peers.css x hx
    · rwa [List.mem_singleton.mp hx]
  · rw [List.nodup_append]
    refine ⟨h.peers.cssNodup, by simp, fun x hx y hy => ?_⟩
    rw [List.mem_singleton.mp hy]
    rintro rfl
    exact hnot hx

theorem Enters.join (h : Facts mode [] s) (hcid : s.Has cid .daemon) (hnot : cid ∉ s.css) :
    Enters mode lost cid s { s with css := s.css ++ [cid] } := by
  have hfacts := h.join hcid hnot
  refine ⟨hfacts, ?_, .single ⟨hfacts, .inl ⟨rfl, rfl, rfl, rfl, .refl _⟩⟩⟩
  refine { Grown.refl lost cid s with
    css := fun x hx => ?_
    blacklists := fun _ _ _ _ _ => List.Subset.refl _ }
  simpa using List.mem_append.mp hx

/-- `monitors.push_back(cs)` -/
theorem Enters.watch (h : Facts mode [] s) (hcid : s.Has cid .monitor) (hnot : cid ∉ s.monitors) :
    Enters mode lost cid s { s with monitors := s.monitors ++ [cid] } := by
  have hfacts : Facts mode [] { s with monitors := s.monitors ++ [cid] } := by
    refine ⟨{ h.peers with monitors := fun x hx => ?_, monitorsNodup := ?_ },
      h.tasks.of_eq rfl rfl rfl rfl rfl⟩
    · rcases List.mem_append.mp hx with hx | hx
      · exact h.peers.monitors x hx
      · rwa [List.mem_singleton.mp hx]
    · rw [List.nodup_append]
      refine ⟨h.peers.monitorsNodup, by simp, fun x hx y hy => ?_⟩
      rw [List.mem_singleton.mp hy]
      rintro rfl
      exact hnot hx
  refine ⟨hfacts, ?_, .single ⟨hfacts, .inl ⟨rfl, rfl, rfl, rfl, .refl _⟩⟩⟩
  refine { Grown.refl lost cid s with
    monitors := fun x hx => ?_ }
  simpa using List.mem_append.mp hx

/-- `fd2cs.erase(cs->fd)` -/
theorem Enters.unlist (h : Facts mode [] s) (hlive : s.live cid = true) :
    Enters mode lost cid s { s with fd2cs := s.fd2cs.filter fun e => e.1 ≠ (s.conn cid).fd } := by
  have hfacts : Facts mode []
      { s with fd2cs := s.fd2cs.filter fun e => e.1 ≠ (s.conn cid).fd } :=
    ⟨{ h.peers with entries := fun e he => h.peers.entries e (List.mem_of_mem_filter he) },
      h.tasks.of_eq rfl rfl rfl rfl rfl⟩
  refine ⟨hfacts, ?_, .single ⟨hfacts, .inl ⟨rfl, rfl, rfl, rfl, .refl _⟩⟩⟩
  exact { Grown.refl lost cid s with
    entries := fun e he hne _ _ => (free_entries h.peers hlive he).mpr hne }

/-! ## Daemons -/

/-- The servers that the login takes for earlier connections of the same daemon -/
def Stale (s : Scheduler) (cid : ℕ) (m : LoginMsg) (x : ℕ) : Prop :=
  x ∈ s.css ∧ (s.conn cid).address = (s.conn x).address ∧
    (if m.nodename = [] then (s.conn cid).name else m.nodename) = (s.conn x).nodeName

theorem removeStale_loop (h : Facts mode [] s) (hcid : s.Has cid .daemon) (hnot : cid ∉ s.css)
    (hlost : ∀ x ∈ s.css, (s.conn cid).address = (s.conn x).address →
      (s.conn cid).nodeName = (s.conn x).nodeName → lost x) :
    Ends (tolerated mode) (Calms mode (fun x => lost x ∧ x ∈ s.css) s)
      (s.css.foldlM (removeStale cid) s) := by
  refine (Ends.foldlM (fun rest t => Calms mode (fun x => lost x ∧ x ∈ s.css) s t ∧ rest ⊆ s.css ∧
    rest.Nodup ∧ ∀ x ∈ rest, x ∈ t.css)
    ⟨.refl h, fun _ hx => hx, h.peers.cssNodup, fun _ hx => hx⟩ ?_).mono fun t ht => ht.1
  rintro other rest t ⟨hcalms, hrest, hnodup, hthere⟩
  have hother := hthere other List.mem_cons_self
  have hotherlive := (hcalms.facts.peers.css other hother).live
  have hlive : t.live cid = true := by
    refine hcalms.loses.live hcid.live (fun hx => hnot hx.2) fun hm => ?_
    exact absurd hm (h.peers.not_monitor hcid (by decide))
  unfold removeStale
  refine (touch_ends fun _ => hlive).bind fun _ _ => ?_
  refine (touch_ends fun _ => hotherlive).bind fun _ _ => ?_
  obtain ⟨hnotin, hnodup⟩ := List.nodup_cons.mp hnodup
  refine .ite (fun hstale => ?_) fun _ => ?_
  · have hkind := hcalms.loses.kind_eq h.peers.cids hlive
    have hotherkind := hcalms.loses.kind_eq h.peers.cids hotherlive
    simp only [CompileServer.kind, Kind.mk.injEq] at hkind hotherkind
    obtain ⟨-, -, -, -, haddress, -, hnode⟩ := hkind
    obtain ⟨-, -, -, -, hotheraddress, -, hothernode⟩ := hotherkind
    simp only [CompileServer.eqIp, decide_eq_true_eq, haddress, hnode, hotheraddress,
      hothernode] at hstale
    have hmem := hrest List.mem_cons_self
    have hend : Ends (tolerated mode) (Calms mode (· = other) t) (t.handleEnd other) :=
      handleEnd_calms hcalms.facts (fun _ => hotherlive) rfl
    refine hend.mono fun u hu => ?_
    refine ⟨hcalms.trans (hu.mono fun x hx => ?_), fun x hx => hrest (List.mem_cons_of_mem _ hx),
      hnodup, fun x hx => ?_⟩
    · rw [hx]
      exact ⟨hlost other hmem hstale.1 hstale.2, hmem⟩
    · refine hu.loses.cssKept x (hthere x (List.mem_cons_of_mem _ hx)) ?_
      rintro rfl
      exact hnotin hx
  · exact .pure ⟨hcalms, fun x hx => hrest (List.mem_cons_of_mem _ hx), hnodup,
      fun x hx => hthere x (List.mem_cons_of_mem _ hx)⟩

/-- In no container, as long as it is not logged in -/
structure Apart (s : Scheduler) (cid : ℕ) : Prop where
  css : cid ∉ s.css
  monitors : cid ∉ s.monitors
  controls : cid ∉ s.controls

theorem Peers.apart (h : Peers [] s) (hlive : s.live cid = true)
    (htype : (s.conn cid).type = .unknown) : s.Apart cid := by
  have hhas : s.Has cid .unknown := ⟨_, conn_kind_mem hlive, conn_cid s cid, htype⟩
  obtain ⟨hcss, hmonitors, hcontrols⟩ := notMem_of_type h hhas
  exact ⟨hcss (by decide), hmonitors (by decide), hcontrols (by decide)⟩

/-- The record of a connection that is in no container -/
theorem Peers.renew_apart {c : CompileServer} (h : Peers [] s) (hapart : s.Apart c.cid)
    (hfd : c.fd = (s.conn c.cid).fd) (hstate : c.state = .connected) : Peers [] (s.put c) := by
  refine h.renew hfd (fun hx => absurd hx hapart.css) (fun hx => absurd hx hapart.monitors)
    (fun hx => absurd hx hapart.controls) (fun hs => ?_) fun hs => ?_
  · rw [hstate] at hs
    cases hs
  · rw [hstate] at hs
    cases hs

theorem put_kind {c : CompileServer} (hnd : (s.kinds.map Kind.cid).Nodup)
    (hlive : s.live c.cid = true) : ((s.put c).conn c.cid).kind = c.kind := by
  have hnd' : ((s.put c).kinds.map Kind.cid).Nodup := by rwa [put_cids]
  exact conn_kind hnd' (mem_put_kinds.mpr (.inl ⟨rfl, hlive⟩))

/-- A connection that has said what it is but is not logged in yet -/
structure Posing (s : Scheduler) (cid : ℕ) (t : ConnType) : Prop where
  live : s.live cid = true
  type : (s.conn cid).type = t
  state : (s.conn cid).state = .connected

theorem Posing.has {type : ConnType} (h : s.Posing cid type) : s.Has cid type :=
  ⟨_, conn_kind_mem h.live, conn_cid s cid, h.type⟩

theorem Posing.kept {t : Scheduler} {type : ConnType} (h : s.Posing cid type)
    (hloses : Loses lost s t) (hnd : (s.kinds.map Kind.cid).Nodup) (hlive : t.live cid = true) :
    t.Posing cid type := by
  have hkind := hloses.kind_eq hnd hlive
  simp only [CompileServer.kind, Kind.mk.injEq] at hkind
  obtain ⟨-, -, htype, hstate, -⟩ := hkind
  exact ⟨hlive, htype.trans h.type, hstate.trans h.state⟩

theorem require_conns (s : Scheduler) (a : Assertion) (holds : Bool) :
    (s.require a holds).conns = s.conns := by
  unfold Scheduler.require
  split <;> rfl

/-- What `handle_login` does with the record filled in -/
theorem admit_enters (h : Facts mode [] s) (hposing : s.Posing cid .daemon) (hapart : s.Apart cid)
    (hlost : ∀ x ∈ s.css, (s.conn cid).address = (s.conn x).address →
      (s.conn cid).nodeName = (s.conn x).nodeName → lost x) :
    Ends (tolerated mode) (fun r => Enters mode lost cid s r.1 ∧ r.1.Posing cid .daemon ∧
        (r.2 = true → cid ∈ r.1.css))
      (if s.blockCss.any (s.conn cid).matchesName then pure (s, false)
      else do
        let s ← s.handleMonitorStats cid
        let s ← s.css.foldlM (removeStale cid) s
        return (← { s with css := s.css ++ [cid] }.configure cid, true)) := by
  refine .ite (fun _ => ?_) fun _ => ?_
  · exact .pure ⟨.aside (.refl s) h, hposing, by simp⟩
  refine (handleMonitorStats_aside h.peers fun _ => hposing.live).bind fun t ht => ?_
  have htfacts := ht.facts h
  have htlive : t.live cid = true :=
    ht.toLoses.live hposing.live not_false fun hm => absurd hm hapart.monitors
  have htposing := hposing.kept ht.toLoses h.peers.cids htlive
  have htnot : cid ∉ t.css := ht.same ▸ hapart.css
  have hstale : Ends (tolerated mode) (Calms mode (fun x => lost x ∧ x ∈ t.css) t)
      (t.css.foldlM (removeStale cid) t) := by
    refine removeStale_loop htfacts htposing.has htnot fun x hx haddress hnode => ?_
    have hkind := ht.toLoses.kind_eq h.peers.cids htlive
    have hxkind := ht.toLoses.kind_eq h.peers.cids (htfacts.peers.css x hx).live
    simp only [CompileServer.kind, Kind.mk.injEq] at hkind hxkind
    obtain ⟨-, -, -, -, hsame, -, hsamenode⟩ := hkind
    obtain ⟨-, -, -, -, hxsame, -, hxsamenode⟩ := hxkind
    rw [hsame, hxsame] at haddress
    rw [hsamenode, hxsamenode] at hnode
    exact hlost x (ht.same ▸ hx) haddress hnode
  refine hstale.bind fun u hu => ?_
  have hulive : u.live cid = true := by
    refine hu.loses.live htlive (fun hx => htnot hx.2) fun hm => ?_
    exact absurd hm (htfacts.peers.not_monitor htposing.has (by decide))
  have huposing := htposing.kept hu.loses htfacts.peers.cids hulive
  have hunot : cid ∉ u.css := fun hm => htnot (hu.loses.css.subset hm)
  have hjoin : Enters mode lost cid u { u with css := u.css ++ [cid] } :=
    .join hu.facts huposing.has hunot
  refine (configure_still (s := { u with css := u.css ++ [cid] }) fun _ => hulive).bind
    fun v hv => .pure ⟨?_, ?_, fun _ => ?_⟩
  · have hfirst : Enters mode lost cid s u :=
      (Enters.aside ht h).trans (.calms (hu.mono fun x hx => .inl hx.1))
    exact (hfirst.trans hjoin).trans (.aside hv.toAside hjoin.facts)
  · have hvlive : v.live cid = true := hv.live.trans hulive
    exact Posing.kept (s := { u with css := u.css ++ [cid] }) ⟨hulive, huposing.type, huposing.state⟩
      hv.toLoses hjoin.facts.peers.cids hvlive
  · rw [hv.same]
    simp

theorem handleLogin_enters (m : LoginMsg) (h : Facts mode [] s) (hposing : s.Posing cid .daemon)
    (hapart : s.Apart cid) (hlost : ∀ x, s.Stale cid m x → lost x) :
    Ends (tolerated mode) (fun r => Enters mode lost cid s r.1 ∧ r.1.Posing cid .daemon ∧
      (r.2 = true → cid ∈ r.1.css)) (s.handleLogin cid m) := by
  unfold handleLogin
  have hrequire := Still.require s .hostId ((s.conn cid).hostId = 0)
  have hconns := require_conns s .hostId ((s.conn cid).hostId = 0)
  generalize s.require .hostId ((s.conn cid).hostId = 0) = t at hrequire hconns
  have hconn : ∀ x, t.conn x = s.conn x := by simp only [conn, hconns, implies_true]
  have htlive : t.live cid = true := hrequire.live ▸ hposing.live
  have htfacts := hrequire.toAside.facts h
  have hlogged : ((t.conn cid).loggedIn m (t.hostIdCounter + 1)).cid = cid := conn_cid t cid
  have htapart : t.Apart ((t.conn cid).loggedIn m (t.hostIdCounter + 1)).cid := by
    rw [hlogged]
    exact ⟨hrequire.same ▸ hapart.css, hrequire.watchers ▸ hapart.monitors,
      fun hx => hapart.controls (hrequire.controls.subset hx)⟩
  have hstate : (t.conn cid).state = .connected := by rw [hconn, hposing.state]
  have hpeers := htfacts.peers.renew_apart htapart (by rw [hlogged]; rfl) hstate
  have hput : Enters mode lost cid t (t.put ((t.conn cid).loggedIn m (t.hostIdCounter + 1))) :=
    .put htfacts hlogged hpeers rfl rfl
  have hcounter : Still (t.put ((t.conn cid).loggedIn m (t.hostIdCounter + 1)))
      { t.put ((t.conn cid).loggedIn m (t.hostIdCounter + 1)) with
        hostIdCounter := t.hostIdCounter + 1 } := .of_eq (.refl _) rfl le_rfl rfl
  have henters : Enters mode lost cid s _ :=
    ((Enters.aside hrequire.toAside h).trans hput).trans (.aside hcounter.toAside hput.facts)
  have hkind := put_kind (c := (t.conn cid).loggedIn m (t.hostIdCounter + 1)) htfacts.peers.cids
    (hlogged.symm ▸ htlive)
  rw [hlogged] at hkind
  have htype : _ = (t.conn cid).type := congrArg Kind.type hkind
  have hcstate : _ = (t.conn cid).state := congrArg Kind.state hkind
  have haddress : _ = (t.conn cid).address := congrArg Kind.address hkind
  have hnode : _ = (if m.nodename = [] then (t.conn cid).name else m.nodename) :=
    congrArg Kind.nodeName hkind
  replace htype := htype.trans (show _ = (s.conn cid).type by rw [hconn])
  replace haddress := haddress.trans (show _ = (s.conn cid).address by rw [hconn])
  replace hnode := hnode.trans
    (show _ = (if m.nodename = [] then (s.conn cid).name else m.nodename) by rw [hconn])
  refine (admit_enters henters.facts ⟨?_, ?_, ?_⟩ ⟨?_, ?_, ?_⟩ fun x hx hsame hsamenode => ?_).mono
    fun r hr => ⟨henters.trans hr.1, hr.2⟩
  · exact (put_live t _ cid).trans htlive
  · exact htype.trans hposing.type
  · exact hcstate.trans hstate
  · exact hrequire.same ▸ hapart.css
  · exact hrequire.watchers ▸ hapart.monitors
  · exact fun hx => hapart.controls (hrequire.controls.subset hx)
  · have hxcss : x ∈ s.css := hrequire.same ▸ hx
    have hne : x ≠ cid := by
      rintro rfl
      exact hapart.css hxcss
    have hxconn : (t.put ((t.conn cid).loggedIn m (t.hostIdCounter + 1))).conn x = s.conn x := by
      rw [put_conn_of_ne (hlogged.symm ▸ hne.symm), hconn]
    refine hlost x ⟨hxcss, ?_, ?_⟩
    · exact haddress.symm.trans (hsame.trans (congrArg CompileServer.address hxconn))
    · exact hnode.symm.trans (hsamenode.trans (congrArg CompileServer.nodeName hxconn))

/-! ## Monitors -/

/-- A new monitor gets everything it is sent about `n` servers, after the `others`. -/
def Greets (answer : ℕ → ℕ) : ℕ → List ℕ → ℕ → Prop
  | 0, _, _ => True
  | n + 1, others, calls =>
    answer (calls + 1 + others.length) ≠ 0 ∧
      Greets answer n (survivors answer (calls + 1) others) (calls + 1 + (others.length + 1))

theorem survivors_append (answer : ℕ → ℕ) (n x : ℕ) (l : List ℕ) :
    survivors answer n (l ++ [x]) =
      survivors answer n l ++ if answer (n + l.length) = 0 then [] else [x] := by
  induction l generalizing n with
  | nil =>
    simp only [survivors, List.nil_append, List.length_nil, add_zero]
  | cons y rest ih =>
    have hlength : n + (y :: rest).length = n + 1 + rest.length := by
      rw [List.length_cons]
      omega
    rw [List.cons_append, survivors, survivors, ih, hlength]
    by_cases hanswer : answer n = 0
    · simp only [if_pos hanswer]
    · simp only [if_neg hanswer, List.cons_append]

theorem handleMonitorStats_survivors {x : ℕ} (hnodup : s.monitors.Nodup)
    (hsome : s.monitors ≠ []) :
    Ends (fun _ => True) (fun t => t.host = s.host ∧ t.calls = s.calls + 1 + s.monitors.length ∧
      t.monitors = survivors s.host.answer (s.calls + 1) s.monitors) (s.handleMonitorStats x) := by
  unfold handleMonitorStats
  rw [if_neg hsome]
  have htouch : Ends (fun _ => True) (fun _ => True) (s.touch x) := .any fun _ => trivial
  exact htouch.bind fun _ _ => notifyMonitors_survivors (s := s.asked) _ hnodup

theorem handleMonLogin_enters (h : Facts mode [] s) (hposing : s.Posing cid .monitor)
    (hapart : s.Apart cid)
    (hgreets : mode.strict → Greets s.host.answer s.css.length s.monitors s.calls) :
    Ends (tolerated mode) (fun r => Enters mode lost cid s r.1 ∧ r.1.Posing cid .monitor ∧
      r.2 = true ∧ ∀ e ∈ r.1.fd2cs, e.2 ≠ cid) (s.handleMonLogin cid) := by
  unfold handleMonLogin
  refine (touch_ends fun _ => hposing.live).bind fun _ _ => ?_
  have hwatch : Enters mode lost cid s { s with monitors := s.monitors ++ [cid] } :=
    .watch h hposing.has hapart.monitors
  have htposing : Posing { s with monitors := s.monitors ++ [cid] } cid .monitor :=
    ⟨hposing.live, hposing.type, hposing.state⟩
  obtain ⟨t, ht⟩ : ∃ t, t = { s with monitors := s.monitors ++ [cid] } := ⟨_, rfl⟩
  have hstart : t.host = s.host ∧ t.monitors = s.monitors ++ [cid] ∧ t.calls = s.calls ∧
      t.css = s.css := by
    rw [ht]
    exact ⟨rfl, rfl, rfl, rfl⟩
  rw [← ht] at hwatch htposing ⊢
  obtain ⟨hhost, hmonitors, hcalls, hcss⟩ := hstart
  refine (Ends.foldlM (fun rest u => Aside t u ∧ rest ⊆ t.css ∧ (mode.strict → ∃ others,
    u.monitors = others ++ [cid] ∧ Greets s.host.answer rest.length others u.calls))
    ⟨.refl t, fun _ hx => hx, fun hstrict => ⟨s.monitors, hmonitors, ?_⟩⟩ ?_).bind fun u hu => ?_
  · rw [hcss, hcalls]
    exact hgreets hstrict
  · rintro other rest u ⟨haside, hrest, htold⟩
    have hfacts := haside.facts hwatch.facts
    have hother : u.live other = true := by
      have hmem : other ∈ u.css := haside.same ▸ hrest List.mem_cons_self
      exact (hfacts.peers.css other hmem).live
    have hprecise : Ends (fun _ => True) (fun v => mode.strict → ∃ others,
        v.monitors = others ++ [cid] ∧ Greets s.host.answer rest.length others v.calls)
        (u.handleMonitorStats other) := by
      by_cases hsome : u.monitors = []
      · refine .any fun v hstrict => ?_
        obtain ⟨others, hsplit, -⟩ := htold hstrict
        simp [hsome] at hsplit
      refine (handleMonitorStats_survivors hfacts.peers.monitorsNodup hsome).mono fun v hv hstrict => ?_
      obtain ⟨others, hsplit, hanswer, hgreet⟩ := htold hstrict
      obtain ⟨-, hvcalls, hvmonitors⟩ := hv
      have huhost : u.host = s.host := haside.host.trans hhost
      refine ⟨survivors s.host.answer (u.calls + 1) others, ?_, ?_⟩
      · rw [hvmonitors, hsplit, huhost, survivors_append, if_neg hanswer]
      · rw [hvcalls, hsplit, List.length_append]
        exact hgreet
    refine ((handleMonitorStats_aside hfacts.peers fun _ => hother).and hprecise).mono
      fun v hv => ?_
    exact ⟨haside.trans hv.1, fun x hx => hrest (List.mem_cons_of_mem _ hx), hv.2⟩
  · obtain ⟨haside, -, htold⟩ := hu
    have hfacts := haside.facts hwatch.facts
    have hulive : mode.strict → u.live cid = true := by
      intro hstrict
      obtain ⟨others, hsplit, -⟩ := htold hstrict
      exact (hfacts.peers.monitors cid (by simp [hsplit])).live
    refine (touch_ends hulive).bind fun _ hlive => .pure ⟨?_, ?_, rfl, fun e he => ?_⟩
    · exact (hwatch.trans (.aside haside hwatch.facts)).trans (.unlist hfacts hlive)
    · have hkept := htposing.kept haside.toLoses hwatch.facts.peers.cids hlive
      exact ⟨hkept.live, hkept.type, hkept.state⟩
    · exact (free_entries hfacts.peers hlive (List.mem_of_mem_filter he)).mp he

/-! ## `try_login` -/

/-- What is left of a state when the connection `cid` has been served with the result `r` -/
structure Acted (mode : Mode) (lost : ℕ → Prop) (cid : ℕ) (s : Scheduler)
    (r : Scheduler × Bool) : Prop where
  facts : Facts mode [] r.1
  raw : r.1.Raw
  stays : mode.strict → r.2 = true → r.1.live cid = true
  grown : Grown lost cid s r.1
  known : ∀ k ∈ r.1.kinds, k.cid ∈ s.css → k ∈ s.kinds
  blacklists : ∀ x, r.1.live x = true → ∀ h ∈ s.css, h ∈ r.1.css →
    (s.conn x).against h ⊆ (r.1.conn x).against h

theorem Posing.retype (h : s.live cid = true) (hnd : (s.kinds.map Kind.cid).Nodup)
    (hstate : (s.conn cid).state = .connected) (type : ConnType) :
    (s.setType cid type).Posing cid type := by
  have hkind := put_kind (c := { s.conn cid with type := type }) hnd
    ((conn_cid s cid).symm ▸ h)
  have hcid : ({ s.conn cid with type := type } : CompileServer).cid = cid := conn_cid s cid
  rw [hcid] at hkind
  have hsame : _ = (s.conn cid).state := congrArg Kind.state hkind
  exact ⟨(put_live s _ cid).trans h, congrArg Kind.type hkind, hsame.trans hstate⟩

theorem setType_enters (type : ConnType) (h : Facts mode [] s) (hapart : s.Apart cid)
    (hstate : (s.conn cid).state = .connected) :
    Enters mode lost cid s (s.setType cid type) := by
  have hcid : ({ s.conn cid with type := type } : CompileServer).cid = cid := conn_cid s cid
  have hpeers := h.peers.renew_apart (c := { s.conn cid with type := type })
    (hcid.symm ▸ hapart) (by rw [hcid]) hstate
  exact .put h hcid hpeers rfl rfl

theorem setType_stale (type : ConnType) (h : Facts mode [] s) (hlive : s.live cid = true)
    (hapart : s.Apart cid) (m : LoginMsg) {x : ℕ} (hx : (s.setType cid type).Stale cid m x) :
    s.Stale cid m x := by
  obtain ⟨hcss, haddress, hnode⟩ := hx
  have hcid : ({ s.conn cid with type := type } : CompileServer).cid = cid := conn_cid s cid
  have hkind := put_kind (c := { s.conn cid with type := type }) h.peers.cids
    (hcid.symm ▸ hlive)
  rw [hcid] at hkind
  have hne : x ≠ cid := by
    rintro rfl
    exact hapart.css hcss
  have hxconn : (s.setType cid type).conn x = s.conn x := put_conn_of_ne (by rw [hcid]; exact hne.symm)
  have hsame : _ = (s.conn cid).address := congrArg Kind.address hkind
  have hname : _ = (s.conn cid).name := congrArg Kind.name hkind
  rw [hxconn] at haddress hnode
  refine ⟨hcss, hsame.symm.trans haddress, ?_⟩
  have hnamed : ((s.setType cid type).conn cid).name = (s.conn cid).name := hname
  rwa [hnamed] at hnode

/-- The login is complete. -/
theorem Enters.logged {type : ConnType} (h : Facts mode [] s) (hposing : s.Posing cid type)
    (htype : type ≠ .unknown) (hcss : cid ∈ s.css ↔ type = .daemon)
    (hmonitors : cid ∈ s.monitors → type = .monitor) (hcontrols : cid ∉ s.controls)
    (hentries : type = .monitor → ∀ e ∈ s.fd2cs, e.2 ≠ cid) :
    Enters mode lost cid s (s.put { s.conn cid with state := .loggedIn }) := by
  have hcid : ({ s.conn cid with state := .loggedIn } : CompileServer).cid = cid := conn_cid s cid
  refine .put h hcid ?_ rfl rfl
  refine h.peers.renew (by rw [hcid]) ?_ ?_ ?_ ?_ ?_
  · rw [hcid]
    exact fun hx => hposing.type.trans (hcss.mp hx)
  · rw [hcid]
    exact fun hx => hposing.type.trans (hmonitors hx)
  · rw [hcid]
    exact fun hx => absurd hx hcontrols
  · rw [hcid]
    exact fun _ ht => hentries (hposing.type.symm.trans ht)
  · rw [hcid]
    exact fun _ => ⟨fun ht => htype (hposing.type.symm.trans ht),
      fun ht => hcss.mpr (hposing.type.symm.trans ht)⟩

/-- What is left when the connection could not be logged in -/
theorem Enters.dismissed {t u : Scheduler} (h : Enters mode lost cid s t) (hraw : s.Raw)
    (hapart : s.Apart cid) (hend : Ended mode cid t u) : Acted mode lost cid s (u, false) := by
  have hgrown : Grown lost cid s u :=
    h.grown.trans (hend.loses.mono fun _ hx => .inr hx).grown
  have hknown : ∀ k ∈ u.kinds, k ∈ s.kinds := fun k hk => hgrown.others k hk (hend.gone k hk)
  refine ⟨hend.facts, fun k hk hstate => ?_, by simp, hgrown, fun k hk _ => hknown k hk,
    fun x hx y hy hyu => ?_⟩
  · exact hraw k (hknown k hk) hstate
  · refine hgrown.blacklists x hx y hyu ?_
    rintro rfl
    exact hapart.css hy

theorem Enters.welcome {t : Scheduler} {type : ConnType} (h : Enters mode lost cid s t)
    (hraw : s.Raw) (hapart : s.Apart cid) (hposing : t.Posing cid type) (htype : type ≠ .unknown)
    (hcss : cid ∈ t.css ↔ type = .daemon) (hmonitors : cid ∈ t.monitors → type = .monitor)
    (hcontrols : cid ∉ t.controls) (hentries : type = .monitor → ∀ e ∈ t.fd2cs, e.2 ≠ cid) :
    Acted mode lost cid s (t.put { t.conn cid with state := .loggedIn }, true) ∧
      Calm mode s (t.put { t.conn cid with state := .loggedIn }) := by
  have henters := h.trans (.logged h.facts hposing htype hcss hmonitors hcontrols hentries)
  have hcid : ({ t.conn cid with state := .loggedIn } : CompileServer).cid = cid := conn_cid t cid
  refine ⟨⟨henters.facts, fun k hk hstate => ?_, fun _ _ => ?_, henters.grown,
    fun k hk hkcss => ?_, fun x hx y hy hyt => ?_⟩, henters.calm⟩
  · by_cases hk' : k.cid = cid
    · rcases mem_put_kinds.mp hk with ⟨rfl, -⟩ | ⟨-, hne⟩
      · cases hstate
      · exact absurd (hk'.trans hcid.symm) hne
    · exact hraw k (henters.grown.others k hk hk') hstate
  · exact (put_live t _ cid).trans hposing.live
  · refine henters.grown.others k hk ?_
    rintro rfl
    exact hapart.css hkcss
  · refine henters.grown.blacklists x hx y hyt ?_
    rintro rfl
    exact hapart.css hy

theorem tryLogin_acted (m : Msg) (h : Facts mode [] s) (hraw : s.Raw) (hlive : s.live cid = true)
    (hstate : (s.conn cid).state = .connected)
    (hgreets : mode.strict → m = .monLogin →
      Greets s.host.answer s.css.length s.monitors s.calls)
    (hlost : ∀ login, m = .login login → ∀ x, s.Stale cid login x → lost x) :
    Ends (tolerated mode) (fun r => Acted mode lost cid s r ∧ Calm mode s r.1)
      (s.tryLogin cid m) := by
  have hapart := h.peers.apart hlive (hraw _ (conn_kind_mem hlive) hstate)
  have hdismiss : ∀ t, Enters mode lost cid s t → t.live cid = true →
      Ends (tolerated mode) (fun r => Acted mode lost cid s r ∧ Calm mode s r.1)
        (do return (← t.handleEnd cid, false)) := by
    intro t ht htlive
    refine (handleEnd_ended ht.facts fun _ => htlive).eq.bind fun u hu => .pure ⟨?_, ?_⟩
    · exact ht.dismissed hraw hapart hu.1
    · exact ht.calm.trans (.single ⟨hu.1.facts, .inr ⟨cid, hu.2⟩⟩)
  have hother : Ends (tolerated mode) (fun r => Acted mode lost cid s r ∧ Calm mode s r.1)
      (do return (← s.handleEnd cid, false)) :=
    hdismiss s (.aside (.refl s) h) hlive
  unfold tryLogin
  cases m with
  | login login =>
    have htype : Enters mode lost cid s (s.setType cid .daemon) := setType_enters _ h hapart hstate
    have hposing := Posing.retype hlive h.peers.cids hstate .daemon
    have htapart : Apart (s.setType cid .daemon) cid := ⟨hapart.css, hapart.monitors, hapart.controls⟩
    refine (handleLogin_enters login htype.facts hposing htapart fun x hx =>
      hlost login rfl x (setType_stale _ h hlive hapart login hx)).bind fun r hr => ?_
    obtain ⟨henters, hrposing, hcss⟩ := hr
    have hall := htype.trans henters
    refine .ite (fun hgoes => ?_) fun _ => hdismiss r.1 hall hrposing.live
    obtain ⟨-, hmonitors, hcontrols⟩ := notMem_of_type hall.facts.peers hrposing.has
    refine (touch_ends fun _ => hrposing.live).bind fun _ _ => .pure ?_
    refine hall.welcome hraw hapart hrposing (by decide) (by simp [hcss hgoes]) ?_
      (hcontrols (by decide)) (by simp)
    exact fun hm => absurd hm (hmonitors (by decide))
  | monLogin =>
    have htype : Enters mode lost cid s (s.setType cid .monitor) := setType_enters _ h hapart hstate
    have hposing := Posing.retype hlive h.peers.cids hstate .monitor
    have htapart : Apart (s.setType cid .monitor) cid :=
      ⟨hapart.css, hapart.monitors, hapart.controls⟩
    have hmon : Ends (tolerated mode) (fun r => Enters mode lost cid (s.setType cid .monitor) r.1 ∧
        r.1.Posing cid .monitor ∧ r.2 = true ∧ ∀ e ∈ r.1.fd2cs, e.2 ≠ cid)
        ((s.setType cid .monitor).handleMonLogin cid) :=
      handleMonLogin_enters htype.facts hposing htapart fun hstrict => hgreets hstrict rfl
    refine hmon.bind fun r hr => ?_
    obtain ⟨henters, hrposing, hgoes, hentries⟩ := hr
    have hall := htype.trans henters
    rw [if_pos hgoes]
    obtain ⟨hcss, -, hcontrols⟩ := notMem_of_type hall.facts.peers hrposing.has
    refine (touch_ends fun _ => hrposing.live).bind fun _ _ => .pure ?_
    exact hall.welcome hraw hapart hrposing (by decide) (by simp [hcss]) (fun _ => rfl)
      (hcontrols (by decide)) fun _ => hentries
  | _ => exact hother

end Scheduler

end Icecream.IceccScheduler
