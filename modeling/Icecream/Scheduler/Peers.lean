import Icecream.Scheduler.Waiting

/-!
# The connections of a scheduler

Which connections there are and in which containers they stand. `Aside` relates the
states before and after an operation that closes at most monitors which could not be
told something, and leaves every job and every request alone.
-/

namespace Icecream.IceccScheduler

open Icecream.Comm (Msg)
open Icecream.Fault

/-- What an analysis is about: with `tame` only daemons ask for servers, with `numbered` no
id is given out while its job is there, and with `strict` a deleted connection is never
used. -/
structure Mode where
  tame : Prop
  numbered : Prop
  strict : Prop
  strict_tame : strict → tame
  strict_numbered : strict → numbered

/-- A fault is tolerated unless it is the use of a deleted connection and the analysis
is strict. -/
def tolerated (mode : Mode) (f : Fault) : Prop := f = .readAfterFree → ¬ mode.strict

structure Kind where
  cid : ℕ
  fd : ℕ
  type : ConnType
  state : ConnState
  address : ℕ
  name : Comm.Str
  nodeName : Comm.Str
  deriving DecidableEq

def CompileServer.kind (c : CompileServer) : Kind :=
  ⟨c.cid, c.fd, c.type, c.state, c.address, c.name, c.nodeName⟩

def CompileServer.holdings (c : CompileServer) : ℕ × List ℕ := (c.cid, c.jobList)

/-- What `c` has against environments on the server `h` -/
def CompileServer.against (c : CompileServer) (h : ℕ) : Comm.Environments :=
  (c.blacklist.lookup h).getD []

/-- Anything but a job's placement -/
def plain : Msg → Bool
  | .useCS _ => false
  | .noCS _ => false
  | _ => true

def Obs.plain : Obs → Bool
  | .sent _ m _ => IceccScheduler.plain m
  | _ => true

namespace Scheduler

def kinds (s : Scheduler) : List Kind := s.conns.map CompileServer.kind

def Has (s : Scheduler) (cid : ℕ) (t : ConnType) : Prop := ∃ k ∈ s.kinds, k.cid = cid ∧ k.type = t

/-- Daemons in `css`, and those `handle_end` is about to delete -/
def Home (extra : List ℕ) (s : Scheduler) (cid : ℕ) : Prop := cid ∈ s.css ∨ cid ∈ extra

/-- A send failed between the two states. -/
def Failed (s t : Scheduler) : Prop := ∃ n, s.calls ≤ n ∧ n < t.calls ∧ s.host.answer n = 0

/-- No job was placed between the two states. -/
def Quiet (s t : Scheduler) : Prop := ∃ new, t.log = new ++ s.log ∧ ∀ o ∈ new, o.plain = true

structure Peers (extra : List ℕ) (s : Scheduler) : Prop where
  cids : (s.kinds.map Kind.cid).Nodup
  fds : (s.kinds.map Kind.fd).Nodup
  fresh : ∀ k ∈ s.kinds, k.cid < s.newCid
  css : ∀ cid ∈ s.css, s.Has cid .daemon
  leaving : ∀ cid ∈ extra, s.Has cid .daemon
  monitors : ∀ cid ∈ s.monitors, s.Has cid .monitor
  controls : ∀ cid ∈ s.controls, s.Has cid .line
  cssNodup : s.css.Nodup
  monitorsNodup : s.monitors.Nodup
  controlsNodup : s.controls.Nodup
  entries : ∀ e ∈ s.fd2cs, ∃ k ∈ s.kinds, k.cid = e.2 ∧ k.fd = e.1 ∧
    (k.state = .loggedIn → k.type ≠ .monitor)
  loggedIn : ∀ k ∈ s.kinds, k.state = .loggedIn →
    k.type ≠ .unknown ∧ (k.type = .daemon → Home extra s k.cid)

/-! ## Records -/

theorem live_iff {s : Scheduler} {cid : ℕ} :
    s.live cid = true ↔ cid ∈ s.kinds.map Kind.cid := by
  simp [live, kinds, CompileServer.kind]

theorem Has.live {s : Scheduler} {cid : ℕ} {t : ConnType} (h : s.Has cid t) :
    s.live cid = true := by
  obtain ⟨k, hk, hcid, -⟩ := h
  exact live_iff.mpr (List.mem_map.mpr ⟨k, hk, hcid⟩)

theorem conn_mem {s : Scheduler} {cid : ℕ} (h : s.live cid = true) :
    s.conn cid ∈ s.conns ∧ (s.conn cid).cid = cid := by
  simp only [live, List.any_eq_true, decide_eq_true_eq] at h
  obtain ⟨c, hc, hcid⟩ := h
  cases hfind : s.conns.find? fun x => x.cid = cid with
  | none =>
    have hnone := List.find?_eq_none.mp hfind c hc
    simp [hcid] at hnone
  | some d =>
    have hd := List.find?_some hfind
    simp only [conn, hfind, Option.getD_some]
    exact ⟨List.mem_of_find?_eq_some hfind, by simpa using hd⟩

theorem conn_cid (s : Scheduler) (cid : ℕ) : (s.conn cid).cid = cid := by
  simp only [conn]
  cases hfind : s.conns.find? fun x => x.cid = cid with
  | none => rfl
  | some d => simpa using List.find?_some hfind

theorem conn_kind_mem {s : Scheduler} {cid : ℕ} (h : s.live cid = true) :
    (s.conn cid).kind ∈ s.kinds := List.mem_map_of_mem (conn_mem h).1

theorem map_cid (s : Scheduler) : s.kinds.map Kind.cid = s.conns.map CompileServer.cid := by
  simp [kinds, CompileServer.kind, Function.comp_def]

theorem kind_unique {s : Scheduler} {k k' : Kind} (hnd : (s.kinds.map Kind.cid).Nodup)
    (hk : k ∈ s.kinds) (hk' : k' ∈ s.kinds) (h : k.cid = k'.cid) : k = k' :=
  List.inj_on_of_nodup_map hnd hk hk' h

theorem conn_kind {s : Scheduler} {k : Kind} (hnd : (s.kinds.map Kind.cid).Nodup)
    (hk : k ∈ s.kinds) : (s.conn k.cid).kind = k := by
  have hlive : s.live k.cid = true := live_iff.mpr (List.mem_map_of_mem hk)
  apply kind_unique hnd (conn_kind_mem hlive) hk
  simp [CompileServer.kind, conn_cid]

theorem conn_type {s : Scheduler} {cid : ℕ} {t : ConnType} (hnd : (s.kinds.map Kind.cid).Nodup)
    (h : s.Has cid t) : (s.conn cid).type = t := by
  obtain ⟨k, hk, rfl, rfl⟩ := h
  have hkind := conn_kind hnd hk
  exact congrArg Kind.type hkind

/-- Writing a record back keeps every view of the table that it does not change. -/
theorem put_map {α : Type} {s : Scheduler} (g : CompileServer → α)
    (hnd : (s.kinds.map Kind.cid).Nodup) {c : CompileServer} (hg : g c = g (s.conn c.cid)) :
    (s.put c).conns.map g = s.conns.map g := by
  refine Records.map_replace g fun x hx hcid => ?_
  have hlive : s.live c.cid = true := by
    rw [live, List.any_eq_true]
    exact ⟨x, hx, by simp [hcid]⟩
  have hsame : x = s.conn c.cid := by
    rw [map_cid] at hnd
    apply List.inj_on_of_nodup_map hnd hx (conn_mem hlive).1
    rw [hcid, conn_cid]
  rw [hg, ← hsame]

theorem touch_ends {mode : Mode} {s : Scheduler} {cid : ℕ} (h : mode.strict → s.live cid = true) :
    Ends (tolerated mode) (fun _ => s.live cid = true) (s.touch cid) := by
  unfold touch
  split
  · rename_i hlive
    exact .pure hlive
  · rename_i hdead
    exact .throw fun _ hstrict => hdead (h hstrict)

/-- Another record is read as before. -/
theorem put_conn_of_ne {s : Scheduler} {c : CompileServer} {x : ℕ} (h : c.cid ≠ x) :
    (s.put c).conn x = s.conn x := by
  simp [conn, put, Records.find_replace, h]

theorem put_conn_self (s : Scheduler) (c : CompileServer) :
    (s.put c).conn c.cid = c ∨ (s.put c).conn c.cid = s.conn c.cid := by
  simp only [conn, put, Records.find_replace]
  cases s.conns.find? fun d => d.cid = c.cid with
  | none => exact .inr rfl
  | some d => exact .inl (by simp)

theorem put_live (s : Scheduler) (c : CompileServer) (x : ℕ) : (s.put c).live x = s.live x := by
  rw [Bool.eq_iff_iff, live_iff, live_iff, map_cid, map_cid]
  simp only [put, Records.map_key_replace]

theorem free_conn {s : Scheduler} {cid x : ℕ} (h : x ≠ cid) : (s.free cid).conn x = s.conn x := by
  simp only [conn, free, note, Records.find_remove _ h]

namespace Quiet

variable {s t u : Scheduler}

theorem refl (s : Scheduler) : Quiet s s := ⟨[], rfl, by simp⟩

theorem note {o : Obs} (ho : o.plain = true) (h : t.log = o :: s.log) : Quiet s t :=
  ⟨[o], h, by simpa using ho⟩

theorem trans (h : Quiet s t) (h' : Quiet t u) : Quiet s u := by
  obtain ⟨new, hlog, hnew⟩ := h
  obtain ⟨new', hlog', hnew'⟩ := h'
  refine ⟨new' ++ new, by rw [hlog', hlog, List.append_assoc], fun o ho => ?_⟩
  exact (List.mem_append.mp ho).elim (hnew' o) (hnew o)

end Quiet

/-! ## What may get lost -/


/-- Connections are closed, those in `lost` and monitors that could not be told. -/
structure Loses (lost : ℕ → Prop) (s t : Scheduler) : Prop where
  host : t.host = s.host
  settings : t.settings = s.settings
  newCid : t.newCid = s.newCid
  calls : s.calls ≤ t.calls
  css : t.css.Sublist s.css
  cssKept : ∀ x ∈ s.css, ¬ lost x → x ∈ t.css
  controls : t.controls.Sublist s.controls
  controlsKept : ∀ x ∈ s.controls, ¬ lost x → x ∈ t.controls
  monitors : t.monitors.Sublist s.monitors
  monitorsKept : ∀ x ∈ s.monitors, ¬ lost x → ¬ Failed s t → x ∈ t.monitors
  kinds : t.kinds.Sublist s.kinds
  kept : ∀ k ∈ s.kinds, ¬ lost k.cid → (k.cid ∈ s.monitors → k.cid ∈ t.monitors) → k ∈ t.kinds
  fd2cs : t.fd2cs.Sublist s.fd2cs
  entries : ∀ e ∈ s.fd2cs, ¬ lost e.2 → e.2 ∉ s.monitors → e ∈ t.fd2cs
  entriesLive : ∀ e ∈ t.fd2cs, ∀ k ∈ s.kinds, k.cid = e.2 → k.fd = e.1 → k ∈ t.kinds
  quiet : Quiet s t
  blacklists : ∀ x, t.live x = true → ∀ h ∈ t.css,
    (s.conn x).against h ⊆ (t.conn x).against h

theorem Failed.left {s t u : Scheduler} (hcalls : t.calls ≤ u.calls) (h : Failed s t) :
    Failed s u := by
  obtain ⟨n, hn, hlt, hzero⟩ := h
  exact ⟨n, hn, hlt.trans_le hcalls, hzero⟩

theorem Failed.right {s t u : Scheduler} (hhost : t.host = s.host) (hcalls : s.calls ≤ t.calls)
    (h : Failed t u) : Failed s u := by
  obtain ⟨n, hn, hlt, hzero⟩ := h
  rw [hhost] at hzero
  exact ⟨n, hcalls.trans hn, hlt, hzero⟩

namespace Loses

variable {lost lost' : ℕ → Prop} {s t u : Scheduler}

theorem trans (h : Loses lost s t) (h' : Loses lost t u) : Loses lost s u where
  host := h'.host.trans h.host
  settings := h'.settings.trans h.settings
  newCid := h'.newCid.trans h.newCid
  calls := h.calls.trans h'.calls
  css := h'.css.trans h.css
  cssKept x hx hlost := h'.cssKept x (h.cssKept x hx hlost) hlost
  controls := h'.controls.trans h.controls
  controlsKept x hx hlost := h'.controlsKept x (h.controlsKept x hx hlost) hlost
  monitors := h'.monitors.trans h.monitors
  monitorsKept x hx hlost hfail := by
    have hmid := h.monitorsKept x hx hlost fun hf => hfail (hf.left h'.calls)
    exact h'.monitorsKept x hmid hlost fun hf => hfail (hf.right h.host h.calls)
  kinds := h'.kinds.trans h.kinds
  kept k hk hlost hmon := by
    have hmid := h.kept k hk hlost fun hm => h'.monitors.subset (hmon hm)
    exact h'.kept k hmid hlost fun hm => hmon (h.monitors.subset hm)
  fd2cs := h'.fd2cs.trans h.fd2cs
  entries e he hlost hmon :=
    h'.entries e (h.entries e he hlost hmon) hlost fun hm => hmon (h.monitors.subset hm)
  entriesLive e he k hk hcid hfd :=
    h'.entriesLive e he k (h.entriesLive e (h'.fd2cs.subset he) k hk hcid hfd) hcid hfd
  quiet := h.quiet.trans h'.quiet
  blacklists x hx y hy := by
    have hlive := live_iff.mpr ((h'.kinds.map _).subset (live_iff.mp hx))
    exact List.Subset.trans (h.blacklists x hlive y (h'.css.subset hy)) (h'.blacklists x hx y hy)

theorem mono (h : Loses lost s t) (himp : ∀ x, lost x → lost' x) : Loses lost' s t :=
  { h with
    cssKept := fun x hx hlost => h.cssKept x hx fun hl => hlost (himp x hl)
    controlsKept := fun x hx hlost => h.controlsKept x hx fun hl => hlost (himp x hl)
    monitorsKept := fun x hx hlost => h.monitorsKept x hx fun hl => hlost (himp x hl)
    kept := fun k hk hlost => h.kept k hk fun hl => hlost (himp _ hl)
    entries := fun e he hlost => h.entries e he fun hl => hlost (himp _ hl) }

end Loses

/-- Nothing but `lost` and monitors is closed, and no job or request changes. -/
structure Keeps (lost : ℕ → Prop) (s t : Scheduler) : Prop extends Loses lost s t where
  same : t.css = s.css
  heap : t.heap = s.heap
  jobs : t.jobs = s.jobs
  jobRequests : t.jobRequests = s.jobRequests
  newJobId : t.newJobId = s.newJobId
  newPtr : t.newPtr = s.newPtr

/-- Without the log, the host's answers, the records, and what is counted for the monitors -/
def outline (s : Scheduler) : Scheduler :=
  { s with
    conns := []
    blockCss := []
    allJobStats := []
    cumJobStats := {}
    hostIdCounter := 0
    calls := 0
    log := [] }

/-- Only what is not in the outline and parts of the records that do not say what they are
may be different. -/
theorem Keeps.of_eq {s t : Scheduler} (hquiet : Quiet s t)
    (hblacklists : ∀ x, ∀ h ∈ s.css, (s.conn x).against h ⊆ (t.conn x).against h)
    (hkinds : t.kinds = s.kinds) (hcalls : s.calls ≤ t.calls) (houtline : t.outline = s.outline) :
    Keeps (fun _ => False) s t := by
  have hcss : t.css = s.css := (congrArg Scheduler.css houtline :)
  have hcontrols : t.controls = s.controls := (congrArg Scheduler.controls houtline :)
  have hmonitors : t.monitors = s.monitors := (congrArg Scheduler.monitors houtline :)
  have hfd2cs : t.fd2cs = s.fd2cs := (congrArg Scheduler.fd2cs houtline :)
  exact {
    host := (congrArg Scheduler.host houtline :)
    settings := (congrArg Scheduler.settings houtline :)
    newCid := (congrArg Scheduler.newCid houtline :)
    calls := hcalls
    css := by rw [hcss]
    cssKept := by simp [hcss]
    controls := by rw [hcontrols]
    controlsKept := by simp [hcontrols]
    monitors := by rw [hmonitors]
    monitorsKept := by simp +contextual [hmonitors]
    kinds := by rw [hkinds]
    kept := by simp +contextual [hkinds]
    fd2cs := by rw [hfd2cs]
    entries := by simp +contextual [hfd2cs]
    entriesLive := by simp +contextual [hkinds]
    quiet := hquiet
    blacklists := fun x _ y hy => hblacklists x y (by rwa [← hcss])
    same := hcss
    heap := (congrArg Scheduler.heap houtline :)
    jobs := (congrArg Scheduler.jobs houtline :)
    jobRequests := (congrArg Scheduler.jobRequests houtline :)
    newJobId := (congrArg Scheduler.newJobId houtline :)
    newPtr := (congrArg Scheduler.newPtr houtline :) }

theorem Keeps.put_of_subset {s : Scheduler} {c : CompileServer} (cid : ℕ)
    (hnd : (s.kinds.map Kind.cid).Nodup) (hkind : c.kind = (s.conn cid).kind)
    (hblacklist : ∀ h ∈ s.css, (s.conn cid).against h ⊆ c.against h) :
    Keeps (fun _ => False) s (s.put c) := by
  have hcid : c.cid = cid := (congrArg Kind.cid hkind).trans (conn_cid s cid)
  subst hcid
  refine of_eq (.refl _) (fun x y hy => ?_) (put_map _ hnd hkind) le_rfl rfl
  by_cases hx : c.cid = x
  · subst hx
    rcases put_conn_self s c with hsame | hsame
    · rw [hsame]
      exact hblacklist y hy
    · rw [hsame]
      exact List.Subset.refl _
  · rw [put_conn_of_ne hx]
    exact List.Subset.refl _

theorem Keeps.put {s : Scheduler} {c : CompileServer} (cid : ℕ)
    (hnd : (s.kinds.map Kind.cid).Nodup) (hkind : c.kind = (s.conn cid).kind)
    (hblacklist : c.blacklist = (s.conn cid).blacklist) : Keeps (fun _ => False) s (s.put c) := by
  refine put_of_subset cid hnd hkind fun h _ => ?_
  rw [CompileServer.against, CompileServer.against, hblacklist]
  exact List.Subset.refl _

/-- Nothing but monitors is closed, and no server's list of jobs changes either. -/
structure Aside (s t : Scheduler) : Prop extends Keeps (fun _ => False) s t where
  holdings : (t.conns.map CompileServer.holdings).Sublist (s.conns.map CompileServer.holdings)

theorem Keeps.trans {lost : ℕ → Prop} {s t u : Scheduler} (h : Keeps lost s t)
    (h' : Keeps lost t u) : Keeps lost s u where
  toLoses := h.toLoses.trans h'.toLoses
  same := h'.same.trans h.same
  heap := h'.heap.trans h.heap
  jobs := h'.jobs.trans h.jobs
  jobRequests := h'.jobRequests.trans h.jobRequests
  newJobId := h'.newJobId.trans h.newJobId
  newPtr := h'.newPtr.trans h.newPtr

namespace Aside

variable {s t u : Scheduler}

theorem trans (h : Aside s t) (h' : Aside t u) : Aside s u :=
  ⟨h.toKeeps.trans h'.toKeeps, h'.holdings.trans h.holdings⟩

theorem of_eq (hquiet : Quiet s t) (hconns : t.conns = s.conns) (hcalls : s.calls ≤ t.calls)
    (houtline : t.outline = s.outline) : Aside s t := by
  have hkinds : t.kinds = s.kinds := congrArg (List.map CompileServer.kind) hconns
  refine ⟨.of_eq hquiet (fun x y _ => ?_) hkinds hcalls houtline, by rw [hconns]⟩
  rw [conn, conn, hconns]
  exact List.Subset.refl _

theorem refl (s : Scheduler) : Aside s s := .of_eq (.refl _) rfl le_rfl rfl

theorem note (s : Scheduler) {o : Obs} (ho : o.plain = true) : Aside s (s.note o) :=
  .of_eq (.note ho rfl) rfl le_rfl rfl

theorem asked (s : Scheduler) : Aside s s.asked := .of_eq (.refl _) rfl (Nat.le_succ _) rfl

theorem require (s : Scheduler) (a : Assertion) (holds : Bool) : Aside s (s.require a holds) := by
  unfold Scheduler.require
  split
  · exact refl s
  · exact note s rfl

theorem put_of_keeps {c : CompileServer} (cid : ℕ) (hnd : (s.kinds.map Kind.cid).Nodup)
    (hkind : c.kind = (s.conn cid).kind) (hholdings : c.holdings = (s.conn cid).holdings)
    (hkeeps : Keeps (fun _ => False) s (s.put c)) : Aside s (s.put c) := by
  have hcid : c.cid = cid := (congrArg Kind.cid hkind).trans (conn_cid s cid)
  refine ⟨hkeeps, ?_⟩
  subst hcid
  rw [put_map _ hnd hholdings]

end Aside

/-! ## What stays -/

theorem Has.kept {s t : Scheduler} {lost : ℕ → Prop} {cid : ℕ} {type : ConnType}
    (h : Loses lost s t) (hlost : ¬ lost cid) (hmon : cid ∈ s.monitors → cid ∈ t.monitors)
    (hhas : s.Has cid type) : t.Has cid type := by
  obtain ⟨k, hk, rfl, htype⟩ := hhas
  exact ⟨k, h.kept k hk hlost hmon, rfl, htype⟩

theorem Peers.not_monitor {extra : List ℕ} {s : Scheduler} {cid : ℕ} {t : ConnType}
    (h : Peers extra s) (hhas : s.Has cid t) (ht : t ≠ .monitor) : cid ∉ s.monitors := by
  intro hmem
  have htype := conn_type h.cids (h.monitors cid hmem)
  rw [conn_type h.cids hhas] at htype
  exact ht htype

theorem Peers.home {extra : List ℕ} {s : Scheduler} {cid : ℕ} (h : Peers extra s)
    (hhome : Home extra s cid) : s.Has cid .daemon := hhome.elim (h.css cid) (h.leaving cid)

theorem Keeps.peers {extra : List ℕ} {s t : Scheduler} (h : Keeps (fun _ => False) s t)
    (hs : Peers extra s) : Peers extra t where
  cids := hs.cids.sublist (h.kinds.map _)
  fds := hs.fds.sublist (h.kinds.map _)
  fresh k hk := by
    rw [h.newCid]
    exact hs.fresh k (h.kinds.subset hk)
  css cid hcid := by
    have hhas := hs.css cid (h.css.subset hcid)
    exact hhas.kept h.toLoses not_false fun hm => absurd hm (hs.not_monitor hhas (by decide))
  leaving cid hcid := by
    have hhas := hs.leaving cid hcid
    exact hhas.kept h.toLoses not_false fun hm => absurd hm (hs.not_monitor hhas (by decide))
  monitors cid hcid :=
    (hs.monitors cid (h.monitors.subset hcid)).kept h.toLoses not_false fun _ => hcid
  controls cid hcid := by
    have hhas := hs.controls cid (h.controls.subset hcid)
    exact hhas.kept h.toLoses not_false fun hm => absurd hm (hs.not_monitor hhas (by decide))
  cssNodup := hs.cssNodup.sublist h.css
  monitorsNodup := hs.monitorsNodup.sublist h.monitors
  controlsNodup := hs.controlsNodup.sublist h.controls
  entries e he := by
    obtain ⟨k, hk, hcid, hfd, hstate⟩ := hs.entries e (h.fd2cs.subset he)
    exact ⟨k, h.entriesLive e he k hk hcid hfd, hcid, hfd, hstate⟩
  loggedIn k hk hstate := by
    have hk' := hs.loggedIn k (h.kinds.subset hk) hstate
    rw [Home, h.same]
    exact hk'

/-! ## Telling the monitors -/

variable {mode : Mode} {extra : List ℕ}

/-- No connection is closed and no container changes. -/
structure Still (s t : Scheduler) : Prop extends Aside s t where
  all : t.kinds = s.kinds
  watchers : t.monitors = s.monitors

namespace Still

variable {s t u : Scheduler}

theorem trans (h : Still s t) (h' : Still t u) : Still s u :=
  ⟨h.toAside.trans h'.toAside, h'.all.trans h.all, h'.watchers.trans h.watchers⟩

theorem of_eq (hquiet : Quiet s t) (hconns : t.conns = s.conns) (hcalls : s.calls ≤ t.calls)
    (houtline : t.outline = s.outline) : Still s t :=
  ⟨.of_eq hquiet hconns hcalls houtline, congrArg (List.map CompileServer.kind) hconns,
    (congrArg Scheduler.monitors houtline :)⟩

theorem refl (s : Scheduler) : Still s s := ⟨.refl s, rfl, rfl⟩

theorem asked (s : Scheduler) : Still s s.asked := ⟨.asked s, rfl, rfl⟩

theorem note (s : Scheduler) {o : Obs} (ho : o.plain = true) : Still s (s.note o) :=
  ⟨.note s ho, rfl, rfl⟩

theorem require (s : Scheduler) (a : Assertion) (holds : Bool) : Still s (s.require a holds) := by
  unfold Scheduler.require
  split
  · exact refl s
  · exact note s rfl

theorem put_of_keeps {c : CompileServer} (cid : ℕ) (hnd : (s.kinds.map Kind.cid).Nodup)
    (hkind : c.kind = (s.conn cid).kind) (hholdings : c.holdings = (s.conn cid).holdings)
    (hkeeps : Keeps (fun _ => False) s (s.put c)) : Still s (s.put c) := by
  refine ⟨.put_of_keeps cid hnd hkind hholdings hkeeps, ?_, rfl⟩
  have hcid : c.cid = cid := (congrArg Kind.cid hkind).trans (conn_cid s cid)
  subst hcid
  exact put_map _ hnd hkind

theorem put {c : CompileServer} (cid : ℕ) (hnd : (s.kinds.map Kind.cid).Nodup)
    (hkind : c.kind = (s.conn cid).kind) (hholdings : c.holdings = (s.conn cid).holdings)
    (hblacklist : c.blacklist = (s.conn cid).blacklist) : Still s (s.put c) :=
  put_of_keeps cid hnd hkind hholdings (.put cid hnd hkind hblacklist)

theorem live {cid : ℕ} (h : Still s t) : t.live cid = s.live cid := by
  rw [Bool.eq_iff_iff, live_iff, live_iff, h.all]

end Still

theorem send_still {s : Scheduler} {cid : ℕ} {m : Msg} (h : mode.strict → s.live cid = true)
    (hplain : plain m = true) :
    Ends (tolerated mode) (fun r => Still s r.1 ∧ (r.2 = false → Failed s r.1))
      (s.send cid m) := by
  unfold send
  refine (touch_ends h).bind fun _ _ => ?_
  have hquiet : Quiet s (s.asked.note (.sent cid m (s.ask ≠ 0))) :=
    .note (o := .sent cid m _) hplain rfl
  refine .pure ⟨.of_eq hquiet rfl (Nat.le_succ _) rfl, ?_⟩
  intro hfail
  refine ⟨s.calls, le_rfl, Nat.lt_succ_self _, ?_⟩
  exact not_not.mp (of_decide_eq_false hfail)

theorem kind_of_cid {s : Scheduler} {k : Kind} {cid : ℕ} {t : ConnType} (h : Peers extra s)
    (hk : k ∈ s.kinds) (hcid : k.cid = cid) (hhas : s.Has cid t) : k.type = t := by
  obtain ⟨k', hk', hcid', rfl⟩ := hhas
  rw [kind_unique h.cids hk hk' (hcid.trans hcid'.symm)]

theorem free_kinds (s : Scheduler) (cid : ℕ) :
    (s.free cid).kinds = s.kinds.filter fun k => k.cid ≠ cid := by
  simp only [free, kinds, note, Records.remove, List.filter_map]
  rfl

theorem free_entries {s : Scheduler} {cid : ℕ} {e : ℕ × ℕ} (h : Peers extra s)
    (hlive : s.live cid = true) (he : e ∈ s.fd2cs) : e ∈ (s.free cid).fd2cs ↔ e.2 ≠ cid := by
  obtain ⟨k, hk, hcid, hfd, -⟩ := h.entries e he
  have hfree : e ∈ (s.free cid).fd2cs ↔ e.1 ≠ (s.conn cid).fd := by simp [free, note, he]
  rw [hfree, not_iff_not]
  have hkind := conn_kind_mem hlive
  constructor
  · intro heq
    have hsame : k = (s.conn cid).kind :=
      List.inj_on_of_nodup_map h.fds hk hkind (hfd.trans heq)
    rw [← hcid, hsame]
    exact conn_cid s cid
  · rintro rfl
    have hsame : k = (s.conn e.2).kind :=
      kind_unique h.cids hk hkind (hcid.trans (conn_cid s e.2).symm)
    rw [← hfd, hsame]
    rfl

/-- The record goes, and with it the connection's place in every container. -/
theorem free_loses {s t : Scheduler} {cid : ℕ} (h : Peers extra s) (hlive : s.live cid = true)
    (hconns : t.conns = (s.free cid).conns) (hfd : t.fd2cs = (s.free cid).fd2cs)
    (hcss : t.css = s.css.filter (· ≠ cid)) (hmonitors : t.monitors = s.monitors.filter (· ≠ cid))
    (hcontrols : t.controls = s.controls.filter (· ≠ cid)) (hquiet : Quiet s t)
    (host : t.host = s.host) (settings : t.settings = s.settings)
    (newCid : t.newCid = s.newCid) (calls : s.calls ≤ t.calls) :
    Loses (· = cid) s t where
  host := host
  settings := settings
  newCid := newCid
  calls := calls
  css := by
    rw [hcss]
    exact List.filter_sublist
  cssKept x hx hlost := by simp [hcss, hx, hlost]
  controls := by
    rw [hcontrols]
    exact List.filter_sublist
  controlsKept x hx hlost := by simp [hcontrols, hx, hlost]
  monitors := by
    rw [hmonitors]
    exact List.filter_sublist
  monitorsKept x hx hlost _ := by simp [hmonitors, hx, hlost]
  kinds := by
    rw [kinds, hconns, ← kinds, free_kinds]
    exact List.filter_sublist
  kept k hk hlost _ := by
    rw [kinds, hconns, ← kinds, free_kinds]
    simp [hk, hlost]
  fd2cs := by
    rw [hfd]
    exact List.filter_sublist
  entries e he hlost _ := by
    rw [hfd]
    exact (free_entries h hlive he).mpr hlost
  entriesLive e he k hk hcid _ := by
    rw [hfd] at he
    have hmem : e ∈ s.fd2cs := List.filter_sublist.subset he
    have hne := (free_entries h hlive hmem).mp he
    rw [kinds, hconns, ← kinds, free_kinds]
    simp [hk, hcid, hne]
  quiet := hquiet
  blacklists x hx y _ := by
    have hne : x ≠ cid := by
      rintro rfl
      rw [live_iff, kinds, hconns, ← kinds, free_kinds, List.mem_map] at hx
      obtain ⟨k, hk, hcid⟩ := hx
      simp [hcid] at hk
    have hsame : t.conn x = s.conn x := by rw [conn, hconns, ← conn, free_conn hne]
    rw [hsame]
    exact List.Subset.refl _

/-- A monitor that could not be told counts as one of those that may get lost. -/
theorem Loses.closed {lost : ℕ → Prop} {s r t : Scheduler} {cid : ℕ} (h : Loses lost s r)
    (h' : Loses (· = cid) r t) (hcid : cid ∈ s.monitors) (hcss : cid ∉ s.css)
    (hcontrols : cid ∉ s.controls) (hgone : cid ∉ t.monitors) (hfail : Failed s r) :
    Loses lost s t where
  host := h'.host.trans h.host
  settings := h'.settings.trans h.settings
  newCid := h'.newCid.trans h.newCid
  calls := h.calls.trans h'.calls
  css := h'.css.trans h.css
  cssKept x hx hlost := h'.cssKept x (h.cssKept x hx hlost) (by rintro rfl; exact hcss hx)
  controls := h'.controls.trans h.controls
  controlsKept x hx hlost :=
    h'.controlsKept x (h.controlsKept x hx hlost) (by rintro rfl; exact hcontrols hx)
  monitors := h'.monitors.trans h.monitors
  monitorsKept x _ _ hnot := absurd (hfail.left h'.calls) hnot
  kinds := h'.kinds.trans h.kinds
  kept k hk hlost hmon := by
    have hne : k.cid ≠ cid := by
      intro heq
      rw [heq] at hmon
      exact hgone (hmon hcid)
    have hmid := h.kept k hk hlost fun hm => h'.monitors.subset (hmon hm)
    exact h'.kept k hmid hne fun hm => hmon (h.monitors.subset hm)
  fd2cs := h'.fd2cs.trans h.fd2cs
  entries e he hlost hmon :=
    h'.entries e (h.entries e he hlost hmon) (by rintro rfl; exact hmon hcid)
      fun hm => hmon (h.monitors.subset hm)
  entriesLive e he k hk hcid' hfd :=
    h'.entriesLive e he k (h.entriesLive e (h'.fd2cs.subset he) k hk hcid' hfd) hcid' hfd
  quiet := h.quiet.trans h'.quiet
  blacklists x hx y hy := by
    have hlive := live_iff.mpr ((h'.kinds.map _).subset (live_iff.mp hx))
    exact List.Subset.trans (h.blacklists x hlive y (h'.css.subset hy)) (h'.blacklists x hx y hy)

theorem Peers.disjoint {s : Scheduler} {cid : ℕ} (h : Peers extra s) (hcid : cid ∈ s.monitors) :
    cid ∉ s.css ∧ cid ∉ s.controls :=
  ⟨fun hm => h.not_monitor (h.css cid hm) (by decide) hcid,
    fun hm => h.not_monitor (h.controls cid hm) (by decide) hcid⟩

theorem filter_ne_of_notMem {l : List ℕ} {x : ℕ} (h : x ∉ l) : l.filter (· ≠ x) = l := by
  apply List.filter_eq_self.mpr
  intro y hy
  have hne : y ≠ x := by
    rintro rfl
    exact h hy
  simpa using hne

theorem endMonitor_keeps {s : Scheduler} {cid : ℕ} (h : Peers extra s)
    (hhas : s.Has cid .monitor) :
    Ends (tolerated mode)
      (fun t => Keeps (· = cid) s t ∧ t.monitors = s.monitors.filter (· ≠ cid) ∧
        (t.conns.map CompileServer.holdings).Sublist (s.conns.map CompileServer.holdings) ∧
        t.kinds = s.kinds.filter (fun k => k.cid ≠ cid))
      (s.endMonitor cid) := by
  have hcss : cid ∉ s.css := by
    intro hmem
    have htype := conn_type h.cids (h.css cid hmem)
    simp [conn_type h.cids hhas] at htype
  have hcontrols : cid ∉ s.controls := by
    intro hmem
    have htype := conn_type h.cids (h.controls cid hmem)
    simp [conn_type h.cids hhas] at htype
  unfold endMonitor
  refine (touch_ends fun _ => hhas.live).bind fun _ _ => ?_
  have hsame : ∀ b, Keeps (· = cid) s
      ({ s.require .monitorListed b with monitors := s.monitors.filter (· ≠ cid) }.free cid) ∧
      ({ s.require .monitorListed b with monitors := s.monitors.filter (· ≠ cid) }.free cid).kinds =
        (s.free cid).kinds := by
    intro b
    have hquiet : Quiet s
        ({ s.require .monitorListed b with monitors := s.monitors.filter (· ≠ cid) }.free cid) :=
      (Aside.require s .monitorListed b).quiet.trans (.note (o := .ended cid) rfl rfl)
    cases b <;>
    exact ⟨⟨free_loses h hhas.live rfl rfl (filter_ne_of_notMem hcss).symm rfl
      (filter_ne_of_notMem hcontrols).symm hquiet rfl rfl rfl le_rfl, rfl, rfl, rfl, rfl, rfl, rfl⟩,
      rfl⟩
  have hmonitors : (s.require .monitorListed (cid ∈ s.monitors)).monitors = s.monitors := by
    unfold Scheduler.require
    split <;> rfl
  have hconns : (s.require .monitorListed (cid ∈ s.monitors)).conns = s.conns := by
    unfold Scheduler.require
    split <;> rfl
  refine .pure ?_
  simp only [hmonitors]
  refine ⟨(hsame _).1, rfl, ?_, ?_⟩
  · simp only [free, note, hconns]
    exact List.filter_sublist.map _
  · rw [(hsame _).2]
    exact free_kinds s cid

theorem notify_aside {s : Scheduler} {cid : ℕ} {m : Msg} (h : Peers extra s)
    (hcid : cid ∈ s.monitors) (hplain : plain m = true) :
    Ends (tolerated mode)
      (fun t => Aside s t ∧ ∀ x ∈ s.monitors, x ≠ cid → x ∈ t.monitors) (notify m s cid) := by
  unfold notify
  refine (send_still (fun _ => (h.monitors cid hcid).live) hplain).bind fun r hr => ?_
  obtain ⟨⟨haside, -, hmon⟩, hfail⟩ := hr
  refine .ite (fun _ => .pure ⟨haside, ?_⟩) fun hsent => ?_
  · intro x hx _
    rwa [hmon]
  · have hr := haside.peers h
    have hmem : cid ∈ r.1.monitors := by rwa [hmon]
    refine (endMonitor_keeps hr (hr.monitors cid hmem)).mono fun t ht => ?_
    obtain ⟨hkeeps, hgone, hholdings, -⟩ := ht
    obtain ⟨hcss, hcontrols⟩ := h.disjoint hcid
    refine ⟨⟨⟨?_, ?_, ?_, ?_, ?_, ?_, ?_⟩, ?_⟩, ?_⟩
    · apply haside.toLoses.closed hkeeps.toLoses hcid hcss hcontrols
      · simp [hgone]
      · exact hfail (by simpa using hsent)
    · exact hkeeps.same.trans haside.same
    · exact hkeeps.heap.trans haside.heap
    · exact hkeeps.jobs.trans haside.jobs
    · exact hkeeps.jobRequests.trans haside.jobRequests
    · exact hkeeps.newJobId.trans haside.newJobId
    · exact hkeeps.newPtr.trans haside.newPtr
    · exact hholdings.trans haside.holdings
    · intro x hx hne
      rw [hgone]
      simp [hmon, hx, hne]

/-- Every monitor is still there when the loop comes to it. -/
theorem notifyMonitors_aside {s : Scheduler} {m : Msg} (h : Peers extra s)
    (hplain : plain m = true) :
    Ends (tolerated mode) (Aside s) (s.notifyMonitors m) := by
  unfold notifyMonitors
  refine (Ends.foldlM (fun rest t => Aside s t ∧ rest.Nodup ∧ ∀ x ∈ rest, x ∈ t.monitors)
    ⟨.refl s, h.monitorsNodup, fun _ hx => hx⟩ ?_).mono ?_
  · rintro cid rest t ⟨haside, hnodup, hrest⟩
    have hcid := hrest cid List.mem_cons_self
    refine (notify_aside (haside.peers h) hcid hplain).mono fun u hu => ?_
    obtain ⟨hnotin, hnodup⟩ := List.nodup_cons.mp hnodup
    refine ⟨haside.trans hu.1, hnodup, fun x hx => ?_⟩
    apply hu.2 x (hrest x (List.mem_cons_of_mem _ hx))
    rintro rfl
    exact hnotin hx
  · exact fun t ht => ht.1

theorem handleMonitorStats_aside {s : Scheduler} {cid : ℕ} (h : Peers extra s)
    (hlive : mode.strict → s.live cid = true) :
    Ends (tolerated mode) (Aside s) (s.handleMonitorStats cid) := by
  unfold handleMonitorStats
  refine .ite (fun _ => .pure (.refl s)) fun _ => ?_
  refine (touch_ends hlive).bind fun _ _ => ?_
  have hasked := Aside.asked s
  exact (notifyMonitors_aside (hasked.peers h) rfl).mono fun t ht => hasked.trans ht

theorem setBusyInstalling_still {s : Scheduler} {cid : ℕ} (time : ℤ) (h : Peers extra s)
    (hlive : mode.strict → s.live cid = true) :
    Ends (tolerated mode) (Still s) (s.setBusyInstalling cid time) := by
  unfold setBusyInstalling
  refine (touch_ends hlive).bind fun _ _ => ?_
  exact .pure (.put cid h.cids rfl rfl rfl)

end Scheduler

end Icecream.IceccScheduler
