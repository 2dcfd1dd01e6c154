import Icecream.Scheduler.Homes

/-!
# Blacklisted environments

A daemon holds environments for a target platform against a server. The entries are
compared with environments for host platforms, and not at all with what the server has
installed, so that they work only for a job whose environments tell the two apart.
-/

namespace Icecream.IceccScheduler

open Icecream.Comm
open Icecream.Fault

namespace Scheduler

variable {s : Scheduler} {cid : ℕ}

/-! ## `handle_blacklist_host_env` -/

theorem put_conn_live {c : CompileServer} (h : s.live c.cid = true) : (s.put c).conn c.cid = c := by
  simp only [conn, put, Records.find_replace]
  cases hfind : s.conns.find? fun d => d.cid = c.cid with
  | some d => simp
  | none =>
    obtain ⟨d, hd, hcid⟩ := List.any_eq_true.mp h
    exact absurd hcid (List.find?_eq_none.mp hfind d hd)

/-- What one turn of the loop adds -/
theorem blacklistCompileServer_against (m : BlacklistHostEnvMsg) (other : ℕ) :
    Ends (fun _ => True) (fun t => (∀ x, (t.conn x).name = (s.conn x).name) ∧
      (∀ h, (s.conn cid).against h ⊆ (t.conn cid).against h) ∧
      ((s.conn other).name = m.hostname →
        (m.target, m.environment) ∈ (t.conn cid).against other))
      (blacklistCompileServer cid m s other) := by
  have htouch : ∀ x, Ends (fun _ => True) (fun _ => s.live x = true) (s.touch x) := by
    intro x
    unfold touch
    exact .ite (fun hlive => .pure hlive) fun _ => .throw trivial
  unfold blacklistCompileServer
  refine (htouch other).bind fun _ _ => ?_
  refine (htouch cid).bind fun _ hlive => ?_
  refine .ite (fun _ => .pure ?_) fun hname => .pure ?_
  · have hput : ∀ b, (s.put { s.conn cid with blacklist := b }).conn cid =
        { s.conn cid with blacklist := b } := by
      intro b
      have hself : ({ s.conn cid with blacklist := b } : CompileServer).cid = cid := conn_cid s cid
      have hsame := put_conn_live (hself.symm ▸ hlive)
      rwa [hself] at hsame
    refine ⟨fun x => ?_, fun h => ?_, fun _ => ?_⟩
    · by_cases hx : x = cid
      · rw [hx, hput]
      · refine congrArg CompileServer.name (put_conn_of_ne ?_)
        rw [show _ = (s.conn cid).cid from rfl, conn_cid]
        exact Ne.symm hx
    · rw [hput]
      simp only [CompileServer.against]
      by_cases hh : h = other
      · subst hh
        simp
      · simp [AList.lookup_insert_ne hh]
    · rw [hput]
      simp [CompileServer.against]
  · exact ⟨fun _ => rfl, fun _ => List.Subset.refl _, fun hsame => absurd hsame hname⟩

theorem handleBlacklistHostEnv_against (m : BlacklistHostEnvMsg) :
    Ends (fun _ => True) (fun r => ∀ h ∈ s.css, (s.conn h).name = m.hostname →
      (m.target, m.environment) ∈ (r.1.conn cid).against h)
      (s.handleBlacklistHostEnv cid m) := by
  unfold handleBlacklistHostEnv
  refine (Ends.foldlM (fun rest t => (∀ x, (t.conn x).name = (s.conn x).name) ∧
    ∀ h ∈ s.css, (s.conn h).name = m.hostname → h ∈ rest ∨
      (m.target, m.environment) ∈ (t.conn cid).against h)
    ⟨fun _ => rfl, fun h hh _ => .inl hh⟩ ?_).bind fun t ht => .pure fun h hh hname => ?_
  · intro other rest t hinv
    obtain ⟨hnames, hheld⟩ := hinv
    refine (blacklistCompileServer_against m other).mono fun u hu => ?_
    obtain ⟨hsame, hkept, hnew⟩ := hu
    refine ⟨fun x => (hsame x).trans (hnames x), fun h hh hname => ?_⟩
    rcases hheld h hh hname with hrest | hheld
    · rcases List.mem_cons.mp hrest with rfl | hrest
      · exact .inr (hnew ((hnames h).trans hname))
      · exact .inl hrest
    · exact .inr (hkept h hheld)
  · exact (ht.2 h hh hname).resolve_left List.not_mem_nil

/-! ## What the submitter is told -/

/-- The environments of the job that `c` runs and the job's submitter has nothing against -/
def Installable (s : Scheduler) (c : CompileServer) (job : Job) (x : Str × Str) : Prop :=
  x ∈ job.environments ∧ c.platformsCompatible x.1 = true ∧
    x ∉ (s.conn job.submitter).against c.cid

/-- As an environment of the job, `e` is told from what else `c` may use. -/
structure Separable (c : CompileServer) (job : Job) (e : Str) : Prop where
  platform : ∀ x ∈ job.environments, x.2 = e → c.platformsCompatible x.1 = true →
    x.1 = job.targetPlatform
  single : ∀ x ∈ job.environments, x.1 = job.targetPlatform → c.platformsCompatible x.1 = true →
    (job.targetPlatform, e) ∈ job.environments → x.2 = e
  missing : (job.targetPlatform, e) ∈ job.environments →
    c.platformsCompatible job.targetPlatform = true →
    (job.targetPlatform, e) ∉ c.compilerVersions

theorem canInstall_installable {c : CompileServer} {job : Job} {b : Bool}
    (h : s.canInstall c job b ≠ []) : ∃ e, s.Installable c job (s.canInstall c job b, e) := by
  unfold canInstall at h ⊢
  by_cases hbusy : ¬ b = true ∧ c.busyInstalling ≠ 0
  · rw [if_pos hbusy] at h
    exact absurd rfl h
  rw [if_neg hbusy] at h ⊢
  cases hfind : job.environments.find? fun e =>
      c.platformsCompatible e.1 ∧ ¬ s.blacklisted c job e with
  | none =>
    rw [hfind] at h
    exact absurd rfl h
  | some x =>
    have hpicked := List.find?_some hfind
    rw [decide_eq_true_eq] at hpicked
    obtain ⟨hruns, hfree⟩ := hpicked
    refine ⟨x.2, List.mem_of_find?_eq_some hfind, hruns, fun hagainst => hfree ?_⟩
    exact decide_eq_true hagainst

theorem envsMatch_installed {c : CompileServer} {job : Job} (h : envsMatch c job ≠ [])
    (hother : job.submitter ≠ c.cid) : ∃ e, (envsMatch c job, e) ∈ job.environments ∧
      c.platformsCompatible (envsMatch c job) = true ∧
      (job.targetPlatform, e) ∈ c.compilerVersions := by
  unfold envsMatch at h ⊢
  rw [if_neg hother] at h ⊢
  cases hfind : c.compilerVersions.findSome? fun env => matching c job env with
  | none => simp [hfind] at h
  | some platform =>
    obtain ⟨env, henv, hmatch⟩ := List.exists_of_findSome?_eq_some hfind
    unfold matching at hmatch
    split at hmatch
    · rename_i htarget
      obtain ⟨x, hx, rfl⟩ := Option.map_eq_some_iff.mp hmatch
      have hpicked := List.find?_some hx
      rw [decide_eq_true_eq] at hpicked
      obtain ⟨hsame, hruns⟩ := hpicked
      refine ⟨x.2, List.mem_of_find?_eq_some hx, hruns, ?_⟩
      rwa [← htarget, ← hsame]
    · cases hmatch

/-- The platform told belongs to another environment than the one held against the server. -/
theorem told_avoids {ptr useCs : ℕ} {u : UseCSMsg} {e : Str} (hu : s.told ptr useCs = .useCS u)
    (hinstall : s.canInstall (s.conn useCs) (s.job ptr) false ≠ [])
    (hother : useCs ≠ (s.job ptr).submitter)
    (hagainst : ((s.job ptr).targetPlatform, e) ∈ (s.conn (s.job ptr).submitter).against useCs)
    (hseparable : Separable (s.conn useCs) (s.job ptr) e) :
    (u.hostPlatform, e) ∉ (s.job ptr).environments := by
  have hcid : (s.conn useCs).cid = useCs := conn_cid s useCs
  have hplatform : u.hostPlatform = (if envsMatch (s.conn useCs) (s.job ptr) = [] then
      s.canInstall (s.conn useCs) (s.job ptr) false
      else envsMatch (s.conn useCs) (s.job ptr)) := by
    unfold told placement at hu
    have hne : ¬ (37 ≤ (s.conn (s.job ptr).submitter).protocol ∧
        useCs = (s.job ptr).submitter) := fun h => hother h.2
    rw [if_neg hne] at hu
    cases hu
    rfl
  intro hlisted
  -- what is listed for another platform than the target's is not told apart
  have htarget : ∀ p, (p, e) ∈ (s.job ptr).environments →
      (s.conn useCs).platformsCompatible p = true → p = (s.job ptr).targetPlatform :=
    fun p hp hruns => hseparable.platform (p, e) hp rfl hruns
  rw [hplatform] at hlisted
  by_cases hmatch : envsMatch (s.conn useCs) (s.job ptr) = []
  · rw [if_pos hmatch] at hlisted
    obtain ⟨v, hv, hruns, hfree⟩ := canInstall_installable hinstall
    have hsame := htarget _ hlisted hruns
    rw [hsame] at hlisted hv hruns hfree
    obtain rfl : v = e := hseparable.single _ hv rfl hruns hlisted
    rw [hcid] at hfree
    exact hfree hagainst
  · rw [if_neg hmatch] at hlisted
    obtain ⟨v, hv, hruns, hinstalled⟩ := envsMatch_installed hmatch (by rw [hcid]; exact hother.symm)
    have hsame := htarget _ hlisted hruns
    rw [hsame] at hlisted hv hruns
    obtain rfl : v = e := hseparable.single _ hv rfl hruns hlisted
    exact hseparable.missing hlisted hruns hinstalled

/-! ## Deciding the conditions -/

instance (s : Scheduler) (c : CompileServer) (job : Job) (x : Str × Str) :
    Decidable (s.Installable c job x) := inferInstanceAs (Decidable (_ ∧ _ ∧ _))

set_option synthInstance.maxSize 256 in
instance (c : CompileServer) (job : Job) (e : Str) : Decidable (Separable c job e) :=
  decidable_of_iff
    ((∀ x ∈ job.environments, x.2 = e → c.platformsCompatible x.1 = true →
        x.1 = job.targetPlatform) ∧
      (∀ x ∈ job.environments, x.1 = job.targetPlatform → c.platformsCompatible x.1 = true →
        (∃ y ∈ job.environments, y = (job.targetPlatform, e)) → x.2 = e) ∧
      ((∃ y ∈ job.environments, y = (job.targetPlatform, e)) →
        c.platformsCompatible job.targetPlatform = true →
        ¬ ∃ y ∈ c.compilerVersions, y = (job.targetPlatform, e)))
    (by
      simp only [exists_eq_right]
      exact ⟨fun ⟨h₁, h₂, h₃⟩ => ⟨h₁, h₂, h₃⟩, fun ⟨h₁, h₂, h₃⟩ => ⟨h₁, h₂, h₃⟩⟩)

/-- No two servers have the same host name and port. What the submitter of the first
request holds against a server for the target is told from what else the server may use. -/
structure Distinct (s : Scheduler) : Prop where
  names : ∀ x ∈ s.css, ∀ y ∈ s.css, (s.conn x).name = (s.conn y).name →
    (s.conn x).remotePort = (s.conn y).remotePort → x = y
  separable : ∀ ptr ∈ s.firstRequest, ∀ x ∈ s.css, x ≠ (s.job ptr).submitter →
    (∃ y ∈ (s.job ptr).environments, s.Installable (s.conn x) (s.job ptr) y) →
    ∀ e ∈ (s.conn (s.job ptr).submitter).against x, e.1 = (s.job ptr).targetPlatform →
      Separable (s.conn x) (s.job ptr) e.2

instance (s : Scheduler) : Decidable s.Distinct :=
  decidable_of_iff
    ((∀ x ∈ s.css, ∀ y ∈ s.css, (s.conn x).name = (s.conn y).name →
        (s.conn x).remotePort = (s.conn y).remotePort → x = y) ∧
      ∀ ptr ∈ s.firstRequest, ∀ x ∈ s.css, x ≠ (s.job ptr).submitter →
        (∃ y ∈ (s.job ptr).environments, s.Installable (s.conn x) (s.job ptr) y) →
        ∀ e ∈ (s.conn (s.job ptr).submitter).against x, e.1 = (s.job ptr).targetPlatform →
          Separable (s.conn x) (s.job ptr) e.2)
    ⟨fun ⟨h₁, h₂⟩ => ⟨h₁, h₂⟩, fun ⟨h₁, h₂⟩ => ⟨h₁, h₂⟩⟩

/-- Between the two states, nothing that `cid` is told about a job for the target sends the
job to the host and port of `h` with a platform for which the job lists the environment. -/
def Avoids (cid h : ℕ) (m : BlacklistHostEnvMsg) (s t : Scheduler) : Prop :=
  ∀ new u ok, t.log = new ++ s.log → .sent cid (.useCS u) ok ∈ new →
    ∃ ptr ∈ s.firstRequest, (s.job ptr).id = u.jobId ∧ (s.job ptr).submitter = cid ∧
      (u.hostname = (s.conn h).name → u.port = (s.conn h).remotePort →
        (s.job ptr).targetPlatform = m.target →
        (u.hostPlatform, m.environment) ∉ (s.job ptr).environments)

theorem Quiet.unsaid {x : ℕ} {t : Scheduler} {u : UseCSMsg} {ok : Bool} {new : List Obs}
    (h : Quiet s t) (hlog : t.log = new ++ s.log) : .sent x (.useCS u) ok ∉ new := by
  intro hsent
  obtain ⟨old, hold, hplain⟩ := h
  have hsame := List.append_cancel_right (hlog.symm.trans hold)
  cases hplain _ (hsame ▸ hsent)

theorem Quiet.avoids {h : ℕ} {m : BlacklistHostEnvMsg} {t : Scheduler} (hquiet : Quiet s t) :
    Avoids cid h m s t := by
  intro new u ok hlog hsent
  exact absurd hsent (hquiet.unsaid hlog)

theorem told_useCS {ptr useCs : ℕ} {u : UseCSMsg} (hu : s.told ptr useCs = .useCS u) :
    u.jobId = (s.job ptr).id ∧ u.hostname = (s.conn useCs).name ∧
      u.port = (s.conn useCs).remotePort := by
  simp only [told, placement] at hu
  split at hu
  · cases hu
  · cases hu
    exact ⟨rfl, rfl, rfl⟩

/-- Only the submitter is told to use a server. -/
theorem Placed.said {mode : Mode} {ptr useCs x : ℕ} {t : Scheduler} {u : UseCSMsg} {ok : Bool}
    {new : List Obs} (hplaced : Placed mode s ptr useCs t) (hlog : t.log = new ++ s.log)
    (hsent : .sent x (.useCS u) ok ∈ new) :
    x = (s.job ptr).submitter ∧ s.told ptr useCs = .useCS u := by
  obtain ⟨before, after, ok', hplaced, hplain⟩ := hplaced.log
  have hsame : new = before ++ .sent (s.job ptr).submitter (s.told ptr useCs) ok' :: after := by
    have hlogs := hlog.symm.trans hplaced
    rw [← List.cons_append, ← List.append_assoc] at hlogs
    exact List.append_cancel_right hlogs
  rw [hsame, List.mem_append, List.mem_cons] at hsent
  rcases hsent with hsent | hsent | hsent
  · cases hplain _ (List.mem_append_left _ hsent)
  · obtain ⟨hx, htold, -⟩ := Obs.sent.inj hsent
    exact ⟨hx, htold.symm⟩
  · cases hplain _ (List.mem_append_right _ hsent)

theorem Placed.avoids {mode : Mode} {ptr useCs h : ℕ} {m : BlacklistHostEnvMsg} {t : Scheduler}
    (hplaced : Placed mode s ptr useCs t) (hfirst : s.firstRequest = some ptr)
    (heligible : s.Eligible ptr useCs) (hdistinct : s.Distinct) (hcid : cid ∈ s.css)
    (hh : h ∈ s.css) (hne : h ≠ cid)
    (hagainst : (m.target, m.environment) ∈ (s.conn cid).against h) : Avoids cid h m s t := by
  intro new u ok hlog hsent
  obtain ⟨rfl, hu⟩ := hplaced.said hlog hsent
  obtain ⟨hid, hname, hport⟩ := told_useCS hu
  refine ⟨ptr, hfirst, hid.symm, rfl, fun hsamename hsameport htarget => ?_⟩
  have hisH : ∀ x ∈ s.css, (s.conn x).name = (s.conn useCs).name →
      (s.conn x).remotePort = (s.conn useCs).remotePort → x = h := fun x hx hxname hxport =>
    hdistinct.names x hx h hh (hxname.trans (hname.symm.trans hsamename))
      (hxport.trans (hport.symm.trans hsameport))
  rcases heligible with hsuits | rfl
  · obtain rfl := hisH useCs hsuits.1 rfl rfl
    have hheld := htarget.symm ▸ hagainst
    obtain ⟨v, hv⟩ := canInstall_installable hsuits.canInstall
    refine told_avoids hu hsuits.canInstall hne hheld ?_
    exact hdistinct.separable ptr hfirst useCs hsuits.1 hne ⟨_, hv.1, hv⟩ _ hheld rfl
  · exact absurd (hisH _ hcid rfl rfl).symm hne

end Scheduler

namespace Loop

open Scheduler

variable {l l' : Loop}

/-- Nothing is asked of messages. -/
def anyMode : Mode := ⟨False, False, False, id, id⟩

theorem permitted_any (l : Loop) (e : Event) : Permitted anyMode l e :=
  ⟨fun _ _ => ⟨fun hf => hf.elim, fun hf => hf.elim, fun hf => hf.elim⟩, fun hf => hf.elim⟩

theorem reachable_between (h : system.Reachable l) : Between anyMode l :=
  reaches_between (fun l e _ => permitted_any l e) h

/-- The conditions hold when the queue is served. -/
def TellsApart (l : Loop) (e : Event) : Prop := e = .emptyQueue → l.scheduler.Distinct

instance (l : Loop) (e : Event) : Decidable (TellsApart l e) :=
  inferInstanceAs (Decidable (_ → _))

/-- As long as both are connected, `cid` holds `env` against `h`. -/
structure Holds (cid h : ℕ) (env : Str × Str) (l : Loop) : Prop where
  between : Between anyMode l
  cids : cid < l.scheduler.newCid ∧ h < l.scheduler.newCid
  held : l.scheduler.live cid = true → l.scheduler.live h = true →
    cid ∈ l.scheduler.css ∧ h ∈ l.scheduler.css ∧ env ∈ (l.scheduler.conn cid).against h

theorem Holds.step {cid h : ℕ} {env : Str × Str} {e : Event} (hl : Holds cid h env l)
    (hnext : l.next e = some l') : Holds cid h env l' := by
  have hstep := next_stepped hl.between (permitted_any l e) hnext
  have hfollows := hstep.follows
  obtain ⟨hcid, hh⟩ := hl.cids
  refine ⟨hstep.between, ⟨hcid.trans_le hfollows.newCid, hh.trans_le hfollows.newCid⟩, ?_⟩
  intro hlive hhlive
  have hold := hfollows.lives cid hlive hcid
  obtain ⟨hcss, hhcss, henv⟩ := hl.held hold (hfollows.lives h hhlive hh)
  exact ⟨hfollows.daemons cid hcss hlive, hfollows.daemons h hhcss hhlive,
    hfollows.blacklists cid hold hlive h hhcss hhlive henv⟩

/-- The blacklisting itself -/
theorem blacklist_holds {cid h : ℕ} {rest : Phase} {m : BlacklistHostEnvMsg}
    (hl : Between anyMode l) (hreading : current l.phase = some (cid, rest))
    (hcss : cid ∈ l.scheduler.css)
    (hnext : l.next (.activity (some (.blacklistHostEnv m))) = some l')
    (hh : h ∈ l.scheduler.css) (hname : (l.scheduler.conn h).name = m.hostname) :
    Holds cid h (m.target, m.environment) l' := by
  have hstep := next_stepped hl (permitted_any l _) hnext
  have hfollows := hstep.follows
  have hpeers := hl.facts.peers
  refine ⟨hstep.between, ⟨(hpeers.css_lt hcss).trans_le hfollows.newCid,
    (hpeers.css_lt hh).trans_le hfollows.newCid⟩, fun hlive hhlive => ?_⟩
  refine ⟨hfollows.daemons cid hcss hlive, hfollows.daemons h hh hhlive, ?_⟩
  have hstate : (l.scheduler.conn cid).state ≠ .connected := by
    intro hstate
    have htype := hl.raw _ (conn_kind_mem (hpeers.css cid hcss).live) hstate
    have hdaemon := conn_type hpeers.cids (hpeers.css cid hcss)
    exact ConnType.noConfusion (hdaemon.symm.trans htype)
  have hagainst : Ends (fun _ => True)
      (fun r => (m.target, m.environment) ∈ (r.1.conn cid).against h)
      (l.scheduler.handleActivity cid (some (.blacklistHostEnv m))) := by
    have htouch : Ends (fun _ => True) (fun _ => True) (l.scheduler.touch cid) :=
      .any fun _ => trivial
    unfold handleActivity
    refine htouch.bind fun _ _ => ?_
    refine .ite (fun hconnected => absurd hconnected hstate) fun _ => ?_
    exact (handleBlacklistHostEnv_against m).mono fun r hr => hr h hh hname
  obtain ⟨b, hr⟩ := Loop.next_activity hreading hnext
  exact hagainst.of_ok hr

/-- After `cid` has blacklisted an environment on `h`, the queue is served without it. -/
theorem blacklisted_avoided {l₀ l₁ l₂ l₃ : Loop} {cid h : ℕ} {rest : Phase}
    {m : BlacklistHostEnvMsg} {e : Event} (h₀ : system.Reachable l₀)
    (hreading : current l₀.phase = some (cid, rest)) (hcid : cid ∈ l₀.scheduler.css)
    (hblacklist : system.next l₀ (.activity (some (.blacklistHostEnv m))) = some l₁)
    (hh : h ∈ l₀.scheduler.css) (hname : (l₀.scheduler.conn h).name = m.hostname) (hne : h ≠ cid)
    (hsteps : system.Steps TellsApart l₁ l₂) (hlive : l₂.scheduler.live cid = true)
    (hhlive : l₂.scheduler.live h = true) (hok : TellsApart l₂ e)
    (hnext : system.next l₂ e = some l₃) : Avoids cid h m l₂.scheduler l₃.scheduler := by
  have hfirst := blacklist_holds (reachable_between h₀) hreading hcid hblacklist hh hname
  have hholds : Holds cid h (m.target, m.environment) l₂ :=
    hsteps.invariant hfirst fun _ _ _ hl _ hn => hl.step hn
  have hstep := next_stepped hholds.between (permitted_any l₂ e) hnext
  by_cases hqueue : e = .emptyQueue
  · subst hqueue
    obtain ⟨hcss, hhcss, hheld⟩ := hholds.held hlive hhlive
    obtain ⟨again, hr⟩ := next_emptyQueue hnext
    rcases (emptyQueue_ends hholds.between.facts).of_ok hr with hleaves | hplaced
    · exact hleaves.loses.quiet.avoids
    · obtain ⟨ptr, useCs, hptr, heligible, hplaced⟩ := hplaced
      exact hplaced.avoids hptr heligible (hok rfl) hcss hhcss hne hheld
  · exact (hstep.quiet hqueue).avoids

/-- Two daemons log in, of which the second has `envs` and is idle; the first is read. -/
def twoDaemons (envs : Environments) : List Event :=
  polling 0 ++ [newcomer 7 1 "s", .activity (some (daemonLogin "s"))] ++ quietTurn ++ polling 1 ++
    [newcomer 9 2 "h", .activity (some (daemonLogin "h" envs)),
      .activity (some (.stats { loadAvg1 := 0, loadAvg5 := 0, loadAvg10 := 0, freeMem := 0 })),
      .idle, .accepted, .controlled, .noDatagram, .advance]

/-- The first daemon asks for a server, and the next turn comes to the queue. -/
def asksFor (target : String) (envs : Environments) : List Event :=
  [.activity (some (.getCS { lang := 0, target := str target, versions := envs })),
    .idle, .advance, .idle, .visited, .tested true, .prune]

/-- What the last message was, as far as it names a server -/
def lastNamed (l l' : Loop) : Option (ℕ × UseCSMsg) :=
  match l'.scheduler.log with
  | .sent cid (.useCS u) _ :: log => if log = l.scheduler.log then some (cid, u) else none
  | _ => none

theorem lastNamed_sent {u : UseCSMsg} {cid : ℕ} (h : lastNamed l l' = some (cid, u)) :
    ∃ ok, l'.scheduler.log = .sent cid (.useCS u) ok :: l.scheduler.log := by
  unfold lastNamed at h
  split at h
  · rename_i x v ok log hlog
    split at h
    · rename_i hsame
      cases h
      exact ⟨ok, by rw [hlog, hsame]⟩
    · cases h
  · cases h

theorem blacklisted_avoided_other : ∃ l₂ l₃ : Loop, l₂.next .emptyQueue = some l₃ ∧
    lastNamed l₂ l₃ = some (0, ⟨1, str "h", 10245, str "i386", 0, 0, 0⟩) ∧
    Avoids 0 1 ⟨str "e", str "x86_64", str "h"⟩ l₂.scheduler l₃.scheduler := by
  have hrun : ((system.exec (started fun _ => 1) (twoDaemons [])).bind fun l₀ =>
      (l₀.next (.activity (some (.blacklistHostEnv ⟨str "e", str "x86_64", str "h"⟩)))).bind fun l₁ =>
      (system.run TellsApart l₁ (asksFor "x86_64"
        [(str "x86_64", str "e"), (str "i386", str "f")])).bind fun l₂ =>
      (l₂.next .emptyQueue).map fun l₃ => decide (
        ((current l₀.phase).map Prod.fst = some 0 ∧ l₀.scheduler.css = [0, 1] ∧
          (l₀.scheduler.conn 1).name = str "h") ∧
        (l₂.scheduler.live 0 ∧ l₂.scheduler.live 1 ∧ TellsApart l₂ .emptyQueue) ∧
        lastNamed l₂ l₃ = some (0, ⟨1, str "h", 10245, str "i386", 0, 0, 0⟩))) = some true := by
    decide +kernel
  obtain ⟨l₀, h₀, hrun⟩ := Option.bind_eq_some_iff.mp hrun
  obtain ⟨l₁, h₁, hrun⟩ := Option.bind_eq_some_iff.mp hrun
  obtain ⟨l₂, h₂, hrun⟩ := Option.bind_eq_some_iff.mp hrun
  obtain ⟨l₃, h₃, hall⟩ := Option.map_eq_some_iff.mp hrun
  obtain ⟨⟨hreading, hcss, hname⟩, ⟨hlive, hhlive, hok⟩, hnamed⟩ := of_decide_eq_true hall
  obtain ⟨⟨cid, rest⟩, hreading, hcid⟩ := Option.map_eq_some_iff.mp hreading
  obtain rfl : cid = 0 := hcid
  have hreach := (Transition.System.Reaches.init (started_init _)).exec (fun _ _ _ => trivial) h₀
  refine ⟨l₂, l₃, h₃, hnamed, ?_⟩
  exact blacklisted_avoided hreach hreading (by simp [hcss]) h₁ (by simp [hcss]) hname (by decide)
    (Transition.System.Steps.refl.run h₂) hlive hhlive hok h₃

/-- The queue names `h` to `cid` for a job with an environment that `cid` has blacklisted. -/
def Ignored (m : BlacklistHostEnvMsg) : Prop :=
  ∃ (l₀ l₁ l₂ l₃ : Loop) (rest : Phase), system.Reachable l₀ ∧
    current l₀.phase = some (0, rest) ∧ 0 ∈ l₀.scheduler.css ∧
    l₀.next (.activity (some (.blacklistHostEnv m))) = some l₁ ∧
    1 ∈ l₀.scheduler.css ∧ (l₀.scheduler.conn 1).name = m.hostname ∧
    system.Steps (fun _ _ => True) l₁ l₂ ∧ l₂.scheduler.live 0 = true ∧
    l₂.scheduler.live 1 = true ∧ l₂.next .emptyQueue = some l₃ ∧
    ¬ Avoids 0 1 m l₂.scheduler l₃.scheduler

theorem ignored_of_run (envs listed : Environments) (target : String) {m : BlacklistHostEnvMsg}
    (hrun : ((system.exec (started fun _ => 1) (twoDaemons envs)).bind fun l₀ =>
      (l₀.next (.activity (some (.blacklistHostEnv m)))).bind fun l₁ =>
      (system.run (fun _ _ => True) l₁ (asksFor target listed)).bind fun l₂ =>
      (l₂.next .emptyQueue).map fun l₃ => decide (
        ((current l₀.phase).map Prod.fst = some 0 ∧ l₀.scheduler.css = [0, 1] ∧
          (l₀.scheduler.conn 1).name = m.hostname) ∧
        (l₂.scheduler.live 0 ∧ l₂.scheduler.live 1) ∧
        l₂.scheduler.firstRequest = some 0 ∧ (l₂.scheduler.job 0).targetPlatform = m.target ∧
        ∃ r ∈ lastNamed l₂ l₃, r.1 = 0 ∧ r.2.hostname = (l₂.scheduler.conn 1).name ∧
          r.2.port = (l₂.scheduler.conn 1).remotePort ∧
          (r.2.hostPlatform, m.environment) ∈ (l₂.scheduler.job 0).environments)) = some true) :
    Ignored m := by
  obtain ⟨l₀, h₀, hrun⟩ := Option.bind_eq_some_iff.mp hrun
  obtain ⟨l₁, h₁, hrun⟩ := Option.bind_eq_some_iff.mp hrun
  obtain ⟨l₂, h₂, hrun⟩ := Option.bind_eq_some_iff.mp hrun
  obtain ⟨l₃, h₃, hall⟩ := Option.map_eq_some_iff.mp hrun
  obtain ⟨⟨hreading, hcss, hname⟩, ⟨hlive, hhlive⟩, hfirst, htarget, r, hr, hnamed⟩ :=
    of_decide_eq_true hall
  obtain ⟨⟨cid, rest⟩, hreading, hcid⟩ := Option.map_eq_some_iff.mp hreading
  obtain rfl : cid = 0 := hcid
  obtain ⟨x, u⟩ := r
  obtain ⟨rfl, hhost, hport, hlisted⟩ := hnamed
  obtain ⟨ok, hlog⟩ := lastNamed_sent hr
  have hreach := (Transition.System.Reaches.init (started_init _)).exec (fun _ _ _ => trivial) h₀
  refine ⟨l₀, l₁, l₂, l₃, rest, hreach, hreading, by simp [hcss], h₁, by simp [hcss], hname,
    Transition.System.Steps.refl.run h₂, hlive, hhlive, h₃, fun havoids => ?_⟩
  obtain ⟨ptr, hptr, -, -, hnot⟩ := havoids [.sent 0 (.useCS u) ok] u ok hlog (by simp)
  cases hfirst.symm.trans hptr
  exact hnot hhost hport htarget hlisted

/-- A job for another target than its environment's platform gets the server with the
blacklisted environment. So does one with a second environment, when the server has the
first one installed. -/
theorem blacklisted_ignored :
    Ignored ⟨str "e", str "armv7", str "h"⟩ ∧ Ignored ⟨str "e", str "x86_64", str "h"⟩ := by
  constructor
  · apply ignored_of_run [] [(str "x86_64", str "e")] "armv7"
    decide +kernel
  · apply ignored_of_run [(str "x86_64", str "e")] [(str "x86_64", str "e"), (str "i386", str "f")]
      "x86_64"
    decide +kernel

end Loop

end Icecream.IceccScheduler
