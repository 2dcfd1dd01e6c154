import Icecream.Daemon.Eviction

/-!
# What becomes of a stale environment

The table of the native environments is keyed by the request, and an entry holds the name
of its tarball. `remove_native_environment` takes its argument for both.
-/

namespace Icecream.Iceccd

open Icecream.Comm

namespace Daemon

variable {d d' : Daemon} {c : Client} {m : GetNativeEnvMsg} {key : Str} {env : NativeEnvironment}
  {times : List (Str × ℤ)}

/-! ## Messages sent and files unlinked -/

/-- The messages to a client, newest first -/
def sentTo (d : Daemon) (id : ℕ) : List Msg :=
  d.log.filterMap fun
    | .toClient i m _ => if i = id then some m else none
    | _ => none

/-- The files unlinked, newest first -/
def unlinks (d : Daemon) : List Str :=
  d.log.filterMap fun
    | .unlinked path => some path
    | _ => none

theorem sentTo_congr (h : d'.log = d.log) {id : ℕ} : d'.sentTo id = d.sentTo id := by
  rw [sentTo, h, sentTo]

theorem unlinks_congr (h : d'.log = d.log) : d'.unlinks = d.unlinks := by
  rw [unlinks, h, unlinks]

@[simp] theorem asked_sentTo (d : Daemon) (id : ℕ) : d.asked.sentTo id = d.sentTo id := rfl

@[simp] theorem asked_unlinks (d : Daemon) : d.asked.unlinks = d.unlinks := rfl

@[simp] theorem unlinked_sentTo (d : Daemon) (path : Str) (id : ℕ) :
    (d.note (.unlinked path)).sentTo id = d.sentTo id := rfl

@[simp] theorem unlinked_unlinks (d : Daemon) (path : Str) :
    (d.note (.unlinked path)).unlinks = path :: d.unlinks := rfl

@[simp] theorem require_sentTo (d : Daemon) (a : Assertion) (b : Bool) (id : ℕ) :
    (d.require a b).sentTo id = d.sentTo id := by
  cases b <;> rfl

@[simp] theorem require_unlinks (d : Daemon) (a : Assertion) (b : Bool) :
    (d.require a b).unlinks = d.unlinks := by
  cases b <;> rfl

/-! ## The one removal -/

theorem removeNativeEnvironment_entries (d : Daemon) (key : Str) :
    (d.removeNativeEnvironment key).nativeEnvironments = d.nativeEnvironments.erase key := by
  have hstill := removeNativeEnvironment_still (d := d) key
  rw [hstill.native]
  simp [forgetNative]

theorem removeNativeEnvironment_cacheSize (d : Daemon) (key : Str) :
    (d.removeNativeEnvironment key).cacheSize = d.cacheSize - (d.native key).size := by
  have hstill := removeNativeEnvironment_still (d := d) key
  rw [hstill.cacheSize]
  simp [forgetNative, native]

/-- What the removal logs -/
theorem removeNativeEnvironment_log (d : Daemon) (key : Str) : ∃ b,
    (d.removeNativeEnvironment key).log = (((d.require .nativeKey (key ≠ [])).removeNativeEnvironmentFiles
      key).require .nativeSize b).log :=
  ⟨_, rfl⟩

/-- Only the file goes that has the key's name. -/
theorem removeNativeEnvironment_unlinks (hkey : key ≠ []) :
    (d.removeNativeEnvironment key).unlinks =
      if (d.host.mtime d.calls key).isSome then key :: d.unlinks else d.unlinks := by
  obtain ⟨b, hlog⟩ := removeNativeEnvironment_log d key
  rw [unlinks_congr hlog, require_unlinks]
  unfold removeNativeEnvironmentFiles
  rw [if_neg hkey, (require_calls _ _).1, (require_calls _ _).2]
  split
  · simp only [unlinked_unlinks, asked_unlinks, require_unlinks]
  · simp only [asked_unlinks, require_unlinks]

theorem removeNativeEnvironment_sentTo (key : Str) (id : ℕ) :
    (d.removeNativeEnvironment key).sentTo id = d.sentTo id := by
  obtain ⟨b, hlog⟩ := removeNativeEnvironment_log d key
  rw [sentTo_congr hlog, require_sentTo]
  unfold removeNativeEnvironmentFiles
  split
  · exact require_sentTo d .nativeKey _ id
  · split
    · simp only [unlinked_sentTo, asked_sentTo, require_sentTo]
    · simp only [asked_sentTo, require_sentTo]

/-! ## Requests -/

/-- The tarball was made before a compiler or an extra file changed, or cannot be read. -/
structure Stale (d : Daemon) (c : Client) (m : GetNativeEnvMsg) (env : NativeEnvironment)
    (times : List (Str × ℤ)) : Prop where
  found : d.nativeEnvironments.lookup (keyFor c m) = some env
  made : env.name ≠ []
  files : d.timesFor c m = some times
  changed : env.filetimes ≠ times ∨ ¬ d.host.readable d.asked.calls env.name

/-- Nothing is answered, the old entry and its tarball are gone, and a creation has been
started. -/
structure Rebuilds (d d' : Daemon) (c : Client) (m : GetNativeEnvMsg) (env : NativeEnvironment)
    (times : List (Str × ℤ)) : Prop where
  silent : d'.sentTo c.clientId = d.sentTo c.clientId
  entry : ∃ pipe, d'.nativeEnvironments.lookup (keyFor c m) =
    some { filetimes := times, createEnvPipe := pipe }
  cacheSize : d'.cacheSize = d.cacheSize - env.size
  deleted : (∀ n, (d.host.mtime n env.name).isSome) → d'.unlinks = env.name :: d.unlinks

/-- The daemon once `remove_native_environment` has been called for a stale entry -/
def cleared (d : Daemon) (c : Client) (m : GetNativeEnvMsg) (env : NativeEnvironment) : Daemon :=
  (d.requireCompiler c m).asked.asked.removeNativeEnvironment env.name

theorem handleGetNativeEnv_eq (d : Daemon) (c : Client) (m : GetNativeEnvMsg) :
    d.handleGetNativeEnv c m =
      match (d.requireCompiler c m).timesFor c m with
      | none => (d.requireCompiler c m).asked.refuseNativeEnv c
      | some times =>
        let k := (d.requireCompiler c m).asked.dropStale (keyFor c m) times
        if (k.native (keyFor c m)).name ≠ [] then
          (k.put (c.creating (keyFor c m))).finishGetNativeEnv (c.creating (keyFor c m)) (keyFor c m)
        else ((k.put (c.creating (keyFor c m))).startCreateEnv (keyFor c m) times, true) := rfl

theorem handleGetNativeEnv_stale (h : Stale d c m env times) :
    d.handleGetNativeEnv c m =
      if ((d.cleared c m env).native (keyFor c m)).name ≠ [] then
        ((d.cleared c m env).put (c.creating (keyFor c m))).finishGetNativeEnv
          (c.creating (keyFor c m)) (keyFor c m)
      else
        (((d.cleared c m env).put (c.creating (keyFor c m))).startCreateEnv (keyFor c m) times,
          true) := by
  obtain ⟨hcalls, hhost⟩ : (d.requireCompiler c m).calls = d.calls ∧
      (d.requireCompiler c m).host = d.host := require_calls _ _
  have htimes : (d.requireCompiler c m).timesFor c m = some times := by
    rw [← h.files]
    unfold timesFor filetimes
    rw [hcalls, hhost]
  have hnative : (d.requireCompiler c m).asked.native (keyFor c m) = env := by
    simp [native, asked, requireCompiler, h.found]
  have hneeds : (d.requireCompiler c m).asked.needsRebuild env times = true := by
    simpa [needsRebuild, h.made, asked, hcalls, hhost] using h.changed
  rw [handleGetNativeEnv_eq, htimes]
  dsimp only
  have hdrop : (d.requireCompiler c m).asked.dropStale (keyFor c m) times = d.cleared c m env := by
    rw [dropStale, hnative, if_pos hneeds]
    rfl
  rw [hdrop]

theorem cleared_entries (d : Daemon) (c : Client) (m : GetNativeEnvMsg) (env : NativeEnvironment) :
    (d.cleared c m env).nativeEnvironments = d.nativeEnvironments.erase env.name := by
  rw [cleared, removeNativeEnvironment_entries]
  simp [asked, requireCompiler]

theorem cleared_cacheSize (d : Daemon) (c : Client) (m : GetNativeEnvMsg) (env : NativeEnvironment) :
    (d.cleared c m env).cacheSize = d.cacheSize - (d.native env.name).size := by
  rw [cleared, removeNativeEnvironment_cacheSize]
  simp [asked, native, requireCompiler]

theorem cleared_sentTo (d : Daemon) (c : Client) (m : GetNativeEnvMsg) (env : NativeEnvironment) :
    (d.cleared c m env).sentTo c.clientId = d.sentTo c.clientId := by
  rw [cleared, removeNativeEnvironment_sentTo, asked_sentTo, asked_sentTo, requireCompiler,
    require_sentTo]

theorem cleared_unlinks (hmade : env.name ≠ []) (hthere : ∀ n, (d.host.mtime n env.name).isSome) :
    (d.cleared c m env).unlinks = env.name :: d.unlinks := by
  have hhost : (d.requireCompiler c m).asked.asked.host = d.host := (require_calls _ _).2
  rw [cleared, removeNativeEnvironment_unlinks hmade, hhost, if_pos (hthere _), asked_unlinks,
    asked_unlinks, requireCompiler, require_unlinks]

/-- The old tarball is answered with when the entry is still there. -/
theorem handleGetNativeEnv_kept (h : Stale d c m env times) (hname : env.name ≠ keyFor c m) :
    ∃ env', (d.handleGetNativeEnv c m).1.nativeEnvironments.lookup (keyFor c m) = some env' ∧
      env'.name = env.name := by
  have hkept : (d.cleared c m env).native (keyFor c m) = env := by
    rw [native, cleared_entries, AList.lookup_erase_ne hname.symm, h.found]
    rfl
  have hmade : ((d.cleared c m env).native (keyFor c m)).name ≠ [] := by
    rw [hkept]
    exact h.made
  rw [handleGetNativeEnv_stale h, if_pos hmade]
  generalize hd₁ : (d.cleared c m env).put (c.creating (keyFor c m)) = d₁
  have hnative : d₁.native (keyFor c m) = env := by
    rw [← hd₁]
    exact hkept
  unfold finishGetNativeEnv
  dsimp only
  rw [hnative]
  split
  · have hplain : ¬ (c.creating (keyFor c m)).Installing := by simp [Client.creating]
    refine ⟨env, ?_, rfl⟩
    rw [(handleEnd_plain hplain 138).native]
    exact AList.lookup_insert _
  · exact ⟨_, AList.lookup_insert _, rfl⟩

theorem handleGetNativeEnv_rebuilds (h : Stale d c m env times) (hname : env.name = keyFor c m) :
    Rebuilds d (d.handleGetNativeEnv c m).1 c m env times := by
  have hgone : (d.cleared c m env).native (keyFor c m) = {} := by
    rw [native, cleared_entries, hname, AList.lookup_erase]
    rfl
  have hnone : ¬ ((d.cleared c m env).native (keyFor c m)).name ≠ [] := by
    rw [hgone]
    exact not_not.mpr rfl
  rw [handleGetNativeEnv_stale h, if_neg hnone]
  generalize hk : d.cleared c m env = k at hgone
  have hlog : ((k.put (c.creating (keyFor c m))).startCreateEnv (keyFor c m) times).log = k.log := rfl
  have hsize : ((k.put (c.creating (keyFor c m))).startCreateEnv (keyFor c m) times).cacheSize =
    k.cacheSize := rfl
  constructor
  · rw [sentTo_congr hlog, ← hk]
    exact cleared_sentTo d c m env
  · have hput : (k.put (c.creating (keyFor c m))).native (keyFor c m) = {} := hgone
    unfold startCreateEnv
    rw [hput]
    exact ⟨_, AList.lookup_insert _⟩
  · rw [hsize, ← hk, cleared_cacheSize, native, hname, h.found]
    rfl
  · intro hthere
    rw [unlinks_congr hlog, ← hk]
    exact cleared_unlinks h.made hthere

/-! ## Evictions -/

/-- The daemon as a turn of the cache loop removes something -/
structure Looked (d k : Daemon) : Prop where
  host : k.host = d.host
  calls : k.calls = d.asked.calls
  unlinks : k.unlinks = d.unlinks
  native : k.nativeEnvironments = d.nativeEnvironments

theorem Looked.seen (d : Daemon) (p : Prop) [Decidable p] :
    Looked d (if p then (d.require .cacheJob false).crash else d).asked := by
  split
  · exact ⟨rfl, rfl, rfl, rfl⟩
  · exact ⟨rfl, rfl, rfl, rfl⟩

theorem evict_removal (d : Daemon) (now : ℤ) (newEnv : Str) :
    (d.evict now newEnv).1.nativeEnvironments = d.nativeEnvironments ∨
      ∃ k key, Looked d k ∧ key ≠ [] ∧
        (d.evict now newEnv).1 = k.removeNativeEnvironment key := by
  unfold evict
  split
  · exact .inl rfl
  · dsimp only
    split
    · exact .inl (Looked.seen d _).native
    · split
      · rename_i hkey
        exact .inr ⟨_, _, .seen d _, hkey, rfl⟩
      · refine .inl ((removeEnvironment_still _).native.trans ?_)
        simpa [forgetReceived] using (Looked.seen d _).native

/-- A native environment that a turn takes away was removed by its key. -/
theorem evict_native {now : ℤ} {newEnv : Str} (hfound : key ∈ d.nativeEnvironments)
    (hgone : key ∉ (d.evict now newEnv).1.nativeEnvironments) :
    ∃ k, Looked d k ∧ key ≠ [] ∧
      (d.evict now newEnv).1 = k.removeNativeEnvironment key := by
  rcases evict_removal d now newEnv with hsame | ⟨k, key', hk, hkey, hremoved⟩
  · rw [hsame] at hgone
    exact absurd hfound hgone
  · rw [hremoved, removeNativeEnvironment_entries, hk.native, AList.mem_erase] at hgone
    obtain rfl : key = key' := by
      by_contra hne
      exact hgone ⟨hne, hfound⟩
    exact ⟨k, hk, hkey, hremoved⟩

/-! ## Both call paths -/

/-- An entry that is stale is dropped and rebuilt, and the tarball of one that is evicted is
deleted, just when the entry's key is the name of its tarball. -/
theorem removeNativeEnvironment_iff (d : Daemon) (key : Str)
    (hfound : d.nativeEnvironments.lookup key = some env) :
    (∀ c m times, keyFor c m = key → Stale d c m env times →
      (Rebuilds d (d.handleGetNativeEnv c m).1 c m env times ↔ env.name = key)) ∧
    ∀ now newEnv, key ∉ (d.evict now newEnv).1.nativeEnvironments →
      (d.host.mtime d.asked.calls env.name).isSome →
      ((d.evict now newEnv).1.unlinks = env.name :: d.unlinks ↔ env.name = key) := by
  constructor
  · rintro c m times rfl hstale
    constructor
    · intro hrebuilds
      by_contra hname
      obtain ⟨pipe, hentry⟩ := hrebuilds.entry
      obtain ⟨env', hkept, hsame⟩ := handleGetNativeEnv_kept hstale hname
      rw [hkept] at hentry
      obtain rfl := Option.some.inj hentry
      exact hstale.made hsame.symm
    · exact handleGetNativeEnv_rebuilds hstale
  · intro now newEnv hgone hthere
    have hmem : key ∈ d.nativeEnvironments := AList.lookup_isSome.mp (by rw [hfound]; rfl)
    obtain ⟨k, hk, hkey, hremoved⟩ := evict_native hmem hgone
    rw [hremoved, removeNativeEnvironment_unlinks hkey, hk.host, hk.calls, hk.unlinks]
    constructor
    · intro hdeleted
      split at hdeleted
      · exact (List.cons.inj hdeleted).1.symm
      · exact absurd (congrArg List.length hdeleted) (by simp)
    · rintro rfl
      rw [if_pos hthere]

/-- A compiler's environment in a file `name`, which is too large for the cache. The compiler
has changed since, a long time ago. -/
def outdated (name : Str) : Daemon :=
  { outgrown [] with
    receivedEnvironments := ∅
    nativeEnvironments := AList.insert (str ":/gcc")
      { name := name, filetimes := [(str "/g++", 0), (str "/gcc", 0)], size := 8 } ∅
    host := { EventLoop.plainHost fun _ => 1 with
      mtime := fun _ _ => some 1, readable := fun _ _ => true, clock := fun _ => 2 ^ 30 } }

/-- Who asks for it, and how -/
def asker : Client := { clientId := 2, fd := 8, protocol := 45 }

def gccRequest : GetNativeEnvMsg := ⟨str "/gcc", [], []⟩

theorem outdated_stale {name : Str} (hname : name ≠ []) : Stale (outdated name) asker gccRequest
    { name := name, filetimes := [(str "/g++", 0), (str "/gcc", 0)], size := 8 }
    [(str "/g++", 1), (str "/gcc", 1)] where
  found := AList.lookup_insert _
  made := hname
  files := by
    change (outdated []).timesFor asker gccRequest = _
    decide +kernel
  changed := by
    left
    change [(str "/g++", (0 : ℤ)), (str "/gcc", 0)] ≠ _
    decide

theorem removeNativeEnvironment_iff_outdated :
    Rebuilds (outdated (str ":/gcc")) ((outdated (str ":/gcc")).handleGetNativeEnv asker gccRequest).1
      asker gccRequest
      { name := str ":/gcc", filetimes := [(str "/g++", 0), (str "/gcc", 0)], size := 8 }
      [(str "/g++", 1), (str "/gcc", 1)] ∧
    ((outdated (str "/e/native/t")).evict (2 ^ 30) []).1.unlinks ≠ [str "/e/native/t"] := by
  constructor
  · obtain ⟨hrequest, -⟩ := removeNativeEnvironment_iff (outdated (str ":/gcc"))
      (str ":/gcc") (AList.lookup_insert _)
    exact (hrequest _ _ _ (by decide +kernel) (outdated_stale (by decide))).mpr rfl
  · obtain ⟨-, hevict⟩ := removeNativeEnvironment_iff (outdated (str "/e/native/t"))
      (str ":/gcc") (AList.lookup_insert _)
    intro hdeleted
    exact absurd ((hevict (2 ^ 30) [] (by decide +kernel) rfl).mp hdeleted) (by decide)

instance : Decidable (Stale d c m env times) :=
  decidable_of_iff
    (d.nativeEnvironments.lookup (keyFor c m) = some env ∧ env.name ≠ [] ∧
      d.timesFor c m = some times ∧
      (env.filetimes ≠ times ∨ ¬ d.host.readable d.asked.calls env.name))
    ⟨fun ⟨h₁, h₂, h₃, h₄⟩ => ⟨h₁, h₂, h₃, h₄⟩, fun ⟨h₁, h₂, h₃, h₄⟩ => ⟨h₁, h₂, h₃, h₄⟩⟩

end Daemon

namespace EventLoop

open Daemon

/-- A daemon whose compilers change, and a long time passes, when `n` questions have been
asked -/
def passing (n : ℕ) : EventLoop :=
  let s := started (fun _ => 1) 4
  { s with daemon := { s.daemon with
      host := { plainHost (fun _ => 1) with
        mtime := fun k _ => some (if k < n then 0 else 1)
        readable := fun _ _ => true
        clock := fun k => if k < n then 0 else 2 ^ 30 } } }

theorem passing_init (n : ℕ) : (passing n).Init :=
  ⟨rfl, rfl, rfl, rfl, rfl, rfl, rfl, rfl, rfl, rfl, rfl, rfl⟩

/-- A first client asks for the environment of a compiler and gets it once it is created. -/
def created : List Event :=
  .reconnect none :: polling 0 ++ accepting 7 [.getNativeEnv gccRequest] ++ again ++ polling 1 ++
    [.schedulerRead, .clientRead, .visit, .createEnvDone (str ":/gcc") (str "t"), .passDone,
      .reconnect none] ++ polling 1

/-- A second one transfers an environment that does not fit into the cache. -/
def displacing : List Event :=
  [.accept 0 8 45, transfer "x"] ++ again ++ [.unpack 8 (str "usr/bin/as") 200 true] ++ polling 2 ++
    [.schedulerRead, .clientRead, .clientMsg (some .endMsg) none, .visit, .passDone,
      .reconnect none] ++ polling 2 ++ [.schedulerRead, .clientRead]

/-- A client that asks again after the compiler has changed is answered with the tarball, which
has just been deleted; when the cache is cut, the tarball stays and the entry goes. -/
theorem removeNativeEnvironment_misses :
    (∃ s t env times, system.Reachable s ∧
      step s (.clientMsg (some (.getNativeEnv gccRequest)) none) = some t ∧
      Stale s.daemon asker gccRequest env times ∧
      t.daemon.sentTo asker.clientId = [.useNativeEnv env.name] ∧ t.daemon.unlinks = [env.name] ∧
      t.daemon.cacheSize = s.daemon.cacheSize) ∧
    ∃ s t, system.Reachable s ∧ step s (.installDone true) = some t ∧
      (s.daemon.native (str ":/gcc")).name = str "/e/native/t" ∧
      t.daemon.nativeEnvironments.entries = [] ∧ t.daemon.unlinks = [str ":/gcc"] := by
  constructor
  · have hrun : ((system.exec (passing 4) (created ++ [.accept 0 8 45])).bind fun s =>
        (step s (.clientMsg (some (.getNativeEnv gccRequest)) none)).map fun t =>
          (decide (Stale s.daemon asker gccRequest
            { name := str "/e/native/t", filetimes := [(str "/g++", 0), (str "/gcc", 0)]
              lastUse := 2 ^ 30, size := 1 }
            [(str "/g++", 1), (str "/gcc", 1)]), t.daemon.sentTo asker.clientId, t.daemon.unlinks,
            decide (t.daemon.cacheSize = s.daemon.cacheSize))) =
        some (true, [.useNativeEnv (str "/e/native/t")], [str "/e/native/t"], true) := by
      decide +kernel
    obtain ⟨s, hs, hstep⟩ := Option.bind_eq_some_iff.mp hrun
    obtain ⟨t, ht, hstate⟩ := Option.map_eq_some_iff.mp hstep
    simp only [Prod.mk.injEq, decide_eq_true_eq] at hstate
    obtain ⟨hstale, hsent, hunlinked, hsize⟩ := hstate
    have hreach := (Transition.System.Reaches.init (passing_init 4)).exec (fun _ _ _ => trivial) hs
    exact ⟨s, t, _, _, hreach, ht, hstale, hsent, hunlinked, hsize⟩
  · have hrun : ((system.exec (passing 5) (created ++ displacing)).bind fun s =>
        (step s (.installDone true)).map fun t =>
          ((s.daemon.native (str ":/gcc")).name, t.daemon.nativeEnvironments.entries,
            t.daemon.unlinks)) = some (str "/e/native/t", [], [str ":/gcc"]) := by decide +kernel
    obtain ⟨s, hs, hstep⟩ := Option.bind_eq_some_iff.mp hrun
    obtain ⟨t, ht, hstate⟩ := Option.map_eq_some_iff.mp hstep
    simp only [Prod.mk.injEq] at hstate
    obtain ⟨hname, hentries, hunlinked⟩ := hstate
    have hreach := (Transition.System.Reaches.init (passing_init 5)).exec (fun _ _ _ => trivial) hs
    exact ⟨s, t, hreach, ht, hname, hentries, hunlinked⟩

end EventLoop

end Icecream.Iceccd
