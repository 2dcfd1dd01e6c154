import Icecream.Daemon.Creations

/-!
# Those who wait for an environment

A client in WAITCREATEENV and the entry it waits for. A creation that does not start, a
rebuild and the cut of the cache leave it waiting for nothing.
-/

namespace Icecream.Iceccd

open Icecream.Comm

/-- Every client in WAITCREATEENV waits for an entry with an open pipe. -/
def Awaited (d : Daemon) : Prop :=
  ∀ c ∈ d.clients.list, c.status = .waitCreateEnv →
    ∃ env, d.nativeEnvironments.lookup c.pendingCreateEnv = some env ∧ env.createEnvPipe

instance (d : Daemon) : Decidable (Awaited d) :=
  decidable_of_iff
    (∀ c ∈ d.clients.list, c.status = .waitCreateEnv →
      (d.nativeEnvironments.lookup c.pendingCreateEnv).any NativeEnvironment.createEnvPipe)
    (by simp only [Awaited, Option.any_eq_true])

namespace Daemon

/-- A client in WAITCREATEENV waits for `key`, which is not the one left out. -/
def awaits (d : Daemon) (out : Option Str) (key : Str) : Bool :=
  d.clients.list.any fun c =>
    c.status = .waitCreateEnv ∧ c.pendingCreateEnv = key ∧ some key ≠ out

/-- No turn of the cache loop removes an entry that is waited for. -/
def spares (out : Option Str) (now : ℤ) (newEnv : Str) : ℕ → Daemon → Bool
  | 0, _ => true
  | fuel + 1, d =>
    let r := d.evict now newEnv
    (d.nativeVictim now newEnv).all (fun key => ¬ d.awaits out key) &&
      (¬ r.2 || spares out now newEnv fuel r.1)

def sparesAwaited (d : Daemon) (out : Option Str) (newEnv : Str) : Bool :=
  spares out d.now newEnv
    (d.receivedEnvironments.entries.length + d.nativeEnvironments.entries.length + 1) d

end Daemon

/-- The invariant, apart from those who wait for the key left out -/
def Piped (out : Option Str) (d : Daemon) : Prop :=
  ∀ c ∈ d.clients.list, c.status = .waitCreateEnv → some c.pendingCreateEnv ≠ out →
    (d.native c.pendingCreateEnv).createEnvPipe

namespace Piped

variable {out : Option Str} {d d' : Daemon} {c c₁ : Client} {key : Str}

theorem same (h : Piped out d) (hl : d'.clients.list = d.clients.list)
    (hn : d'.nativeEnvironments = d.nativeEnvironments) : Piped out d' := by
  intro c hc hw hout
  rw [hl] at hc
  rw [Daemon.native, hn]
  exact h c hc hw hout

theorem still (hs : Still d d') (h : Piped out d) : Piped out d' := h.same hs.list hs.native

theorem forgetReceived (key : Str) (h : Piped out d) : Piped out (d.forgetReceived key) :=
  h.same (by simp [Daemon.forgetReceived]) (by simp [Daemon.forgetReceived])

/-- An entry goes that nobody waits for. -/
theorem forgetNative (h : Piped out d) (hno : ¬ d.awaits out key) :
    Piped out (d.forgetNative key) := by
  intro c hc hw hout
  simp only [Daemon.forgetNative, Daemon.require_clients] at hc
  have hne : c.pendingCreateEnv ≠ key := by
    rintro rfl
    exact hno (List.any_eq_true.mpr ⟨c, hc, by simp [hw, hout]⟩)
  have hpipe := h c hc hw hout
  simpa [Daemon.forgetNative, Daemon.native, AList.lookup_erase_ne hne] using hpipe

theorem cut {newEnv : Str} (hspares : d.sparesAwaited out newEnv) (h : Piped out d) :
    Piped out (d.checkCacheSize newEnv) := by
  unfold Daemon.sparesAwaited at hspares
  unfold Daemon.checkCacheSize
  generalize d.receivedEnvironments.entries.length + d.nativeEnvironments.entries.length + 1 =
    fuel at hspares ⊢
  generalize d.now = now at hspares ⊢
  induction fuel generalizing d with
  | zero => exact h
  | succ fuel ih =>
    unfold Daemon.spares at hspares
    simp only [Bool.and_eq_true, Bool.or_eq_true, decide_eq_true_eq] at hspares
    obtain ⟨hvictim, hrest⟩ := hspares
    have hturn : Piped out (d.evict now newEnv).1 := by
      rcases Daemon.evict_cases d now newEnv with hs | ⟨key, hkey, hs⟩ | ⟨key, hs⟩
      · exact h.still hs
      · rw [hkey] at hvictim
        exact (h.forgetNative (by simpa using hvictim)).still hs
      · exact (h.forgetReceived key).still hs
    unfold Daemon.checkCacheLoop
    dsimp only
    split
    · rename_i hon
      exact ih hturn (hrest.resolve_left (by simpa using hon))
    · exact hturn

/-- An entry is written whose pipe is as open as it was. -/
theorem setNative (h : Piped out d) {env : NativeEnvironment}
    (hpipe : (d.native key).createEnvPipe → env.createEnvPipe) :
    Piped out (d.setNative key env) := by
  intro c hc hw hout
  have hopen := h c hc hw hout
  by_cases hkey : c.pendingCreateEnv = key
  · rw [hkey] at hopen ⊢
    simpa [Daemon.native, Daemon.setNative] using hpipe hopen
  · simpa [Daemon.native, Daemon.setNative, AList.lookup_insert_ne hkey] using hopen

theorem touch (h : Piped out d) (key : Str) (t : ℤ) :
    Piped out (d.setNative key { d.native key with lastUse := t }) :=
  h.setNative (fun hopen => hopen)

theorem erase (h : Piped out d) (c : Client) : Piped out (d.erase c) :=
  fun x hx => h x (Records.mem_remove.mp hx).1

theorem put (h : Piped out d) (hnew : c₁.status = .waitCreateEnv →
    some c₁.pendingCreateEnv ≠ out → (d.native c₁.pendingCreateEnv).createEnvPipe) :
    Piped out (d.put c₁) := by
  intro x hx
  rcases Records.mem_replace.mp hx with ⟨rfl, -⟩ | ⟨hx, -⟩
  · exact hnew
  · exact h x hx

theorem put_free (h : Piped out d) (hfree : c₁.status ≠ .waitCreateEnv) : Piped out (d.put c₁) :=
  h.put fun hw => absurd hw hfree

theorem put_same (h : Piped out d) (hc : c ∈ d.clients.list) (hsame : c.Same c₁) :
    Piped out (d.put c₁) := by
  apply h.put
  intro hw hout
  rcases hsame.status with hstatus | ⟨-, hinst⟩
  · rw [hsame.pending] at hout ⊢
    exact h c hc (hstatus ▸ hw) hout
  · rcases hinst with h | h <;> simp [h] at hw

theorem stopped (h : Piped out d) (c : Client) : Piped out (d.stopped c) := by
  unfold Daemon.stopped
  split
  · apply h.same
    · simp [Daemon.killChild, Daemon.dropKid]
    · simp [Daemon.killChild, Daemon.dropKid]
  · exact h

theorem ended (h : Piped out d) (hc : c ∈ d.clients.list) (x : Int32)
    (hspares : ∀ p ∈ d.endCuts c, p.1.sparesAwaited out p.2) : Piped out (d.handleEnd c x) := by
  apply Daemon.handleEnd_rule (fun hs h => h.still hs) _ _ _ _ hc
  · exact fun _ => h.erase c
  · exact fun _ n hn => ((h.still hn).stopped c).put_free (by simp [Client.transferOver])
  · exact fun p hp h => h.cut (hspares p hp)
  · exact fun n _ hn => hn.erase _

theorem clear : Piped out d.clearChildren := by
  intro c hc
  have hempty := Daemon.endAll_list d.clients.list.length (d := d) le_rfl
  change c ∈ (Daemon.require _ _ _).clients.list at hc
  rw [Daemon.require_clients, hempty] at hc
  cases hc

theorem accept (h : Piped out d) {place : ℕ} (fd protocol : ℕ)
    (hplace : place ≤ d.clients.list.length) : Piped out (d.addClient place fd protocol) := by
  intro c hc hw
  have hperm := List.perm_insertIdx
    ({ clientId := d.newClientId + 1, fd := fd, protocol := protocol } : Client)
    d.clients.list hplace
  rcases List.mem_cons.mp (hperm.mem_iff.mp hc) with rfl | hc
  · simp at hw
  · exact h c hc hw

end Piped

/-! ## Runs -/

/-- The request for a native environment that an event brings, unless a file is missing -/
def EventLoop.request (s : EventLoop) (e : Event) : Option (Client × GetNativeEnvMsg) :=
  match s.attends e with
  | some (c, some (.getNativeEnv m), _) =>
    if c.status ≠ .toInstall ∧ (s.daemon.timesFor c m).isSome then some (c, m) else none
  | _ => none

theorem EventLoop.Requests.request {s : EventLoop} {e : Event} {c : Client} {m : GetNativeEnvMsg}
    (h : s.Requests e c m) : s.request e = some (c, m) := by
  obtain ⟨⟨next, ha⟩, hopen, htimes⟩ := h
  unfold EventLoop.request
  rw [ha]
  exact if_pos ⟨hopen, htimes⟩

/-- An event that takes nobody the entry it waits for -/
structure KeepsPipes (s : EventLoop) (e : Event) : Prop where
  starts : ∀ p ∈ s.request e, ∀ d ∈ (s.daemon.attending p.1).creation p.1 p.2,
    (d.native (Daemon.keyFor p.1 p.2)).createEnvPipe ∨ d.ask ≠ 0
  rebuilds : ∀ p ∈ s.request e, ∀ key ∈ (s.daemon.attending p.1).staleKey p.1 p.2,
    ¬ s.daemon.awaits none key
  cuts : ∀ p ∈ s.cuts e, p.1.sparesAwaited (e.ends.map Prod.fst) p.2

instance (s : EventLoop) (e : Event) : Decidable (KeepsPipes s e) :=
  decidable_of_iff
    ((∀ p ∈ s.request e, ∀ d ∈ (s.daemon.attending p.1).creation p.1 p.2,
        (d.native (Daemon.keyFor p.1 p.2)).createEnvPipe ∨ d.ask ≠ 0) ∧
      (∀ p ∈ s.request e, ∀ key ∈ (s.daemon.attending p.1).staleKey p.1 p.2,
        ¬ s.daemon.awaits none key) ∧
      (∀ p ∈ s.cuts e, p.1.sparesAwaited (e.ends.map Prod.fst) p.2))
    ⟨fun ⟨h₁, h₂, h₃⟩ => ⟨h₁, h₂, h₃⟩, fun ⟨h₁, h₂, h₃⟩ => ⟨h₁, h₂, h₃⟩⟩

namespace Piped

variable {out : Option Str} {d d' : Daemon} {c : Client} {key : Str} {s t : EventLoop} {e : Event}

/-- The creation is running once the request has been handled. -/
theorem create (h : Piped none d) {m : GetNativeEnvMsg} {times : List (Str × ℤ)}
    (hstart : (d.native (Daemon.keyFor c m)).createEnvPipe ∨ d.ask ≠ 0) :
    Piped none ((d.put (c.creating (Daemon.keyFor c m))).startCreateEnv
      (Daemon.keyFor c m) times) := by
  generalize Daemon.keyFor c m = key at hstart ⊢
  have hpipe : (if (d.native key).createEnvPipe then d.native key
      else { d.native key with filetimes := times, createEnvPipe := d.ask ≠ 0 }).createEnvPipe := by
    split
    · assumption
    · rename_i hclosed
      simpa using hstart.resolve_left hclosed
  have hset : Piped none (d.setNative key (if (d.native key).createEnvPipe then d.native key
      else { d.native key with filetimes := times, createEnvPipe := d.ask ≠ 0 })) :=
    h.setNative fun _ => hpipe
  have hput : Piped none (Daemon.put _ (c.creating key)) := hset.put fun _ _ => by
    simpa [Client.creating, Daemon.native, Daemon.setNative] using hpipe
  exact hput.same rfl rfl

/-- Those who wait for `key` are refused; everybody else keeps waiting. -/
theorem refused (h : Piped (some key) d)
    (hspares : ∀ p ∈ Daemon.refuseCuts key d.clients.list.length d,
      p.1.sparesAwaited (some key) p.2) :
    Piped none ((Daemon.refuseWaiting key d.clients.list.length d).forgetEntry key) := by
  have hrefused := Daemon.refuseWaiting_rule (J := Piped (some key)) (fun hs h => h.still hs)
    d.clients.list.length (fun hc _ hcut h => h.ended hc 121 fun p hp => hspares p (hcut p hp))
    (fun _ hp => hp) h
  have hnone : ∀ c ∈ (Daemon.refuseWaiting key d.clients.list.length d).clients.list,
      c.pendingCreateEnv ≠ key := Daemon.refuseWaiting_none _ le_rfl
  intro c hc hw _
  have hkey := hnone c hc
  have hpipe := hrefused c hc hw (by simpa using hkey)
  simpa [Daemon.forgetEntry, Daemon.native, AList.lookup_erase_ne hkey] using hpipe

/-- Those who wait for `key` are answered one after the other. -/
theorem told (h : Piped (some key) d) (hnd : (d.clients.list.map Client.clientId).Nodup)
    (hlive : ¬ (Daemon.answerWaiting key d.clients.list d).crashed) :
    Piped none (Daemon.answerWaiting key d.clients.list d) := by
  have hall := Daemon.answerWaiting_rule (J := fun l d => Piped (some key) d ∧
      ∀ c ∈ d.clients.list, c.status = .waitCreateEnv → c.pendingCreateEnv = key → c ∈ l)
    ?_ ?_ ?_ d.clients.list hnd (fun _ hx => hx) hlive ⟨h, fun c hc _ _ => hc⟩
  · intro c hc hw _
    apply hall.1 c hc hw
    intro heq
    simpa using hall.2 c hc hw (Option.some.inj heq)
  · rintro l d d' hs ⟨hd, hleft⟩
    exact ⟨hd.still hs, hs.list ▸ hleft⟩
  · rintro l d c hp ⟨hd, hleft⟩
    refine ⟨hd, fun x hx hw hkey => ?_⟩
    rcases List.mem_cons.mp (hleft x hx hw hkey) with rfl | hmem
    · exact absurd hkey hp
    · exact hmem
  · rintro l d c u hp hc ⟨hd, hleft⟩
    refine ⟨(hd.touch key u).put_free (by simp), fun x hx hw hkey => ?_⟩
    rcases Records.mem_replace.mp hx with ⟨rfl, -⟩ | ⟨hx, hne⟩
    · simp at hw
    · rcases List.mem_cons.mp (hleft x hx hw hkey) with rfl | hmem
      · exact absurd rfl hne
      · exact hmem

theorem created (hk : KeepsPipes s e) {output : Str} (he : e = .createEnvDone key output)
    (hn : EventLoop.next s e = some t) (hv : Valid s.daemon) (h : Piped none s.daemon) :
    Piped none t.daemon := by
  subst he
  have hspares := hk.cuts
  simp only [EventLoop.cuts, Event.ends, Option.map_some] at hspares
  have hwritten : ∀ env, Piped (some key) (s.daemon.setNative key env) := by
    intro env c hc hw hout
    have hne : c.pendingCreateEnv ≠ key := fun heq => hout (congrArg some heq)
    have hopen := h c hc hw (by simp)
    simpa [Daemon.native, Daemon.setNative, AList.lookup_insert_ne hne] using hopen
  rcases EventLoop.createEnvDone_next hn with ⟨hsize, k, rfl, heq⟩ | ⟨hsize, hlive, k, hs, heq⟩
  · have hclosed := Daemon.closedEntry_still output hsize
    rw [heq]
    apply ((hwritten _).still hclosed).refused
    intro p hp
    apply hspares
    rw [Daemon.createCuts_eq, if_pos hsize]
    exact hp
  · obtain ⟨u, hsized⟩ := Daemon.sizedEntry_still s.daemon key output
    have hentered : Piped (some key) (s.daemon.enter key (s.daemon.outcome key output).1
        (s.daemon.outcome key output).2 u) := (hwritten _).same rfl rfl
    have hcut : (s.daemon.sizedEntry key output).sparesAwaited (some key)
        (s.daemon.outcome key output).1 := by
      apply hspares (_, _)
      rw [Daemon.createCuts_eq, if_neg hsize]
      exact List.mem_singleton_self _
    have hready := ((hentered.still hsized).cut hcut).still hs
    have hlist : k.clients.list = s.daemon.clients.list := by
      rw [hs.list, (Daemon.checkCacheSize_frame _).clients, hsized.list]
      rfl
    rw [heq] at hlive ⊢
    exact hready.told (hlist ▸ hv.nodup) hlive

theorem awaits_congr (hs : Still s.daemon d) : d.awaits out key = s.daemon.awaits out key := by
  simp only [Daemon.awaits, hs.list]

theorem upkeep (hk : KeepsPipes s e) (he : e.ends = none) : Upkeep (Piped none) s e where
  still := still
  cut hp h := h.cut (by
    have hspares := hk.cuts _ hp
    rwa [he] at hspares)
  leave _ _ _ h := h.erase _
  stop _ _ h := (h.stopped _).put_free (by simp [Client.transferOver])
  keep hc hsame h := h.put_same hc hsame
  turn _ _ hmoves h := h.put_free (by
    intro hw
    have hfree := hmoves.free
    rw [hw] at hfree
    cases hfree)
  install _ _ _ _ h := h.same rfl rfl
  start _ _ _ _ h := (h.same rfl rfl).put_free (by simp [Client.transferring])
  answer _ _ h := (h.touch _ _).put_free (by simp)
  refuse _ _ h := (h.setNative fun hopen => hopen).erase _
  stale hreq hstale hs h := h.forgetNative (by
    rw [awaits_congr hs]
    exact hk.rebuilds _ hreq.request _ hstale)
  create hreq hcreation _ h := h.create (hk.starts _ hreq.request _ hcreation)
  used h := h.same rfl rfl
  removed h := h.forgetReceived _
  fork _ _ _ h := (h.same rfl rfl).put_free (by simp)
  compiled _ _ _ h := (h.same (by simp [Daemon.requireCompiling, Daemon.dropKid]) (by simp [Daemon.requireCompiling, Daemon.dropKid])).erase _
  unpacked {d c} _ hinst _ h := (h.same (by simp [Daemon.requireInstalling, Daemon.dropKid])
    (by simp [Daemon.requireInstalling, Daemon.dropKid])).put_free (by
      rcases hinst with h | h <;> simp [h])
  created hdone _ _ _ := by
    rw [hdone] at he
    cases he
  clear _ := clear
  accept place fd protocol _ hplace h := h.accept fd protocol hplace

theorem step (hk : KeepsPipes s e) (hv : Valid s.daemon) (hn : EventLoop.next s e = some t)
    (h : Piped none s.daemon) : Piped none t.daemon := by
  cases e with
  | createEnvDone key output => exact created hk rfl hn hv h
  | _ => exact (upkeep hk rfl).step hn h

theorem sound (h : Piped none d) : Awaited d := by
  intro c hc hw
  have hpipe := h c hc hw (by simp)
  unfold Daemon.native at hpipe
  cases hlookup : d.nativeEnvironments.lookup c.pendingCreateEnv with
  | none => simp [hlookup] at hpipe
  | some env => exact ⟨env, rfl, by simpa [hlookup] using hpipe⟩

end Piped

namespace Awaited

variable {s : EventLoop}

theorem init (h : s.Init) : Piped none s.daemon := by
  intro c hc
  simp [h.clients] at hc

/-- A daemon whose host has every compiler, with its clock at `now` -/
def hosted (answer : ℕ → ℕ) (now : ℤ) : EventLoop :=
  let s := EventLoop.started answer 4
  { s with daemon := { s.daemon with
      host := { s.daemon.host with mtime := fun _ _ => some 0, clock := fun _ => now } } }

theorem hosted_init (answer : ℕ → ℕ) (now : ℤ) : (hosted answer now).Init :=
  ⟨rfl, rfl, rfl, rfl, rfl, rfl, rfl, rfl, rfl, rfl, rfl, rfl⟩

/-- A client asks for the environment of a compiler. -/
def requesting : List Event :=
  .reconnect none :: EventLoop.polling 0 ++
    EventLoop.accepting 7 [.getNativeEnv ⟨str "/gcc", [], []⟩]

/-- Another one transfers an environment of 200 bytes, larger than the cache. -/
def transferring : List Event :=
  EventLoop.again ++ EventLoop.polling 1 ++
    [.accept 0 8 45, .clientMsg (some (.transferEnv ⟨str "n", str "x"⟩))
      (some (.fileChunk ⟨[], 0, 0⟩))] ++ EventLoop.again ++
    [.unpack 8 (str "usr/bin/as") 200 true] ++ EventLoop.polling 2 ++
    [.schedulerRead, .clientRead, .clientMsg (some .endMsg) none, .visit, .passDone,
      .reconnect none] ++ EventLoop.polling 2 ++ [.schedulerRead, .clientRead, .installDone true]

end Awaited

end Icecream.Iceccd
