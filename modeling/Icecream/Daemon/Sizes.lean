import Icecream.Daemon.Creations
import Icecream.Library.Table

/-!
# The size of the cache

`cache_size` against the sizes recorded in the two tables. A second installation under
the same key adds its size, but the size it replaces is not taken off.
-/

namespace Icecream.Iceccd

open Icecream.Comm

def ReceivedEnvironment.bytes (env : ReceivedEnvironment) : ℕ := env.size.toNat

def NativeEnvironment.bytes (env : NativeEnvironment) : ℕ := env.size.toNat

/-- The assertions of the two removals that the size can be taken off -/
def Assertion.countsBytes : Assertion → Bool
  | .nativeSize | .environmentSize => true
  | _ => false

/-- The size of the cache is what is recorded, and nothing larger was taken off it. -/
structure CacheSize (d : Daemon) : Prop where
  recorded : d.cacheSize.toNat =
    (d.receivedEnvironments.entries.map fun e => e.2.size.toNat).sum +
      (d.nativeEnvironments.entries.map fun e => e.2.size.toNat).sum
  removable : ∀ a : Assertion, a.countsBytes → .assertionFailed a ∉ d.log

/-- Nothing that the size of the cache depends on has changed. -/
structure Store (d d' : Daemon) : Prop where
  received : d'.receivedEnvironments = d.receivedEnvironments
  native : d'.nativeEnvironments = d.nativeEnvironments
  cacheSize : d'.cacheSize = d.cacheSize
  log : ∀ a : Assertion, a.countsBytes → .assertionFailed a ∈ d'.log → .assertionFailed a ∈ d.log

namespace Store

variable {d d' d'' : Daemon}

theorem trans (h : Store d d') (h' : Store d' d'') : Store d d'' where
  received := h'.received.trans h.received
  native := h'.native.trans h.native
  cacheSize := h'.cacheSize.trans h.cacheSize
  log a ha hmem := h.log a ha (h'.log a ha hmem)

theorem of_still (h : Still d d') : Store d d' where
  received := h.received
  native := h.native
  cacheSize := h.cacheSize
  log a ha hmem := by
    rcases h.log _ hmem with hold | hplain
    · exact hold
    · cases a <;> simp_all [Assertion.countsBytes, Obs.plain]

theorem require {a : Assertion} {b : Bool} (ha : a.countsBytes = false) :
    Store d (d.require a b) where
  received := Daemon.require_received ..
  native := Daemon.require_native ..
  cacheSize := Daemon.require_cacheSize ..
  log a' ha' hmem := by
    rcases Daemon.require_log hmem with hold | ⟨heq, -⟩
    · exact hold
    · cases heq
      simp [ha] at ha'

/-- A step that touches other fields -/
theorem other (hr : d'.receivedEnvironments = d.receivedEnvironments)
    (hn : d'.nativeEnvironments = d.nativeEnvironments) (hc : d'.cacheSize = d.cacheSize)
    (hl : d'.log = d.log) : Store d d' :=
  ⟨hr, hn, hc, fun _ _ hmem => hl ▸ hmem⟩

theorem put (c : Client) : Store d (d.put c) := other rfl rfl rfl rfl

theorem erase (c : Client) : Store d (d.erase c) := other rfl rfl rfl rfl

theorem addKid : Store d d.addKid := other rfl rfl rfl rfl

theorem dropKid : Store d d.dropKid := other rfl rfl rfl rfl

theorem stopped (c : Client) : Store d (d.stopped c) := by
  unfold Daemon.stopped
  split
  · exact (require rfl).trans dropKid
  · exact other rfl rfl rfl rfl

theorem requireCompiling (c : Client) : Store d (d.requireCompiling c) :=
  (((require rfl).trans (require rfl)).trans (require rfl)).trans (require rfl)

theorem requireInstalling (c : Client) : Store d (d.requireInstalling c) :=
  (((require rfl).trans (require rfl)).trans (require rfl)).trans (require rfl)

end Store

/-- The invariant: what is not there yet weighs nothing. -/
structure Sized (d : Daemon) : Prop where
  total : d.cacheSize.toNat = Table.total ReceivedEnvironment.bytes d.receivedEnvironments +
    Table.total NativeEnvironment.bytes d.nativeEnvironments
  pending : ∀ key, (d.native key).name = [] ∨ (d.native key).createEnvPipe →
    (d.native key).size = 0
  removable : ∀ a : Assertion, a.countsBytes → .assertionFailed a ∉ d.log

namespace Sized

variable {d d' : Daemon} {c c₁ : Client} {key : Str}

theorem store (h : Sized d) (hs : Store d d') : Sized d' where
  total := by
    rw [hs.cacheSize, hs.received, hs.native]
    exact h.total
  pending := by
    simp only [Daemon.native, hs.native]
    exact h.pending
  removable a ha hmem := h.removable a ha (hs.log a ha hmem)

theorem weight_received (m : AList fun _ : Str => ReceivedEnvironment) (key : Str) :
    Table.weight ReceivedEnvironment.bytes m key = ((m.lookup key).getD {}).size.toNat := by
  unfold Table.weight
  cases m.lookup key <;> rfl

theorem weight_native (m : AList fun _ : Str => NativeEnvironment) (key : Str) :
    Table.weight NativeEnvironment.bytes m key = ((m.lookup key).getD {}).size.toNat := by
  unfold Table.weight
  cases m.lookup key <;> rfl

theorem forgetReceived (key : Str) (h : Sized d) : Sized (d.forgetReceived key) := by
  have hweight := weight_received d.receivedEnvironments key
  have herase := Table.total_erase (w := ReceivedEnvironment.bytes) d.receivedEnvironments key
  have htotal := h.total
  have hle : ((d.receivedEnvironments.lookup key).getD {}).size ≤ d.cacheSize := by
    rw [UInt64.le_iff_toNat_le]
    omega
  constructor
  · simp only [Daemon.forgetReceived, Daemon.require_cacheSize, Daemon.require_received,
      Daemon.require_native]
    rw [UInt64.toNat_sub_of_le _ _ hle]
    omega
  · simp only [Daemon.forgetReceived, Daemon.native, Daemon.require_native]
    exact h.pending
  · intro a ha hmem
    rcases Daemon.require_log hmem with hold | ⟨-, hfail⟩
    · exact h.removable a ha hold
    · simp [hle] at hfail

theorem forgetNative (key : Str) (h : Sized d) : Sized (d.forgetNative key) := by
  have hweight := weight_native d.nativeEnvironments key
  have herase := Table.total_erase (w := NativeEnvironment.bytes) d.nativeEnvironments key
  have htotal := h.total
  have hle : ((d.nativeEnvironments.lookup key).getD {}).size ≤ d.cacheSize := by
    rw [UInt64.le_iff_toNat_le]
    omega
  constructor
  · simp only [Daemon.forgetNative, Daemon.require_cacheSize, Daemon.require_received,
      Daemon.require_native]
    rw [UInt64.toNat_sub_of_le _ _ hle]
    omega
  · intro key'
    simp only [Daemon.forgetNative, Daemon.native, Daemon.require_native]
    by_cases hkey : key' = key
    · subst hkey
      simp
    · rw [AList.lookup_erase_ne hkey]
      exact h.pending key'
  · intro a ha hmem
    rcases Daemon.require_log hmem with hold | ⟨-, hfail⟩
    · exact h.removable a ha hold
    · simp [hle] at hfail

theorem cut (newEnv : Str) (h : Sized d) : Sized (d.checkCacheSize newEnv) :=
  Daemon.checkCacheSize_rule (fun hs h => h.store (.of_still hs)) forgetReceived forgetNative
    newEnv h

/-- A native entry is written whose size is the old one. -/
theorem setNative (h : Sized d) {env : NativeEnvironment} (hsize : env.size = (d.native key).size)
    (hpending : env.name = [] ∨ env.createEnvPipe → env.size = 0) :
    Sized (d.setNative key env) where
  total := by
    have hweight := weight_native d.nativeEnvironments key
    have hsame := Table.total_insert_same (w := NativeEnvironment.bytes) d.nativeEnvironments key env
      (by rw [hweight, NativeEnvironment.bytes, hsize]; rfl)
    have htotal := h.total
    simp only [Daemon.setNative]
    rw [hsame]
    exact htotal
  pending key' := by
    simp only [Daemon.native, Daemon.setNative]
    by_cases hkey : key' = key
    · subst hkey
      rw [AList.lookup_insert]
      exact hpending
    · rw [AList.lookup_insert_ne hkey]
      exact h.pending key'
  removable := h.removable

/-- The same entry, used now -/
theorem touch (h : Sized d) (key : Str) (t : ℤ) :
    Sized (d.setNative key { d.native key with lastUse := t }) :=
  h.setNative rfl (h.pending key)

theorem useReceived (h : Sized d) (key : Str) : Sized (d.useReceived key) where
  total := by
    have hweight := weight_received d.receivedEnvironments key
    have hsame := Table.total_insert_same (w := ReceivedEnvironment.bytes) d.receivedEnvironments key
      { (d.receivedEnvironments.lookup key).getD {} with lastUse := d.now } hweight
    have htotal := h.total
    simp only [Daemon.useReceived]
    rw [hsame]
    exact htotal
  pending := h.pending
  removable := h.removable

/-- A received environment is entered where none was recorded. -/
theorem install (h : Sized d) {size : UInt64} (t : ℤ)
    (hold : ((d.receivedEnvironments.lookup key).getD {}).size = 0)
    (hroom : d.cacheSize.toNat + size.toNat < 2 ^ 64) : Sized (d.install key size t) where
  total := by
    have hweight := weight_received d.receivedEnvironments key
    have hinsert := Table.total_insert (w := ReceivedEnvironment.bytes) d.receivedEnvironments key
      { lastUse := t, size := size }
    have htotal := h.total
    rw [hold] at hweight
    change (d.cacheSize + size).toNat = Table.total _ _ + Table.total _ _
    rw [UInt64.toNat_add, Nat.mod_eq_of_lt hroom]
    simp only [ReceivedEnvironment.bytes, UInt64.toNat_zero] at hinsert hweight
    simp only [Daemon.install]
    omega
  pending := h.pending
  removable := h.removable

/-- A creation is over, and its entry weighed nothing. -/
theorem enter (h : Sized d) {name : Str} {size : UInt64} (t : ℤ) (hpipe : (d.native key).createEnvPipe)
    (hname : name = [] → size = 0) (hroom : d.cacheSize.toNat + size.toNat < 2 ^ 64) :
    Sized (d.enter key name size t) where
  total := by
    have hweight := weight_native d.nativeEnvironments key
    have hinsert := Table.total_insert (w := NativeEnvironment.bytes) d.nativeEnvironments key
      { d.native key with name := name, createEnvPipe := false, lastUse := t, size := size }
    have htotal := h.total
    have hold := h.pending key (.inr hpipe)
    rw [Daemon.native] at hold
    rw [hold] at hweight
    change (d.cacheSize + size).toNat = Table.total _ _ + Table.total _ _
    rw [UInt64.toNat_add, Nat.mod_eq_of_lt hroom]
    simp only [NativeEnvironment.bytes, UInt64.toNat_zero] at hinsert hweight
    simp only [Daemon.enter]
    omega
  pending key' := by
    simp only [Daemon.native, Daemon.enter]
    by_cases hkey : key' = key
    · subst hkey
      rw [AList.lookup_insert]
      rintro (hnone | hfalse)
      · exact hname hnone
      · simp at hfalse
    · rw [AList.lookup_insert_ne hkey]
      exact h.pending key'
  removable := h.removable

/-- What steps about the store and both removals keep, the end of a client keeps. -/
theorem ended {J : Daemon → Prop} (hstore : ∀ {d d' : Daemon}, Store d d' → J d → J d')
    (hreceived : ∀ {d : Daemon} (key : Str), J d → J (d.forgetReceived key))
    (hnative : ∀ {d : Daemon} (key : Str), J d → J (d.forgetNative key))
    (hc : c ∈ d.clients.list) (x : Int32) (hd : J d) : J (d.handleEnd c x) := by
  have hstill : ∀ {d d' : Daemon}, Still d d' → J d → J d' := fun hs => hstore (.of_still hs)
  apply Daemon.handleEnd_rule hstill _ _ _ _ hc
  · exact fun _ => hstore (Store.erase c) hd
  · exact fun _ n hn => hstore ((Store.stopped c).trans (Store.put _)) (hstill hn hd)
  · exact fun p _ hp => Daemon.checkCacheSize_rule hstill hreceived hnative p.2 hp
  · exact fun n _ hn => hstore (Store.erase _) hn

theorem clear (h : Sized d) : Sized d.clearChildren := by
  have hall : ∀ fuel, Sized (Daemon.endAll fuel d) := by
    intro fuel
    induction fuel generalizing d with
    | zero => exact h
    | succ fuel ih =>
      unfold Daemon.endAll
      split
      · exact h
      · rename_i c rest hl
        have hc : c ∈ d.clients.list := by
          rw [hl]
          exact List.mem_cons_self
        exact ih (ended (fun hs h => h.store hs) forgetReceived forgetNative hc 116 h)
  have hreq := (hall d.clients.list.length).store (Store.require (a := .clearedFds)
    (b := (Daemon.endAll d.clients.list.length d).fd2client = []) rfl)
  exact hreq.store (.other rfl rfl rfl rfl)

end Sized

/-! ## Runs -/

/-- Nothing is entered over a size that is recorded, and the sum does not overflow. -/
structure FitsCache (s : EventLoop) (e : Event) : Prop where
  install : ∀ c ∈ s.completes e, s.daemon.diskSize c.outfile ≠ 0 →
    ((s.daemon.receivedEnvironments.lookup c.outfile).getD {}).size = 0 ∧
      s.daemon.cacheSize.toNat + (s.daemon.diskSize c.outfile).toNat < 2 ^ 64
  create : ∀ p ∈ e.ends, (s.daemon.native p.1).createEnvPipe →
    s.daemon.cacheSize.toNat + (s.daemon.outcome p.1 p.2).2.toNat < 2 ^ 64

instance (s : EventLoop) (e : Event) : Decidable (FitsCache s e) :=
  decidable_of_iff
    ((∀ c ∈ s.completes e, s.daemon.diskSize c.outfile ≠ 0 →
        ((s.daemon.receivedEnvironments.lookup c.outfile).getD {}).size = 0 ∧
          s.daemon.cacheSize.toNat + (s.daemon.diskSize c.outfile).toNat < 2 ^ 64) ∧
      (∀ p ∈ e.ends, (s.daemon.native p.1).createEnvPipe →
        s.daemon.cacheSize.toNat + (s.daemon.outcome p.1 p.2).2.toNat < 2 ^ 64))
    ⟨fun ⟨h₁, h₂⟩ => ⟨h₁, h₂⟩, fun ⟨h₁, h₂⟩ => ⟨h₁, h₂⟩⟩

namespace Sized

variable {d : Daemon} {c : Client} {key : Str} {s t : EventLoop} {e : Event}

theorem outcome_name {output : Str} (h : (d.outcome key output).1 = []) :
    (d.outcome key output).2 = 0 := by
  unfold Daemon.outcome Daemon.finishCreateEnv at h ⊢
  split at h
  · rename_i hnone
    rw [if_pos hnone]
  · rename_i hsome
    simp [hsome] at h

/-- The entry of an environment that could not be created, with nothing recorded -/
structure Void (key : Str) (d : Daemon) : Prop where
  sized : Sized d
  empty : (d.native key).size = 0

theorem Void.store (h : Void key d) (hs : Store d d') : Void key d' := by
  refine ⟨h.sized.store hs, ?_⟩
  rw [Daemon.native, hs.native]
  exact h.empty

theorem Void.forgetNative (key' : Str) (h : Void key d) : Void key (d.forgetNative key') := by
  refine ⟨h.sized.forgetNative key', ?_⟩
  simp only [Daemon.forgetNative, Daemon.native, Daemon.require_native]
  by_cases hkey : key = key'
  · subst hkey
    simp
  · rw [AList.lookup_erase_ne hkey]
    exact h.empty

theorem Void.forgetReceived (key' : Str) (h : Void key d) : Void key (d.forgetReceived key') := by
  refine ⟨h.sized.forgetReceived key', ?_⟩
  simp only [Daemon.forgetReceived, Daemon.native, Daemon.require_native]
  exact h.empty

theorem Void.forgetEntry (h : Void key d) : Sized (d.forgetEntry key) where
  total := by
    have hweight := weight_native d.nativeEnvironments key
    have herase := Table.total_erase (w := NativeEnvironment.bytes) d.nativeEnvironments key
    have htotal := h.sized.total
    have hempty := h.empty
    rw [Daemon.native] at hempty
    rw [hempty] at hweight
    simp only [Daemon.forgetEntry]
    simp only [UInt64.toNat_zero] at hweight
    omega
  pending key' := by
    simp only [Daemon.forgetEntry, Daemon.native]
    by_cases hkey : key' = key
    · subst hkey
      simp
    · rw [AList.lookup_erase_ne hkey]
      exact h.sized.pending key'
  removable := h.sized.removable

theorem refused {output : Str} (hsize : (d.outcome key output).2 = 0)
    (hpipe : (d.native key).createEnvPipe) (h : Sized d) :
    Sized ((Daemon.refuseWaiting key (d.closedEntry key output).clients.list.length
      (d.closedEntry key output)).forgetEntry key) := by
  have hclosed := Daemon.closedEntry_still output hsize
  have hzero := h.pending key (.inr hpipe)
  have hwritten : Void key (d.setNative key { d.native key with
      name := (d.outcome key output).1, createEnvPipe := false }) := by
    refine ⟨h.setNative rfl fun _ => hzero, ?_⟩
    simpa [Daemon.native, Daemon.setNative] using hzero
  have hstart : Void key (d.closedEntry key output) := hwritten.store (.of_still hclosed)
  have hcut : ∀ p ∈ Daemon.refuseCuts key (d.closedEntry key output).clients.list.length
      (d.closedEntry key output), p ∈ Daemon.refuseCuts key _ _ := fun _ hp => hp
  have hrefused := Daemon.refuseWaiting_rule (J := Void key) (fun hs h => h.store (.of_still hs))
    (d.closedEntry key output).clients.list.length
    (fun hc _ _ h => ended (fun hs h => h.store hs) Void.forgetReceived Void.forgetNative hc 121 h)
    hcut hstart
  exact hrefused.forgetEntry

theorem told (hnd : (d.clients.list.map Client.clientId).Nodup)
    (hlive : ¬ (Daemon.answerWaiting key d.clients.list d).crashed) (h : Sized d) :
    Sized (Daemon.answerWaiting key d.clients.list d) := by
  apply Daemon.answerWaiting_rule (J := fun _ d => Sized d) _ _ _ _ hnd (fun _ hx => hx) hlive h
  · exact fun hs hd => hd.store (.of_still hs)
  · exact fun _ hd => hd
  · exact fun t _ _ hd => (hd.touch key t).store (Store.put _)

theorem created (hk : FitsCache s e) {output : Str} (he : e = .createEnvDone key output)
    (hpipe : (s.daemon.native key).createEnvPipe) (hn : EventLoop.next s e = some t)
    (hv : Valid s.daemon) (h : Sized s.daemon) : Sized t.daemon := by
  subst he
  have hroom := hk.create (key, output) rfl hpipe
  rcases EventLoop.createEnvDone_next hn with ⟨hsize, k, rfl, heq⟩ | ⟨-, hlive, k, hs, heq⟩
  · rw [heq]
    exact h.refused hsize hpipe
  · obtain ⟨u, hsized⟩ := Daemon.sizedEntry_still s.daemon key output
    have hentered := h.enter u hpipe outcome_name hroom
    have hready := ((hentered.store (.of_still hsized)).cut
      (s.daemon.outcome key output).1).store (.of_still hs)
    have hlist : k.clients.list = s.daemon.clients.list := by
      rw [hs.list, (Daemon.checkCacheSize_frame _).clients, hsized.list]
      rfl
    rw [heq] at hlive ⊢
    exact hready.told (hlist ▸ hv.nodup) hlive

theorem create {c : Client} {m : GetNativeEnvMsg} {times : List (Str × ℤ)} {k : Daemon}
    (hcreation : k.creation c m = some d) (h : Sized d) :
    Sized ((d.put (c.creating (Daemon.keyFor c m))).startCreateEnv (Daemon.keyFor c m) times) := by
  have hname : (d.native (Daemon.keyFor c m)).name = [] := by
    unfold Daemon.creation at hcreation
    dsimp only at hcreation
    split at hcreation
    · simp at hcreation
    · split at hcreation
      · simp at hcreation
      · rename_i hnone
        obtain rfl := Option.some.inj hcreation
        simpa using hnone
  have hzero := h.pending _ (.inl hname)
  have hput : Sized (d.put (c.creating (Daemon.keyFor c m))).asked :=
    h.store (.other rfl rfl rfl rfl)
  unfold Daemon.startCreateEnv
  apply hput.setNative
  · split <;> rfl
  · intro _
    split
    · exact hzero
    · exact hzero

theorem upkeep (hk : FitsCache s e) (hv : Valid s.daemon) : Upkeep Sized s e where
  still hs h := h.store (.of_still hs)
  cut _ h := h.cut _
  leave _ _ _ h := h.store (Store.erase _)
  stop _ _ h := h.store ((Store.stopped _).trans (Store.put _))
  keep _ _ h := h.store (Store.put _)
  turn _ _ _ h := h.store (Store.put _)
  install {d c t} hdone hsize hcache hreceived h := by
    obtain ⟨hold, hroom⟩ := hk.install c hdone hsize
    rw [← hcache] at hroom
    rw [← hreceived] at hold
    exact h.install t hold hroom
  start _ _ _ _ h := h.store (Store.addKid.trans (Store.put _))
  answer _ _ h := (h.touch _ _).store (Store.put _)
  refuse _ _ h := (h.setNative rfl (h.pending _)).store (Store.erase _)
  stale _ _ _ h := h.forgetNative _
  create _ hcreation _ h := h.create hcreation
  used h := h.useReceived _
  removed h := h.forgetReceived _
  fork _ _ _ h := h.store (Store.addKid.trans (Store.put _))
  compiled _ _ _ h := h.store (((Store.requireCompiling _).trans Store.dropKid).trans (Store.erase _))
  unpacked _ _ _ h := h.store (((Store.requireInstalling _).trans Store.dropKid).trans (Store.put _))
  created he hpipe hn h := created hk he hpipe hn hv h
  clear h := h.clear
  accept _ _ _ _ _ h := h.store (.other rfl rfl rfl rfl)

theorem init (h : s.Init) : Sized s.daemon where
  total := by
    rw [h.cacheSize, h.received, h.native]
    rfl
  pending := by simp [Daemon.native, h.native]
  removable := by simp [h.log]

theorem sound (h : Sized d) : CacheSize d where
  recorded := h.total
  removable := h.removable

end Sized

namespace CacheSize

variable {s : EventLoop}

/-- In a run where nothing is entered over a recorded size, `cache_size` is the sum of
the recorded sizes. -/
theorem cache_size_recorded (h : EventLoop.system.Reaches FitsCache s) : CacheSize s.daemon := by
  have hinv : Valid s.daemon ∧ Sized s.daemon := by
    apply h.invariant
    · intro s hs
      exact ⟨EventLoop.valid_init hs, Sized.init hs⟩
    · intro s e t hinv hk hn
      obtain ⟨hv, hsized⟩ := hinv
      exact ⟨EventLoop.valid_step hv hn,
        (Sized.upkeep hk hv).step hn hsized⟩
  exact hinv.2.sound

def transferring : Event :=
  .clientMsg (some (.transferEnv ⟨str "n", str "x"⟩)) (some (.fileChunk ⟨[], 0, 0⟩))

/-- The rest of a pass and the start of the next one -/
def restarting : List Event := [.visit, .passDone, .reconnect none]

/-- A new client on `fd` transfers an environment of 4 bytes, which is unpacked. -/
def installing (fd : ℕ) : List Event :=
  EventLoop.polling 0 ++ [.accept 0 fd 45, transferring] ++ EventLoop.again ++
    [.unpack fd (str "a") 4 false] ++ EventLoop.polling 1 ++ EventLoop.sending [.endMsg] ++
    restarting ++ EventLoop.polling 1 ++ [.schedulerRead, .installDone true]

/-- The client transfers it once more; the directory is there already, and goes. -/
def failing : List Event :=
  [.reconnect none] ++ EventLoop.polling 1 ++ [.schedulerRead, transferring] ++ restarting

theorem cache_size_recorded_transfer : ∃ s, EventLoop.system.Reaches FitsCache s ∧
    s.daemon.cacheSize = 4 ∧ CacheSize s.daemon := by
  have hrun : (EventLoop.system.run FitsCache (EventLoop.started (fun _ => 1) 4)
      (.reconnect none :: installing 7)).map (fun s => s.daemon.cacheSize) = some 4 := by
    decide +kernel
  obtain ⟨s, hs, hsize⟩ := Option.map_eq_some_iff.mp hrun
  have hreach := (Transition.System.Reaches.init (EventLoop.started_init _ 4)).run hs
  exact ⟨s, hreach, hsize, cache_size_recorded hreach⟩

/-- A transfer that fails takes the files of the environment and leaves its entry; the
next one is entered over it, and both sizes stay in `cache_size`. -/
theorem cache_size_overwritten : ∃ s, EventLoop.system.Reachable s ∧ ¬ CacheSize s.daemon := by
  have hrun : (EventLoop.system.exec (EventLoop.started (fun _ => 1) 4)
      (.reconnect none :: installing 7 ++ failing ++ installing 8)).map (fun s =>
        (s.daemon.cacheSize, s.daemon.receivedEnvironments.entries.map fun e => e.2.size,
          s.daemon.nativeEnvironments.entries.map fun e => e.2.size)) = some (8, [4], []) := by
    decide +kernel
  obtain ⟨s, hs, hstate⟩ := Option.map_eq_some_iff.mp hrun
  simp only [Prod.mk.injEq] at hstate
  obtain ⟨hcache, hreceived, hnative⟩ := hstate
  have hreach := (Transition.System.Reaches.init (EventLoop.started_init (fun _ => 1) 4)).exec
    (fun _ _ _ => trivial) hs
  refine ⟨s, hreach, fun h => ?_⟩
  have hsizes : s.daemon.receivedEnvironments.entries.map (fun e => e.2.size.toNat) = [4] := by
    have hmap := congrArg (List.map UInt64.toNat) hreceived
    simpa using hmap
  have hrecorded := h.recorded
  rw [hcache, hsizes, List.map_eq_nil_iff.mp hnative] at hrecorded
  exact absurd hrecorded (by decide)

end CacheSize

end Icecream.Iceccd
