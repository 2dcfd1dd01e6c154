import Icecream.Daemon.Creations
import Icecream.Library.Recency
import Icecream.Library.Table

/-!
# What the cache loop removes

`check_cache_size` looks for the environment of either table that was used longest ago,
and for one whose files are missing. It asks the clients which environments they use, and
takes it for granted that those it asks have a job.
-/

namespace Icecream.Iceccd

open Icecream.Comm
open Icecream.Path
open Icecream.Recency

namespace Daemon

variable {d d' : Daemon} {now : ℤ} {newEnv : Str}

/-! ## The two scans -/

def Oldest.of {V : Type} (best : Option (Str × V) × ℤ) : Oldest :=
  { key := (best.1.map Prod.fst).getD [], time := best.2 }

def missingReceived (d : Daemon) (e : Str × ReceivedEnvironment) : Bool :=
  ¬ d.disk.isExecutable (normalise (targetDir d.envbasedir e.1 ++ str "/usr/bin/as"))

/-- Not used for 200 seconds, and not by a client -/
def dueReceived (d : Daemon) (now : ℤ) (e : Str × ReceivedEnvironment) : Bool :=
  200 < now - e.2.lastUse ∧ ¬ d.inUse e.1

def missingNative (d : Daemon) (e : Str × NativeEnvironment) : Bool :=
  e.2.name ≠ [] ∧ ¬ d.host.readable d.calls e.2.name

def dueNative (d : Daemon) (now : ℤ) (e : Str × NativeEnvironment) : Bool :=
  d.keepTimeout e.2 < now - e.2.lastUse

theorem oldestReceived_eq (d : Daemon) (now : ℤ) (best : Option (Str × ReceivedEnvironment) × ℤ)
    (l : List (Str × ReceivedEnvironment)) :
    (d.oldestReceived now (.of best) l).1 =
      .of (oldest (fun e => d.missingReceived e) (fun e => d.dueReceived now e)
        (fun e => e.2.lastUse) best l) := by
  induction l generalizing best with
  | nil => rfl
  | cons e l ih =>
    simp only [oldestReceived, oldest]
    by_cases hmissing : d.disk.isExecutable
        (normalise (targetDir d.envbasedir e.1 ++ str "/usr/bin/as")) = true
    · have hnot : ¬ d.missingReceived e = true := by simp [missingReceived, hmissing]
      rw [if_neg (not_not.mpr hmissing), if_neg hnot]
      by_cases hused : d.inUse e.1 = true
      · have hdue : ¬ d.dueReceived now e = true := by simp [dueReceived, hused]
        have hlate : ¬ (e.2.lastUse < best.2 ∧ d.dueReceived now e = true) := fun h => hdue h.2
        rw [if_neg hlate, if_pos hused]
        by_cases hold : e.2.lastUse < (Oldest.of best).time ∧ 200 < now - e.2.lastUse
        · rw [if_pos hold]
          exact ih best
        · rw [if_neg hold]
          exact ih best
      · have hdue : d.dueReceived now e = true ↔ 200 < now - e.2.lastUse := by
          simp [dueReceived, hused]
        simp only [hdue, if_neg hused]
        by_cases hold : e.2.lastUse < best.2 ∧ 200 < now - e.2.lastUse
        · have hold' : e.2.lastUse < (Oldest.of best).time ∧ 200 < now - e.2.lastUse := hold
          rw [if_pos hold, if_pos hold']
          exact ih (some e, e.2.lastUse)
        · have hold' : ¬ (e.2.lastUse < (Oldest.of best).time ∧ 200 < now - e.2.lastUse) := hold
          rw [if_neg hold, if_neg hold']
          exact ih best
    · have hgone : d.missingReceived e = true := by simp [missingReceived, hmissing]
      rw [if_pos hmissing, if_pos hgone]
      rfl

theorem oldestNative_eq (d : Daemon) (now : ℤ) (best : Option (Str × NativeEnvironment) × ℤ)
    (l : List (Str × NativeEnvironment)) :
    d.oldestNative now (.of best) l =
      .of (oldest (fun e => d.missingNative e) (fun e => d.dueNative now e)
        (fun e => e.2.lastUse) best l) := by
  induction l generalizing best with
  | nil => rfl
  | cons e l ih =>
    have hgone : d.missingNative e = true ↔ e.2.name ≠ [] ∧ ¬ d.host.readable d.calls e.2.name :=
      decide_eq_true_iff
    have hdue : d.dueNative now e = true ↔ d.keepTimeout e.2 < now - e.2.lastUse :=
      decide_eq_true_iff
    simp only [oldestNative, oldest, hgone, hdue]
    by_cases hmissing : e.2.name ≠ [] ∧ ¬ d.host.readable d.calls e.2.name
    · rw [if_pos hmissing, if_pos hmissing]
      rfl
    rw [if_neg hmissing, if_neg hmissing]
    by_cases hold : e.2.lastUse < best.2 ∧ d.keepTimeout e.2 < now - e.2.lastUse
    · have hold' : e.2.lastUse < (Oldest.of best).time ∧ d.keepTimeout e.2 < now - e.2.lastUse := hold
      rw [if_pos hold, if_pos hold']
      exact ih (some e, e.2.lastUse)
    · have hold' : ¬ (e.2.lastUse < (Oldest.of best).time ∧
          d.keepTimeout e.2 < now - e.2.lastUse) := hold
      rw [if_neg hold, if_neg hold']
      exact ih best

theorem mem_byKey {V : Type} {m : AList fun _ : Str => V} {e : Str × V} :
    e ∈ byKey m ↔ m.lookup e.1 = some e.2 := by
  rw [byKey, List.mem_insertionSort, List.mem_map]
  change _ ↔ e.2 ∈ List.dlookup e.1 m.entries
  rw [List.mem_dlookup_iff m.nodupKeys]
  constructor
  · rintro ⟨x, hx, rfl⟩
    exact hx
  · intro h
    exact ⟨⟨e.1, e.2⟩, h, rfl⟩

/-! ## One turn -/

/-- An environment of either table -/
inductive Entry
  | received (key : Str) (env : ReceivedEnvironment)
  | native (key : Str) (env : NativeEnvironment)

namespace Entry

def key : Entry → Str
  | received key _ => key
  | native key _ => key

def lastUse : Entry → ℤ
  | received _ env => env.lastUse
  | native _ env => env.lastUse

/-- An environment whose files are not there -/
def Missing (d : Daemon) : Entry → Prop
  | received key env => d.receivedEnvironments.lookup key = some env ∧ d.missingReceived (key, env)
  | native key env => d.nativeEnvironments.lookup key = some env ∧ d.missingNative (key, env)

/-- An environment that no client uses, that is not being created, and that has been kept for
as long as it has to be -/
def Due (d : Daemon) (now : ℤ) : Entry → Prop
  | received key env => d.receivedEnvironments.lookup key = some env ∧ d.dueReceived now (key, env)
  | native key env => d.nativeEnvironments.lookup key = some env ∧ env.createEnvPipe = false ∧
      d.dueNative now (key, env)

end Entry

/-- What goes next. Nothing is said of when an environment goes that is being created. -/
inductive Next (d : Daemon) (now : ℤ) : Option Entry → Prop
  | missing {e : Entry} : e.Missing d → Next d now (some e)
  | creating {key : Str} {env : NativeEnvironment} :
      d.nativeEnvironments.lookup key = some env → env.createEnvPipe = true →
      Next d now (some (.native key env))
  | due {e : Entry} : (∀ x : Entry, ¬ x.Missing d) → e.Due d now →
      (∀ x : Entry, x.Due d now → e.lastUse ≤ x.lastUse) → Next d now (some e)
  | nothing : (∀ x : Entry, ¬ x.Missing d) →
      (∀ x : Entry, x.Due d now → d.now + 90000 ≤ x.lastUse) → Next d now none

/-- The keys are what the code takes them to be, and no time is before the epoch. -/
structure Keyed (d : Daemon) : Prop where
  received : [] ∉ d.receivedEnvironments
  native : [] ∉ d.nativeEnvironments
  times : ∀ key env, d.nativeEnvironments.lookup key = some env → 0 ≤ env.lastUse

/-- The pick of the scan of the received environments -/
def receivedPick (d : Daemon) (now : ℤ) : Option (Str × ReceivedEnvironment) × ℤ :=
  oldest (fun e => d.missingReceived e) (fun e => d.dueReceived now e) (fun e => e.2.lastUse)
    (none, d.now + 90000) (byKey d.receivedEnvironments)

/-- The pick of the scan of the native ones, which starts from the time of the other -/
def nativePick (d : Daemon) (now : ℤ) : Option (Str × NativeEnvironment) × ℤ :=
  oldest (fun e => d.missingNative e) (fun e => d.dueNative now e) (fun e => e.2.lastUse)
    (none, (d.receivedPick now).2) (byKey d.nativeEnvironments)

/-- A native environment goes before a received one. -/
def pick (d : Daemon) (now : ℤ) : Option Entry :=
  ((d.nativePick now).1.map fun e => Entry.native e.1 e.2).or
    ((d.receivedPick now).1.map fun e => Entry.received e.1 e.2)

theorem pick_next (hkeyed : Keyed d) (now : ℤ) : Next d now (d.pick now) := by
  have hreceived := oldest_picks (fun e => d.missingReceived e) (fun e => d.dueReceived now e)
    (fun e => e.2.lastUse) (d.now + 90000) (byKey d.receivedEnvironments)
  have hnative := oldest_picks (fun e => d.missingNative e) (fun e => d.dueNative now e)
    (fun e => e.2.lastUse) (d.receivedPick now).2 (byKey d.nativeEnvironments)
  change Picks _ _ _ _ _ (d.receivedPick now) at hreceived
  change Picks _ _ _ _ _ (d.nativePick now) at hnative
  unfold pick
  generalize d.receivedPick now = picked at hreceived hnative
  generalize d.nativePick now = picked' at hnative
  have hintact : (∀ e ∈ byKey d.receivedEnvironments, ¬ d.missingReceived e = true) →
      (∀ e ∈ byKey d.nativeEnvironments, ¬ d.missingNative e = true) →
      ∀ x : Entry, ¬ x.Missing d := by
    rintro hr hn (⟨key, env⟩ | ⟨key, env⟩) ⟨hmem, hmissing⟩
    · exact hr (key, env) (mem_byKey.mpr hmem) hmissing
    · exact hn (key, env) (mem_byKey.mpr hmem) hmissing
  cases hnative with
  | @gone e he hgone => exact .missing ⟨mem_byKey.mp he, hgone⟩
  | @due e hnone he hdue hlt hleast =>
    change Next d now (some (.native e.1 e.2))
    by_cases hpipe : e.2.createEnvPipe = true
    · exact .creating (mem_byKey.mp he) hpipe
    have hself : (Entry.native e.1 e.2).Due d now :=
      ⟨mem_byKey.mp he, Bool.eq_false_iff.mpr hpipe, hdue⟩
    cases hreceived with
    | @gone x hx hgone =>
      have htime := hkeyed.times e.1 e.2 (mem_byKey.mp he)
      exact absurd htime (not_le.mpr hlt)
    | @due x hrnone hx hxdue hxlt hxleast =>
      refine .due (hintact hrnone hnone) hself ?_
      rintro (⟨key, env⟩ | ⟨key, env⟩) hw
      · exact hlt.le.trans (hxleast (key, env) (mem_byKey.mpr hw.1) hw.2)
      · exact hleast (key, env) (mem_byKey.mpr hw.1) hw.2.2
    | nothing hrnone hbound =>
      refine .due (hintact hrnone hnone) hself ?_
      rintro (⟨key, env⟩ | ⟨key, env⟩) hw
      · exact hlt.le.trans (hbound (key, env) (mem_byKey.mpr hw.1) hw.2)
      · exact hleast (key, env) (mem_byKey.mpr hw.1) hw.2.2
  | nothing hnone hbound =>
    cases hreceived with
    | @gone x hx hgone => exact .missing ⟨mem_byKey.mp hx, hgone⟩
    | @due x hrnone hx hxdue hxlt hxleast =>
      refine .due (hintact hrnone hnone) ⟨mem_byKey.mp hx, hxdue⟩ ?_
      rintro (⟨key, env⟩ | ⟨key, env⟩) hw
      · exact hxleast (key, env) (mem_byKey.mpr hw.1) hw.2
      · exact hbound (key, env) (mem_byKey.mpr hw.1) hw.2.2
    | nothing hrnone hrbound =>
      refine .nothing (hintact hrnone hnone) ?_
      rintro (⟨key, env⟩ | ⟨key, env⟩) hw
      · exact hrbound (key, env) (mem_byKey.mpr hw.1) hw.2
      · exact hbound (key, env) (mem_byKey.mpr hw.1) hw.2.2

/-- The daemon without the environment -/
def forget (d : Daemon) : Entry → Daemon
  | .received key _ => d.forgetReceived key
  | .native key _ => d.forgetNative key

theorem receivedPick_mem {e : Str × ReceivedEnvironment} (h : (d.receivedPick now).1 = some e) :
    d.receivedEnvironments.lookup e.1 = some e.2 :=
  mem_byKey.mp ((oldest_picks _ _ _ _ _).mem h)

theorem nativePick_mem {e : Str × NativeEnvironment} (h : (d.nativePick now).1 = some e) :
    d.nativeEnvironments.lookup e.1 = some e.2 :=
  mem_byKey.mp ((oldest_picks _ _ _ _ _).mem h)

theorem key_ne_nil {V : Type} {m : AList fun _ : Str => V} (hm : [] ∉ m) {e : Str × V}
    (h : m.lookup e.1 = some e.2) : e.1 ≠ [] := by
  intro hnil
  have hmem : e.1 ∈ m := AList.lookup_isSome.mp (by rw [h]; rfl)
  exact hm (hnil ▸ hmem)

theorem evict_pick (hkeyed : Keyed d) (now : ℤ) (newEnv : Str) (hover : d.cacheSizeLimit < d.cacheSize) :
    ((d.evict now newEnv).2 = false ∧ Still d (d.evict now newEnv).1 ∧
      ∀ e ∈ d.pick now, e.key = newEnv) ∨
    ∃ e ∈ d.pick now, (∀ key env, e = .received key env → key ≠ newEnv) ∧
      (d.evict now newEnv).2 = true ∧ Still (d.forget e) (d.evict now newEnv).1 := by
  have hreceived : (d.oldestReceived now { time := d.now + 90000 }
      (byKey d.receivedEnvironments)).1 = .of (d.receivedPick now) :=
    oldestReceived_eq d now (none, d.now + 90000) _
  have hnative : d.oldestNative now { time := (d.receivedPick now).2 }
      (byKey d.nativeEnvironments) = .of (d.nativePick now) :=
    oldestNative_eq d now (none, (d.receivedPick now).2) _
  have hseen : ∀ (p : Prop) [Decidable p],
      Still d (if p then (d.require .cacheJob false).crash else d).asked := by
    intro p _
    exact (Still.ite ((Still.require _ _ rfl).trans .crash) .refl).trans .asked
  unfold evict pick
  rw [if_neg (UInt64.not_le.mpr hover)]
  dsimp only
  rw [hreceived]
  have hstart : Oldest.mk [] (Oldest.of (d.receivedPick now)).time = ⟨[], (d.receivedPick now).2⟩ := rfl
  rw [hstart, hnative]
  cases hn : (d.nativePick now).1 with
  | some e =>
    have hkey : e.1 ≠ [] := key_ne_nil hkeyed.native (nativePick_mem hn)
    have hnkey : (Oldest.of (d.nativePick now)).key = e.1 := by simp [Oldest.of, hn]
    rw [hnkey]
    split
    · rename_i hstop
      refine .inl ⟨rfl, hseen _, fun x hx => ?_⟩
      cases hx
      exact hstop.2.resolve_left hkey
    · refine .inr ⟨_, rfl, nofun, rfl, ?_⟩
      exact (forgetNative_still (hseen _) _).trans (removeNativeEnvironment_still _)
  | none =>
    have hnkey : (Oldest.of (d.nativePick now)).key = [] := by simp [Oldest.of, hn]
    rw [hnkey]
    cases hr : (d.receivedPick now).1 with
    | none =>
      have hrkey : (Oldest.of (d.receivedPick now)).key = [] := by simp [Oldest.of, hr]
      rw [hrkey, if_pos ⟨.inl rfl, .inl rfl⟩]
      exact .inl ⟨rfl, hseen _, nofun⟩
    | some e =>
      have hrkey : (Oldest.of (d.receivedPick now)).key = e.1 := by simp [Oldest.of, hr]
      have hkey : e.1 ≠ [] := key_ne_nil hkeyed.received (receivedPick_mem hr)
      rw [hrkey]
      split
      · rename_i hstop
        refine .inl ⟨rfl, hseen _, fun x hx => ?_⟩
        cases hx
        exact hstop.1.resolve_left hkey
      · rename_i hgo
        rw [if_neg (not_not.mpr rfl)]
        refine .inr ⟨_, rfl, ?_, rfl, ?_⟩
        · intro key env hentry
          cases hentry
          exact fun hsame => hgo ⟨.inr hsame, .inl rfl⟩
        · exact (forgetReceived_still (hseen _) _).trans (removeEnvironment_still _)

/-! ## The loop -/

/-- One turn that goes on. The received environment that was just installed is spared. -/
structure Removes (now : ℤ) (newEnv : Str) (d d' : Daemon) : Prop where
  turn : d' = (d.evict now newEnv).1
  exceeded : d.cacheSizeLimit < d.cacheSize
  entry : ∃ e, Next d now (some e) ∧ (∀ key env, e = .received key env → key ≠ newEnv) ∧
    Still (d.forget e) d'

/-- The cache is within its limit, or nothing goes next but what was just installed. -/
def Stops (now : ℤ) (newEnv : Str) (d : Daemon) : Prop :=
  d.cacheSize ≤ d.cacheSizeLimit ∨ ∃ next, Next d now next ∧ ∀ e ∈ next, e.key = newEnv

theorem Keyed.still (h : Keyed d) (hs : Still d d') : Keyed d' := by
  refine ⟨?_, ?_, ?_⟩
  · rw [hs.received]
    exact h.received
  · rw [hs.native]
    exact h.native
  · rw [hs.native]
    exact h.times

theorem Keyed.forget (h : Keyed d) (e : Entry) : Keyed (d.forget e) := by
  cases e with
  | received key env =>
    have herase : (d.forget (.received key env)).receivedEnvironments =
      d.receivedEnvironments.erase key := by simp [Daemon.forget, forgetReceived]
    have hsame : (d.forget (.received key env)).nativeEnvironments = d.nativeEnvironments := by
      simp [Daemon.forget, forgetReceived]
    refine ⟨?_, hsame ▸ h.native, hsame ▸ h.times⟩
    rw [herase, AList.mem_erase]
    exact fun hin => h.received hin.2
  | native key env =>
    have herase : (d.forget (.native key env)).nativeEnvironments =
      d.nativeEnvironments.erase key := by simp [Daemon.forget, forgetNative]
    have hsame : (d.forget (.native key env)).receivedEnvironments = d.receivedEnvironments := by
      simp [Daemon.forget, forgetNative]
    refine ⟨hsame ▸ h.received, ?_, ?_⟩
    · rw [herase, AList.mem_erase]
      exact fun hin => h.native hin.2
    · intro k v hv
      rw [herase] at hv
      by_cases hk : k = key
      · subst hk
        rw [AList.lookup_erase] at hv
        cases hv
      · rw [AList.lookup_erase_ne hk] at hv
        exact h.times k v hv

def entries (d : Daemon) : ℕ :=
  d.receivedEnvironments.entries.length + d.nativeEnvironments.entries.length

theorem length_erase {V : Type} {m : AList fun _ : Str => V} {key : Str} {v : V}
    (h : m.lookup key = some v) : (m.erase key).entries.length + 1 = m.entries.length := by
  have htotal := Table.total_erase (w := fun _ : V => 1) m key
  rw [Table.weight_of_lookup h] at htotal
  simpa [Table.total] using htotal

theorem entries_forget {e : Entry} (h : e ∈ d.pick now) : (d.forget e).entries + 1 = d.entries := by
  unfold pick at h
  rcases Option.or_eq_some_iff.mp h with hn | ⟨-, hr⟩
  · obtain ⟨x, hx, rfl⟩ := Option.map_eq_some_iff.mp hn
    have hlength := length_erase (nativePick_mem hx)
    simp only [entries, forget, forgetNative, require_received, require_native]
    omega
  · obtain ⟨x, hx, rfl⟩ := Option.map_eq_some_iff.mp hr
    have hlength := length_erase (receivedPick_mem hx)
    simp only [entries, forget, forgetReceived, require_received, require_native]
    omega

theorem checkCacheLoop_removes (hkeyed : Keyed d) (now : ℤ) (newEnv : Str) {fuel : ℕ}
    (hfuel : d.entries < fuel) :
    ∃ d', Relation.ReflTransGen (Removes now newEnv) d d' ∧ Stops now newEnv d' ∧
      Still d' (checkCacheLoop now newEnv fuel d) := by
  induction fuel generalizing d with
  | zero => exact absurd hfuel (Nat.not_lt_zero _)
  | succ fuel ih =>
    rw [checkCacheLoop]
    by_cases hover : d.cacheSizeLimit < d.cacheSize
    · rcases evict_pick hkeyed now newEnv hover with ⟨hstop, hstill, hnew⟩ | hgo
      · refine ⟨d, .refl, .inr ⟨_, pick_next hkeyed now, hnew⟩, ?_⟩
        simp only [hstop, Bool.false_eq_true, if_false]
        exact hstill
      · obtain ⟨e, he, hspared, hon, hstill⟩ := hgo
        have hnext := pick_next hkeyed now
        rw [he] at hnext
        have hturn : Removes now newEnv d (d.evict now newEnv).1 := ⟨rfl, hover, e, hnext, hspared, hstill⟩
        have hcount : (d.evict now newEnv).1.entries = (d.forget e).entries := by
          rw [entries, entries, hstill.received, hstill.native]
        have hless := entries_forget he
        obtain ⟨d', hrun, hstops, hsame⟩ := ih ((hkeyed.forget e).still hstill) (by omega)
        refine ⟨d', .head hturn hrun, hstops, ?_⟩
        simp only [hon, if_true]
        exact hsame
    · have hwithin : d.cacheSize ≤ d.cacheSizeLimit := UInt64.not_lt.mp hover
      have hturn : d.evict now newEnv = (d, false) := by rw [evict, if_pos hwithin]
      refine ⟨d, .refl, .inl hwithin, ?_⟩
      simp only [hturn, Bool.false_eq_true, if_false]
      exact .refl

/-- The loop removes what goes next, one environment after the other, until the cache is
within its limit or nothing but what was just installed goes next. -/
theorem checkCacheSize_removes (hkeyed : Keyed d) (newEnv : Str) :
    ∃ d', Relation.ReflTransGen (Removes d.now newEnv) d d' ∧ Stops d.now newEnv d' ∧
      Still d' (d.checkCacheSize newEnv) :=
  checkCacheLoop_removes hkeyed d.now newEnv (Nat.lt_succ_self _)

/-- A daemon with these clients whose cache is full of one environment, not used for long -/
def outgrown (l : List Client) : Daemon :=
  { envbasedir := str "/e", machineName := str "x", daemonPort := 10245, maxSchedulerPong := 3
    maxSchedulerPing := 39, maxKids := 4, cacheSizeLimit := 4, cacheSize := 8
    clients := { list := l }
    receivedEnvironments := AList.insert (str "n/x") { lastUse := 0, size := 8 } ∅
    disk := [⟨normalise (str "/e/target=n/x/usr/bin/as"), false, 8, true⟩]
    host := { EventLoop.plainHost fun _ => 1 with clock := fun _ => 1000 } }

theorem outgrown_keyed (l : List Client) : Keyed (outgrown l) where
  received := by
    change [] ∉ AList.insert (str "n/x") _ ∅
    decide
  native := AList.notMem_empty _
  times := nofun

theorem checkCacheSize_removes_one : Keyed (outgrown []) ∧
    ((outgrown []).checkCacheSize []).receivedEnvironments.entries = [] ∧
    ∃ d', Relation.ReflTransGen (Removes (outgrown []).now []) (outgrown []) d' ∧
      Stops (outgrown []).now [] d' ∧ Still d' ((outgrown []).checkCacheSize []) :=
  ⟨outgrown_keyed [], by decide +kernel, checkCacheSize_removes (outgrown_keyed []) []⟩

/-- A client that waits for a slot, to compile in the environment `n/x` -/
def tenant : Client :=
  { clientId := 1, fd := 7, protocol := 44, status := .toCompile
    job := some { id := 1, language := 0, targetPlatform := str "n", environmentVersion := str "x" } }

/-- The same cache when the files of the environment are gone -/
def damaged : Daemon := { outgrown [tenant] with disk := [] }

/-- The same cache more than a year later, while a native environment is being created -/
def creating : Daemon :=
  { outgrown [tenant] with
    nativeEnvironments := AList.insert (str "gz:/usr/bin/gcc") { createEnvPipe := true } ∅
    host := { EventLoop.plainHost fun _ => 1 with clock := fun _ => 34560000 } }

/-- An environment that a client is about to use goes when its files are missing. One that is
being created has never been used, and goes first of all. -/
theorem checkCacheSize_removes_needed :
    (damaged.inUse (str "n/x") = true ∧
      (damaged.checkCacheSize []).receivedEnvironments.entries = []) ∧
    ((creating.native (str "gz:/usr/bin/gcc")).createEnvPipe = true ∧
      (creating.checkCacheSize []).nativeEnvironments.entries = []) := by
  decide +kernel

/-! ## Clients without a job -/

theorem removeNativeEnvironment_crashed (d : Daemon) (key : Str) :
    (d.removeNativeEnvironment key).crashed = d.crashed := by
  unfold removeNativeEnvironment removeNativeEnvironmentFiles
  dsimp only
  split
  · simp
  · split <;> simp [note, asked]

theorem removeEnvironment_crashed (d : Daemon) (key : Str) :
    (d.removeEnvironment key).crashed = d.crashed := by
  unfold removeEnvironment removeEnvironmentFiles
  dsimp only
  split <;> simp [note, asked]

theorem evict_sound (hjobs : d.jobMissing = false) (now : ℤ) (newEnv : Str) :
    (d.evict now newEnv).1.crashed = d.crashed := by
  unfold evict
  split
  · rfl
  · simp only [hjobs, Bool.false_eq_true, and_false, if_false]
    split
    · rfl
    · split
      · exact removeNativeEnvironment_crashed _ _
      · exact removeEnvironment_crashed _ _

theorem evict_list (d : Daemon) (now : ℤ) (newEnv : Str) :
    (d.evict now newEnv).1.clients.list = d.clients.list := by
  rw [(evict_frame now newEnv).clients]

theorem checkCacheSize_sound (hjobs : d.jobMissing = false) (newEnv : Str) :
    (d.checkCacheSize newEnv).crashed = d.crashed := by
  unfold checkCacheSize
  generalize d.receivedEnvironments.entries.length + d.nativeEnvironments.entries.length + 1 = fuel
  generalize d.now = now
  induction fuel generalizing d with
  | zero => rfl
  | succ fuel ih =>
    have hturn := evict_sound hjobs now newEnv
    rw [checkCacheLoop]
    split
    · rw [ih, hturn]
      rw [jobMissing, evict_list]
      exact hjobs
    · exact hturn

theorem evict_keeps_crashed (hd : d.crashed = true) (now : ℤ) (newEnv : Str) :
    (d.evict now newEnv).1.crashed = true := by
  rcases evict_cases d now newEnv with hs | ⟨key, -, hs⟩ | ⟨key, hs⟩
  · exact hs.crashed hd
  · exact hs.crashed (by simpa [forgetNative] using hd)
  · exact hs.crashed (by simpa [forgetReceived] using hd)

theorem checkCacheLoop_crashed (hd : d.crashed = true) (now : ℤ) (newEnv : Str) (fuel : ℕ) :
    (checkCacheLoop now newEnv fuel d).crashed = true := by
  induction fuel generalizing d with
  | zero => exact hd
  | succ fuel ih =>
    have hturn := evict_keeps_crashed hd now newEnv
    rw [checkCacheLoop]
    split
    · exact ih hturn
    · exact hturn

/-- The first turn asks the clients, and one of them has no job. -/
theorem evict_crashes (hover : d.cacheSizeLimit < d.cacheSize) (hjobs : d.jobMissing = true)
    (now : ℤ) (newEnv : Str) (hasks : (d.oldestReceived now { time := d.now + 90000 }
      (byKey d.receivedEnvironments)).2 = true) : (d.evict now newEnv).1.crashed = true := by
  unfold evict
  rw [if_neg (UInt64.not_le.mpr hover)]
  simp only [hasks, hjobs, and_self, if_true]
  split
  · rfl
  · split
    · exact removeNativeEnvironment_crashed _ _
    · exact removeEnvironment_crashed _ _

/-- A list of clients is safe for every cache just when each client that is asked has a job. -/
theorem checkCacheSize_crashed_iff (l : List Client) :
    (∀ (d : Daemon) (newEnv : Str), d.clients.list = l → d.crashed = false →
      (d.checkCacheSize newEnv).crashed = false) ↔
      ∀ c ∈ l, usesEnvironment c = true → c.job.isSome = true := by
  have hmissing : ∀ d : Daemon, d.clients.list = l → (d.jobMissing = false ↔
      ∀ c ∈ l, usesEnvironment c = true → c.job.isSome = true) := by
    rintro d rfl
    simp only [jobMissing, List.any_eq_false, decide_eq_true_eq, not_and, Option.isNone_iff_eq_none,
      Option.isSome_iff_ne_none, ne_eq]
  constructor
  · intro h
    rw [← hmissing (outgrown l) rfl]
    by_contra hjobs
    rw [Bool.not_eq_false] at hjobs
    have hover : (4 : UInt64) < 8 := by decide
    have hturn : ((outgrown l).evict (outgrown l).now []).1.crashed = true := by
      apply evict_crashes hover hjobs
      rfl
    have hsafe := h (outgrown l) [] rfl rfl
    have hcrash : ((outgrown l).checkCacheSize []).crashed = true := by
      unfold checkCacheSize
      rw [checkCacheLoop]
      split
      · exact checkCacheLoop_crashed hturn _ _ _
      · exact hturn
    exact Bool.false_ne_true (hsafe.symm.trans hcrash)
  · intro h d newEnv hl hd
    rw [checkCacheSize_sound ((hmissing d hl).mpr h), hd]

end Daemon

namespace EventLoop

open Daemon

def transfer (name : String) : Event :=
  .clientMsg (some (.transferEnv ⟨str "n", str name⟩)) (some (.fileChunk ⟨[], 0, 0⟩))

/-- A daemon whose clock jumps when `n` questions have been asked -/
def aging (n : ℕ) : EventLoop :=
  let s := started (fun _ => 1) 4
  { s with daemon := { s.daemon with
      host := { plainHost (fun _ => 1) with clock := fun k => if k < n then 0 else 1000 } } }

theorem aging_init (n : ℕ) : (aging n).Init :=
  ⟨rfl, rfl, rfl, rfl, rfl, rfl, rfl, rfl, rfl, rfl, rfl, rfl⟩

/-- A client on `fd` transfers an environment of `size` bytes, which is unpacked; `others` are
in the poll set before it. -/
def unpacked (fd others : ℕ) (name : String) (size : ℕ) : List Event :=
  let idle := List.replicate others .clientRead
  polling others ++ accepting fd [] ++ [transfer name] ++ again ++
    [.unpack fd (str "usr/bin/as") size true] ++ polling (others + 1) ++ [.schedulerRead] ++ idle ++
    [.clientMsg (some .endMsg) none, .visit, .passDone, .reconnect none] ++ polling (others + 1) ++
    [.schedulerRead] ++ idle

/-- While one transfer is under way another fills the cache, and what was received first has
not been used for a while. -/
theorem checkCacheSize_crashes : ∃ s t, system.Reachable s ∧
    step s (.installDone true) = some t ∧ .assertionFailed .cacheJob ∈ t.daemon.log ∧
      t.daemon.crashed = true := by
  have hrun : ((system.exec (aging 10) (.reconnect none :: unpacked 7 0 "x" 4 ++
      [.installDone true, .reconnect none] ++ polling 1 ++ accepting 8 [] ++ [transfer "y"] ++ again ++
      unpacked 9 2 "z" 200)).bind fun s => (step s (.installDone true)).map fun t =>
        (decide (.assertionFailed .cacheJob ∈ t.daemon.log), t.daemon.crashed)) =
      some (true, true) := by decide +kernel
  obtain ⟨s, hs, hstep⟩ := Option.bind_eq_some_iff.mp hrun
  obtain ⟨t, ht, hstate⟩ := Option.map_eq_some_iff.mp hstep
  obtain ⟨hlog, hcrash⟩ := Prod.mk.inj hstate
  have hreach := (Transition.System.Reaches.init (aging_init 10)).exec (fun _ _ _ => trivial) hs
  exact ⟨s, t, hreach, ht, of_decide_eq_true hlog, hcrash⟩

end EventLoop

end Icecream.Iceccd
