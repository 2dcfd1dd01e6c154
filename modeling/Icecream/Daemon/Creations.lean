import Icecream.Daemon.Upkeep

/-!
# The cache loop and the end of a creation

What `check_cache_size` does to the books turn by turn, and what the end of
`icecc-create-env` leaves of those who wait for it.
-/

namespace Icecream.Iceccd

open Icecream.Comm

namespace Daemon

variable {d : Daemon} {c : Client} {key : Str}

/-- The native environment that the next turn of the loop removes -/
def nativeVictim (d : Daemon) (now : ℤ) (newEnv : Str) : Option Str :=
  let received := d.oldestReceived now { time := d.now + 90000 } (byKey d.receivedEnvironments)
  let native := d.oldestNative now { time := received.1.time } (byKey d.nativeEnvironments)
  if d.cacheSize ≤ d.cacheSizeLimit then none
  else if (received.1.key = [] ∨ received.1.key = newEnv) ∧
      (native.key = [] ∨ native.key = newEnv) then none
  else if native.key ≠ [] then some native.key
  else none

theorem evict_cases (d : Daemon) (now : ℤ) (newEnv : Str) : Still d (d.evict now newEnv).1 ∨
    (∃ key, d.nativeVictim now newEnv = some key ∧
      Still (d.forgetNative key) (d.evict now newEnv).1) ∨
    ∃ key, Still (d.forgetReceived key) (d.evict now newEnv).1 := by
  unfold evict nativeVictim
  split
  · exact Or.inl .refl
  · dsimp only
    have hseen : ∀ (p : Prop) [Decidable p],
        Still d (if p then (d.require .cacheJob false).crash else d).asked := by
      intro p _
      exact (Still.ite ((Still.require _ _ rfl).trans .crash) .refl).trans .asked
    split
    · exact Or.inl (hseen _)
    · split
      · right; left
        exact ⟨_, rfl, (forgetNative_still (hseen _) _).trans (removeNativeEnvironment_still _)⟩
      · right; right
        exact ⟨_, (forgetReceived_still (hseen _) _).trans (removeEnvironment_still _)⟩

/-- What both removals keep, the loop keeps. -/
theorem checkCacheSize_rule {I : Daemon → Prop}
    (hstill : ∀ {d d' : Daemon}, Still d d' → I d → I d')
    (hreceived : ∀ {d : Daemon} (key : Str), I d → I (d.forgetReceived key))
    (hnative : ∀ {d : Daemon} (key : Str), I d → I (d.forgetNative key)) (newEnv : Str)
    (hd : I d) : I (d.checkCacheSize newEnv) := by
  have hturn : ∀ {d : Daemon} (now : ℤ), I d → I (d.evict now newEnv).1 := by
    intro d now hd
    rcases evict_cases d now newEnv with hs | ⟨key, -, hs⟩ | ⟨key, hs⟩
    · exact hstill hs hd
    · exact hstill hs (hnative key hd)
    · exact hstill hs (hreceived key hd)
  unfold checkCacheSize
  generalize d.receivedEnvironments.entries.length + d.nativeEnvironments.entries.length + 1 = fuel
  generalize d.now = now
  induction fuel generalizing d with
  | zero => exact hd
  | succ fuel ih =>
    unfold checkCacheLoop
    dsimp only
    split
    · exact ih (hturn now hd)
    · exact hturn now hd

/-! ## Those who wait -/

theorem answerWaiting_crashed (l : List Client) (hd : d.crashed) :
    (answerWaiting key l d).crashed := by
  induction l generalizing d with
  | nil => exact hd
  | cons c rest ih =>
    unfold answerWaiting
    split
    · dsimp only
      apply ih
      split
      · rename_i hok
        obtain ⟨t, hs⟩ := Upkeep.finishGetNativeEnv_told hok
        exact hs.crashed hd
      · rfl
    · exact ih hd

/-- Unless the daemon crashes, everybody who waits gets the answer. -/
theorem answerWaiting_rule {J : List Client → Daemon → Prop}
    (hstill : ∀ {l : List Client} {d d' : Daemon}, Still d d' → J l d → J l d')
    (hskip : ∀ {l : List Client} {d : Daemon} {c : Client}, c.pendingCreateEnv ≠ key →
      J (c :: l) d → J l d)
    (htold : ∀ {l : List Client} {d : Daemon} {c : Client} (t : ℤ), c.pendingCreateEnv = key →
      c ∈ d.clients.list → J (c :: l) d →
      J l ((d.setNative key { d.native key with lastUse := t }).put
        { c with status := .gotNative, pendingCreateEnv := [] }))
    (l : List Client) (hnd : (l.map Client.clientId).Nodup) (hl : ∀ x ∈ l, x ∈ d.clients.list)
    (hlive : ¬ (answerWaiting key l d).crashed) (hd : J l d) : J [] (answerWaiting key l d) := by
  induction l generalizing d with
  | nil => exact hd
  | cons c rest ih =>
    simp only [List.map_cons, List.nodup_cons] at hnd
    unfold answerWaiting at hlive ⊢
    by_cases hp : c.pendingCreateEnv = key
    · simp only [if_pos hp] at hlive ⊢
      by_cases hok : (d.finishGetNativeEnv c key).2 = true
      · rw [if_pos hok] at hlive ⊢
        obtain ⟨t, hs⟩ := Upkeep.finishGetNativeEnv_told hok
        apply ih hnd.2 _ hlive
        · exact hstill hs (htold t hp (hl c List.mem_cons_self) hd)
        · intro x hx
          rw [hs.list]
          have hne : x.clientId ≠ c.clientId := by
            intro heq
            exact hnd.1 (heq ▸ List.mem_map_of_mem hx)
          exact Records.mem_replace.mpr (.inr ⟨hl x (List.mem_cons_of_mem _ hx), hne⟩)
      · rw [if_neg hok] at hlive
        exact absurd (answerWaiting_crashed rest rfl) hlive
    · simp only [if_neg hp] at hlive ⊢
      exact ih hnd.2 (fun x hx => hl x (List.mem_cons_of_mem _ hx)) hlive (hskip hp hd)

theorem refuseWaiting_rule {J : Daemon → Prop} {L : List (Daemon × Str)}
    (hstill : ∀ {d d' : Daemon}, Still d d' → J d → J d')
    (fuel : ℕ)
    (hend : ∀ {d : Daemon} {c : Client}, c ∈ d.clients.list → c.pendingCreateEnv = key →
      (∀ p ∈ d.endCuts c, p ∈ L) → J d → J (d.handleEnd c 121))
    (hcut : ∀ p ∈ refuseCuts key fuel d, p ∈ L) (hd : J d) : J (refuseWaiting key fuel d) := by
  induction fuel generalizing d with
  | zero => exact hd
  | succ fuel ih =>
    unfold refuseCuts at hcut
    unfold refuseWaiting
    split
    · exact hd
    · rename_i c hfind
      rw [hfind] at hcut
      dsimp only at hcut
      have hsent := Still.sendClient (d := d) c .endMsg
      have hmem : c ∈ (d.sendClient c .endMsg).1.clients.list := by
        rw [hsent.list]
        exact List.mem_of_find?_eq_some hfind
      have hp : c.pendingCreateEnv = key := by simpa using List.find?_some hfind
      apply ih
      · exact fun p hp => hcut p (List.mem_append_right _ hp)
      · exact hend hmem hp (fun p hp => hcut p (List.mem_append_left _ hp)) (hstill hsent hd)

/-- With a turn for each client, nobody is left who waits. -/
theorem refuseWaiting_none (fuel : ℕ) (h : d.clients.list.length ≤ fuel) :
    ∀ c ∈ (refuseWaiting key fuel d).clients.list, c.pendingCreateEnv ≠ key := by
  induction fuel generalizing d with
  | zero =>
    intro c hc
    unfold refuseWaiting at hc
    rw [List.length_eq_zero_iff.mp (Nat.le_zero.mp h)] at hc
    cases hc
  | succ fuel ih =>
    unfold refuseWaiting
    split
    · rename_i hfind
      intro c hc
      simpa using List.find?_eq_none.mp hfind c hc
    · rename_i c hfind
      apply ih
      have hmem := List.mem_of_find?_eq_some hfind
      rw [handleEnd_list]
      have hlt : (Records.remove Client.clientId c.clientId d.clients.list).length <
          d.clients.list.length :=
        List.length_filter_lt_length_iff_exists.mpr ⟨c, hmem, by simp⟩
      have hsent := Still.sendClient (d := d) c .endMsg
      rw [hsent.list]
      omega

/-! ## The end of `icecc-create-env` -/

/-- What the environment has come to: the name of its tarball and its size -/
def outcome (d : Daemon) (key output : Str) : Str × UInt64 :=
  d.finishCreateEnv (d.native key).name output

/-- The entry of a creation that is over -/
def enter (d : Daemon) (key name : Str) (size : UInt64) (t : ℤ) : Daemon :=
  { d with
    cacheSize := d.cacheSize + size
    nativeEnvironments := d.nativeEnvironments.insert key
      { d.native key with name := name, createEnvPipe := false, lastUse := t, size := size } }

/-- The daemon as the handler goes on, with the entry closed -/
def closedEntry (d : Daemon) (key output : Str) : Daemon :=
  let r := d.outcome key output
  (d.requireNative key).addNative key { d.native key with name := r.1, createEnvPipe := false } r.2

/-- With the size in the entry, before the cache is cut -/
def sizedEntry (d : Daemon) (key output : Str) : Daemon :=
  let r := d.outcome key output
  (d.closedEntry key output).entered key
    { d.native key with name := r.1, createEnvPipe := false } r.2

theorem requireNative_still (key : Str) : Still d (d.requireNative key) :=
  (Still.require _ _ rfl).trans (.require _ _ rfl)

theorem closedEntry_still (output : Str) (h : (d.outcome key output).2 = 0) :
    Still (d.setNative key { d.native key with
      name := (d.outcome key output).1, createEnvPipe := false }) (d.closedEntry key output) := by
  have hreq := (requireNative_still (d := d) key).setNative key { d.native key with
    name := (d.outcome key output).1, createEnvPipe := false }
  unfold closedEntry addNative
  dsimp only
  rw [h]
  exact hreq.trans (.of_eq rfl rfl rfl (UInt64.add_zero _) rfl rfl rfl)

theorem sizedEntry_still (d : Daemon) (key output : Str) :
    ∃ t, Still (d.enter key (d.outcome key output).1 (d.outcome key output).2 t)
      (d.sizedEntry key output) := by
  have hreq := requireNative_still (d := d) key
  refine ⟨(d.closedEntry key output).now, hreq.list, hreq.received, ?_, ?_, hreq.currentKids,
    hreq.crashed, hreq.log⟩
  · change ((d.requireNative key).nativeEnvironments.insert key _).insert key _ =
      d.nativeEnvironments.insert key _
    rw [AList.insert_insert, hreq.native]
  · change (d.requireNative key).cacheSize + _ = d.cacheSize + _
    rw [hreq.cacheSize]

theorem createCuts_eq (d : Daemon) (key output : Str) : d.createCuts key output =
    if (d.outcome key output).2 = 0 then
      refuseCuts key (d.closedEntry key output).clients.list.length (d.closedEntry key output)
    else [(d.sizedEntry key output, (d.outcome key output).1)] := rfl

def forgetEntry (d : Daemon) (key : Str) : Daemon :=
  { d with nativeEnvironments := d.nativeEnvironments.erase key }

end Daemon

/-- The key and the output of a creation that is over -/
def Event.ends : Event → Option (Str × Str)
  | .createEnvDone key output => some (key, output)
  | _ => none

/-- The end of a creation: those who wait are refused, or answered one and all. -/
theorem EventLoop.createEnvDone_next {s t : EventLoop} {key output : Str}
    (h : EventLoop.next s (.createEnvDone key output) = some t) :
    ((s.daemon.outcome key output).2 = 0 ∧ ∃ k, k = s.daemon.closedEntry key output ∧
      t.daemon = (Daemon.refuseWaiting key k.clients.list.length k).forgetEntry key) ∨
    ((s.daemon.outcome key output).2 ≠ 0 ∧ ¬ t.daemon.crashed ∧ ∃ k,
      Still ((s.daemon.sizedEntry key output).checkCacheSize (s.daemon.outcome key output).1) k ∧
      t.daemon = Daemon.answerWaiting key k.clients.list k) := by
  have hlive : ¬ t.daemon.crashed := by simpa using (Option.filter_eq_some_iff.mp h).2
  cases EventLoop.step_leads (EventLoop.next_step h) with
  | createEnvDone =>
    unfold Daemon.createEnvFinished at hlive ⊢
    dsimp only at hlive ⊢
    by_cases hsize : (s.daemon.outcome key output).2 = 0
    · have hfinal : (s.daemon.finishCreateEnv (s.daemon.native key).name output).2 = 0 := hsize
      simp only [if_pos hfinal, Bool.false_eq_true, if_false]
      exact Or.inl ⟨hsize, _, rfl, rfl⟩
    · have hfinal : ¬ (s.daemon.finishCreateEnv (s.daemon.native key).name output).2 = 0 := hsize
      simp only [if_neg hfinal, if_true] at hlive ⊢
      refine Or.inr ⟨hsize, hlive, _, ?_, rfl⟩
      unfold Daemon.keepNative
      exact Still.ite .refl .crash

end Icecream.Iceccd
