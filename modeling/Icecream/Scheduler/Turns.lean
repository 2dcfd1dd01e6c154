import Icecream.Scheduler.Sweeps

/-!
# Turns of the main loop

What holds between two steps of the main loop: the facts, and that the connection
being read from and the entry at the saved iterator are there.
-/

namespace Icecream.IceccScheduler

open Icecream.Comm
open Icecream.Fault

namespace Scheduler

variable {mode : Mode} {s t : Scheduler}

/-! ## Connections over several steps -/

/-- Connections are not taken for others later on, and what one daemon has against
another is kept while both are there. -/
structure Follows (s t : Scheduler) : Prop where
  newCid : s.newCid ≤ t.newCid
  lives : ∀ x, t.live x = true → x < s.newCid → s.live x = true
  daemons : ∀ x ∈ s.css, t.live x = true → x ∈ t.css
  blacklists : ∀ x, s.live x = true → t.live x = true → ∀ h ∈ s.css, t.live h = true →
    (s.conn x).against h ⊆ (t.conn x).against h

theorem Peers.live_lt {x : ℕ} (h : Peers [] s) (hx : s.live x = true) : x < s.newCid := by
  have hlt := h.fresh _ (conn_kind_mem hx)
  rwa [← conn_cid s x]

theorem Peers.css_lt {x : ℕ} (h : Peers [] s) (hx : x ∈ s.css) : x < s.newCid :=
  h.live_lt (h.css x hx).live

theorem Follows.trans {u : Scheduler} (h : Follows s t) (h' : Follows t u) (hs : Peers [] s) :
    Follows s u := by
  have hback : ∀ x, s.live x = true → u.live x = true → t.live x = true := fun x hx hxu =>
    h'.lives x hxu ((hs.live_lt hx).trans_le h.newCid)
  constructor
  · exact h.newCid.trans h'.newCid
  · exact fun x hx hlt => h.lives x (h'.lives x hx (hlt.trans_le h.newCid)) hlt
  · exact fun x hx hxu => h'.daemons x (h.daemons x hx (hback x (hs.css x hx).live hxu)) hxu
  · intro x hx hxu y hy hyu
    have hyt := hback y (hs.css y hy).live hyu
    exact List.Subset.trans (h.blacklists x hx (hback x hx hxu) y hy hyt)
      (h'.blacklists x (hback x hx hxu) hxu y (h.daemons y hy hyt) hyu)

/-- A daemon that is still connected is still a server. -/
theorem css_kept (hs : Peers [] s) (ht : Peers [] t) (hraw : t.Raw)
    (hknown : ∀ k ∈ t.kinds, k.cid ∈ s.css → k ∈ s.kinds) {x : ℕ} (hx : x ∈ s.css)
    (hlive : t.live x = true) : x ∈ t.css := by
  have hcid := conn_cid t x
  have hmem := hknown _ (conn_kind_mem hlive) (show (t.conn x).cid ∈ s.css by rwa [hcid])
  have htype : (t.conn x).type = .daemon := kind_of_cid hs hmem hcid (hs.css x hx)
  refine ht.daemon_mem hlive ?_ htype
  cases hstate : (t.conn x).state with
  | loggedIn => rfl
  | connected =>
    have hunknown : (t.conn x).type = .unknown := hraw _ (conn_kind_mem hlive) hstate
    exact ConnType.noConfusion (htype.symm.trans hunknown)

theorem Follows.of_kinds (hs : Peers [] s) (ht : Peers [] t) (hraw : t.Raw)
    (hkinds : t.kinds ⊆ s.kinds) (hnewCid : t.newCid = s.newCid)
    (hblacklists : ∀ x, t.live x = true → ∀ h ∈ t.css,
      (s.conn x).against h ⊆ (t.conn x).against h) : Follows s t := by
  have hcss : ∀ x ∈ s.css, t.live x = true → x ∈ t.css := fun x hx hlive =>
    css_kept hs ht hraw (fun k hk _ => hkinds hk) hx hlive
  constructor
  · rw [hnewCid]
  · exact fun x hx _ => live_iff.mpr (List.map_subset _ hkinds (live_iff.mp hx))
  · exact hcss
  · exact fun x _ hx y hy hyt => hblacklists x hx y (hcss y hy hyt)

theorem Leaves.follows {lost : ℕ → Prop} (h : Leaves mode lost s t) (hs : Peers [] s)
    (hraw : s.Raw) : Follows s t :=
  .of_kinds hs h.facts.peers (hraw.kept h.loses.kinds.subset) h.loses.kinds.subset h.loses.newCid
    h.loses.blacklists

theorem Acted.follows {lost : ℕ → Prop} {cid : ℕ} {r : Scheduler × Bool}
    (h : Acted mode lost cid s r) (hs : Peers [] s) : Follows s r.1 := by
  have hcss : ∀ x ∈ s.css, r.1.live x = true → x ∈ r.1.css := fun x hx hlive =>
    css_kept hs h.facts.peers h.raw h.known hx hlive
  constructor
  · rw [h.grown.newCid]
  · exact fun x hx _ => h.grown.lives x hx
  · exact hcss
  · exact fun x _ hx y hy hyt => h.blacklists x hx y hy (hcss y hy hyt)

theorem Fresh.follows {c : CompileServer} (hc : s.Fresh c) (hs : Peers [] s) :
    Follows s (s.addConn c) := by
  have hother : ∀ x, x < s.newCid → c.cid ≠ x := by
    intro x hx
    rw [hc.cid]
    exact hx.ne'
  constructor
  · exact Nat.le_succ _
  · intro x hx hlt
    rw [live_iff, addConn_kinds, List.map_cons, List.mem_cons] at hx
    exact live_iff.mpr (hx.resolve_left fun hsame => hother x hlt hsame.symm)
  · exact fun x hx _ => hx
  · intro x hx _ y _ _
    have hne := hother x (hs.live_lt hx)
    simp only [conn, addConn, asked, List.find?_cons, hne, decide_false]
    exact List.Subset.refl _

end Scheduler

namespace Loop

open Scheduler

variable {mode : Mode} {l : Loop}

/-! ## The invariant -/

/-- The descriptor that the saved iterator of a loop over `fd2cs` points to -/
def saved : Phase → Option ℕ
  | .buffered _ it => it
  | .visiting _ it _ => it
  | _ => none

/-- The message that is handled, with its connection -/
def handled (l : Loop) : Event → Option (ℕ × Msg)
  | .activity (some m) => (current l.phase).map fun r => (r.1, m)
  | _ => none

structure Permitted (mode : Mode) (l : Loop) (e : Event) : Prop where
  allowed : ∀ r ∈ l.handled e, l.scheduler.Allowed mode r.1 r.2
  iterator : mode.strict → ∀ r ∈ l.handled e, ∀ fd ∈ saved l.phase,
    ∀ x ∈ l.scheduler.entryAt fd, ¬ l.scheduler.Closes r.1 r.2 x

structure Between (mode : Mode) (l : Loop) : Prop where
  facts : Facts mode [] l.scheduler
  raw : l.scheduler.Raw
  reading : mode.strict → ∀ r ∈ current l.phase, l.scheduler.live r.1 = true
  iterator : mode.strict → ∀ fd ∈ saved l.phase, ∃ x, (fd, x) ∈ l.scheduler.fd2cs ∧
    ∀ r ∈ current l.phase, r.1 ≠ x

theorem current_eq {phase rest : Phase} {cid : ℕ} (h : current phase = some (cid, rest)) :
    current rest = none ∧ saved rest = saved phase := by
  cases phase with
  | buffered cur it =>
    cases cur with
    | none => cases h
    | some x =>
      cases h
      exact ⟨rfl, rfl⟩
  | accepting cur tests =>
    cases cur with
    | none => cases h
    | some x =>
      cases h
      exact ⟨rfl, rfl⟩
  | controlling cur tests =>
    cases cur with
    | none => cases h
    | some x =>
      cases h
      exact ⟨rfl, rfl⟩
  | visiting cur it tests =>
    cases cur with
    | none => cases h
    | some x =>
      cases h
      exact ⟨rfl, rfl⟩
  | _ => cases h

/-! ## The iterators -/

theorem entry_unique {s : Scheduler} {fd x y : ℕ} (h : Peers [] s) (hx : (fd, x) ∈ s.fd2cs)
    (hy : (fd, y) ∈ s.fd2cs) : x = y := by
  obtain ⟨k, hk, hkcid, hkfd, -⟩ := h.entries _ hx
  obtain ⟨k', hk', hkcid', hkfd', -⟩ := h.entries _ hy
  have hsame := List.inj_on_of_nodup_map h.fds hk hk' (hkfd.trans hkfd'.symm)
  subst hsame
  exact hkcid.symm.trans hkcid'

theorem entry_fd_unique {s : Scheduler} {fd fd' x : ℕ} (h : Peers [] s) (hx : (fd, x) ∈ s.fd2cs)
    (hy : (fd', x) ∈ s.fd2cs) : fd = fd' := by
  obtain ⟨k, hk, hkcid, hkfd, -⟩ := h.entries _ hx
  obtain ⟨k', hk', hkcid', hkfd', -⟩ := h.entries _ hy
  have hsame := kind_unique h.cids hk hk' (hkcid.trans hkcid'.symm)
  subst hsame
  exact hkfd.symm.trans hkfd'

theorem entryAt_mem {s : Scheduler} {fd x : ℕ} (h : s.entryAt fd = some x) :
    (fd, x) ∈ s.fd2cs := by
  obtain ⟨e, he, rfl⟩ := Option.map_eq_some_iff.mp h
  have hfd : e.1 = fd := by simpa using List.find?_some he
  exact hfd ▸ List.mem_of_find?_eq_some he

theorem entryAt_isSome {s : Scheduler} {fd x : ℕ} (h : Peers [] s) (hx : (fd, x) ∈ s.fd2cs) :
    s.entryAt fd = some x := by
  cases hat : s.entryAt fd with
  | some y => rw [entry_unique h hx (entryAt_mem hat)]
  | none =>
    have hnone := List.find?_eq_none.mp (Option.map_eq_none_iff.mp hat) _ hx
    simp at hnone

theorem beginFd_mem {s : Scheduler} {fd : ℕ} (h : s.beginFd = some fd) :
    ∃ x, (fd, x) ∈ s.fd2cs := by
  obtain ⟨e, he, rfl⟩ := Option.map_eq_some_iff.mp h
  exact ⟨e.2, List.mem_of_head? he⟩

theorem nextFd_mem {s : Scheduler} {fd fd' : ℕ} (h : s.nextFd fd = some fd') :
    (∃ x, (fd', x) ∈ s.fd2cs) ∧ fd < fd' := by
  obtain ⟨e, he, rfl⟩ := Option.map_eq_some_iff.mp h
  have hlt : fd < e.1 := by simpa using List.find?_some he
  exact ⟨⟨e.2, List.mem_of_find?_eq_some he⟩, hlt⟩

/-- No monitor has an entry, so that an entry outlives failing sends. -/
theorem entry_no_monitor {s : Scheduler} {e : ℕ × ℕ} (h : Peers [] s) (hraw : s.Raw)
    (he : e ∈ s.fd2cs) : e.2 ∉ s.monitors := by
  intro hm
  obtain ⟨k, hk, hcid, -, hnot⟩ := h.entries e he
  have htype := kind_of_cid h hk hcid (h.monitors e.2 hm)
  cases hstate : k.state with
  | loggedIn => exact hnot hstate htype
  | connected => exact ConnType.noConfusion (htype.symm.trans (hraw k hk hstate))

/-! ## Steps -/

/-- What changes jobs and requests by more than the end of connections -/
def Busy (l : Loop) : Event → Prop
  | .emptyQueue | .accept .. | .acceptControl .. => True
  | .activity (some m) =>
    ∃ r ∈ current l.phase, (l.scheduler.conn r.1).state = .loggedIn ∧ requests m = true
  | _ => False

structure Stepped (mode : Mode) (l : Loop) (e : Event) (l' : Loop) : Prop where
  between : Between mode l'
  follows : Follows l.scheduler l'.scheduler
  quiet : e ≠ .emptyQueue → Quiet l.scheduler l'.scheduler
  calm : Calm mode l.scheduler l'.scheduler ∨ Busy l e

theorem Stepped.of_leaves {lost : ℕ → Prop} {e : Event} {t : Scheduler} {phase : Phase}
    (h : Between mode l) (hleaves : Leaves mode lost l.scheduler t)
    (hcalm : Calm mode l.scheduler t ∨ Busy l e)
    (hreading : mode.strict → ∀ r ∈ current phase, t.live r.1 = true := by
      intro _ _ hr; cases hr)
    (hiterator : mode.strict → ∀ fd ∈ saved phase, ∃ x, (fd, x) ∈ t.fd2cs ∧
      ∀ r ∈ current phase, r.1 ≠ x := by intro _ _ hfd; cases hfd) :
    Stepped mode l e ⟨t, phase⟩ where
  between := ⟨hleaves.facts, h.raw.kept hleaves.loses.kinds.subset, hreading, hiterator⟩
  follows := hleaves.follows h.facts.peers h.raw
  quiet _ := hleaves.loses.quiet
  calm := hcalm

/-- Only the phase changes. -/
theorem Stepped.of_phase {e : Event} {phase : Phase} (h : Between mode l)
    (hreading : mode.strict → ∀ r ∈ current phase, l.scheduler.live r.1 = true := by
      intro _ _ hr; cases hr)
    (hiterator : mode.strict → ∀ fd ∈ saved phase, ∃ x, (fd, x) ∈ l.scheduler.fd2cs ∧
      ∀ r ∈ current phase, r.1 ≠ x := by intro _ _ hfd; cases hfd) :
    Stepped mode l e ⟨l.scheduler, phase⟩ := by
  have hcalms : Calms mode (fun _ => False) l.scheduler l.scheduler := .refl h.facts
  exact .of_leaves h hcalms.toLeaves (.inl hcalms.calm) hreading hiterator

theorem begin_iterator {s : Scheduler} {phase : Phase} (hcurrent : current phase = none)
    (hsaved : saved phase = s.beginFd) : ∀ fd ∈ saved phase, ∃ x, (fd, x) ∈ s.fd2cs ∧
      ∀ r ∈ current phase, r.1 ≠ x := by
  intro fd hfd
  rw [hsaved] at hfd
  obtain ⟨x, hx⟩ := beginFd_mem hfd
  exact ⟨x, hx, by simp [hcurrent]⟩

theorem prune_stepped {x : Except Fault Loop} (h : Between mode l)
    (hx : step l .prune = some x) : Ends (tolerated mode) (Stepped mode l .prune) x := by
  simp only [step, Option.ite_none_right_eq_some, Option.some.injEq] at hx
  obtain ⟨-, rfl⟩ := hx
  exact (pruneServers_calms h.facts).bind fun t ht =>
    .pure (.of_leaves h ht.toLeaves (.inl ht.calm))

theorem emptyQueue_stepped {x : Except Fault Loop} (h : Between mode l)
    (hx : step l .emptyQueue = some x) :
    Ends (tolerated mode) (Stepped mode l .emptyQueue) x := by
  simp only [step, Option.ite_none_right_eq_some, Option.some.injEq] at hx
  obtain ⟨-, rfl⟩ := hx
  refine (emptyQueue_ends h.facts).bind fun r hr => .pure ?_
  obtain ⟨t, again⟩ := r
  simp only at hr
  have hcurrent : current (if again then .emptying else .buffered none t.beginFd) = none := by
    cases again <;> rfl
  have hreading : mode.strict → ∀ r ∈ current (if again then .emptying else
      .buffered none t.beginFd), t.live r.1 = true := by simp [hcurrent]
  have hiterator : mode.strict → ∀ fd ∈ saved (if again then .emptying else
      .buffered none t.beginFd), ∃ x, (fd, x) ∈ t.fd2cs ∧ ∀ r ∈ current (if again then .emptying
        else .buffered none t.beginFd), r.1 ≠ x := by
    cases again with
    | true =>
      intro _ _ hfd
      cases hfd
    | false => exact fun _ => begin_iterator rfl rfl
  rcases hr with hleaves | ⟨ptr, useCs, -, -, hplaced⟩
  · exact .of_leaves h hleaves (.inr trivial) hreading hiterator
  · have hraw := h.raw.kept hplaced.kinds.subset
    refine ⟨⟨hplaced.facts, hraw, hreading, hiterator⟩, ?_, fun hne => absurd rfl hne, .inr trivial⟩
    exact .of_kinds h.facts.peers hplaced.facts.peers hraw hplaced.kinds.subset hplaced.newCid
      hplaced.blacklists

/-- The message of a connection, with what it was about to go on with -/
theorem activity_stepped {m : Option Msg} {x : Except Fault Loop} (h : Between mode l)
    (hok : Permitted mode l (.activity m)) (hx : step l (.activity m) = some x) :
    Ends (tolerated mode) (Stepped mode l (.activity m)) x := by
  simp only [step, Option.bind_eq_some_iff, Option.ite_none_right_eq_some, Option.some.injEq,
    Prod.exists] at hx
  obtain ⟨cid, rest, hcurrent, -, rfl⟩ := hx
  obtain ⟨hrest, hsaved⟩ := current_eq hcurrent
  have hlive : mode.strict → l.scheduler.live cid = true := fun hstrict =>
    h.reading hstrict _ hcurrent
  have hreading : ∀ (t : Scheduler) (b : Bool), (mode.strict → b = true → t.live cid = true) →
      mode.strict → ∀ r ∈ current (if b then l.phase else rest), t.live r.1 = true := by
    intro t b hstays hstrict r hr
    cases b with
    | false => cases hrest.symm.trans hr
    | true =>
      cases hcurrent.symm.trans hr
      exact hstays hstrict rfl
  have hiterator : ∀ (t : Scheduler) (b : Bool),
      (mode.strict → ∀ fd ∈ saved l.phase, ∀ y, (fd, y) ∈ l.scheduler.fd2cs → y ≠ cid →
        (fd, y) ∈ t.fd2cs) → mode.strict → ∀ fd ∈ saved (if b then l.phase else rest),
      ∃ y, (fd, y) ∈ t.fd2cs ∧ ∀ r ∈ current (if b then l.phase else rest), r.1 ≠ y := by
    intro t b hkept hstrict fd hfd
    have hfd : fd ∈ saved l.phase := by
      cases b with
      | false => exact hsaved ▸ hfd
      | true => exact hfd
    obtain ⟨y, hy, hne⟩ := h.iterator hstrict fd hfd
    have hother : cid ≠ y := hne _ hcurrent
    refine ⟨y, hkept hstrict fd hfd y hy hother.symm, fun r hr => ?_⟩
    cases b with
    | false => cases hrest.symm.trans hr
    | true =>
      cases hcurrent.symm.trans hr
      exact hother
  cases m with
  | none =>
    have hended : Ends (tolerated mode)
        (fun r => Handled mode (fun _ => False) cid l.scheduler r ∧ r.2 = false)
        (l.scheduler.handleActivity cid none) := handleActivity_ended h.facts hlive
    refine hended.bind fun r hr => .pure ?_
    obtain ⟨hhandled, hgone⟩ := hr
    refine .of_leaves h hhandled.toLeaves (.inl hhandled.calm) (hreading r.1 r.2 hhandled.stays) ?_
    refine hiterator r.1 r.2 fun _ fd _ y hy hne => ?_
    refine hhandled.loses.entries _ hy (by simp [Closing, hne]) ?_
    exact entry_no_monitor h.facts.peers h.raw hy
  | some m =>
    have hmem : (cid, m) ∈ l.handled (.activity (some m)) := by
      simp [handled, hcurrent]
    have hself : mode.strict → ¬ l.scheduler.Closes cid m cid := by
      intro hstrict hcloses
      have houtlives := (hok.allowed _ hmem).outlives hstrict
      cases m with
      | login login =>
        obtain ⟨hstate, hcss, -⟩ := hcloses
        have htype := h.raw _ (conn_kind_mem (hlive hstrict)) hstate
        exact (h.facts.peers.apart (hlive hstrict) htype).css hcss
      | text text => exact (houtlives hcloses.1).2 hcloses.2
      | _ => exact hcloses
    refine (handleActivity_turned m h.facts h.raw hlive (hok.allowed _ hmem) (fun _ hc => hc)
      hself).bind fun r hr => .pure ?_
    obtain ⟨hacted, hcalm⟩ := hr
    refine ⟨⟨hacted.facts, hacted.raw, hreading r.1 r.2 hacted.stays, ?_⟩,
      hacted.follows h.facts.peers, fun _ => hacted.grown.quiet, ?_⟩
    · refine hiterator r.1 r.2 fun hstrict fd hfd y hy hne => ?_
      refine hacted.grown.entries _ hy hne ?_ (entry_no_monitor h.facts.peers h.raw hy)
      exact hok.iterator hstrict _ hmem fd hfd y (entryAt_isSome h.facts.peers hy)
    · by_cases hbusy : (l.scheduler.conn cid).state = .loggedIn → requests m = false
      · exact .inl (hcalm hbusy)
      · rw [Classical.not_imp, Bool.not_eq_false] at hbusy
        exact .inr ⟨_, hcurrent, hbusy⟩

theorem idle_stepped {x : Except Fault Loop} (h : Between mode l) (hx : step l .idle = some x) :
    Ends (tolerated mode) (Stepped mode l .idle) x := by
  simp only [step, Option.map_eq_some_iff, Prod.exists] at hx
  obtain ⟨cid, rest, hcurrent, rfl⟩ := hx
  obtain ⟨hrest, hsaved⟩ := current_eq hcurrent
  refine (touch_ends fun hstrict => h.reading hstrict _ hcurrent).bind fun _ _ => .pure ?_
  refine .of_phase h (fun _ r hr => ?_) fun hstrict fd hfd => ?_
  · cases hrest.symm.trans hr
  · obtain ⟨y, hy, -⟩ := h.iterator hstrict fd (hsaved ▸ hfd)
    refine ⟨y, hy, fun r hr => ?_⟩
    cases hrest.symm.trans hr

theorem advance_ends {e : Event} {fd : ℕ} {phase : Option ℕ → Option ℕ → Phase}
    (h : Between mode l) (hfd : fd ∈ saved l.phase)
    (hcurrent : ∀ cur it, (current (phase cur it)).map Prod.fst = cur)
    (hsaved : ∀ cur it, saved (phase cur it) = it) :
    Ends (tolerated mode) (Stepped mode l e) (Loop.advance l.scheduler fd phase) := by
  unfold Loop.advance
  cases hat : l.scheduler.entryAt fd with
  | none =>
    refine .throw fun _ hstrict => ?_
    obtain ⟨x, hx, -⟩ := h.iterator hstrict fd hfd
    cases hat.symm.trans (entryAt_isSome h.facts.peers hx)
  | some cid =>
    have hentry := entryAt_mem hat
    have hreads : ∀ r ∈ current (phase (some cid) (l.scheduler.nextFd fd)), r.1 = cid := by
      intro r hr
      have hmap := hcurrent (some cid) (l.scheduler.nextFd fd)
      rw [hr, Option.map_some, Option.some.injEq] at hmap
      exact hmap
    refine .pure (.of_phase h (fun _ r hr => ?_) fun _ fd' hfd' => ?_)
    · obtain ⟨k, hk, hkcid, -⟩ := h.facts.peers.entries _ hentry
      rw [hreads r hr]
      exact live_iff.mpr (List.mem_map.mpr ⟨k, hk, hkcid⟩)
    · rw [hsaved] at hfd'
      obtain ⟨⟨x, hx⟩, hlt⟩ := nextFd_mem hfd'
      refine ⟨x, hx, fun r hr hsame => ?_⟩
      rw [hreads r hr] at hsame
      subst hsame
      exact hlt.ne (entry_fd_unique h.facts.peers hentry hx)

theorem advance_stepped {x : Except Fault Loop} (h : Between mode l)
    (hx : step l .advance = some x) : Ends (tolerated mode) (Stepped mode l .advance) x := by
  simp only [step] at hx
  split at hx
  · cases hx
    refine (touch_each fun _ y hy => (h.facts.peers.css y hy).live).bind fun _ _ => ?_
    exact .pure (.of_phase h)
  · rename_i fd hphase
    cases hx
    exact advance_ends h (by rw [hphase]; rfl) (fun cur _ => by cases cur <;> rfl) fun _ _ => rfl
  · cases hx
    exact .pure (.of_phase h)
  · rename_i fd tests hphase
    cases hx
    exact advance_ends h (by rw [hphase]; rfl) (fun cur _ => by cases cur <;> rfl) fun _ _ => rfl
  · cases hx

/-- A new connection has been entered in the containers. -/
structure Joined (mode : Mode) (s t : Scheduler) : Prop where
  facts : Facts mode [] t
  raw : t.Raw
  follows : Follows s t
  quiet : Quiet s t

theorem Joined.of_fresh {c : CompileServer} {s t : Scheduler} (hc : s.Fresh c)
    (h : Facts mode [] s) (hraw : s.Raw) (ht : Facts mode [] t)
    (hconns : t.conns = (s.addConn c).conns)
    (hnewCid : t.newCid = s.newCid + 1) (hquiet : Quiet s t) : Joined mode s t := by
  have hkinds : t.kinds = (s.addConn c).kinds := by simp only [kinds, hconns]
  have htraw : t.Raw := (hc.raw hraw).kept (by rw [hkinds]; exact fun _ hk => hk)
  have hsame : Follows (s.addConn c) t := by
    refine .of_kinds (hc.peers h.peers) ht.peers htraw (by rw [hkinds]; exact fun _ hk => hk)
      hnewCid fun x _ y _ => ?_
    simp only [conn, hconns]
    exact List.Subset.refl _
  exact ⟨ht, htraw, (hc.follows h.peers).trans hsame h.peers, hquiet⟩

theorem Joined.leaves {lost : ℕ → Prop} {s t u : Scheduler} (h : Joined mode s t) (hs : Peers [] s)
    (hu : Leaves mode lost t u) : Joined mode s u where
  facts := hu.facts
  raw := h.raw.kept hu.loses.kinds.subset
  follows := h.follows.trans (hu.follows h.facts.peers h.raw) hs
  quiet := h.quiet.trans hu.loses.quiet

theorem Joined.stepped {e : Event} {t : Scheduler} {phase : Phase}
    (h : Joined mode l.scheduler t) (hbusy : Busy l e)
    (hreading : mode.strict → ∀ r ∈ current phase, t.live r.1 = true)
    (hsaved : saved phase = none) : Stepped mode l e ⟨t, phase⟩ :=
  ⟨⟨h.facts, h.raw, hreading, fun _ fd hfd => by cases hsaved.symm.trans hfd⟩, h.follows,
    fun _ => h.quiet, .inr hbusy⟩

theorem accept_stepped {fd address protocol : ℕ} {name : Str} {maximumRemoteProtocol : ℤ}
    {x : Except Fault Loop} (h : Between mode l)
    (hx : step l (.accept fd address name protocol maximumRemoteProtocol) = some x) :
    Ends (tolerated mode)
      (Stepped mode l (.accept fd address name protocol maximumRemoteProtocol)) x := by
  simp only [step] at hx
  split at hx
  · simp only [Option.ite_none_right_eq_some, Option.some.injEq] at hx
    obtain ⟨hfd, rfl⟩ := hx
    simp only [List.all_eq_true, decide_eq_true_eq] at hfd
    have hc : l.scheduler.Fresh
        { cid := l.scheduler.newCid, fd := fd, name := name, address := address, protocol := protocol
          maximumRemoteProtocol := maximumRemoteProtocol, lastTalk := l.scheduler.now } :=
      ⟨rfl, hfd, rfl, rfl, .inl ⟨rfl, rfl⟩⟩
    have hfacts := hc.facts h.facts
    have hjoined : Joined mode l.scheduler _ := .of_fresh hc h.facts h.raw hfacts rfl rfl (.refl _)
    refine .pure (hjoined.stepped trivial ?_ rfl)
    intro _ r hr
    cases hr
    exact live_iff.mpr List.mem_cons_self
  · cases hx

/-- `controls.push_back(cs)` -/
theorem control_facts {s : Scheduler} {cid : ℕ} (h : Facts mode [] s) (hcid : s.Has cid .line)
    (hnot : cid ∉ s.controls) : Facts mode [] { s with controls := s.controls ++ [cid] } := by
  refine ⟨{ h.peers with controls := fun x hx => ?_, controlsNodup := ?_ },
    h.tasks.of_eq rfl rfl rfl rfl rfl⟩
  · rcases List.mem_append.mp hx with hx | hx
    · exact h.peers.controls x hx
    · rwa [List.mem_singleton.mp hx]
  · rw [List.nodup_append]
    refine ⟨h.peers.controlsNodup, by simp, fun x hx y hy => ?_⟩
    rw [List.mem_singleton.mp hy]
    rintro rfl
    exact hnot hx

/-- The new control connection is entered in `controls`. -/
theorem control_entered {s : Scheduler} {c : CompileServer} (hc : s.Fresh c)
    (htype : c.type = .line) (h : Facts mode [] s) (b : Bool) :
    ((s.addConn c).require .controlListed b).Has s.newCid .line ∧
      Facts mode [] { (s.addConn c).require .controlListed b with
        controls := ((s.addConn c).require .controlListed b).controls ++ [s.newCid] } := by
  have hrequire := Still.require (s.addConn c) .controlListed b
  generalize (s.addConn c).require .controlListed b = t at hrequire
  have hline : t.Has s.newCid .line := by
    refine ⟨c.kind, ?_, hc.cid, htype⟩
    rw [hrequire.all]
    exact List.mem_cons_self
  have hnot : s.newCid ∉ t.controls := by
    intro hmem
    have hlive := (h.peers.controls _ (hrequire.controls.subset hmem)).live
    exact absurd (h.peers.live_lt hlive) (Nat.lt_irrefl _)
  exact ⟨hline, control_facts (hrequire.toAside.facts (hc.facts h)) hline hnot⟩

/-- The channel of a control connection is new, and has been listed by its first line. -/
theorem acceptControl_fresh {s : Scheduler} {fd : ℕ} (address : ℕ) (name : Str)
    (hfd : ∀ d ∈ s.conns, d.fd ≠ fd) : ∃ c, s.Fresh c ∧ c.type = .line ∧
      ∃ t, t = (s.addConn c).require .controlListed (s.newCid ∉ (s.addConn c).controls) ∧
      s.acceptControl fd address name = (do
        let r ← { t with controls := t.controls ++ [s.newCid] }.sendText s.newCid
        if r.2 then return r else return (← r.1.handleEnd s.newCid, false)) :=
  ⟨{ cid := s.newCid, fd := fd, name := name, address := address, protocol := 0
     maximumRemoteProtocol := 0, lastTalk := s.now, type := .line, state := .loggedIn },
    ⟨rfl, hfd, rfl, rfl, .inr ⟨rfl, rfl⟩⟩, rfl, _, rfl, rfl⟩

theorem acceptControl_joined {s : Scheduler} {fd address : ℕ} {name : Str} (h : Facts mode [] s)
    (hraw : s.Raw) (hfd : ∀ d ∈ s.conns, d.fd ≠ fd) :
    Ends (tolerated mode) (fun r => Joined mode s r.1 ∧ (r.2 = true → r.1.live s.newCid = true))
      (s.acceptControl fd address name) := by
  obtain ⟨c, hc, htype, t, ht, heq⟩ := acceptControl_fresh address name hfd
  obtain ⟨hline, hlisted⟩ := control_entered hc htype h (s.newCid ∉ (s.addConn c).controls)
  have hrequire := Still.require (s.addConn c) .controlListed (s.newCid ∉ (s.addConn c).controls)
  have hconns := require_conns (s.addConn c) .controlListed (s.newCid ∉ (s.addConn c).controls)
  rw [← ht] at hrequire hconns hline hlisted
  rw [heq]
  have hjoined : Joined mode s { t with controls := t.controls ++ [s.newCid] } :=
    .of_fresh hc h hraw hlisted hconns hrequire.newCid hrequire.quiet
  refine (sendText_still (s := { t with controls := t.controls ++ [s.newCid] })
    fun _ => hline.live).bind fun r hr => ?_
  have hrfacts := hr.toAside.facts hlisted
  have hrlive : r.1.live s.newCid = true := hr.live.trans hline.live
  have hrleaves : Leaves mode (fun _ => True) { t with controls := t.controls ++ [s.newCid] } r.1 :=
    .still hr hlisted
  have hrjoined : Joined mode s r.1 := hjoined.leaves h.peers hrleaves
  refine .ite (fun _ => .pure ⟨hrjoined, fun _ => hrlive⟩) fun _ => ?_
  have hend : Ends (tolerated mode) (Calms mode (fun _ => True) r.1) (r.1.handleEnd s.newCid) :=
    handleEnd_calms hrfacts (fun _ => hrlive) trivial
  exact hend.bind fun u hu => .pure ⟨hrjoined.leaves h.peers hu.toLeaves, by simp⟩

theorem acceptControl_stepped {fd address : ℕ} {name : Str} {x : Except Fault Loop}
    (h : Between mode l) (hx : step l (.acceptControl fd address name) = some x) :
    Ends (tolerated mode) (Stepped mode l (.acceptControl fd address name)) x := by
  simp only [step] at hx
  split at hx
  · simp only [Option.ite_none_right_eq_some, Option.some.injEq] at hx
    obtain ⟨hfd, rfl⟩ := hx
    simp only [List.all_eq_true, decide_eq_true_eq] at hfd
    refine (acceptControl_joined h.facts h.raw hfd).bind fun r hr => .pure ?_
    obtain ⟨t, goes⟩ := r
    cases goes with
    | false =>
      refine hr.1.stepped trivial (fun _ _ hread => ?_) rfl
      cases hread
    | true =>
      refine hr.1.stepped trivial (fun _ r hread => ?_) rfl
      cases hread
      exact hr.2 rfl
  · cases hx

theorem datagram_stepped {buf : Bytes} {x : Except Fault Loop} (h : Between mode l)
    (hx : step l (.datagram buf) = some x) :
    Ends (tolerated mode) (Stepped mode l (.datagram buf)) x := by
  simp only [step] at hx
  split at hx
  · cases hx
    refine (handleDatagram_calms buf h.facts).bind fun t ht => .pure ?_
    refine .of_leaves h ht.toLeaves (.inl ht.calm) (fun _ _ hread => ?_)
      fun _ => begin_iterator rfl rfl
    cases hread
  · cases hx

theorem tested_stepped {connected : Bool} {x : Except Fault Loop} (h : Between mode l)
    (hx : step l (.tested connected) = some x) :
    Ends (tolerated mode) (Stepped mode l (.tested connected)) x := by
  simp only [step] at hx
  split at hx
  · cases hx
    exact .pure (.of_phase h)
  · rename_i cid tests hphase
    cases hx
    have htest : Ends (tolerated mode) (Still l.scheduler)
        (finishTest l.scheduler cid connected) := by
      unfold finishTest
      refine .ite (fun _ => .pure (.refl _)) fun hcss => ?_
      have hlive := (h.facts.peers.css cid (not_not.mp hcss)).live
      refine (touch_ends fun _ => hlive).bind fun _ _ => .pure ?_
      split
      · exact updateInConnectivity_still connected h.facts
      · exact .refl _
    refine htest.bind fun t ht => .pure ?_
    have hcalms : Calms mode (fun _ => False) l.scheduler t := .aside ht.toAside h.facts
    exact .of_leaves h hcalms.toLeaves (.inl hcalms.calm)
  · cases hx

/-- Steps that only go on to another phase -/
theorem phase_stepped {e : Event} {x : Except Fault Loop} (h : Between mode l)
    (hx : ∃ phase, x = pure ⟨l.scheduler, phase⟩ ∧ current phase = none ∧
      (saved phase = none ∨ saved phase = l.scheduler.beginFd)) :
    Ends (tolerated mode) (Stepped mode l e) x := by
  obtain ⟨phase, rfl, hcurrent, hsaved⟩ := hx
  refine .pure (.of_phase h (by simp [hcurrent]) fun _ => ?_)
  rcases hsaved with hsaved | hsaved
  · simp [hsaved]
  · exact begin_iterator hcurrent hsaved

theorem step_stepped {e : Event} {x : Except Fault Loop} (h : Between mode l)
    (hok : Permitted mode l e) (hx : step l e = some x) :
    Ends (tolerated mode) (Stepped mode l e) x := by
  cases e with
  | prune => exact prune_stepped h hx
  | emptyQueue => exact emptyQueue_stepped h hx
  | activity m => exact activity_stepped h hok hx
  | idle => exact idle_stepped h hx
  | advance => exact advance_stepped h hx
  | accept fd address name protocol maximumRemoteProtocol => exact accept_stepped h hx
  | acceptControl fd address name => exact acceptControl_stepped h hx
  | datagram buf => exact datagram_stepped h hx
  | tested connected => exact tested_stepped h hx
  | _ =>
    simp only [step] at hx
    split at hx
    · cases hx
      exact phase_stepped h ⟨_, rfl, rfl, by first | exact .inl rfl | exact .inr rfl⟩
    · cases hx

/-! ## Runs -/

theorem Init.between (h : l.Init) : Between mode l := by
  have hkinds : l.scheduler.kinds = [] := by simp [kinds, h.conns]
  refine ⟨⟨?_, ?_⟩, ?_, ?_, ?_⟩
  · constructor <;> simp [hkinds, h.css, h.monitors, h.controls, h.fd2cs]
  · constructor <;> simp [h.heap, h.jobs, h.jobRequests]
  · simp [Raw, hkinds]
  · simp [h.phase, current]
  · simp [h.phase, saved]

theorem next_stepped {e : Event} {l' : Loop} (h : Between mode l) (hok : Permitted mode l e)
    (hnext : l.next e = some l') : Stepped mode l e l' := by
  obtain ⟨x, hx, hok'⟩ := Option.bind_eq_some_iff.mp hnext
  have hends := step_stepped h hok hx
  cases x with
  | error f => cases hok'
  | ok t =>
    cases hok'
    exact hends

theorem reaches_between {ok : Loop → Event → Prop} (himp : ∀ l e, ok l e → Permitted mode l e)
    (h : system.Reaches ok l) : Between mode l :=
  h.invariant (fun _ hinit => hinit.between) fun l e _ hbetween hok hnext =>
    (next_stepped hbetween (himp l e hok) hnext).between

end Loop

end Icecream.IceccScheduler
