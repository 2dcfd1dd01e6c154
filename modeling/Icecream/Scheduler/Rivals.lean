import Icecream.Scheduler.Blacklist
import Icecream.Services.Discovery

/-!
# Two schedulers

A daemon chooses between schedulers by their answers, and the schedulers decide by each
other's announcements which of them keeps its connections. Both go by version and start
time, but only the daemon takes netnames for the same that differ in case.
-/

namespace Icecream.IceccScheduler

open Icecream.Comm
open Icecream.Services
open Icecream.Fault

namespace Scheduler

variable {mode : Mode} {s : Scheduler}

/-! ## Dropping everybody -/

theorem length_filter_ne_lt {l : List ℕ} {x : ℕ} (h : x ∈ l) :
    (l.filter (· ≠ x)).length < l.length := by
  refine List.length_filter_lt_length_iff_exists.mpr ⟨x, h, ?_⟩
  simp

theorem endServers_empty {fuel : ℕ} (h : Facts mode [] s) (hfuel : s.css.length ≤ fuel) :
    Ends (tolerated mode) (fun t => Facts mode [] t ∧ t.css = []) (endServers fuel s) := by
  induction fuel generalizing s with
  | zero => exact .pure ⟨h, List.length_eq_zero_iff.mp (Nat.le_zero.mp hfuel)⟩
  | succ fuel ih =>
    unfold endServers
    cases hcss : s.css with
    | nil => exact .pure ⟨h, hcss⟩
    | cons cid rest =>
      have hmem : cid ∈ s.css := by simp [hcss]
      refine (handleEnd_ended h fun _ => (h.peers.css cid hmem).live).bind fun t ht => ?_
      refine ih ht.facts ?_
      have hless := length_filter_ne_lt hmem
      rw [← ht.css] at hless
      omega

theorem endMonitors_empty {fuel : ℕ} (h : Facts mode [] s) (hcss : s.css = [])
    (hfuel : s.monitors.length ≤ fuel) :
    Ends (tolerated mode) (fun t => t.css = [] ∧ t.monitors = []) (endMonitors fuel s) := by
  induction fuel generalizing s with
  | zero => exact .pure ⟨hcss, List.length_eq_zero_iff.mp (Nat.le_zero.mp hfuel)⟩
  | succ fuel ih =>
    unfold endMonitors
    cases hmonitors : s.monitors with
    | nil => exact .pure ⟨hcss, hmonitors⟩
    | cons cid rest =>
      have hmem : cid ∈ s.monitors := by simp [hmonitors]
      refine (handleEnd_ended h fun _ => (h.peers.monitors cid hmem).live).bind fun t ht => ?_
      have hgone : cid ∉ t.monitors := by
        intro hin
        obtain ⟨k, hk, hcid, -⟩ := ht.facts.peers.monitors cid hin
        exact ht.gone k hk hcid
      have hsub : t.monitors.Sublist (s.monitors.filter (· ≠ cid)) := by
        have hfiltered := ht.loses.monitors.filter (· ≠ cid)
        rwa [filter_ne_of_notMem hgone] at hfiltered
      refine ih ht.facts (by simp [ht.css, hcss]) ?_
      have hless := length_filter_ne_lt hmem
      have hshort := hsub.length_le
      omega

theorem disconnectAll_empty (h : Facts mode [] s) :
    Ends (tolerated mode) (fun t => t.css = [] ∧ t.monitors = []) s.disconnectAll := by
  unfold disconnectAll
  refine (endServers_empty h le_rfl).bind fun t ht => ?_
  exact endMonitors_empty ht.1 ht.2 le_rfl

/-! ## Announcements -/

theorem handleDatagram_announcement (s : Scheduler) (a : Announcer) :
    s.handleDatagram (schedulerVersionData a) =
      if a.netname.take 255 = s.settings.self.netname ∧ a.Better s.settings.self ∧
          s.settings.persistentClients = false then s.disconnectAll
      else pure s := by
  obtain ⟨hmark, hdata⟩ := getSchedulerVersionData_schedulerVersionData a
  have hversion : 36 ≤ a.version := by
    have hcurrent := a.current
    omega
  have hbetter : preferred ⟨a.version, a.starttime, a.netname.take 255⟩ s.settings.self = true ↔
      a.Better s.settings.self := by
    rw [preferred, decide_eq_true_eq]
    rfl
  have hguard : (36 ≤ a.version ∧ a.netname.take 255 = s.settings.self.netname ∧
      preferred ⟨a.version, a.starttime, a.netname.take 255⟩ s.settings.self = true ∧
        ¬ s.settings.persistentClients = true) ↔
      (a.netname.take 255 = s.settings.self.netname ∧ a.Better s.settings.self ∧
        s.settings.persistentClients = false) := by
    rw [hbetter, Bool.not_eq_true]
    simp only [hversion, true_and]
  simp only [handleDatagram, hmark, handleSchedulerAnnounce, hdata, if_true]
  by_cases hguards : a.netname.take 255 = s.settings.self.netname ∧
      a.Better s.settings.self ∧ s.settings.persistentClients = false
  · rw [if_pos (hguard.mpr hguards), if_pos hguards]
  · rw [if_neg (hguard.not.mpr hguards), if_neg hguards]

/-- A scheduler keeps what it has when a worse one announces itself. -/
theorem handleDatagram_worse {a : Announcer} (h : s.settings.self.Better a) :
    s.handleDatagram (schedulerVersionData a) = .ok s := by
  rw [handleDatagram_announcement, if_neg fun hguards => h.asymm hguards.2.1]
  rfl

/-- `w` keeps its connections when `l` announces itself; when `w` does, `l` drops all of
its daemons and monitors unless it is persistent. -/
def Outranks (w l : Scheduler) : Prop :=
  w.handleDatagram (schedulerVersionData l.settings.self) = .ok w ∧
    (l.settings.persistentClients = false → ∀ t,
      l.handleDatagram (schedulerVersionData w.settings.self) = .ok t →
        t.css = [] ∧ t.monitors = [])

/-- `l` takes the announced netname of `w` for its own, or there is nothing to drop. -/
def Heeds (l w : Scheduler) : Prop :=
  l.settings.persistentClients = true ∨
    w.settings.self.netname.take 255 = l.settings.self.netname ∨ (l.css = [] ∧ l.monitors = [])

instance (l w : Scheduler) : Decidable (l.Heeds w) := inferInstanceAs (Decidable (_ ∨ _))

theorem outranks_iff {w l : Scheduler} (h : Facts mode [] l)
    (hbetter : w.settings.self.Better l.settings.self) : w.Outranks l ↔ l.Heeds w := by
  have hkeeps := handleDatagram_worse (s := w) hbetter
  constructor
  · rintro ⟨-, hdrops⟩
    by_cases hpersistent : l.settings.persistentClients = true
    · exact .inl hpersistent
    · rw [Bool.not_eq_true] at hpersistent
      by_cases hname : w.settings.self.netname.take 255 = l.settings.self.netname
      · exact .inr (.inl hname)
      · refine .inr (.inr (hdrops hpersistent l ?_))
        rw [handleDatagram_announcement, if_neg fun hguards => hname hguards.1]
        rfl
  · intro hheeds
    refine ⟨hkeeps, fun hpersistent t ht => ?_⟩
    rw [handleDatagram_announcement] at ht
    by_cases hname : w.settings.self.netname.take 255 = l.settings.self.netname
    · rw [if_pos ⟨hname, hbetter, hpersistent⟩] at ht
      exact (disconnectAll_empty h).of_ok ht
    · rw [if_neg fun hguards => hname hguards.1] at ht
      cases ht
      rcases hheeds with hpersistent' | hname' | hnone
      · rw [hpersistent] at hpersistent'
        cases hpersistent'
      · exact absurd hname' hname
      · exact hnone

end Scheduler

namespace Loop

open Scheduler

/-- What a daemon selects of the answers of `a` at `x` and `b` at `y` is the one of them
that the other gives way to. -/
def Agree (selected : Option ℕ) (x y : ℕ) (a b : Scheduler) : Prop :=
  (selected = some x ∧ a.Outranks b) ∨ (selected = some y ∧ b.Outranks a)

/-- A scheduler of this version under a netname, before its first turn -/
def named (starttime : Int64) (netname : String) (h : (0 : UInt8) ∉ str netname := by decide) :
    Loop where
  scheduler :=
    { settings := { self := { plainSettings.self with starttime, netname := str netname, plain := h } }
      host := plainHost fun _ => 1 }
  phase := .pruning

theorem named_reachable (starttime : Int64) (netname : String) (h : (0 : UInt8) ∉ str netname) :
    system.Reachable (named starttime netname h) :=
  .init ⟨rfl, rfl, rfl, rfl, rfl, rfl, rfl, rfl, rfl, rfl, rfl, rfl, rfl, rfl, rfl⟩

/-- A daemon logs in. -/
def oneDaemon : List Event :=
  polling 0 ++ [newcomer 7 1 "n", .activity (some (daemonLogin "n"))]

end Loop

end Icecream.IceccScheduler
