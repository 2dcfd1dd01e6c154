import Mathlib.Algebra.Order.BigOperators.Group.List
import Mathlib.Algebra.Order.Ring.Nat
import Icecream.Daemon.Steps

/-!
# The reserved slots

`active_processes` against the clients at work. The handlers that take a client out of
CLIENTWORK without a look at its status leave its slots reserved.
-/

namespace Icecream.Iceccd

open Icecream.Comm

/-- What is reserved for `c`. -/
def Daemon.held (d : Daemon) (c : Client) : ℕ :=
  if c.status = .clientWork then (d.weight c).toNat else 0

structure Slots (d : Daemon) : Prop where
  active : d.clients.activeProcesses.toNat = (d.clients.list.map d.held).sum
  unwrapped : .wrapped ∉ d.log

namespace Slots

variable {d d' : Daemon} {c c₁ : Client} {A : Obs → Prop}

theorem frame (hf : Frame A d d') (hA : ∀ o, A o → o ≠ .wrapped) (h : Slots d) : Slots d' where
  active := by
    have hheld : d'.held = d.held := by
      funext x
      simp only [Daemon.held, Daemon.weight, Daemon.slots, hf.maxKids]
    rw [hf.clients, hheld]
    exact h.active
  unwrapped hmem := by
    obtain ⟨l, hl, hlA⟩ := hf.log
    rw [hl] at hmem
    rcases List.mem_append.mp hmem with hmem | hmem
    · exact hA _ (hlA _ hmem) rfl
    · exact h.unwrapped hmem

theorem aside_ne {o : Obs} (h : o.aside) : o ≠ .wrapped := by
  rintro rfl
  simp [Obs.aside] at h

theorem farewell_ne {o : Obs} (h : d.Farewell c o) : o ≠ .wrapped := by
  rcases h with h | ⟨rfl, -⟩ | ⟨rfl, -⟩ | ⟨-, m, ok, rfl, -⟩
  · exact aside_ne h
  · simp
  · simp
  · simp

theorem put (h : Slots d) (hv : Valid d) (hc : c ∈ d.clients.list)
    (hid : c₁.clientId = c.clientId) (hheld : d.held c₁ = d.held c) : Slots (d.put c₁) where
  active := by
    have hsum := Records.sum_replace d.held hv.nodup hc hid
    have hactive := h.active
    change d.clients.activeProcesses.toNat =
      ((Records.replace Client.clientId c₁ d.clients.list).map d.held).sum
    omega
  unwrapped := h.unwrapped

/-- A client at work gives back what is held for it, and no more than there is. -/
theorem release (h : Slots d) (hc : c ∈ d.clients.list) (hwork : c.status = .clientWork) :
    (d.release (d.weight c)).clients.activeProcesses.toNat + d.held c =
      (d.clients.list.map d.held).sum ∧ .wrapped ∉ (d.release (d.weight c)).log := by
  have hle : d.held c ≤ (d.clients.list.map d.held).sum :=
    List.single_le_sum (by simp) _ (List.mem_map_of_mem hc)
  have hheld : d.held c = (d.weight c).toNat := if_pos hwork
  have hactive := h.active
  have hroom : d.weight c ≤ d.clients.activeProcesses := by
    rw [UInt32.le_iff_toNat_le]
    omega
  have hno : ¬ d.clients.activeProcesses < d.weight c := by simpa using hroom
  constructor
  · change (d.clients.activeProcesses - d.weight c).toNat + d.held c = _
    rw [UInt32.toNat_sub_of_le _ _ hroom]
    omega
  · unfold Daemon.release
    rw [if_neg hno]
    exact h.unwrapped

theorem leave (h : Slots d) (hv : Valid d) (hc : c ∈ d.clients.list) : Slots (d.leave c) := by
  have hsum := Records.sum_remove d.held hv.nodup hc
  have hactive := h.active
  have hlog : .wrapped ∉ Obs.ended c.status c.jobId :: d.log := by
    simpa using h.unwrapped
  unfold Daemon.leave
  dsimp only
  split
  · rename_i hwork
    have hnoted : Slots (d.note (.ended c.status c.jobId)) := ⟨h.active, hlog⟩
    obtain ⟨hrest, hunwrapped⟩ := hnoted.release hc hwork
    constructor
    · change _ = ((Records.remove Client.clientId c.clientId d.clients.list).map d.held).sum
      change _ + d.held c = (d.clients.list.map d.held).sum at hrest
      exact Nat.add_right_cancel (hrest.trans hsum.symm)
    · exact hunwrapped
  · rename_i hwork
    have hzero : d.held c = 0 := if_neg hwork
    constructor
    · change d.clients.activeProcesses.toNat =
        ((Records.remove Client.clientId c.clientId d.clients.list).map d.held).sum
      omega
    · exact hlog

theorem working (h : Slots d) (hv : Valid d) (hc : c ∈ d.clients.list)
    (hidle : c.status ≠ .clientWork) {n : UInt32} (hn : d.weight c = n)
    (hroom : d.clients.activeProcesses.toNat + n.toNat < 2 ^ 32) : Slots (d.working c n) where
  active := by
    have hid : ({ c with status := .clientWork } : Client).clientId = c.clientId := rfl
    have hsum := Records.sum_replace d.held hv.nodup hc hid
    have hzero : d.held c = 0 := if_neg hidle
    have htaken : d.held { c with status := .clientWork } = n.toNat := by
      rw [← hn]
      exact if_pos rfl
    have hactive := h.active
    change (d.clients.activeProcesses + n).toNat =
      ((Records.replace Client.clientId { c with status := .clientWork } d.clients.list).map
        d.held).sum
    rw [UInt32.toNat_add, Nat.mod_eq_of_lt hroom]
    omega
  unwrapped := h.unwrapped

theorem require (h : Slots d) (a : Assertion) (b : Bool) : Slots (d.require a b) :=
  h.frame (A := fun o => o = .assertionFailed a) (.require fun _ => rfl) (by rintro _ rfl; simp)

/-- The slots of `c` are given back and its record leaves the work. -/
theorem jobOver (h : Slots d) (hv : Valid d) (hc : c ∈ d.clients.list) (m : JobDoneMsg) :
    Slots (d.jobOver c m) := by
  have hid : ({ c with status := .jobDone, fulljob := false, jobId := 0 } : Client).clientId =
      c.clientId := rfl
  have hsum := Records.sum_replace d.held hv.nodup hc hid
  have hzero : d.held { c with status := .jobDone, fulljob := false, jobId := 0 } = 0 :=
    if_neg (by simp)
  have hactive := h.active
  have hover : ∀ e : Daemon, e.clients.list = d.clients.list → e.maxKids = d.maxKids →
      e.clients.activeProcesses.toNat + d.held c = (d.clients.list.map d.held).sum →
      .wrapped ∉ e.log →
      Slots ((e.require .jobDoneId (m.jobId = c.jobId)).put
        { c with status := .jobDone, fulljob := false, jobId := 0 }) := by
    intro e hlist hkids hrest hlog
    have hreq : Frame (fun o => o = .assertionFailed .jobDoneId) e
        (e.require .jobDoneId (m.jobId = c.jobId)) := .require fun _ => rfl
    have hput := hreq.put { c with status := .jobDone, fulljob := false, jobId := 0 }
    have hheld : (e.put { c with status := .jobDone, fulljob := false, jobId := 0 }).held =
        d.held := by
      funext x
      simp only [Daemon.held, Daemon.weight, Daemon.slots, Daemon.put, hkids]
    apply Slots.frame hput (by rintro _ rfl; simp)
    constructor
    · rw [hheld]
      change e.clients.activeProcesses.toNat =
        ((Records.replace Client.clientId _ e.clients.list).map d.held).sum
      rw [hlist]
      omega
    · exact hlog
  unfold Daemon.jobOver
  split
  · rename_i hwork
    obtain ⟨hrest, hlog⟩ := h.release hc hwork
    exact hover _ rfl rfl hrest hlog
  · rename_i hidle
    have hnone : d.held c = 0 := if_neg hidle
    apply hover _ rfl rfl _ h.unwrapped
    omega

end Slots

/-! ## Runs -/

/-- The messages that take a client where nothing is held for it. -/
def takesAway : Msg → Bool
  | .getNativeEnv _ | .transferEnv _ | .jobLocalBegin _ | .getCS _ => true
  | _ => false

/-- An event that leaves no client's slots behind. -/
structure KeepsSlots (s : EventLoop) (e : Event) : Prop where
  message : ∀ p ∈ s.handles e, takesAway p.2 → p.1.status ≠ .clientWork
  answer : ∀ c ∈ s.answered e, c.status ≠ .clientWork
  created : ∀ c ∈ s.daemon.clients.list, e.creates = some c.pendingCreateEnv →
    c.status ≠ .clientWork
  pending : e = .oldRequest → ∀ c ∈ s.daemon.clients.list, s.daemon.StartsPending c →
    c.fulljob = false
  room : e = .oldRequest → ∀ c ∈ s.daemon.clients.list,
    s.daemon.StartsLink c ∨ s.daemon.StartsPending c →
    s.daemon.clients.activeProcesses.toNat + (s.daemon.weight c).toNat < 2 ^ 32

instance (d : Daemon) (c : Client) : Decidable (d.StartsLink c) :=
  inferInstanceAs (Decidable (_ ∧ _))

instance (d : Daemon) (c : Client) : Decidable (d.StartsPending c) :=
  inferInstanceAs (Decidable (_ ∧ _ ∧ _))

instance (s : EventLoop) (e : Event) : Decidable (KeepsSlots s e) :=
  decidable_of_iff
    ((∀ p ∈ s.handles e, takesAway p.2 → p.1.status ≠ .clientWork) ∧
      (∀ c ∈ s.answered e, c.status ≠ .clientWork) ∧
      (∀ c ∈ s.daemon.clients.list, e.creates = some c.pendingCreateEnv →
        c.status ≠ .clientWork) ∧
      (e = .oldRequest → ∀ c ∈ s.daemon.clients.list, s.daemon.StartsPending c →
        c.fulljob = false) ∧
      (e = .oldRequest → ∀ c ∈ s.daemon.clients.list,
        s.daemon.StartsLink c ∨ s.daemon.StartsPending c →
        s.daemon.clients.activeProcesses.toNat + (s.daemon.weight c).toNat < 2 ^ 32))
    ⟨fun ⟨h₁, h₂, h₃, h₄, h₅⟩ => ⟨h₁, h₂, h₃, h₄, h₅⟩,
      fun ⟨h₁, h₂, h₃, h₄, h₅⟩ => ⟨h₁, h₂, h₃, h₄, h₅⟩⟩

namespace Slots

variable {d e : Daemon} {c c₁ : Client} {s t : EventLoop} {v : Event}

theorem stable : Stable fun d => Valid d ∧ Slots d where
  aside hf h := ⟨h.1.frame hf, h.2.frame hf fun _ => aside_ne⟩
  ended x hwho hc h := ⟨Valid.stable.ended x hwho hc h.1,
    (h.2.leave h.1 hc).frame (Daemon.handleEnd_frame _ x) fun _ => farewell_ne⟩

theorem put_idle (h : Valid d ∧ Slots d) (hc : c ∈ d.clients.list)
    (hid : c₁.clientId = c.clientId) (hidle : c.status ≠ .clientWork)
    (hidle₁ : c₁.status ≠ .clientWork) : Valid (d.put c₁) ∧ Slots (d.put c₁) := by
  have hheld : d.held c₁ = d.held c := (if_neg hidle₁).trans (if_neg hidle).symm
  exact ⟨h.1.put c₁, h.2.put h.1 hc hid hheld⟩

theorem transferring_idle (h : c.Transferring c₁) : c₁.status ≠ .clientWork := by
  rcases h.status with h | h | h <;> simp [h]

theorem creating_idle (h : c.Creating c₁) : c₁.status ≠ .clientWork := by
  rcases h.status with h | ⟨h, -⟩ <;> simp [h]

theorem survives {m : Msg} (hc : c ∈ d.clients.list)
    (hidle : takesAway m → c.status ≠ .clientWork) :
    Survives (fun d => Valid d ∧ Slots d) d c m where
  transfer hm hsame hR h := by
    rw [← hsame] at hc
    have hnot : c.status ≠ .clientWork := by
      rcases hm with hinst | ⟨-, r, rfl⟩
      · simp [hinst]
      · exact hidle rfl
    exact put_idle h hc hR.clientId hnot (transferring_idle hR)
  create hm _ hsame hR h := by
    subst hm
    rw [← hsame] at hc
    exact put_idle h hc hR.clientId (hidle rfl) (creating_idle hR)
  environment _ _ h := ⟨h.1.require _ _, h.2.require _ _⟩
  compile _ hsame hR h := by
    rw [← hsame] at hc
    rcases hR with ⟨-, rfl⟩ | ⟨hnot, rfl⟩
    · exact ⟨h.1.put _, h.2.put h.1 hc rfl rfl⟩
    · exact put_idle h hc rfl hnot (by simp)
  ask hm _ hsame _ hR h := by
    subst hm
    rw [← hsame] at hc
    apply put_idle h hc hR.clientId (hidle rfl)
    rcases hR.status with ⟨-, h, -⟩ | ⟨-, h⟩ <;> simp [h]
  link hm _ hsame h := by
    subst hm
    rw [← hsame] at hc
    exact put_idle h hc rfl (hidle rfl) (by simp)
  done _ _ hsame _ h := by
    rw [← hsame] at hc
    constructor
    · exact h.1.handleJobDone c _
    · apply (h.2.jobOver h.1 hc _).frame (Daemon.handleJobDone_frame _)
      rintro o (ho | ⟨-, n, ok, rfl⟩)
      · exact aside_ne ho
      · simp

theorem steps (hk : KeepsSlots s v) : Steps (fun d => Valid d ∧ Slots d) s v where
  stable := stable
  stray _ hf h := ⟨h.1.frame hf, h.2.frame hf fun o ho => by simp [ho]⟩
  reconnect {found} _ h := by
    constructor
    · exact h.1.reconnect _
    · rcases Daemon.reconnect_cases (d := s.daemon) found with heq | ⟨-, protocol, name, -, hf⟩
      · rw [heq]
        exact h.2
      · apply Slots.frame hf fun _ => aside_ne
        exact ⟨h.2.active, by simpa [Daemon.connect, Daemon.note] using h.2.unwrapped⟩
  link {c} he hstart h := by
    obtain ⟨hc, hlink⟩ := hstart.mem
    have hidle : c.status ≠ .clientWork := by simp [hlink]
    exact ⟨h.1.working _ _, h.2.working h.1 hc hidle rfl (hk.room he c hc (.inl hstart))⟩
  pending {c} he hstart h := by
    obtain ⟨hc, hpending⟩ := hstart.mem
    have hidle : c.status ≠ .clientWork := by simp [hpending]
    have hone : s.daemon.weight c = 1 := if_neg (by simp [hk.pending he c hc hstart])
    have hroom := hk.room he c hc (.inr hstart)
    rw [hone] at hroom
    exact ⟨h.1.working _ _, h.2.working h.1 hc hidle hone hroom⟩
  compile he hstart h := by
    obtain ⟨hc, hto⟩ := hstart.mem
    exact put_idle h hc rfl (by simp [hto]) (by simp)
  message hm hc _ := survives hc (hk.message _ hm)
  heard _ h := ⟨Valid.of_eq h.1 rfl rfl fun hk => hk,
    ⟨h.2.active, by simpa [Daemon.note] using h.2.unwrapped⟩⟩
  assign {c} _ _ _ he hc hans hR h := by
    subst he
    have hidle : c.status ≠ .clientWork := hk.answer c hans.answered
    apply put_idle h hc hR.clientId hidle
    rcases hR.status with ⟨-, h | h⟩ | ⟨-, h⟩
    · simp [h]
    · simp [h]
    · rwa [h]
  returned _ hf h := by
    constructor
    · exact h.1.frame hf
    · apply h.2.frame hf
      rintro _ ⟨ok, rfl⟩
      simp
  fresh hl h := by
    constructor
    · exact ⟨h.1.nodup, by simp [hl], by simp, h.1.keyed⟩
    · exact ⟨h.2.active, h.2.unwrapped⟩
  accept place fd protocol _ hid hplace h := by
    constructor
    · exact h.1.accept place fd protocol hid hplace
    · have hperm := List.perm_insertIdx
        ({ clientId := s.daemon.newClientId + 1, fd := fd, protocol := protocol } : Client)
        s.daemon.clients.list hplace
      constructor
      · have hsum := (hperm.map s.daemon.held).sum_eq
        have hzero : s.daemon.held
            { clientId := s.daemon.newClientId + 1, fd := fd, protocol := protocol } = 0 :=
          if_neg (by simp)
        rw [List.map_cons, List.sum_cons, hzero, zero_add] at hsum
        exact h.2.active.trans hsum.symm
      · exact h.2.unwrapped
  compiled hc hwait h := put_idle h hc rfl (by simp [hwait]) (by simp [hwait])
  installed hc hinst hR h := by
    apply put_idle h hc hR.clientId _ (transferring_idle hR)
    rcases hinst with hinst | hinst <;> simp [hinst]
  created {_ c} _ _ _ he _ hout hcs hc hkey hR h := by
    subst he
    have hidle : c.status ≠ .clientWork := by
      apply hk.created c hcs
      rw [hkey]
      exact if_neg hout
    exact put_idle h hc hR.clientId hidle (creating_idle hR)

theorem init (h : s.Init) : Slots s.daemon where
  active := by
    rw [h.clients]
    rfl
  unwrapped := by simp [h.log]

/-- In a run that leaves no slots behind, the counter is what the clients at work hold. -/
theorem active_eq_sum (h : EventLoop.system.Reaches KeepsSlots s) : Slots s.daemon := by
  have hinv : Valid s.daemon ∧ Slots s.daemon := by
    apply h.invariant
    · intro s hs
      exact ⟨EventLoop.valid_init hs, init hs⟩
    · intro s e t hinv hk hn
      exact (steps hk).step hinv.1 (EventLoop.next_step hn) hinv
  exact hinv.2

theorem active_eq_sum_linkJob : ∃ s, EventLoop.system.Reaches KeepsSlots s ∧
    s.daemon.clients.activeProcesses = 4 ∧ Slots s.daemon := by
  have hrun : (EventLoop.system.run KeepsSlots (EventLoop.started (fun _ => 1) 4)
      ([.reconnect none] ++ EventLoop.polling 0 ++
        EventLoop.accepting 7 [.jobLocalBegin { fulljob := true }] ++
        EventLoop.again ++ [.oldRequest])).map (fun s => s.daemon.clients.activeProcesses) =
      some 4 := by decide +kernel
  obtain ⟨s, hs, hactive⟩ := Option.map_eq_some_iff.mp hrun
  have hreach := (Transition.System.Reaches.init (EventLoop.started_init _ 4)).run hs
  exact ⟨s, hreach, hactive, active_eq_sum hreach⟩

/-- A second JobLocalBegin takes a client from its work: its slot is never given back. A
GetCS after a full job's JobLocalBegin takes one slot and gives back four. -/
theorem active_ne_sum :
    (∃ s, EventLoop.system.Reachable s ∧ s.daemon.clients.activeProcesses.toNat ≠
      (s.daemon.clients.list.map s.daemon.held).sum) ∧
    ∃ s, EventLoop.system.Reachable s ∧ .wrapped ∈ s.daemon.log := by
  constructor
  · have hrun : (EventLoop.system.exec (EventLoop.started (fun _ => 1) 4)
        ([.reconnect none] ++ EventLoop.polling 0 ++ EventLoop.accepting 7 [.jobLocalBegin {}] ++
          EventLoop.again ++ EventLoop.polling 1 ++
          EventLoop.sending [.jobLocalBegin {}])).map
          (fun s => (s.daemon.clients.activeProcesses.toNat,
            (s.daemon.clients.list.map s.daemon.held).sum)) = some (1, 0) := by decide +kernel
    obtain ⟨s, hs, hsums⟩ := Option.map_eq_some_iff.mp hrun
    obtain ⟨hactive, hsum⟩ := Prod.mk.inj hsums
    use s
    constructor
    · exact (Transition.System.Reaches.init (EventLoop.started_init _ 4)).exec
        (fun _ _ _ => trivial) hs
    · rw [hactive, hsum]
      decide
  · have hrun : (EventLoop.system.exec (EventLoop.started (fun _ => 1) 4)
        ([.reconnect none] ++ EventLoop.polling 0 ++
          EventLoop.accepting 7 [.jobLocalBegin { fulljob := true }, .getCS { lang := 0 }] ++
          EventLoop.again ++ [.oldRequest] ++ EventLoop.polling 1 ++
          EventLoop.sending [.jobDone { jobId := 1, exitcode := 0, clientCount := 0 }])).map
          (fun s => decide (.wrapped ∈ s.daemon.log)) = some true := by decide +kernel
    obtain ⟨s, hs, hwrapped⟩ := Option.map_eq_some_iff.mp hrun
    use s
    constructor
    · exact (Transition.System.Reaches.init (EventLoop.started_init _ 4)).exec
        (fun _ _ _ => trivial) hs
    · exact of_decide_eq_true hwrapped

end Slots

end Icecream.Iceccd
