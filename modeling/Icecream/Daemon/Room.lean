import Icecream.Daemon.Children
import Icecream.Daemon.Jobs

/-!
# Room for the children

`maybe_stats` wants 25 MiB of free disk for each of the `max_kids + 1 - current_kids` slots
that are left, a difference of unsigned numbers. Compile children are started while there is
room for them, children that unpack environments always.
-/

namespace Icecream.Iceccd

open Icecream.Comm

namespace Daemon

/-- The slots that are left, below zero when there are too many children -/
def remaining (d : Daemon) : ℤ := d.maxKids.toNat + 1 - d.currentKids.toNat

end Daemon

/-- The disk test is about the slots that are left: their number does not wrap, and the
daemon reports a load of 1000 that the machine does not have only if less than 25 MiB are
free for each of them. -/
structure DiskTest (d : Daemon) : Prop where
  exact : ((d.maxKids + 1 - d.currentKids).toNat : ℤ) = d.remaining
  lacking : ∀ (forceCheck : Bool) (m : StatsMsg) (ok : Bool),
    (d.maybeStats forceCheck).1.log = .toScheduler (.stats m) ok :: d.log → m.load = 1000 →
    (d.host.stats (d.calls + 2)).load = 1000 ∨
      ((d.ask * d.asked.ask : ℕ) : ℤ) < d.remaining * (25 * 1024 * 1024)

namespace Daemon

variable {d : Daemon}

theorem slots_exact_iff (hmax : d.maxKids.toNat + 1 < 2 ^ 32) :
    ((d.maxKids + 1 - d.currentKids).toNat : ℤ) = d.remaining ↔
      d.currentKids.toNat ≤ d.maxKids.toNat + 1 := by
  have hsum : (d.maxKids + 1).toNat = d.maxKids.toNat + 1 := by
    rw [UInt32.toNat_add, UInt32.toNat_one, Nat.mod_eq_of_lt hmax]
  have hkids := d.currentKids.toNat_lt
  unfold remaining
  constructor
  · intro hexact
    omega
  · intro hle
    have hsub : d.currentKids ≤ d.maxKids + 1 := by
      rw [UInt32.le_iff_toNat_le, hsum]
      exact hle
    rw [UInt32.toNat_sub_of_le _ _ hsub, hsum]
    omega

theorem statsMsg_load {bavail bsize : ℕ} (h : (d.statsMsg bavail bsize).load = 1000) :
    (d.host.stats d.calls).load = 1000 ∨
      bavail * bsize < (d.maxKids + 1 - d.currentKids).toNat * (25 * 1024 * 1024) := by
  unfold statsMsg at h
  dsimp only at h
  split at h
  · rename_i hfew
    right
    rw [Nat.mul_assoc, Nat.mul_assoc] at hfew
    have hsize : 0 < bsize := by
      rcases Nat.eq_zero_or_pos bsize with rfl | hpos
      · simp at hfew
      · exact hpos
    have hblocks := (Nat.le_div_iff_mul_le hsize).mp (Nat.succ_le_of_lt hfew)
    calc bavail * bsize < (bavail + 1) * bsize := by
          exact Nat.mul_lt_mul_of_pos_right (Nat.lt_succ_self _) hsize
      _ ≤ _ := by simpa only [Nat.mul_assoc] using hblocks
  · exact .inl h

/-- What `maybe_stats` has sent -/
theorem maybeStats_sent {forceCheck : Bool} {m : StatsMsg} {ok : Bool}
    (h : (d.maybeStats forceCheck).1.log = .toScheduler (.stats m) ok :: d.log) :
    m = d.asked.asked.statsMsg d.ask d.asked.ask := by
  have hno : d.log ≠ .toScheduler (.stats m) ok :: d.log := fun heq => by
    simpa using congrArg List.length heq
  have hsent : ∀ (n : Daemon) (r : StatsMsg), n.log = d.log →
      (n.sendScheduler (.stats r)).1.log = .toScheduler (.stats m) ok :: d.log → m = r := by
    intro n r hn hlog
    unfold sendScheduler at hlog
    split at hlog
    · exact absurd (hn.symm.trans hlog) hno
    · split at hlog <;>
      · have hhead := (List.cons.inj hlog).1
        injection hhead with hmsg
        injection hmsg with hmsg
        exact hmsg.symm
  unfold maybeStats at h
  dsimp only at h
  split at h
  · split at h
    · have hsent := hsent { d.asked.asked with lastStat := d.now }
      split at h
      · exact hsent _ rfl h
      · exact hsent _ rfl h
    · exact absurd h hno
  · exact absurd h hno

end Daemon

theorem DiskTest.of_slots {d : Daemon}
    (h : ((d.maxKids + 1 - d.currentKids).toNat : ℤ) = d.remaining) : DiskTest d where
  exact := h
  lacking forceCheck m ok hlog hload := by
    rw [Daemon.maybeStats_sent hlog] at hload
    rcases Daemon.statsMsg_load hload with hbusy | hfew
    · exact .inl hbusy
    · right
      rw [← h]
      exact_mod_cast hfew

theorem diskTest_iff {d : Daemon} (hmax : d.maxKids.toNat + 1 < 2 ^ 32) :
    DiskTest d ↔ d.currentKids.toNat ≤ d.maxKids.toNat + 1 := by
  rw [← Daemon.slots_exact_iff hmax]
  exact ⟨DiskTest.exact, .of_slots⟩

/-! ## The children that are counted -/

namespace Daemon

variable {d : Daemon} {c : Client}

theorem checkCacheSize_currentKids (key : Str) :
    (d.checkCacheSize key).currentKids = d.currentKids := by
  apply checkCacheSize_rule (I := fun k => k.currentKids = d.currentKids) _ _ _ key rfl
  · exact fun hs hk => hs.currentKids.trans hk
  · intro k key hk
    simpa [forgetReceived] using hk
  · intro k key hk
    simpa [forgetNative] using hk

theorem stopped_currentKids :
    (d.stopped c).currentKids = if c.childPid then d.currentKids - 1 else d.currentKids := by
  unfold stopped
  split
  · simp [killChild, dropKid]
  · rfl

/-- The end of a transfer takes its child off the count. -/
theorem handleEnd_currentKids (hinst : c.Installing) (hchild : c.childPid) (x : Int32) :
    (d.handleEnd c x).currentKids = d.currentKids - 1 := by
  have hended := (handleEnd_installing (d := d) hinst x).currentKids
  have hsettled := (settled_cancelled (d := (d.note (.ended c.status c.jobId)).dropFd c.fd)
    c).currentKids
  have hstopped : (((d.note (.ended c.status c.jobId)).dropFd c.fd).stopped c).currentKids =
      d.currentKids - 1 := by
    rw [stopped_currentKids, if_pos hchild]
    rfl
  rw [hended]
  change (Daemon.checkCacheSize _ _).currentKids = _
  rw [checkCacheSize_currentKids, hsettled]
  exact hstopped

/-- What the child of a transfer gets, or its end -/
theorem chunk_cases {m : Msg} (hinst : c.Installing) (hchild : c.childPid) :
    (d.chunkCuts c m = [] ∧ ∃ k, Still d k ∧ ((d.handleFileChunkEnv c m).1 = k ∨
      (d.handleFileChunkEnv c m).1 = k.put { c with pipeToChild := false, status := .waitInstall })) ∨
    (d.chunkCuts c m ≠ [] ∧ ∃ k x, Still d k ∧ (d.handleFileChunkEnv c m).1 = k.handleEnd c x) := by
  have hreq : Still d (d.requireChunk c) := (Still.require _ _ rfl).trans (.require _ _ rfl)
  have hcuts : ∀ k : Daemon, k.endCuts c ≠ [] := fun k => by simp [endCuts, hinst]
  unfold chunkCuts handleFileChunkEnv
  dsimp only
  cases m with
  | fileChunk chunk =>
    dsimp only
    split
    · exact .inl ⟨rfl, _, hreq.trans .asked, .inl rfl⟩
    · exact .inr ⟨hcuts _, _, _, hreq.trans .asked, rfl⟩
  | endMsg =>
    dsimp only
    rw [if_pos hchild, if_pos hchild]
    exact .inl ⟨rfl, _, hreq, .inr rfl⟩
  | _ => exact .inr ⟨hcuts _, _, _, hreq, rfl⟩

end Daemon

/-- Every child of a client is among those counted, and these are `n` at most. What the log
says of earlier counts is left out. -/
structure Within (n : ℕ) (d : Daemon) : Prop where
  counted : ∃ lost, Counted lost { d with log := [] }
  bound : d.currentKids.toNat ≤ n

namespace Within

variable {n : ℕ} {d d' : Daemon} {c c₁ : Client}

theorem same (h : Within n d) (hl : d'.clients.list = d.clients.list)
    (hk : d'.currentKids = d.currentKids) : Within n d' := by
  obtain ⟨lost, hcounted⟩ := h.counted
  constructor
  · exact ⟨lost, hcounted.same hl hk fun _ _ hmem => hmem⟩
  · rw [hk]
    exact h.bound

theorem still (hs : Still d d') (h : Within n d) : Within n d' := h.same hs.list hs.currentKids

theorem mono {m : ℕ} (h : Within n d) (hle : n ≤ m) : Within m d :=
  ⟨h.counted, h.bound.trans hle⟩

theorem cut (key : Str) (h : Within n d) : Within n (d.checkCacheSize key) :=
  h.same (congrArg Clients.list (Daemon.checkCacheSize_frame key).clients)
    (Daemon.checkCacheSize_currentKids key)

theorem putWith {m : ℕ} (h : Within n d) (hc : c ∈ d.clients.list)
    (hid : c₁.clientId = c.clientId) (hpiped : c₁.pipeFromChild → c₁.childPid) {k : UInt32}
    (hk : d.currentKids.toNat + c₁.kids ≤ k.toNat + c.kids) (hm : k.toNat ≤ m) :
    Within m ({ d with currentKids := k }.put c₁) := by
  obtain ⟨lost, hcounted⟩ := h.counted
  constructor
  · refine ⟨k.toNat + c.kids + lost - (d.currentKids.toNat + c₁.kids), ?_⟩
    apply hcounted.put hc hid hpiped
    change k.toNat + c.kids + lost = d.currentKids.toNat + c₁.kids + _
    omega
  · exact hm

theorem piped (h : Within n d) (hc : c ∈ d.clients.list) : c.pipeFromChild → c.childPid := by
  obtain ⟨lost, hcounted⟩ := h.counted
  exact hcounted.piped c hc

/-- The record changes, and has no child that it had not. -/
theorem put (h : Within n d) (hc : c ∈ d.clients.list) (hid : c₁.clientId = c.clientId)
    (hpipe : c₁.pipeFromChild = c.pipeFromChild) (hchild : c₁.childPid = c.childPid)
    (hkids : c₁.kids ≤ c.kids) : Within n (d.put c₁) := by
  have hpiped : c₁.pipeFromChild → c₁.childPid := by
    rw [hpipe, hchild]
    exact h.piped hc
  exact h.putWith hc hid hpiped (Nat.add_le_add_left hkids _) h.bound

theorem eraseWith (h : Within n d) (hc : c ∈ d.clients.list) {k : UInt32}
    (hk : d.currentKids.toNat ≤ k.toNat + c.kids) (hn : k.toNat ≤ n) :
    Within n ({ d with currentKids := k }.erase c) := by
  obtain ⟨lost, hcounted⟩ := h.counted
  constructor
  · refine ⟨k.toNat + c.kids + lost - d.currentKids.toNat, ?_⟩
    apply hcounted.erase hc
    change k.toNat + c.kids + lost = d.currentKids.toNat + _
    omega
  · exact hn

theorem erase (h : Within n d) (hc : c ∈ d.clients.list) : Within n (d.erase c) :=
  h.eraseWith hc (Nat.le_add_right _ _) h.bound

theorem kid_found (h : Within n d) (hc : c ∈ d.clients.list) (hkid : c.kids = 1) :
    (d.currentKids - 1).toNat + 1 = d.currentKids.toNat := by
  obtain ⟨lost, hcounted⟩ := h.counted
  exact (hcounted.kid_found hc hkid).2

theorem stop (h : Within n d) (hc : c ∈ d.clients.list) (hinst : c.Installing) :
    Within n ((d.stopped c).put c.transferOver) := by
  obtain ⟨lost, hcounted⟩ := h.counted
  have hstop := hcounted.stop hc hinst
  have hkids : (({ d with log := [] } : Daemon).stopped c).currentKids =
      (d.stopped c).currentKids := by
    rw [Daemon.stopped_currentKids, Daemon.stopped_currentKids]
  constructor
  · refine ⟨lost, hstop.same ?_ hkids.symm fun _ _ hmem => ?_⟩
    · simp only [Daemon.put, Daemon.stopped_clients]
    · simp at hmem
  · change (d.stopped c).currentKids.toNat ≤ n
    have hbound := h.bound
    rw [Daemon.stopped_currentKids]
    split
    · rename_i hchild
      have hkid : c.kids = 1 := by
        rcases hinst with h | h <;> simp [Client.kids, Client.hasKid, h, hchild]
      have hless := h.kid_found hc hkid
      omega
    · exact hbound

theorem ended (h : Within n d) (hc : c ∈ d.clients.list) (x : Int32) :
    Within n (d.handleEnd c x) := by
  apply Daemon.handleEnd_rule still _ _ (fun p _ hp => hp.cut p.2) _ hc
  · exact fun _ => h.erase hc
  · intro hinst k hk
    exact (h.still hk).stop (by rwa [hk.list]) hinst
  · exact fun k hmem hk => hk.erase hmem

theorem clear (h : Within n d) : Within n d.clearChildren := by
  obtain ⟨lost, hcounted⟩ := h.counted
  have hempty : ∀ d : Daemon, d.clearChildren.clients.list = [] := by
    intro d
    change (Daemon.require _ _ _).clients.list = []
    rw [Daemon.require_clients]
    exact Daemon.endAll_list _ le_rfl
  constructor
  · refine ⟨0, hcounted.clear.same ?_ rfl fun _ _ hmem => ?_⟩
    · change d.clearChildren.clients.list = _
      rw [hempty, hempty]
    · simp at hmem
  · exact Nat.zero_le n

theorem compiled (h : Within n d) (hc : c ∈ d.clients.list) (hwait : c.status = .waitForChild) :
    Within n ((d.requireCompiling c).dropKid.erase c) := by
  have hkid : c.kids = 1 := by simp [Client.kids, Client.hasKid, hwait]
  have hless := h.kid_found hc hkid
  have hbound := h.bound
  have hgone := h.eraseWith hc (k := d.currentKids - 1) (by omega) (by omega)
  apply hgone.same
  · simp [Daemon.erase, Daemon.dropKid, Daemon.requireCompiling]
  · simp [Daemon.erase, Daemon.dropKid, Daemon.requireCompiling]

theorem unpacked (h : Within n d) (hc : c ∈ d.clients.list) (hinst : c.Installing)
    (hpipe : c.pipeFromChild) : Within n (d.unpacked c) := by
  have hchild := h.piped hc hpipe
  have hkid : c.kids = 1 := by
    rcases hinst with h | h <;> simp [Client.kids, Client.hasKid, h, hchild]
  have hover : ({ c with childPid := false, pipeFromChild := false } : Client).kids = 0 := by
    rcases hinst with h | h <;> simp [Client.kids, Client.hasKid, h]
  have hless := h.kid_found hc hkid
  have hbound := h.bound
  have hid : ({ c with childPid := false, pipeFromChild := false } : Client).clientId =
      c.clientId := rfl
  have hput := h.putWith (m := n) hc hid (by simp) (k := d.currentKids - 1) (by omega) (by omega)
  apply hput.same
  · simp [Daemon.unpacked, Daemon.put, Daemon.dropKid, Daemon.requireInstalling]
  · simp [Daemon.unpacked, Daemon.put, Daemon.dropKid, Daemon.requireInstalling]

theorem accept (h : Within n d) (hv : Valid d) {place : ℕ} (fd protocol : ℕ)
    (hid : d.newClientId + 1 < 2 ^ 31) (hplace : place ≤ d.clients.list.length) :
    Within n (d.addClient place fd protocol) := by
  obtain ⟨lost, hcounted⟩ := h.counted
  have hv' : Valid { d with log := [] } := hv.of_eq rfl rfl id
  exact ⟨⟨lost, hcounted.accept hv' fd protocol hid hplace⟩, h.bound⟩

theorem refused (h : Within n d) (key : Str) (fuel : ℕ) :
    Within n (Daemon.refuseWaiting key fuel d) := by
  have hcut : ∀ p ∈ Daemon.refuseCuts key fuel d, p ∈ Daemon.refuseCuts key fuel d :=
    fun _ hp => hp
  exact Daemon.refuseWaiting_rule still fuel (fun hc _ _ hd => hd.ended hc 121) hcut h

theorem told (h : Within n d) {key : Str}
    (hlive : ¬ (Daemon.answerWaiting key d.clients.list d).crashed) :
    Within n (Daemon.answerWaiting key d.clients.list d) := by
  obtain ⟨lost, hcounted⟩ := h.counted
  apply Daemon.answerWaiting_rule (J := fun _ d => Within n d) still (fun _ hd => hd) _
    d.clients.list hcounted.nodup (fun _ hx => hx) hlive h
  intro l k c u hp hc hk
  have hset : Within n (k.setNative key { k.native key with lastUse := u }) := hk.same rfl rfl
  exact hset.put hc rfl rfl rfl (Nat.zero_le _)

theorem created {s t : EventLoop} {key output : Str}
    (hn : EventLoop.next s (.createEnvDone key output) = some t) (h : Within n s.daemon) :
    Within n t.daemon := by
  rcases EventLoop.createEnvDone_next hn with ⟨hsize, k, rfl, heq⟩ | ⟨hsize, hlive, k, hs, heq⟩
  · have hstill := Daemon.closedEntry_still output hsize
    have hclosed : Within n (s.daemon.closedEntry key output) :=
      h.same hstill.list hstill.currentKids
    rw [heq]
    exact (hclosed.refused key _).same rfl rfl
  · obtain ⟨u, hsized⟩ := Daemon.sizedEntry_still s.daemon key output
    have hentered : Within n (s.daemon.enter key (s.daemon.outcome key output).1
        (s.daemon.outcome key output).2 u) := h.same rfl rfl
    rw [heq] at hlive ⊢
    exact (((hentered.still hsized).cut _).still hs).told hlive

/-- A child is started while there is room for it. -/
theorem give (h : Within n d) (hc : c ∈ d.clients.list) (hid : c₁.clientId = c.clientId)
    (hpiped : c₁.pipeFromChild → c₁.childPid) (hkid : c₁.kids = 1) (hn : n < 2 ^ 32)
    (hroom : d.currentKids.toNat < n) : Within n (d.addKid.put c₁) := by
  have hone : (d.currentKids + 1).toNat = d.currentKids.toNat + 1 := by
    rw [UInt32.toNat_add, UInt32.toNat_one, Nat.mod_eq_of_lt (by omega)]
  exact h.putWith hc hid hpiped (k := d.currentKids + 1) (by omega) (by omega)

/-- A child that unpacks an environment is started, and killed again when the first chunk
cannot be written: there has to be room for one that stays. -/
theorem chunked (h : Within n d) (hc : c ∈ d.clients.list) {key : Str} {m : Msg}
    (hn : n < 2 ^ 32)
    (hroom : (d.addKid.put (c.transferring key)).chunkCuts (c.transferring key) m = [] →
      d.currentKids.toNat < n) :
    Within n ((d.addKid.put (c.transferring key)).handleFileChunkEnv (c.transferring key) m).1 := by
  have hid : (c.transferring key).clientId = c.clientId := rfl
  have hmem : c.transferring key ∈ (d.addKid.put (c.transferring key)).clients.list :=
    Daemon.mem_put (d := d.addKid) hc hid
  have hinst : (c.transferring key).Installing := .inl rfl
  rcases Daemon.chunk_cases (d := d.addKid.put (c.transferring key)) (m := m) hinst rfl with
    ⟨hstays, k, hk, hstarted⟩ | ⟨-, k, x, hk, hended⟩
  · have hgiven : Within n (d.addKid.put (c.transferring key)) :=
      h.give hc hid (fun _ => rfl) rfl hn (hroom hstays)
    rcases hstarted with hwritten | hread
    · rw [hwritten]
      exact hgiven.still hk
    · rw [hread]
      rw [← hk.list] at hmem
      exact (hgiven.still hk).put hmem rfl rfl rfl le_rfl
  · rw [hended]
    apply (h.erase hc).same
    · rw [Daemon.handleEnd_list, hk.list]
      exact Records.remove_replace
    · rw [Daemon.handleEnd_currentKids (.inl rfl) rfl, hk.currentKids]
      exact UInt32.add_sub_cancel _ _

end Within

/-! ## Runs -/

/-- `handle_old_request` is to start a compile child, and the fork succeeds. -/
def Daemon.forks (d : Daemon) : Bool :=
  (d.clients.getEarliestClient .toCompile).any fun c => d.StartsCompile c ∧
    c.job.any fun job => ((d.useReceived (Daemon.jobKey job)).handleConnection job).2

namespace EventLoop

variable {s t : EventLoop} {e : Event} {c : Client} {msg next : Option Msg}

/-- The event starts a child that unpacks an environment, and does not end it again. -/
def installs (s : EventLoop) (e : Event) : Bool :=
  (s.attends e).any fun p =>
    match p.2.1 with
    | some (.transferEnv m) =>
      p.1.status ≠ .toInstall ∧ ((s.daemon.attending p.1).startTransfer p.1 m p.2.2).2 ∧
        ((s.daemon.attending p.1).transferCuts p.1 m p.2.2).isEmpty
    | _ => false

/-- The event starts a compile child. -/
def compiles (s : EventLoop) (e : Event) : Bool := e = .oldRequest ∧ s.daemon.forks

/-- What an event does that makes the loop attend to a client -/
theorem attends_does (ha : s.attends e = some (c, msg, next)) (h : step s e = some t) :
    c ∈ s.daemon.clients.list ∧ Still (s.daemon.handleActivity c msg next).1 t.daemon := by
  unfold attends at ha
  split at ha
  · rename_i m r fd todo fds pipes hphase
    obtain ⟨c', hc, hselected⟩ := Option.bind_eq_some_iff.mp ha
    split at hselected
    · simp at hselected
    · rename_i hno
      obtain ⟨hto, hwait⟩ := not_or.mp hno
      simp only [Option.some.injEq, Prod.mk.injEq] at hselected
      obtain ⟨rfl, rfl, rfl⟩ := hselected
      simp only [step, hphase, collect, hc, if_neg hto, if_neg hwait] at h
      obtain rfl := Option.some.inj h
      exact ⟨findByFd_mem hc, collected_still _ _ _ _ _ _ _⟩
  · rename_i m r had fd hphase
    obtain ⟨c', hc, hselected⟩ := Option.map_eq_some_iff.mp ha
    simp only [Prod.mk.injEq] at hselected
    obtain ⟨rfl, rfl, rfl⟩ := hselected
    simp only [step, hphase, hc, Option.map_some] at h
    obtain rfl := Option.some.inj h
    exact ⟨findByFd_mem hc, afterActivity_still _ _ _ _⟩
  · rename_i m r had piped fd todo fds pipes hphase
    obtain ⟨c', hc, hselected⟩ := Option.bind_eq_some_iff.mp ha
    split at hselected
    · rename_i hok
      simp only [Option.some.injEq, Prod.mk.injEq] at hselected
      obtain ⟨rfl, rfl, rfl⟩ := hselected
      simp only [step, hphase, hc, Option.bind_some, if_pos hok] at h
      obtain rfl := Option.some.inj h
      exact ⟨findByFd_mem hc, afterActivity_still _ _ _ _⟩
    · simp at hselected
  · simp at ha

end EventLoop

namespace Daemon

variable {d : Daemon} {c : Client} {r : EnvTransferMsg} {next : Option Msg}

theorem startTransfer_still (c : Client) (r : EnvTransferMsg) (next : Option Msg) :
    Still d ((d.attending c).startTransfer c r next).1 :=
  ((Upkeep.attending_still c).trans ((Still.require _ _ rfl).trans (.require _ _ rfl))).trans
    (.startInstallEnvironment _ _ _)

theorem handleActivity_transfer (hopen : c.status ≠ .toInstall)
    (hok : ((d.attending c).startTransfer c r next).2) :
    d.handleActivity c (some (.transferEnv r)) next =
      let c₁ := c.transferring (envKey ((d.attending c).transferTarget r) r.name)
      (((d.attending c).startTransfer c r next).1.addKid.put c₁).handleFileChunkEnv c₁
        (next.getD .endMsg) := by
  have hhandled : d.handleActivity c (some (.transferEnv r)) next =
      (d.attending c).handleTransferEnv c r next := by
    unfold handleActivity
    dsimp only
    rw [if_neg hopen]
    rfl
  rw [hhandled, Upkeep.handleTransferEnv_eq]
  dsimp only
  rw [if_neg (by simp [hok])]

theorem chunk_currentKids {m : Msg} (hinst : c.Installing) (hchild : c.childPid)
    (hstays : d.chunkCuts c m = []) : (d.handleFileChunkEnv c m).1.currentKids = d.currentKids := by
  rcases chunk_cases (d := d) (m := m) hinst hchild with ⟨-, k, hk, hstarted⟩ | ⟨hends, -⟩
  · rcases hstarted with hwritten | hread
    · rw [hwritten, hk.currentKids]
    · rw [hread]
      exact hk.currentKids
  · exact absurd hstays hends

theorem handleOldRequest_currentKids (h : d.forks) :
    d.handleOldRequest.1.currentKids = d.currentKids + 1 := by
  unfold forks at h
  cases hearliest : d.clients.getEarliestClient .toCompile with
  | none => simp [hearliest] at h
  | some c =>
    cases hjob : c.job with
    | none => simp [hearliest, hjob] at h
    | some job =>
      simp only [hearliest, hjob, Option.any_some, decide_eq_true_eq] at h
      obtain ⟨⟨hroom, hlink, hpending, hload, -⟩, hok⟩ := h
      have hforked := Still.handleConnection (d := d.useReceived (jobKey job)) job
      unfold handleOldRequest
      rw [if_neg (not_not.mpr hroom), hlink, hpending]
      dsimp only
      rw [if_neg (not_le.mpr hload), hearliest]
      unfold startCompile
      simp only [hjob, hok, if_true]
      rw [(Still.sendScheduler _).currentKids]
      exact congrArg (· + 1) hforked.currentKids

/-- `handle_old_request` makes sure of the room, unless the sum it compares wraps. -/
theorem forks_room (h : d.forks)
    (hsum : d.currentKids.toNat + d.clients.activeProcesses.toNat < 2 ^ 32) :
    d.currentKids ≤ d.maxKids := by
  obtain ⟨c, -, hc⟩ := (Option.any_eq_true _ _).mp h
  have hroom := (of_decide_eq_true hc).1.1
  rw [UInt32.lt_iff_toNat_lt, UInt32.toNat_add, Nat.mod_eq_of_lt hsum] at hroom
  rw [UInt32.le_iff_toNat_le]
  have hslots : d.slots = if 1 ≤ d.maxKids then d.maxKids else 1 := rfl
  rw [hslots] at hroom
  split at hroom
  · omega
  · rw [UInt32.toNat_one] at hroom
    omega

end Daemon

/-- An event that starts a child only while there is a slot left for it -/
def KeepsRoom (s : EventLoop) (e : Event) : Prop :=
  s.installs e ∨ s.compiles e → s.daemon.currentKids ≤ s.daemon.maxKids

instance (s : EventLoop) (e : Event) : Decidable (KeepsRoom s e) := by
  unfold KeepsRoom
  infer_instance

namespace Within

variable {n : ℕ} {s t : EventLoop} {e : Event} {c : Client}

theorem transfer (h : Within n s.daemon) {r : EnvTransferMsg} {next : Option Msg}
    (ha : s.attends e = some (c, some (.transferEnv r), next)) (hopen : c.status ≠ .toInstall)
    (hok : ((s.daemon.attending c).startTransfer c r next).2) (hc : c ∈ s.daemon.clients.list)
    (hn : n < 2 ^ 32) (hroom : s.installs e → s.daemon.currentKids.toNat < n) :
    Within n (s.daemon.handleActivity c (some (.transferEnv r)) next).1 := by
  have hstarted := Daemon.startTransfer_still (d := s.daemon) c r next
  rw [Daemon.handleActivity_transfer hopen hok]
  apply (h.still hstarted).chunked (by rwa [hstarted.list]) hn
  intro hstays
  rw [hstarted.currentKids]
  apply hroom
  simp [EventLoop.installs, ha, hopen, hok, Daemon.transferCuts, hstays]

theorem oldRequest (h : Within n s.daemon) (he : e = .oldRequest) (hn : n < 2 ^ 32)
    (hroom : s.compiles e → s.daemon.currentKids.toNat < n) :
    Within n s.daemon.handleOldRequest.1 := by
  apply Daemon.handleOldRequest_rule (I := Within s.daemon.currentKids.toNat) (J := Within n)
    still still (fun hk => hk.mono h.bound) (fun x _ hc hk => hk.ended hc x) _
    (fun hk => hk.same rfl rfl) _ ⟨h.counted, le_rfl⟩
  · intro k c hstatus hc hk
    exact hk.put hc rfl rfl rfl (Nat.zero_le _)
  · intro k c job hstart hjob hok hc hk
    have hless : s.daemon.currentKids.toNat < n := by
      apply hroom
      simp [EventLoop.compiles, Daemon.forks, he, hstart, hstart.2.2.2.2, hjob, hok]
    exact (hk.mono h.bound).give hc rfl (fun _ => rfl) rfl hn (lt_of_le_of_lt hk.bound hless)

/-- An event that starts no child -/
theorem upkeep (hv : Valid s.daemon) (he : e ≠ .oldRequest)
    (hno : ∀ (c : Client) (m : EnvTransferMsg) (next : Option Msg),
      s.attends e = some (c, some (.transferEnv m), next) → c.status ≠ .toInstall →
      ¬ ((s.daemon.attending c).startTransfer c m next).2) : Upkeep (Within n) s e where
  still := still
  cut _ h := h.cut _
  leave hc _ _ h := h.erase hc
  stop hc hinst h := h.stop hc hinst
  keep hc hsame h := h.put hc hsame.clientId hsame.pipeFromChild hsame.childPid
    (Counted.same_kids hsame).le
  turn _ hc hmoves h := h.put hc hmoves.clientId hmoves.pipeFromChild hmoves.childPid
    ((Counted.kids_of_free hmoves.free).trans_le (Nat.zero_le _))
  install _ _ _ _ h := h.same rfl rfl
  start ha hopen hok _ _ := absurd hok (hno _ _ _ ha hopen)
  answer {d c m t} _ hc h := by
    have hset : Within n (d.setNative (Daemon.keyFor c m)
        { d.native (Daemon.keyFor c m) with lastUse := t }) := h.same rfl rfl
    exact hset.put hc rfl rfl rfl (Nat.zero_le _)
  refuse {d c m} _ hc h := by
    have hset : Within n (d.setNative (Daemon.keyFor c m) (d.native (Daemon.keyFor c m))) :=
      h.same rfl rfl
    exact hset.erase hc
  stale _ _ _ h := h.same (by simp [Daemon.forgetNative]) (by simp [Daemon.forgetNative])
  create {d c m times} _ _ hc h := by
    have hid : (c.creating (Daemon.keyFor c m)).clientId = c.clientId := rfl
    have hput := h.put hc hid rfl rfl (Nat.zero_le _)
    exact hput.same rfl rfl
  used h := h.same rfl rfl
  removed h := h.same (by simp [Daemon.forgetReceived]) (by simp [Daemon.forgetReceived])
  fork he' _ _ _ := absurd he' he
  compiled hc hwait _ h := h.compiled hc hwait
  unpacked hc hinst hpipe h := h.unpacked hc hinst hpipe
  created he _ hn h := by
    subst he
    exact created hn h
  clear h := h.clear
  accept place fd protocol hid hplace h := h.accept hv fd protocol hid hplace

theorem step (hv : Valid s.daemon) (hn : n < 2 ^ 32)
    (hroom : s.installs e ∨ s.compiles e → s.daemon.currentKids.toNat < n)
    (hnext : EventLoop.next s e = some t) (h : Within n s.daemon) : Within n t.daemon := by
  by_cases he : e = .oldRequest
  · have hdone := h.oldRequest he hn fun hstart => hroom (.inr hstart)
    subst he
    cases EventLoop.step_leads (EventLoop.next_step hnext) with
    | oldRequest => exact hdone
    | answered hphase hd =>
      subst hd
      exact hdone.still (Still.ite (.maybeStats false) .refl)
  · by_cases hstart : ∃ (c : Client) (m : EnvTransferMsg) (next : Option Msg),
        s.attends e = some (c, some (.transferEnv m), next) ∧ c.status ≠ .toInstall ∧
        ((s.daemon.attending c).startTransfer c m next).2
    · obtain ⟨c, m, next, ha, hopen, hok⟩ := hstart
      obtain ⟨hc, hs⟩ := EventLoop.attends_does ha (EventLoop.next_step hnext)
      exact (h.transfer ha hopen hok hc hn fun hstart => hroom (.inl hstart)).still hs
    · have hkeep : Upkeep (Within n) s e := upkeep hv he fun c m next ha hopen hok =>
        hstart ⟨c, m, next, ha, hopen, hok⟩
      exact hkeep.step hnext h

end Within

namespace EventLoop

variable {s t : EventLoop} {e : Event}

/-- A child that is started is counted. -/
theorem started_currentKids (hstart : s.installs e ∨ s.compiles e) (h : step s e = some t) :
    t.daemon.currentKids = s.daemon.currentKids + 1 := by
  rcases hstart with hinstalls | hcompiles
  · obtain ⟨⟨c, msg, next⟩, ha, hstays⟩ := (Option.any_eq_true _ _).mp hinstalls
    split at hstays
    · rename_i r hmsg
      subst hmsg
      simp only [ne_eq, Bool.decide_and, Bool.and_eq_true, decide_eq_true_eq,
        List.isEmpty_iff] at hstays
      obtain ⟨hopen, hok, hstays⟩ := hstays
      obtain ⟨-, hs⟩ := attends_does ha h
      have hstarted := Daemon.startTransfer_still (d := s.daemon) c r next
      rw [hs.currentKids, Daemon.handleActivity_transfer hopen hok,
        Daemon.chunk_currentKids (.inl rfl) rfl (by simpa [Daemon.transferCuts, hok] using hstays)]
      exact congrArg (· + 1) hstarted.currentKids
    · simp at hstays
  · simp only [compiles, decide_eq_true_eq] at hcompiles
    obtain ⟨rfl, hforks⟩ := hcompiles
    have hforked := Daemon.handleOldRequest_currentKids hforks
    cases step_leads h with
    | oldRequest => exact hforked
    | answered hphase hd =>
      subst hd
      exact (Still.ite (.maybeStats false) .refl).currentKids.trans hforked

/-- The number of jobs that the daemon allows is set before the loop. -/
theorem maxKids_step (hv : Valid s.daemon) (h : step s e = some t) :
    t.daemon.maxKids = s.daemon.maxKids := by
  have hrequire : ∀ (d : Daemon) (a : Assertion) (b : Bool), (d.require a b).maxKids = d.maxKids := by
    intro d a b
    cases b <;> rfl
  have hleave : ∀ (d : Daemon) (c : Client), (d.leave c).maxKids = d.maxKids := by
    intro d c
    unfold Daemon.leave
    dsimp only
    split <;> rfl
  have hsurvives : ∀ (d : Daemon) (c : Client) (m : Msg),
      Survives (fun d => d.maxKids = s.daemon.maxKids) d c m := by
    intro d c m
    constructor
    · exact fun _ _ _ hd => hd
    · exact fun _ _ _ _ hd => hd
    · exact fun _ _ hd => (hrequire _ _ _).trans hd
    · exact fun _ _ _ hd => hd
    · exact fun _ _ _ _ _ hd => hd
    · exact fun _ _ _ hd => hd
    · intro k r _ _ _ _ hd
      apply (Daemon.handleJobDone_frame r).maxKids.trans
      change (Daemon.require _ _ _).maxKids = _
      rw [hrequire]
      split
      · exact hd
      · exact hd
  have hsteps : Steps (fun d => d.maxKids = s.daemon.maxKids) s e :=
    { stable :=
        { aside := fun hf hd => hf.maxKids.trans hd
          ended := fun x _ _ hd =>
            (Daemon.handleEnd_frame _ x).maxKids.trans ((hleave _ _).trans hd) }
      stray := fun _ hf hd => hf.maxKids.trans hd
      reconnect := by
        intro found _ hd
        rcases Daemon.reconnect_cases (d := s.daemon) found with heq | ⟨-, _, _, -, hf⟩
        · rw [heq]
        · exact hf.maxKids
      link := fun _ _ hd => hd
      pending := fun _ _ hd => hd
      compile := fun _ _ hd => hd
      message := fun _ _ _ => hsurvives _ _ _
      heard := fun _ hd => hd
      assign := fun _ _ _ _ hd => hd
      returned := fun _ hf hd => hf.maxKids.trans hd
      fresh := fun _ hd => hd
      accept := fun _ _ _ _ _ _ hd => hd
      compiled := fun _ _ hd => hd
      installed := fun _ _ _ hd => hd
      created := fun _ _ _ _ _ _ _ hd => hd }
  exact hsteps.step hv h rfl

end EventLoop

theorem Within.init {n : ℕ} {s : EventLoop} (h : s.Init) : Within n s.daemon where
  counted := ⟨0, (Counted.init h).same rfl rfl (by simp)⟩
  bound := by simp [h.currentKids]

namespace DiskTest

variable {s : EventLoop}

theorem reaches_within (h : EventLoop.system.Reaches KeepsRoom s) : s.Reading ∧
    (s.daemon.maxKids.toNat + 1 < 2 ^ 32 → Within (s.daemon.maxKids.toNat + 1) s.daemon) := by
  apply h.invariant
  · intro s hs
    exact ⟨EventLoop.reading_init hs, fun _ => Within.init hs⟩
  · intro s e t hinv hk hn
    obtain ⟨hreading, hwithin⟩ := hinv
    have hstep := EventLoop.next_step hn
    refine ⟨EventLoop.reading_step hreading hstep, fun hmax => ?_⟩
    rw [EventLoop.maxKids_step hreading.1 hstep] at hmax ⊢
    apply (hwithin hmax).step hreading.1 hmax _ hn
    intro hstart
    exact Nat.lt_succ_of_le (UInt32.le_iff_toNat_le.mp (hk hstart))

/-- In a run that starts no child beyond the slots the disk test is right, and a step after it
keeps it right if and only if it starts none either. -/
theorem disk_test_room (h : EventLoop.system.Reaches KeepsRoom s)
    (hmax : s.daemon.maxKids.toNat + 1 < 2 ^ 32) :
    DiskTest s.daemon ∧ ∀ (e : Event) (t : EventLoop), EventLoop.system.next s e = some t →
      s.daemon.currentKids + 1 ≠ 0 → (DiskTest t.daemon ↔ KeepsRoom s e) := by
  obtain ⟨hreading, hwithin⟩ := reaches_within h
  have hwithin := hwithin hmax
  refine ⟨(diskTest_iff hmax).mpr hwithin.bound, fun e t hn hwrap => ?_⟩
  have hstep := EventLoop.next_step hn
  have hsame := EventLoop.maxKids_step hreading.1 hstep
  rw [diskTest_iff (by rwa [hsame]), hsame]
  constructor
  · intro htest hstart
    have hmore : (s.daemon.currentKids + 1).toNat = s.daemon.currentKids.toNat + 1 := by
      have hkids := s.daemon.currentKids.toNat_lt
      have hpos : (s.daemon.currentKids + 1).toNat ≠ 0 := fun hzero =>
        hwrap (UInt32.toNat_inj.mp hzero)
      rw [UInt32.toNat_add, UInt32.toNat_one] at hpos ⊢
      omega
    rw [EventLoop.started_currentKids hstart hstep, hmore] at htest
    exact UInt32.le_iff_toNat_le.mpr (Nat.le_of_succ_le_succ htest)
  · intro hk
    apply (hwithin.step hreading.1 hmax _ hn).bound
    intro hstart
    exact Nat.lt_succ_of_le (UInt32.le_iff_toNat_le.mp (hk hstart))

theorem disk_test_room_installing : ∃ s, EventLoop.system.Reaches KeepsRoom s ∧
    s.daemon.currentKids = 1 ∧ DiskTest s.daemon := by
  have hrun : (EventLoop.system.run KeepsRoom (EventLoop.started (fun _ => 1) 1)
      Children.installing).map (fun s => (s.daemon.currentKids, s.daemon.maxKids)) =
      some (1, 1) := by decide +kernel
  obtain ⟨s, hs, hstate⟩ := Option.map_eq_some_iff.mp hrun
  simp only [Prod.mk.injEq] at hstate
  obtain ⟨hkids, hmax⟩ := hstate
  have hreach := (Transition.System.Reaches.init (EventLoop.started_init _ 1)).run hs
  exact ⟨s, hreach, hkids, (disk_test_room hreach (by rw [hmax]; decide)).1⟩

/-- A client that sends the start of an environment -/
def unpacking (name : Str) (fd : ℕ) : List Event :=
  [.accept 0 fd 45, .clientMsg (some (.transferEnv ⟨name, str "x"⟩))
    (some (.fileChunk ⟨[], 0, 0⟩))] ++ EventLoop.again

/-- Four clients send environments, and the last hangs up. -/
def crowding : List Event :=
  [.reconnect (some (44, str "s"))] ++
    EventLoop.polling 0 ++ unpacking (str "a") 7 ++ EventLoop.polling 1 ++ unpacking (str "b") 8 ++
    EventLoop.polling 2 ++ unpacking (str "c") 9 ++ EventLoop.polling 3 ++ unpacking (str "d") 10 ++
    [.oldRequest, .collect (some none) none]

/-- Three environments are being unpacked by a daemon that allows one job. With 2^20 blocks of
2^20 bytes free it has told the scheduler that the disk is full. -/
theorem disk_test_crowded : ∃ s,
    EventLoop.system.exec (EventLoop.started (fun _ => 2 ^ 20) 1) crowding = some s ∧
    EventLoop.system.Reachable s ∧ s.daemon.maxKids = 1 ∧ s.daemon.currentKids = 3 ∧
    .toScheduler (.stats ⟨1000, 0, 0, 0, 0, 0⟩) true ∈ s.daemon.log ∧ ¬ DiskTest s.daemon := by
  have hrun : (EventLoop.system.exec (EventLoop.started (fun _ => 2 ^ 20) 1) crowding).map
      (fun s => (s.daemon.maxKids, s.daemon.currentKids,
        decide (.toScheduler (.stats ⟨1000, 0, 0, 0, 0, 0⟩) true ∈ s.daemon.log))) =
      some (1, 3, true) := by decide +kernel
  obtain ⟨s, hs, hstate⟩ := Option.map_eq_some_iff.mp hrun
  simp only [Prod.mk.injEq, decide_eq_true_eq] at hstate
  obtain ⟨hmax, hkids, hlog⟩ := hstate
  have hreach := (Transition.System.Reaches.init (EventLoop.started_init _ 1)).exec
    (fun _ _ _ => trivial) hs
  refine ⟨s, hs, hreach, hmax, hkids, hlog, fun htest => ?_⟩
  have hexact := htest.exact
  rw [Daemon.remaining, hmax, hkids] at hexact
  exact absurd hexact (by decide)

end DiskTest

end Icecream.Iceccd
