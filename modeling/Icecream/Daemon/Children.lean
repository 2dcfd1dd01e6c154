import Mathlib.Algebra.Order.BigOperators.Group.List
import Mathlib.Algebra.Order.Ring.Nat
import Icecream.Daemon.Creations
import Icecream.Daemon.Reading

/-!
# The children

`current_kids` against the clients with a child. The answers of the scheduler and the
messages that take such a client elsewhere without a look at its status leave the child
counted for nobody.
-/

namespace Icecream.Iceccd

open Icecream.Comm

/-- A compile child, or one that unpacks an environment -/
def Client.hasKid (c : Client) : Bool :=
  c.status = .waitForChild ∨ (c.Installing ∧ c.childPid)

def Client.kids (c : Client) : ℕ := if c.hasKid then 1 else 0

namespace Daemon

/-- The clients in WAITFORCHILD, and those in TOINSTALL or WAITINSTALL with a child -/
def children (d : Daemon) : ℕ :=
  d.clients.list.countP (fun c => c.status = .waitForChild) +
    d.clients.list.countP fun c => (c.status = .toInstall ∨ c.status = .waitInstall) ∧ c.childPid

theorem children_eq_sum (d : Daemon) : d.children = (d.clients.list.map Client.kids).sum := by
  unfold children
  induction d.clients.list with
  | nil => rfl
  | cons c l ih =>
    have hhead : (if c.status = .waitForChild then 1 else 0) +
        (if (c.status = .toInstall ∨ c.status = .waitInstall) ∧ c.childPid then 1 else 0) =
        c.kids := by
      unfold Client.kids Client.hasKid Client.Installing
      by_cases hwait : c.status = .waitForChild <;> simp [hwait]
    rw [List.countP_cons, List.countP_cons, List.map_cons, List.sum_cons, ← ih, ← hhead]
    simp only [decide_eq_true_eq]
    omega

end Daemon

/-- The assertions that a child is there when one is taken off the count -/
def Assertion.countsKids : Assertion → Bool
  | .installDoneKids | .finishKids | .compileDoneKids => true
  | _ => false

/-- The count is right, and it was never decremented at zero. -/
structure Children (d : Daemon) : Prop where
  count : d.currentKids.toNat = d.children
  positive : ∀ a : Assertion, a.countsKids → .assertionFailed a ∉ d.log

/-- The invariant behind it, with `lost` children counted for nobody -/
structure Counted (lost : ℕ) (d : Daemon) : Prop where
  nodup : (d.clients.list.map Client.clientId).Nodup
  small : d.clients.list.length < 2 ^ 31
  piped : ∀ c ∈ d.clients.list, c.pipeFromChild → c.childPid
  count : d.currentKids.toNat = (d.clients.list.map Client.kids).sum + lost
  positive : ∀ a : Assertion, a.countsKids → .assertionFailed a ∉ d.log

namespace Counted

variable {lost : ℕ} {d d' : Daemon} {c c₁ : Client}

theorem same (h : Counted lost d) (hl : d'.clients.list = d.clients.list)
    (hk : d'.currentKids = d.currentKids)
    (hlog : ∀ a : Assertion, a.countsKids → .assertionFailed a ∈ d'.log →
      .assertionFailed a ∈ d.log) : Counted lost d' where
  nodup := by rw [hl]; exact h.nodup
  small := by rw [hl]; exact h.small
  piped := by rw [hl]; exact h.piped
  count := by rw [hl, hk]; exact h.count
  positive a ha hmem := h.positive a ha (hlog a ha hmem)

theorem still (hs : Still d d') (h : Counted lost d) : Counted lost d' := by
  apply h.same hs.list hs.currentKids
  intro a ha hmem
  rcases hs.log _ hmem with hold | hplain
  · exact hold
  · cases a <;> simp_all [Assertion.countsKids, Obs.plain]

theorem forgetReceived (key : Str) (h : Counted lost d) : Counted lost (d.forgetReceived key) := by
  apply h.same (by simp [Daemon.forgetReceived]) (by simp [Daemon.forgetReceived])
  intro a ha hmem
  rcases Daemon.require_log hmem with hold | ⟨heq, -⟩
  · exact hold
  · cases heq
    simp [Assertion.countsKids] at ha

theorem forgetNative (key : Str) (h : Counted lost d) : Counted lost (d.forgetNative key) := by
  apply h.same (by simp [Daemon.forgetNative]) (by simp [Daemon.forgetNative])
  intro a ha hmem
  rcases Daemon.require_log hmem with hold | ⟨heq, -⟩
  · exact hold
  · cases heq
    simp [Assertion.countsKids] at ha

theorem cut (newEnv : Str) (h : Counted lost d) : Counted lost (d.checkCacheSize newEnv) :=
  Daemon.checkCacheSize_rule still forgetReceived forgetNative newEnv h

/-- The count after a record has changed, with what the counter has not followed -/
theorem put (h : Counted lost d) (hc : c ∈ d.clients.list) (hid : c₁.clientId = c.clientId)
    (hpiped : c₁.pipeFromChild → c₁.childPid) {lost' : ℕ} {k : UInt32}
    (hk : k.toNat + c.kids + lost = d.currentKids.toNat + c₁.kids + lost') :
    Counted lost' ({ d with currentKids := k }.put c₁) where
  nodup := by
    have hkeys : (Records.replace Client.clientId c₁ d.clients.list).map Client.clientId =
        d.clients.list.map Client.clientId := Records.map_key_replace
    change ((Records.replace Client.clientId c₁ d.clients.list).map Client.clientId).Nodup
    rw [hkeys]
    exact h.nodup
  small := by
    change (List.map _ d.clients.list).length < 2 ^ 31
    rw [List.length_map]
    exact h.small
  piped x hx := by
    rcases Records.mem_replace.mp hx with ⟨rfl, -⟩ | ⟨hx, -⟩
    · exact hpiped
    · exact h.piped x hx
  count := by
    have hsum := Records.sum_replace Client.kids h.nodup hc hid
    have hcount := h.count
    change k.toNat =
      ((Records.replace Client.clientId c₁ d.clients.list).map Client.kids).sum + lost'
    omega
  positive := h.positive

theorem put_same (h : Counted lost d) (hc : c ∈ d.clients.list) (hid : c₁.clientId = c.clientId)
    (hpiped : c₁.pipeFromChild → c₁.childPid) (hkids : c₁.kids = c.kids) :
    Counted lost (d.put c₁) :=
  h.put hc hid hpiped (by rw [hkids])

/-- A record is gone, and its child is lost if the counter has not followed. -/
theorem erase (h : Counted lost d) (hc : c ∈ d.clients.list) {lost' : ℕ} {k : UInt32}
    (hk : k.toNat + c.kids + lost = d.currentKids.toNat + lost') :
    Counted lost' ({ d with currentKids := k }.erase c) where
  nodup := by
    have hkeys : (Records.remove Client.clientId c.clientId d.clients.list).map Client.clientId =
        (d.clients.list.map Client.clientId).filter (· ≠ c.clientId) := Records.map_key_remove
    change ((Records.remove Client.clientId c.clientId d.clients.list).map Client.clientId).Nodup
    rw [hkeys]
    exact h.nodup.filter _
  small := lt_of_le_of_lt (List.length_filter_le _ _) h.small
  piped x hx := h.piped x (Records.mem_remove.mp hx).1
  count := by
    have hsum := Records.sum_remove Client.kids h.nodup hc
    have hcount := h.count
    change k.toNat =
      ((Records.remove Client.clientId c.clientId d.clients.list).map Client.kids).sum + lost'
    omega
  positive := h.positive

theorem kids_le (h : Counted lost d) (hc : c ∈ d.clients.list) :
    c.kids ≤ d.currentKids.toNat := by
  have hle : c.kids ≤ (d.clients.list.map Client.kids).sum :=
    List.single_le_sum (by simp) _ (List.mem_map_of_mem hc)
  have hcount := h.count
  omega

theorem kid_found (h : Counted lost d) (hc : c ∈ d.clients.list) (hkid : c.kids = 1) :
    d.currentKids > 0 ∧ (d.currentKids - 1).toNat + 1 = d.currentKids.toNat := by
  have hle := h.kids_le hc
  have hone : (1 : UInt32) ≤ d.currentKids := by
    rw [UInt32.le_iff_toNat_le, UInt32.toNat_one]
    omega
  constructor
  · rw [gt_iff_lt, UInt32.lt_iff_toNat_lt, UInt32.toNat_zero]
    omega
  · rw [UInt32.toNat_sub_of_le _ _ hone, UInt32.toNat_one]
    omega

theorem room (h : Counted 0 d) : (d.currentKids + 1).toNat = d.currentKids.toNat + 1 := by
  have hle : (d.clients.list.map Client.kids).sum ≤ d.clients.list.length := by
    have hmap : (d.clients.list.map Client.kids).length = d.clients.list.length :=
      List.length_map _
    have hbound := List.sum_le_card_nsmul (d.clients.list.map Client.kids) 1 (by
      intro n hn
      obtain ⟨x, -, rfl⟩ := List.mem_map.mp hn
      unfold Client.kids
      split <;> omega)
    simpa [hmap] using hbound
  have hcount := h.count
  have hsmall := h.small
  rw [UInt32.toNat_add, UInt32.toNat_one, Nat.mod_eq_of_lt (by omega)]

theorem kids_over (c : Client) : c.transferOver.kids = 0 := rfl

/-- The child of a transfer is taken off the count when it is killed. -/
theorem stop (h : Counted lost d) (hc : c ∈ d.clients.list) (hinst : c.Installing) :
    Counted lost ((d.stopped c).put c.transferOver) := by
  have hid : c.transferOver.clientId = c.clientId := rfl
  have hpiped : c.transferOver.pipeFromChild → c.transferOver.childPid := by
    simp [Client.transferOver]
  unfold Daemon.stopped
  split
  · rename_i hchild
    have hkid : c.kids = 1 := by
      rcases hinst with h | h <;> simp [Client.kids, Client.hasKid, h, hchild]
    obtain ⟨hpos, hless⟩ := h.kid_found hc hkid
    have hkilled : d.killChild = { d with currentKids := d.currentKids - 1 } := by
      unfold Daemon.killChild Daemon.require
      rw [if_pos (by simpa using hpos)]
      rfl
    rw [hkilled]
    apply h.put hc hid hpiped
    rw [hkid, kids_over]
    omega
  · rename_i hchild
    have hkid : c.kids = 0 := by
      rcases hinst with h | h <;> simp [Client.kids, Client.hasKid, h, hchild]
    exact h.put_same hc hid hpiped (by rw [hkid, kids_over])

/-- The end of a client, whose compile child is lost -/
theorem ended (h : Counted lost d) (hc : c ∈ d.clients.list) (x : Int32) :
    Counted (lost + if c.status = .waitForChild then 1 else 0) (d.handleEnd c x) := by
  apply Daemon.handleEnd_rule (fun hs h => h.still hs) _ _ (fun p _ hp => hp.cut p.2) _ hc
  · intro hinst
    apply h.erase hc
    simp only [Client.kids, Client.hasKid, hinst, false_and, or_false, decide_eq_true_eq]
    omega
  · intro hinst n hn
    have hwait : c.status ≠ .waitForChild := by rcases hinst with h | h <;> simp [h]
    rw [if_neg hwait, add_zero]
    exact (h.still hn).stop (by rwa [hn.list]) hinst
  · intro n hmem hn
    apply hn.erase hmem
    rw [kids_over]
    omega

theorem clear (h : Counted lost d) : Counted 0 d.clearChildren := by
  have hall : ∃ lost', Counted lost' (Daemon.endAll d.clients.list.length d) := by
    generalize d.clients.list.length = fuel
    induction fuel generalizing d lost with
    | zero => exact ⟨lost, h⟩
    | succ fuel ih =>
      unfold Daemon.endAll
      split
      · exact ⟨lost, h⟩
      · rename_i c rest hl
        exact ih (h.ended (by rw [hl]; exact List.mem_cons_self) 116)
  obtain ⟨lost', hall⟩ := hall
  have hempty := Daemon.endAll_list d.clients.list.length (d := d) le_rfl
  have hreq := hall.still (.require .clearedFds
    ((Daemon.endAll d.clients.list.length d).fd2client = []) rfl)
  have hlist : ((Daemon.endAll d.clients.list.length d).require .clearedFds
      ((Daemon.endAll d.clients.list.length d).fd2client = [])).clients.list = [] := by
    rw [Daemon.require_clients]
    exact hempty
  exact
    { hreq with
      count := by
        change (0 : UInt32).toNat = (List.map Client.kids (Daemon.require _ _ _).clients.list).sum + 0
        rw [hlist]
        rfl }

end Counted

/-! ## Runs -/

namespace EventLoop

/-- What a message of a client makes of the child that unpacks its environment: it is
forgotten. -/
def abandons (s : EventLoop) (c : Client) (m : Msg) (next : Option Msg) : Bool :=
  match m with
  | .getNativeEnv r => (s.daemon.timesFor c r).isSome
  | .transferEnv r => ((s.daemon.attending c).startTransfer c r next).2
  | m => moves m

end EventLoop

/-- An event that forgets no child -/
structure KeepsKids (s : EventLoop) (e : Event) : Prop where
  answer : ∀ c ∈ s.answered e, c.hasKid → c.Installing ∧ ¬ s.heeds e
  message : ∀ p ∈ s.attends e, p.1.status = .waitInstall → p.1.childPid → ∀ m ∈ p.2.1,
    ¬ s.abandons p.1 m p.2.2
  created : ∀ p ∈ e.ends, ∀ c ∈ s.daemon.clients.list, c.pendingCreateEnv = p.1 → c.hasKid →
    c.Installing ∧ (s.daemon.outcome p.1 p.2).2 = 0

instance (s : EventLoop) (e : Event) : Decidable (KeepsKids s e) :=
  decidable_of_iff
    ((∀ c ∈ s.answered e, c.hasKid → c.Installing ∧ ¬ s.heeds e) ∧
      (∀ p ∈ s.attends e, p.1.status = .waitInstall → p.1.childPid → ∀ m ∈ p.2.1,
        ¬ s.abandons p.1 m p.2.2) ∧
      (∀ p ∈ e.ends, ∀ c ∈ s.daemon.clients.list, c.pendingCreateEnv = p.1 → c.hasKid →
        c.Installing ∧ (s.daemon.outcome p.1 p.2).2 = 0))
    ⟨fun ⟨h₁, h₂, h₃⟩ => ⟨h₁, h₂, h₃⟩, fun ⟨h₁, h₂, h₃⟩ => ⟨h₁, h₂, h₃⟩⟩

theorem Valid.length_le {d : Daemon} (h : Valid d) : d.clients.list.length ≤ d.newClientId := by
  have hsub : d.clients.list.map Client.clientId ⊆ List.range' 1 d.newClientId := by
    intro id hid
    obtain ⟨c, hc, rfl⟩ := List.mem_map.mp hid
    have hbound := h.bound c hc
    rw [List.mem_range'_1]
    omega
  have hle := (List.subperm_of_subset h.nodup hsub).length_le
  rwa [List.length_map, List.length_range'] at hle

namespace Counted

variable {d : Daemon} {c : Client} {s t : EventLoop} {e : Event}

theorem kids_of_free (h : c.status.free) : c.kids = 0 := by
  have hkid : c.hasKid = false := by
    unfold Client.hasKid Client.Installing
    generalize c.status = status at h ⊢
    cases status <;> simp_all [Status.free]
  simp [Client.kids, hkid]

theorem kids_eq_zero (h : c.hasKid = false) : c.kids = 0 := by
  simp [Client.kids, h]

/-- A client that is not waiting for a compile child and is not installing with one -/
theorem attended (hk : KeepsKids s e) (hidle : ∀ p ∈ s.attends e, p.1.status ≠ .waitForChild)
    {m : Msg} {next : Option Msg} (ha : s.attends e = some (c, some m, next))
    (hopen : c.status ≠ .toInstall) (hm : s.abandons c m next) : c.hasKid = false := by
  have hwait := hidle _ ha
  by_contra hkid
  have hinst : c.status = .waitInstall ∧ c.childPid := by
    simpa [Client.hasKid, Client.Installing, hwait, hopen] using hkid
  exact hk.message _ ha hinst.1 hinst.2 m rfl hm

theorem turned (hk : KeepsKids s e) (hidle : ∀ p ∈ s.attends e, p.1.status ≠ .waitForChild)
    (h : s.Turns e c) : c.kids = 0 := by
  cases h with
  | message ha hopen hm =>
    rename_i m next
    apply kids_eq_zero (attended hk hidle ha hopen _)
    unfold EventLoop.abandons
    cases m <;> simp_all [moves]
  | work he hstatus => exact kids_of_free (by rcases hstatus with h | h <;> simp [h, Status.free])
  | answer hc hheeds =>
    apply kids_eq_zero
    by_contra hkid
    exact (hk.answer c hc (by simpa using hkid)).2 hheeds

theorem requested (hk : KeepsKids s e) (hidle : ∀ p ∈ s.attends e, p.1.status ≠ .waitForChild)
    {r : GetNativeEnvMsg} (h : s.Requests e c r) : c.kids = 0 := by
  obtain ⟨⟨next, ha⟩, hopen, htimes⟩ := h
  exact kids_eq_zero (attended hk hidle ha hopen htimes)

theorem leaves (hk : KeepsKids s e) (hidle : ∀ p ∈ s.attends e, p.1.status ≠ .waitForChild)
    (hinst : ¬ c.Installing) (hchild : c.status = .waitForChild → s.LosesChild e) : c.kids = 0 := by
  apply kids_eq_zero
  have hwait : c.status ≠ .waitForChild := by
    intro hw
    rcases hchild hw with ⟨p, hp, hstatus⟩ | ⟨x, hx, hstatus, -⟩
    · exact hidle p hp hstatus
    · have hno := (hk.answer x hx (by simp [Client.hasKid, hstatus])).1
      rcases hno with h | h <;> simp [h] at hstatus
  simp [Client.hasKid, hwait, hinst]

theorem give (h : Counted 0 d) {c₁ : Client} (hc : c ∈ d.clients.list)
    (hid : c₁.clientId = c.clientId) (hpiped : c₁.pipeFromChild → c₁.childPid)
    (hnone : c.kids = 0) (hone : c₁.kids = 1) : Counted 0 (d.addKid.put c₁) := by
  apply h.put hc hid hpiped
  rw [hnone, hone, h.room, add_zero]

theorem gone (h : Counted 0 d) (hc : c ∈ d.clients.list) (hnone : c.kids = 0) :
    Counted 0 (d.erase c) :=
  h.erase hc (by rw [hnone])

/-- The child of a compile job is taken off the count, and its client goes. -/
theorem compiled (h : Counted 0 d) (hc : c ∈ d.clients.list) (hwait : c.status = .waitForChild) :
    Counted 0 ((d.requireCompiling c).dropKid.erase c) := by
  have hkid : c.kids = 1 := by simp [Client.kids, Client.hasKid, hwait]
  obtain ⟨hpos, hless⟩ := h.kid_found hc hkid
  have hreq : Still d (d.requireCompiling c) := by
    refine (((Still.require _ _ rfl).trans (.require _ _ rfl)).trans (.require _ _ rfl)).trans
      (Still.holds _ ?_)
    simpa using hpos
  apply still (hreq.dropKid.erase c)
  apply h.erase hc
  rw [hkid]
  omega

theorem unpacked (h : Counted 0 d) (hc : c ∈ d.clients.list) (hinst : c.Installing)
    (hpipe : c.pipeFromChild) : Counted 0 (d.unpacked c) := by
  have hkid : c.kids = 1 := by
    have hchild := h.piped c hc hpipe
    rcases hinst with h | h <;> simp [Client.kids, Client.hasKid, h, hchild]
  have hover : ({ c with childPid := false, pipeFromChild := false } : Client).kids = 0 := by
    rcases hinst with h | h <;> simp [Client.kids, Client.hasKid, h]
  obtain ⟨hpos, hless⟩ := h.kid_found hc hkid
  have hreq : Still d (d.requireInstalling c) := by
    refine (((Still.require _ _ rfl).trans (.require _ _ rfl)).trans (.require _ _ rfl)).trans
      (Still.holds _ ?_)
    simpa using hpos
  apply still (hreq.dropKid.put _)
  have hid : ({ c with childPid := false, pipeFromChild := false } : Client).clientId =
      c.clientId := rfl
  apply h.put hc hid (by simp)
  rw [hkid, hover]
  omega

/-- Only the table of native environments is written. -/
theorem natives (h : Counted 0 d) (key : Str) (env : NativeEnvironment) :
    Counted 0 (d.setNative key env) :=
  h.same rfl rfl fun _ _ hmem => hmem

/-- Those who wait are refused; a compile child must not be among them. -/
theorem refused (h : Counted 0 d) (key : Str) (fuel : ℕ)
    (hwho : ∀ c ∈ d.clients.list, c.pendingCreateEnv = key → c.hasKid → c.Installing) :
    Counted 0 (Daemon.refuseWaiting key fuel d) := by
  have hcut : ∀ p ∈ Daemon.refuseCuts key fuel d, p ∈ Daemon.refuseCuts key fuel d :=
    fun _ hp => hp
  have hall := Daemon.refuseWaiting_rule (J := fun d => Counted 0 d ∧
    ∀ c ∈ d.clients.list, c.pendingCreateEnv = key → c.hasKid → c.Installing) ?_ fuel ?_ hcut
    ⟨h, hwho⟩
  · exact hall.1
  · intro d d' hs hd
    rw [hs.list]
    exact ⟨hd.1.still hs, hd.2⟩
  · rintro d c hc hp - ⟨hd, hwho⟩
    have hwait : c.status ≠ .waitForChild := by
      intro hw
      have hinst := hwho c hc hp (by simp [Client.hasKid, hw])
      rcases hinst with h | h <;> simp [h] at hw
    have hended := hd.ended hc 121
    rw [if_neg hwait] at hended
    refine ⟨hended, fun x hx => hwho x ?_⟩
    rw [Daemon.handleEnd_list] at hx
    exact (Records.mem_remove.mp hx).1

/-- Those who wait are answered; nobody with a child must be among them. -/
theorem told (h : Counted 0 d) {key : Str}
    (hwho : ∀ c ∈ d.clients.list, c.pendingCreateEnv = key → c.kids = 0)
    (hlive : ¬ (Daemon.answerWaiting key d.clients.list d).crashed) :
    Counted 0 (Daemon.answerWaiting key d.clients.list d) := by
  have hall := Daemon.answerWaiting_rule
    (J := fun l d => Counted 0 d ∧ ∀ c ∈ l, c.pendingCreateEnv = key → c.kids = 0) ?_ ?_ ?_
    d.clients.list h.nodup (fun _ hx => hx) hlive ⟨h, hwho⟩
  · exact hall.1
  · exact fun hs hd => ⟨hd.1.still hs, hd.2⟩
  · exact fun _ hd => ⟨hd.1, fun x hx => hd.2 x (List.mem_cons_of_mem _ hx)⟩
  · rintro l d c u hp hc ⟨hd, hwho⟩
    have hnone := hwho c List.mem_cons_self hp
    have hfree : ({ c with status := .gotNative, pendingCreateEnv := [] } : Client).kids = 0 := rfl
    exact ⟨(hd.natives key _).put_same hc rfl (hd.piped c hc) (hfree.trans hnone.symm),
      fun x hx => hwho x (List.mem_cons_of_mem _ hx)⟩

theorem created (hk : KeepsKids s e) {key output : Str} (he : e = .createEnvDone key output)
    (hn : EventLoop.next s e = some t) (h : Counted 0 s.daemon) : Counted 0 t.daemon := by
  subst he
  have hkids := hk.created (key, output) rfl
  rcases EventLoop.createEnvDone_next hn with ⟨hsize, k, rfl, heq⟩ | ⟨hsize, hlive, k, hs, heq⟩
  · have hclosed := Daemon.closedEntry_still output hsize
    have hrefused := ((h.natives key _).still hclosed).refused key
      (s.daemon.closedEntry key output).clients.list.length (by
        rw [hclosed.list]
        exact fun c hc hp hkid => (hkids c hc hp hkid).1)
    rw [heq]
    exact hrefused.same rfl rfl fun _ _ hmem => hmem
  · obtain ⟨u, hsized⟩ := Daemon.sizedEntry_still s.daemon key output
    have hentered : Counted 0 (s.daemon.enter key (s.daemon.outcome key output).1
        (s.daemon.outcome key output).2 u) := h.same rfl rfl fun _ _ hmem => hmem
    have hready := ((hentered.still hsized).cut (s.daemon.outcome key output).1).still hs
    have hlist : k.clients.list = s.daemon.clients.list := by
      rw [hs.list, (Daemon.checkCacheSize_frame _).clients, hsized.list]
      rfl
    rw [heq] at hlive ⊢
    apply hready.told _ hlive
    rw [hlist]
    intro c hc hp
    apply kids_eq_zero
    by_contra hkid
    exact hsize (hkids c hc hp (by simpa using hkid)).2

theorem same_kids {c₁ : Client} (h : c.Same c₁) : c₁.kids = c.kids := by
  unfold Client.kids Client.hasKid
  rcases h.status with hsame | ⟨hinst, hinst₁⟩
  · simp only [Client.Installing, hsame, h.childPid]
  · have hwait : ∀ x : Client, x.Installing → x.status ≠ .waitForChild := by
      rintro x (hx | hx) <;> simp [hx]
    simp only [hwait c hinst, hwait c₁ hinst₁, hinst, hinst₁, h.childPid]

theorem accept {lost : ℕ} (h : Counted lost d) (hv : Valid d) {place : ℕ} (fd protocol : ℕ)
    (hid : d.newClientId + 1 < 2 ^ 31) (hplace : place ≤ d.clients.list.length) :
    Counted lost (d.addClient place fd protocol) := by
  have hv' := hv.accept place fd protocol hid hplace
  have hperm := List.perm_insertIdx
    ({ clientId := d.newClientId + 1, fd := fd, protocol := protocol } : Client)
    d.clients.list hplace
  constructor
  · exact hv'.nodup
  · have hle := hv'.length_le
    have hsmall := hv'.small
    omega
  · intro c hc
    rcases List.mem_cons.mp (hperm.mem_iff.mp hc) with rfl | hc
    · simp
    · exact h.piped c hc
  · have hsum := (hperm.map Client.kids).sum_eq
    rw [List.map_cons, List.sum_cons] at hsum
    have hcount := h.count
    change d.currentKids.toNat = ((d.clients.list.insertIdx place
      { clientId := d.newClientId + 1, fd := fd, protocol := protocol }).map Client.kids).sum + lost
    rw [hsum, hcount]
    simp [Client.kids, Client.hasKid, Client.Installing]
  · exact h.positive

theorem upkeep (hk : KeepsKids s e) (hidle : ∀ p ∈ s.attends e, p.1.status ≠ .waitForChild)
    (hv : Valid s.daemon) : Upkeep (Counted 0) s e where
  still := still
  cut _ h := h.cut _
  leave hc hinst hchild h := h.gone hc (leaves hk hidle hinst hchild)
  stop hc hinst h := h.stop hc hinst
  keep hc hsame h := h.put_same hc hsame.clientId
    (by rw [hsame.pipeFromChild, hsame.childPid]; exact h.piped _ hc) (same_kids hsame)
  turn hturn hc hmoves h := h.put_same hc hmoves.clientId
    (by rw [hmoves.pipeFromChild, hmoves.childPid]; exact h.piped _ hc)
    ((kids_of_free hmoves.free).trans (turned hk hidle hturn).symm)
  install _ _ _ _ h := h.same rfl rfl fun _ _ hmem => hmem
  start ha hopen hok hc h := h.give hc rfl (by simp [Client.transferring])
    (kids_eq_zero (attended hk hidle ha hopen hok)) rfl
  answer {d c m t} hreq hc h := by
    have htold : ({ c with status := .gotNative, pendingCreateEnv := [] } : Client).kids = 0 := rfl
    exact (h.natives _ _).put_same hc rfl (h.piped c hc)
      (htold.trans (requested hk hidle hreq).symm)
  refuse hreq hc h := (h.natives _ _).gone hc (requested hk hidle hreq)
  stale _ _ _ h := h.forgetNative _
  create {d c m times} hreq _ hc h := by
    have hwaits : (c.creating (Daemon.keyFor c m)).kids = 0 := rfl
    have hsame := hwaits.trans (requested hk hidle hreq).symm
    have hid : (c.creating (Daemon.keyFor c m)).clientId = c.clientId := rfl
    have hput := h.put_same hc hid (h.piped c hc) hsame
    exact hput.same rfl rfl fun _ _ hmem => hmem
  used h := h.same rfl rfl fun _ _ hmem => hmem
  removed h := h.forgetReceived _
  fork _ hc hto h := h.give hc rfl (by simp) (kids_of_free (by simp [hto, Status.free])) rfl
  compiled hc hwait _ h := h.compiled hc hwait
  unpacked hc hinst hpipe h := h.unpacked hc hinst hpipe
  created he _ hn h := created hk he hn h
  clear h := h.clear
  accept place fd protocol hid hplace h := h.accept hv fd protocol hid hplace

theorem init (h : s.Init) : Counted 0 s.daemon where
  nodup := by simp [h.clients]
  small := by simp [h.clients]
  piped := by simp [h.clients]
  count := by simp [h.clients, h.currentKids]
  positive := by simp [h.log]

theorem sound (h : Counted 0 d) : Children d where
  count := by
    rw [Daemon.children_eq_sum]
    exact h.count
  positive := h.positive

end Counted

namespace Children

variable {s : EventLoop}

/-- In a run that forgets no child, the counter is the number of clients with one. -/
theorem children_counted (h : EventLoop.system.Reaches KeepsKids s) : Children s.daemon := by
  have hinv : s.Reading ∧ Counted 0 s.daemon := by
    apply h.invariant
    · intro s hs
      exact ⟨EventLoop.reading_init hs, Counted.init hs⟩
    · intro s e t hinv hk hn
      obtain ⟨hreading, hcounted⟩ := hinv
      exact ⟨EventLoop.reading_step hreading (EventLoop.next_step hn),
        (Counted.upkeep hk hreading.attends hreading.1).step hn hcounted⟩
  exact hinv.2.sound

/-- A client that asks for a server and has its own file compiled here, once its child
is running -/
def compiling : List Event :=
  [.reconnect (some (44, str "s"))] ++ EventLoop.polling 0 ++
    EventLoop.accepting 7 [.getCS { lang := 0 }, .compileFile { language := 0 }] ++
    [.passDone, .reconnect none, .oldRequest] ++ EventLoop.polling 1

/-- A client whose environment is being unpacked, when the end of the transfer is read
before the poll -/
def installing : List Event :=
  [.reconnect none] ++ EventLoop.polling 0 ++
    [.accept 0 7 45, .clientMsg (some (.transferEnv ⟨str "n", str "x"⟩))
      (some (.fileChunk ⟨[], 0, 0⟩))] ++ EventLoop.again ++
    [.oldRequest, .collect (some (some .endMsg)) none, .collect none none, .poll .ready]

theorem children_counted_compiling : ∃ s, EventLoop.system.Reaches KeepsKids s ∧
    s.daemon.currentKids = 1 ∧ Children s.daemon := by
  have hrun : (EventLoop.system.run KeepsKids (EventLoop.started (fun _ => 2 ^ 40) 4)
      compiling).map (fun s => s.daemon.currentKids) = some 1 := by decide +kernel
  obtain ⟨s, hs, hkids⟩ := Option.map_eq_some_iff.mp hrun
  have hreach := (Transition.System.Reaches.init (EventLoop.started_init _ 4)).run hs
  exact ⟨s, hreach, hkids, children_counted hreach⟩

/-- The scheduler's answer takes the client from its compile child, and a CompileFile that
follows the end of a transfer takes it from the child that unpacks: both stay counted. -/
theorem children_miscounted :
    (∃ s, EventLoop.system.Reachable s ∧ ¬ Children s.daemon ∧
      s.daemon.clients.list.map Client.status = [.waitCompile]) ∧
    ∃ s, EventLoop.system.Reachable s ∧ ¬ Children s.daemon ∧
      s.daemon.clients.list.map Client.status = [.toCompile] := by
  have hlost : ∀ (answer : ℕ → ℕ) (es : List Event) (status : Status),
      (EventLoop.system.exec (EventLoop.started answer 4) es).map (fun s =>
        (s.daemon.currentKids, s.daemon.children, s.daemon.clients.list.map Client.status)) =
        some (1, 0, [status]) →
      ∃ s, EventLoop.system.Reachable s ∧ ¬ Children s.daemon ∧
        s.daemon.clients.list.map Client.status = [status] := by
    intro answer es status hrun
    obtain ⟨s, hs, hstate⟩ := Option.map_eq_some_iff.mp hrun
    simp only [Prod.mk.injEq] at hstate
    obtain ⟨hcurrent, hchildren, hstatus⟩ := hstate
    have hreach := (Transition.System.Reaches.init (EventLoop.started_init answer 4)).exec
      (fun _ _ _ => trivial) hs
    refine ⟨s, hreach, fun h => ?_, hstatus⟩
    have hcount := h.count
    rw [hcurrent, hchildren] at hcount
    exact absurd hcount (by decide)
  constructor
  · exact hlost (fun _ => 2 ^ 40)
      (compiling ++ [.schedulerMsg (some (.useCS ⟨1, str "h", 1, str "x", 0, 1, 0⟩))])
      .waitCompile (by decide +kernel)
  · exact hlost (fun _ => 1) (installing ++ EventLoop.sending [.compileFile { language := 0 }])
      .toCompile (by decide +kernel)

end Children

end Icecream.Iceccd
