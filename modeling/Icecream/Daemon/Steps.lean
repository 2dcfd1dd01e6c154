import Icecream.Daemon.Calls

/-!
# The step rule

What an invariant of the daemon has to survive in one step of the event loop, and the
first invariant: every client has an id of its own.
-/

namespace Icecream.Iceccd

open Icecream.Comm

/-- `clients` and the tables as the loop finds them. -/
structure Valid (d : Daemon) : Prop where
  nodup : (d.clients.list.map Client.clientId).Nodup
  bound : ∀ c ∈ d.clients.list, 0 < c.clientId ∧ c.clientId ≤ d.newClientId
  small : d.newClientId < 2 ^ 31
  keyed : [] ∉ d.nativeEnvironments

/-- The answer of the scheduler that an event brings to client `c`. -/
inductive Answers (d : Daemon) (c : Client) (jobId : UInt32) : Msg → Prop
  | useCS {m : UseCSMsg} : d.clients.findByClientId m.clientId = some c → m.jobId = jobId →
      Answers d c jobId (.useCS m)
  | noCS {m : NoCSMsg} : d.clients.findByClientId m.clientId = some c → m.jobId = jobId →
      Answers d c jobId (.noCS m)

/-- The client that an answer of the scheduler is for. -/
def EventLoop.answered (s : EventLoop) : Event → Option Client
  | .schedulerMsg (some (.useCS m)) => s.daemon.clients.findByClientId m.clientId
  | .schedulerMsg (some (.noCS m)) => s.daemon.clients.findByClientId m.clientId
  | _ => none

theorem Answers.answered {s : EventLoop} {c : Client} {jobId : UInt32} {m : Msg}
    (h : Answers s.daemon c jobId m) : s.answered (.schedulerMsg (some m)) = some c := by
  cases h with
  | useCS hc _ => exact hc
  | noCS hc _ => exact hc

/-- The key of a native environment that has been created. -/
def Event.creates : Event → Option Str
  | .createEnvDone key output => if output = [] then none else some key
  | _ => none

/-- The id of the job that an answer is about. -/
inductive Concerns (jobId : UInt32) : Msg → Prop
  | useCS {m : UseCSMsg} : m.jobId = jobId → Concerns jobId (.useCS m)
  | noCS {m : NoCSMsg} : m.jobId = jobId → Concerns jobId (.noCS m)

/-- The obligations of an invariant at event `e`. -/
structure Steps (I : Daemon → Prop) (s : EventLoop) (e : Event) : Prop where
  stable : Stable I
  stray {d d' : Daemon} : ¬ s.Careful e → Stray d d' → I d → I d'
  reconnect {found : Option (ℕ × Str)} : e = .reconnect found → I s.daemon →
    I (s.daemon.reconnect found)
  link {c : Client} : e = .oldRequest → s.daemon.StartsLink c → I s.daemon →
    I (s.daemon.working c (s.daemon.weight c))
  pending {c : Client} : e = .oldRequest → s.daemon.StartsPending c → I s.daemon →
    I (s.daemon.working c 1)
  compile {c : Client} : e = .oldRequest → s.daemon.StartsCompile c → I s.daemon →
    I (s.daemon.put { c with status := .waitForChild, pipeFromChild := true, childPid := true })
  message {c : Client} {m : Msg} : s.handles e = some (c, m) → c ∈ s.daemon.clients.list →
    I s.daemon → Survives I s.daemon c m
  heard {m : Msg} : e = .schedulerMsg (some m) → I s.daemon →
    I (s.daemon.note (.fromScheduler m))
  assign {c c₁ : Client} {jobId : UInt32} {m : Msg} : e = .schedulerMsg (some m) →
    c ∈ s.daemon.clients.list → Answers s.daemon c jobId m → Daemon.Assigned c jobId c₁ →
    I (s.daemon.note (.fromScheduler m)) → I ((s.daemon.note (.fromScheduler m)).put c₁)
  returned {d' : Daemon} {jobId : UInt32} {m : Msg} : Concerns jobId m →
    Frame ((s.daemon.note (.fromScheduler m)).Returned jobId) (s.daemon.note (.fromScheduler m)) d' →
    I (s.daemon.note (.fromScheduler m)) → I d'
  fresh {d : Daemon} : d.clients.list = [] → I d →
    I { d with currentKids := 0, fd2client := [], newClientId := 0 }
  accept (place fd protocol : ℕ) : s.daemon.clients.findByFd fd = none →
    s.daemon.newClientId + 1 < 2 ^ 31 → place ≤ s.daemon.clients.list.length → I s.daemon →
    I (s.daemon.addClient place fd protocol)
  compiled {c : Client} : c ∈ s.daemon.clients.list → c.status = .waitForChild → I s.daemon →
    I (s.daemon.put { c with pipeFromChild := false })
  installed {c c₁ : Client} : c ∈ s.daemon.clients.list →
    c.status = .toInstall ∨ c.status = .waitInstall → c.Transferring c₁ → I s.daemon →
    I (s.daemon.put c₁)
  created {d : Daemon} {c c₁ : Client} {key output : Str} : e = .createEnvDone key output →
    key ≠ [] → output ≠ [] → c ∈ s.daemon.clients.list → c ∈ d.clients.list →
    c.pendingCreateEnv = key → c.Creating c₁ → I d → I (d.put c₁)

namespace Steps

variable {I : Daemon → Prop} {s t : EventLoop} {e : Event}

theorem oldRequest (h : Steps I s e) {d' : Daemon} (he : e = .oldRequest)
    (ho : Daemon.OldRequest s.daemon d') (hd : I s.daemon) : I d' := by
  cases ho with
  | kept hf => exact h.stable.aside hf hd
  | ended x hc hf =>
    apply h.stable.ended x trivial _ (h.stable.aside hf hd)
    rwa [hf.clients]
  | link hstart hf => exact h.stable.aside hf (h.link he hstart hd)
  | pending hstart hf => exact h.stable.aside hf (h.pending he hstart hd)
  | compile hstart hf => exact h.stable.aside hf (h.compile he hstart hd)

theorem findByClientId_mem {d : Daemon} {id : UInt32} {c : Client}
    (h : d.clients.findByClientId id = some c) : c ∈ d.clients.list :=
  List.mem_of_find?_eq_some h

theorem handleScheduler (h : Steps I s e) {m : Msg} (he : e = .schedulerMsg (some m))
    (hd : I s.daemon) : I (s.daemon.handleScheduler m).1 := by
  have hheard := h.heard he hd
  have hid : ∀ {c : Client} {jobId : UInt32} (c₁ : Client), Daemon.Assigned c jobId c₁ →
      c₁.clientId = c.clientId := fun _ hR => hR.clientId
  unfold Daemon.handleScheduler
  cases m with
  | ping =>
    dsimp only
    split
    · exact h.stable.aside (Daemon.sendScheduler_aside _ fun _ => rfl) hheard
    · exact hheard
  | useCS m =>
    dsimp only
    cases hfind : (s.daemon.note (.fromScheduler (.useCS m))).clients.findByClientId m.clientId with
    | none => exact h.returned (.useCS rfl) (Daemon.schedulerUseCS_frame hfind) hheard
    | some c =>
      have hmem := findByClientId_mem hfind
      exact h.stable.outcome hid (fun _ hR => h.assign he hmem (.useCS hfind rfl) hR) trivial hmem
        (Daemon.schedulerUseCS_outcome hfind) hheard
  | noCS m =>
    dsimp only
    cases hfind : (s.daemon.note (.fromScheduler (.noCS m))).clients.findByClientId m.clientId with
    | none => exact h.returned (.noCS rfl) (Daemon.schedulerNoCS_frame hfind) hheard
    | some c =>
      have hmem := findByClientId_mem hfind
      exact h.stable.outcome hid (fun _ hR => h.assign he hmem (.noCS hfind rfl) hR) trivial hmem
        (Daemon.schedulerNoCS_outcome hfind) hheard
  | getInternals =>
    exact h.stable.aside (Frame.asked.trans (Daemon.sendScheduler_aside _ fun _ => rfl)) hheard
  | csConf m => exact h.stable.aside (Daemon.handleCsConf_frame m) hheard
  | _ => exact hheard

/-- The step rule. -/
theorem step (h : Steps I s e) (hv : Valid s.daemon) (hs : EventLoop.step s e = some t)
    (hd : I s.daemon) : I t.daemon := by
  have hcall := EventLoop.step_call hs
  generalize t.daemon = d' at hcall ⊢
  cases hcall with
  | aside hf => exact h.stable.aside hf hd
  | reconnect found he => exact h.reconnect he hd
  | oldRequest he hf => exact h.stable.aside hf (h.oldRequest he Daemon.handleOldRequest_cases hd)
  | message c m next hm hc hf heq =>
    have hhandled := h.stable.message (h.message hm hc hd) next trivial hc hd
    by_cases hcareful : s.Careful e
    · rwa [heq hcareful]
    · exact h.stray hcareful hf hhandled
  | hangup c hc hf heq =>
    have hreq := Aside.require (d := s.daemon) (a := .activityStatus)
      (b := (c.status ≠ .toCompile ∧ c.status ≠ .waitInstall)) rfl
    have hended : I (s.daemon.handleActivity c none none).1 := by
      apply h.stable.ended 118 trivial _ (h.stable.aside hreq hd)
      rwa [hreq.clients]
    by_cases hcareful : s.Careful e
    · rwa [heq hcareful]
    · exact h.stray hcareful hf hended
  | scheduler m he hf => exact h.stable.aside hf (h.handleScheduler he hd)
  | clear hf => exact h.stable.clearChildren (fun _ => h.fresh) (h.stable.aside hf hd)
  | accept place fd protocol hfd hid hplace => exact h.accept place fd protocol hfd hid hplace hd
  | compileDone c stat hc hstatus =>
    apply h.stable.outcome _ _ trivial hc (Daemon.handleCompileDone_outcome stat) hd
    · rintro c₁ rfl
      rfl
    · rintro c₁ rfl
      exact h.compiled hc hstatus
  | installDone c success hc hstatus =>
    exact h.stable.outcome (fun _ hR => hR.clientId) (fun _ hR => h.installed hc hstatus hR) trivial hc
      (Daemon.handleEnvInstallChildDone_outcome success hstatus) hd
  | createEnvDone key output he hkey hf =>
    have hne : key ≠ [] := by
      rintro rfl
      exact hv.keyed hkey
    apply h.stable.aside hf
    have hstray : ¬ s.daemon.Tells key output →
        ∀ {d d' : Daemon}, Stray d d' → I d → I d' := by
      intro hnot d d'
      apply h.stray
      rwa [he, EventLoop.Careful]
    exact h.stable.createEnvFinished (G := fun c => c ∈ s.daemon.clients.list ∧ output ≠ []) hne
      output hstray (fun hc hp hG hR => h.created he hne hG.2 hG.1 hc hp hR) hv.nodup
      (fun c hc hout _ => ⟨hc, hout⟩) hd

end Steps

/-! ## Every client has an id of its own -/

namespace Valid

variable {d d' : Daemon}

theorem of_eq (h : Valid d) (hl : d'.clients.list = d.clients.list)
    (hn : d'.newClientId = d.newClientId) (hk : [] ∈ d'.nativeEnvironments → [] ∈ d.nativeEnvironments) :
    Valid d' where
  nodup := by rw [hl]; exact h.nodup
  bound := by rw [hl, hn]; exact h.bound
  small := by rw [hn]; exact h.small
  keyed hkey := h.keyed (hk hkey)

theorem frame {A : Obs → Prop} (hf : Frame A d d') (h : Valid d) : Valid d' :=
  h.of_eq (by rw [hf.clients]) hf.newClientId hf.nativeKey

theorem put (h : Valid d) (c : Client) : Valid (d.put c) where
  nodup := by
    have hkeys : (Records.replace Client.clientId c d.clients.list).map Client.clientId =
        d.clients.list.map Client.clientId := Records.map_key_replace
    simpa only [Daemon.put, hkeys] using h.nodup
  bound x hx := by
    rcases Records.mem_replace.mp hx with ⟨rfl, hkey⟩ | ⟨hx, -⟩
    · obtain ⟨y, hy, hid⟩ := List.mem_map.mp hkey
      have hb := h.bound y hy
      rwa [hid] at hb
    · exact h.bound x hx
  small := h.small
  keyed := h.keyed

theorem leave (h : Valid d) (c : Client) : Valid (d.leave c) := by
  have herase : Valid (d.erase c) :=
    { nodup := by
        have hkeys : (Records.remove Client.clientId c.clientId d.clients.list).map
            Client.clientId = (d.clients.list.map Client.clientId).filter (· ≠ c.clientId) :=
          Records.map_key_remove
        simpa only [Daemon.erase, hkeys] using h.nodup.filter _
      bound := fun x hx => h.bound x (Records.mem_remove.mp hx).1
      small := h.small
      keyed := h.keyed }
  unfold Daemon.leave
  dsimp only
  split
  · exact herase.of_eq rfl rfl fun hk => hk
  · exact herase.of_eq rfl rfl fun hk => hk

theorem stable : Stable Valid where
  aside hf h := h.frame hf
  ended x _ _ h := (h.leave _).frame (Daemon.handleEnd_frame _ x)

theorem require (h : Valid d) (a : Assertion) (b : Bool) : Valid (d.require a b) := by
  unfold Daemon.require
  split
  · exact h
  · exact h.of_eq rfl rfl fun hk => hk

theorem handleJobDone (h : Valid d) (c : Client) (m : JobDoneMsg) :
    Valid (d.handleJobDone c m).1 := by
  apply Valid.frame (Daemon.handleJobDone_frame m)
  apply Valid.put
  apply Valid.require
  split
  · exact h.of_eq rfl rfl fun hk => hk
  · exact h

theorem working (h : Valid d) (c : Client) (n : UInt32) : Valid (d.working c n) :=
  (h.put _).of_eq rfl rfl fun hk => hk

theorem survives (d : Daemon) (c : Client) (m : Msg) : Survives Valid d c m where
  transfer _ _ _ h := h.put _
  create _ _ _ _ h := h.put _
  environment _ _ h := h.require _ _
  compile _ _ _ h := h.put _
  ask _ _ _ _ _ h := h.put _
  link _ _ _ h := h.put _
  done _ _ _ _ h := h.handleJobDone c _

theorem reconnect (h : Valid d) (found : Option (ℕ × Str)) : Valid (d.reconnect found) := by
  rcases Daemon.reconnect_cases (d := d) found with heq | ⟨-, protocol, name, -, hf⟩
  · rwa [heq]
  · apply Valid.frame hf
    exact h.of_eq rfl rfl fun hk => hk

theorem accept (h : Valid d) (place fd protocol : ℕ) (hid : d.newClientId + 1 < 2 ^ 31)
    (hplace : place ≤ d.clients.list.length) : Valid (d.addClient place fd protocol) := by
  have hperm := List.perm_insertIdx
    ({ clientId := d.newClientId + 1, fd := fd, protocol := protocol } : Client)
    d.clients.list hplace
  exact
    { nodup := by
        apply ((hperm.map Client.clientId).nodup_iff).mpr
        simp only [List.map_cons, List.nodup_cons, List.mem_map]
        constructor
        · rintro ⟨x, hx, hxid⟩
          have hb := (h.bound x hx).2
          omega
        · exact h.nodup
      bound := by
        intro x hx
        rcases List.mem_cons.mp (hperm.mem_iff.mp hx) with rfl | hx
        · exact ⟨Nat.succ_pos _, le_rfl⟩
        · obtain ⟨hpos, hle⟩ := h.bound x hx
          exact ⟨hpos, Nat.le_succ_of_le hle⟩
      small := hid
      keyed := h.keyed }

theorem steps (s : EventLoop) (e : Event) : Steps Valid s e where
  stable := stable
  stray _ hf h := h.frame hf
  reconnect _ h := h.reconnect _
  link _ _ h := h.working _ _
  pending _ _ h := h.working _ _
  compile _ _ h := h.put _
  message _ _ _ := survives _ _ _
  heard _ h := h.of_eq rfl rfl fun hk => hk
  assign _ _ _ _ h := h.put _
  returned _ hf h := h.frame hf
  fresh hl h := ⟨h.nodup, by simp [hl], by simp, h.keyed⟩
  accept place fd protocol _ hid hplace h := h.accept place fd protocol hid hplace
  compiled _ _ h := h.put _
  installed _ _ _ h := h.put _
  created _ _ _ _ _ _ _ h := h.put _

end Valid

theorem EventLoop.valid_init {s : EventLoop} (h : s.Init) : Valid s.daemon where
  nodup := by rw [h.clients]; exact List.nodup_nil
  bound := by rw [h.clients]; simp
  small := by rw [h.newClientId]; decide
  keyed := by rw [h.native]; exact AList.notMem_empty _

theorem EventLoop.valid_step {s t : EventLoop} {e : Event} (h : Valid s.daemon)
    (hs : EventLoop.next s e = some t) : Valid t.daemon :=
  (Valid.steps s e).step h (EventLoop.next_step hs) h

end Icecream.Iceccd
