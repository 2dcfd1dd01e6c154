import Icecream.Daemon.Changes
import Icecream.Daemon.Transitions

/-!
# The calls of the event loop

Each step of the loop is one call of a handler. An invariant of the daemon is checked
for these calls, by the changes of records they come to.
-/

namespace Icecream.Iceccd

open Icecream.Comm

namespace Daemon

variable {d d' : Daemon} {c : Client}

theorem leave_list (c : Client) : (d.leave c).clients.list =
    Records.remove Client.clientId c.clientId d.clients.list := by
  unfold leave
  dsimp only
  split <;> rfl

theorem release_log (n : UInt32) :
    ∃ l, (d.release n).log = l ++ d.log ∧ ∀ o ∈ l, o = .wrapped := by
  by_cases hwrap : d.clients.activeProcesses < n
  · exact ⟨[.wrapped], if_pos hwrap, by simp⟩
  · exact ⟨[], if_neg hwrap, by simp⟩

theorem leave_log (c : Client) : ∃ l, (d.leave c).log = l ++ d.log ∧
    ∀ o ∈ l, o = .wrapped ∨ o = .ended c.status c.jobId := by
  unfold leave
  dsimp only [erase]
  split
  · obtain ⟨l, hl, hwrapped⟩ := release_log (d := (d.note (.ended c.status c.jobId)).dropFd c.fd)
      (((d.note (.ended c.status c.jobId)).dropFd c.fd).weight c)
    use l ++ [.ended c.status c.jobId]
    constructor
    · rw [hl]
      simp [note, dropFd]
    · intro o ho
      rcases List.mem_append.mp ho with ho | ho
      · exact Or.inl (hwrapped o ho)
      · exact Or.inr (List.mem_singleton.mp ho)
  · exact ⟨[.ended c.status c.jobId], rfl, by simp⟩

theorem handleEnd_list (c : Client) (x : Int32) : (d.handleEnd c x).clients.list =
    Records.remove Client.clientId c.clientId d.clients.list := by
  rw [(handleEnd_frame c x).clients, leave_list]

theorem mem_put {c₁ : Client} (hc : c ∈ d.clients.list) (hid : c₁.clientId = c.clientId) :
    c₁ ∈ (d.put c₁).clients.list :=
  Records.mem_replace.mpr (.inl ⟨rfl, List.mem_map.mpr ⟨c, hc, hid.symm⟩⟩)

end Daemon

open Daemon in
theorem Outcome.mem_other {R : Client → Prop} {d d' : Daemon}
    {c x : Client} (h : Outcome R d c d')
    (hid : ∀ c₁, R c₁ → c₁.clientId = c.clientId) (hx : x ∈ d.clients.list)
    (hne : x.clientId ≠ c.clientId) : x ∈ d'.clients.list := by
  have hput : ∀ c₁, R c₁ → x ∈ (d.put c₁).clients.list := fun c₁ hR =>
    Records.mem_replace.mpr (.inr ⟨hx, by rwa [hid c₁ hR]⟩)
  cases h with
  | kept h => rwa [h.clients]
  | ended y h =>
    rw [handleEnd_list, h.clients]
    exact Records.mem_remove.mpr ⟨hx, hne⟩
  | changed h hR =>
    rw [h.clients]
    exact hput _ hR
  | changedEnded y h hR =>
    rw [handleEnd_list, h.clients]
    exact Records.mem_remove.mpr ⟨hput _ hR, by rwa [hid _ hR]⟩

/-! ## Invariants of the daemon -/

namespace Daemon

/-- Everybody in `l` who waits for `key` can be sent the answer. -/
def Answered (d : Daemon) (key : Str) (l : List Client) : Prop :=
  ∀ i < l.countP fun c => c.pendingCreateEnv = key, d.host.answer (d.calls + i) ≠ 0

instance (d : Daemon) (key : Str) (l : List Client) : Decidable (d.Answered key l) :=
  inferInstanceAs (Decidable (∀ i < _, _))

/-- Nothing was created, or all who wait for it can be told. -/
def Tells (d : Daemon) (key output : Str) : Prop :=
  let r := d.finishCreateEnv (d.native key).name output
  let env := { d.native key with name := r.1, createEnvPipe := false }
  let e := ((d.requireNative key).addNative key env r.2).keepNative key env r.2
  r.2 = 0 ∨ e.Answered key e.clients.list

instance (d : Daemon) (key output : Str) : Decidable (d.Tells key output) :=
  inferInstanceAs (Decidable (_ ∨ _))

theorem Answered.head {d : Daemon} {c : Client} {key : Str} {rest : List Client}
    (h : d.Answered key (c :: rest)) (hp : c.pendingCreateEnv = key) : d.ask ≠ 0 := by
  apply h 0
  rw [List.countP_cons_of_pos (by simpa using hp)]
  omega

theorem Answered.tail {d : Daemon} {c : Client} {key : Str} {rest : List Client}
    (h : d.Answered key (c :: rest)) (hp : c.pendingCreateEnv = key) (hask : d.ask ≠ 0) :
    (d.finishGetNativeEnv c key).1.Answered key rest := by
  have hanswered : (d.finishGetNativeEnv c key).2 = true ∧ _ := finishGetNativeEnv_answered hask
  obtain ⟨-, hcalls, hhost⟩ := hanswered
  intro i hi
  rw [hcalls, hhost, add_assoc, add_comm 1]
  apply h
  rw [List.countP_cons_of_pos (by simpa using hp)]
  omega

end Daemon

/-- What helpers and the end of one of certain clients preserve. -/
structure Stable (I : Daemon → Prop) (who : ℕ → Prop := fun _ => True) : Prop where
  aside {d d' : Daemon} : Aside d d' → I d → I d'
  ended {d : Daemon} {c : Client} (x : Int32) : who c.clientId → c ∈ d.clients.list → I d →
    I (d.handleEnd c x)

namespace Stable

open Daemon

variable {I : Daemon → Prop} {who : ℕ → Prop} {d d' : Daemon} {c : Client}

theorem outcome (hI : Stable I who) {R : Client → Prop}
    (hid : ∀ c₁, R c₁ → c₁.clientId = c.clientId) (hput : ∀ c₁, R c₁ → I d → I (d.put c₁))
    (hwho : who c.clientId) (hc : c ∈ d.clients.list) (ho : Outcome R d c d') (hd : I d) :
    I d' := by
  cases ho with
  | kept h => exact hI.aside h hd
  | ended x h =>
    have hmem := hc
    rw [← h.clients] at hmem
    exact hI.ended x hwho hmem (hI.aside h hd)
  | changed h hR => exact hI.aside h (hput _ hR hd)
  | changedEnded x h hR =>
    have hmem := mem_put hc (hid _ hR)
    rw [← h.clients] at hmem
    rw [← hid _ hR] at hwho
    exact hI.ended x hwho hmem (hI.aside h (hput _ hR hd))

theorem refuseWaiting (hI : Stable I) (key : Str) (fuel : ℕ) (hd : I d) :
    I (Daemon.refuseWaiting key fuel d) := by
  induction fuel generalizing d with
  | zero => exact hd
  | succ fuel ih =>
    unfold Daemon.refuseWaiting
    split
    · exact hd
    · rename_i c hfind
      have hsent := sendClient_frame (d := d) c .endMsg
      have hmem : c ∈ (d.sendClient c .endMsg).1.clients.list := by
        rw [hsent.clients]
        exact List.mem_of_find?_eq_some hfind
      exact ih (hI.ended 121 trivial hmem (hI.aside hsent hd))

/-- `G` is what is known of the clients that are answered. -/
theorem answerWaiting (hI : Stable I) {key : Str} (hkey : key ≠ []) {G : Client → Prop}
    (l : List Client) (hstray : ¬ d.Answered key l → ∀ {d d' : Daemon}, Stray d d' → I d → I d')
    (hput : ∀ {d : Daemon} {c c₁ : Client}, c ∈ d.clients.list → c.pendingCreateEnv = key → G c →
      c.Creating c₁ → I d → I (d.put c₁))
    (hnd : (l.map Client.clientId).Nodup)
    (hl : ∀ x ∈ l, x ∈ d.clients.list ∧ (x.pendingCreateEnv = key → G x)) (hd : I d) :
    I (Daemon.answerWaiting key l d) := by
  induction l generalizing d with
  | nil => exact hd
  | cons c rest ih =>
    simp only [List.map_cons, List.nodup_cons] at hnd
    obtain ⟨hc, hG⟩ := hl c List.mem_cons_self
    have hrest := fun x hx => hl x (List.mem_cons_of_mem _ hx)
    unfold Daemon.answerWaiting
    dsimp only
    split
    · rename_i hp
      have ho := finishGetNativeEnv_outcome (d := d) (c := c) hkey
      have hcreated := hI.outcome (fun _ h => h.clientId)
        (fun _ h => hput hc hp (hG hp) h) trivial hc ho hd
      have hother : ∀ x ∈ rest, x ∈ (d.finishGetNativeEnv c key).1.clients.list := by
        intro x hx
        apply ho.mem_other (fun _ h => h.clientId) (hrest x hx).1
        intro heq
        apply hnd.1
        rw [← heq]
        exact List.mem_map_of_mem hx
      have hleft := fun x hx => And.intro (hother x hx) (hrest x hx).2
      by_cases hask : d.ask ≠ 0
      · have htrue : (d.finishGetNativeEnv c key).2 = true := (finishGetNativeEnv_answered hask).1
        rw [if_pos htrue]
        exact ih (fun hnot => hstray fun hall => hnot (hall.tail hp hask)) hnd.2 hleft hcreated
      · -- the answer to `c` fails
        have hnow : ∀ {d d' : Daemon}, Stray d d' → I d → I d' :=
          hstray fun hall => hask (hall.head hp)
        apply ih (fun _ => hnow) hnd.2
        · intro x hx
          split
          · exact hleft x hx
          · exact hleft x hx
        · split
          · exact hcreated
          · exact hnow (Stray.read.trans .crash) hcreated
    · rename_i hp
      apply ih _ hnd.2 hrest hd
      intro hnot
      apply hstray
      rwa [Daemon.Answered, List.countP_cons_of_neg (by simpa using hp)]

theorem createEnvFinished (hI : Stable I) {key : Str} (hkey : key ≠ []) {G : Client → Prop}
    (output : Str)
    (hstray : ¬ d.Tells key output → ∀ {d d' : Daemon}, Stray d d' → I d → I d')
    (hput : ∀ {d : Daemon} {c c₁ : Client}, c ∈ d.clients.list → c.pendingCreateEnv = key → G c →
      c.Creating c₁ → I d → I (d.put c₁))
    (hnd : (d.clients.list.map Client.clientId).Nodup)
    (hG : ∀ c ∈ d.clients.list, output ≠ [] → c.pendingCreateEnv = key → G c) (hd : I d) :
    I (d.createEnvFinished key output).1 := by
  unfold Daemon.createEnvFinished
  dsimp only
  have hadded : ∀ env size, Aside d ((d.requireNative key).addNative key env size) :=
    fun env size => requireNative_frame.trans (addNative_frame hkey env size)
  split
  · exact hI.refuseWaiting key _ (hI.aside (hadded _ _) hd)
  · rename_i hsize
    have hout : output ≠ [] := by
      rintro rfl
      exact hsize rfl
    have hready := (hadded { d.native key with
        name := (d.finishCreateEnv (d.native key).name output).1, createEnvPipe := false }
      (d.finishCreateEnv (d.native key).name output).2).trans (keepNative_frame hkey
        { d.native key with
          name := (d.finishCreateEnv (d.native key).name output).1, createEnvPipe := false }
        (d.finishCreateEnv (d.native key).name output).2)
    have hfails : ∀ (l : List Client) (e : Daemon), (d.Tells key output ↔ e.Answered key l) →
        ¬ e.Answered key l → ∀ {d d' : Daemon}, Stray d d' → I d → I d' :=
      fun l e hiff hnot => hstray fun htells => hnot (hiff.mp htells)
    apply hI.answerWaiting hkey _ (hfails _ _ (or_iff_right hsize)) hput
    · rw [hready.clients]
      exact hnd
    · intro x hx
      constructor
      · exact hx
      · rw [hready.clients] at hx
        exact hG x hx hout
    · exact hI.aside hready hd

theorem endAll (hI : Stable I) (fuel : ℕ) (hd : I d) : I (Daemon.endAll fuel d) := by
  induction fuel generalizing d with
  | zero => exact hd
  | succ fuel ih =>
    unfold Daemon.endAll
    split
    · exact hd
    · rename_i c rest hl
      have hmem : c ∈ d.clients.list := by
        rw [hl]
        exact List.mem_cons_self
      exact ih (hI.ended 116 trivial hmem hd)

end Stable

theorem Daemon.endAll_list (fuel : ℕ) {d : Daemon} (h : d.clients.list.length ≤ fuel) :
    (Daemon.endAll fuel d).clients.list = [] := by
  induction fuel generalizing d with
  | zero => exact List.length_eq_zero_iff.mp (Nat.le_zero.mp h)
  | succ fuel ih =>
    unfold Daemon.endAll
    split
    · assumption
    · rename_i c rest hl
      apply ih
      have hhead : Records.remove Client.clientId c.clientId (c :: rest) =
          Records.remove Client.clientId c.clientId rest := by simp [Records.remove]
      rw [handleEnd_list, hl, hhead]
      have hle : (Records.remove Client.clientId c.clientId rest).length ≤ rest.length :=
        List.length_filter_le _ _
      rw [hl] at h
      simp only [List.length_cons] at h
      omega

/-- The clients are ended and the counters start again. -/
theorem Stable.clearChildren {I : Daemon → Prop} {d : Daemon} (hI : Stable I)
    (hfresh : ∀ e : Daemon, e.clients.list = [] → I e →
      I { e with currentKids := 0, fd2client := [], newClientId := 0 }) (hd : I d) :
    I d.clearChildren := by
  have hended := hI.endAll d.clients.list.length hd
  have hempty := Daemon.endAll_list d.clients.list.length (d := d) le_rfl
  unfold Daemon.clearChildren
  apply hfresh
  · have hreq := Aside.require (d := Daemon.endAll d.clients.list.length d) (a := .clearedFds)
      (b := (Daemon.endAll d.clients.list.length d).fd2client = []) rfl
    rw [hreq.clients]
    exact hempty
  · exact hI.aside (Aside.require rfl) hended

/-- What `I` has to survive when client `c` sends `m`. -/
structure Survives (I : Daemon → Prop) (d : Daemon) (c : Client) (m : Msg) : Prop where
  transfer {e : Daemon} {c₁ : Client} :
    c.status = .toInstall ∨ (c.status ≠ .toInstall ∧ ∃ r, m = .transferEnv r) →
    e.clients = d.clients → c.Transferring c₁ → I e → I (e.put c₁)
  create {e : Daemon} {c₁ : Client} {r : GetNativeEnvMsg} : m = .getNativeEnv r →
    c.status ≠ .toInstall → e.clients = d.clients → c.Creating c₁ → I e → I (e.put c₁)
  environment {e : Daemon} {job : CompileJob} : m = .compileFile job → e.clients = d.clients → I e →
    I (e.require .compileFileClient
      (c.status = .clientWork → job.environmentVersion = str "__client"))
  compile {e : Daemon} {job : CompileJob} {c₁ : Client} : m = .compileFile job → e.clients = d.clients →
    (c.status = .clientWork ∧ c₁ = { c with job := some job }) ∨
      (c.status ≠ .clientWork ∧ c₁ = { c with job := some job, status := .toCompile }) →
    I e → I (e.put c₁)
  ask {e : Daemon} {c₁ : Client} {r : GetCSMsg} : m = .getCS r → c.status ≠ .toInstall →
    e.clients = d.clients → e.scheduler = d.scheduler → e.Asking c c₁ → I e → I (e.put c₁)
  link {e : Daemon} {r : JobLocalBeginMsg} : m = .jobLocalBegin r → c.status ≠ .toInstall →
    e.clients = d.clients → I e →
    I (e.put { c with
      status := .linkJob, niceness := r.niceness, outfile := r.outfile, fulljob := r.fulljob })
  done {e : Daemon} {r : JobDoneMsg} : m = .jobDone r → c.status ≠ .toInstall →
    e.clients = d.clients → e.scheduler = d.scheduler → I e → I (e.handleJobDone c r).1

theorem Stable.message {I : Daemon → Prop} {who : ℕ → Prop} {d : Daemon} {c : Client} {m : Msg}
    (hI : Stable I who) (h : Survives I d c m) (next : Option Msg) (hwho : who c.clientId)
    (hc : c ∈ d.clients.list) (hd : I d) : I (d.handleActivity c (some m) next).1 := by
  unfold Daemon.handleActivity
  dsimp only
  have hreq := Aside.require (d := d) (a := .activityStatus)
    (b := (c.status ≠ .toCompile ∧ c.status ≠ .waitInstall)) rfl
  have hsched : (d.require .activityStatus
      (c.status ≠ .toCompile ∧ c.status ≠ .waitInstall)).scheduler = d.scheduler := by
    unfold Daemon.require
    split <;> rfl
  have hsame := hreq.clients
  generalize d.require .activityStatus (c.status ≠ .toCompile ∧ c.status ≠ .waitInstall) = e
    at hreq hsched hsame ⊢
  have he := hI.aside hreq hd
  have hce : c ∈ e.clients.list := by rwa [hreq.clients]
  have hunknown : I ((e.sendClient c .endMsg).1.handleEnd c 120) := by
    have hsent := Daemon.sendClient_frame (d := e) c .endMsg
    apply hI.ended 120 hwho _ (hI.aside hsent he)
    rwa [hsent.clients]
  split
  · rename_i hinst
    exact hI.outcome (fun _ hR => hR.clientId) (fun _ hR => h.transfer (.inl hinst) hsame hR)
      hwho hce (Daemon.handleFileChunkEnv_outcome m) he
  · rename_i hopen
    cases m with
    | getNativeEnv r =>
      exact hI.outcome (fun _ hR => hR.clientId) (fun _ hR => h.create rfl hopen hsame hR) hwho hce
        (Daemon.handleGetNativeEnv_outcome r) he
    | compileFile job =>
      have henv := h.environment rfl hsame he
      have hclients : (e.require .compileFileClient
          (c.status = .clientWork → job.environmentVersion = str "__client")).clients =
          d.clients := by
        unfold Daemon.require
        split <;> exact hsame
      apply hI.outcome _ (fun _ hR => h.compile rfl hclients hR) hwho _
        (Daemon.handleCompileFile_outcome job) henv
      · rintro c₁ (⟨-, rfl⟩ | ⟨-, rfl⟩) <;> rfl
      · rwa [hclients]
    | transferEnv r =>
      exact hI.outcome (fun _ hR => hR.clientId) (fun _ hR => h.transfer (.inr ⟨hopen, r, rfl⟩)
        hsame hR) hwho hce (Daemon.handleTransferEnv_outcome r next) he
    | getCS r =>
      exact hI.outcome (fun _ hR => hR.clientId) (fun _ hR => h.ask rfl hopen hsame hsched hR) hwho hce
        (Daemon.handleGetCS_outcome r) he
    | endMsg => exact hI.ended 119 hwho hce he
    | jobLocalBegin r => exact h.link rfl hopen hsame he
    | jobDone r => exact h.done rfl hopen hsame hsched he
    | verifyEnv r => exact hI.aside (Daemon.handleVerifyEnv_frame r) he
    | blacklistHostEnv r => exact hI.aside (Daemon.handleBlacklistHostEnv_frame r) he
    | _ => exact hunknown

/-! ## One step of the loop -/

namespace EventLoop

/-- The message that an event makes a client's handler deal with. -/
def handles (s : EventLoop) (e : Event) : Option (Client × Msg) :=
  match e, s.phase with
  | .collect (some (some m)) _, .collecting (fd :: _) _ _ =>
    (s.daemon.clients.findByFd fd).bind fun c =>
      if c.status = .toCompile ∨ c.status = .waitForChild ∨ c.status = .waitInstall then none
      else some (c, m)
  | .clientMsg (some m) _, .accepted _ fd => (s.daemon.clients.findByFd fd).map fun c => (c, m)
  | .clientMsg (some m) _, .visiting _ _ (fd :: _) fds _ =>
    (s.daemon.clients.findByFd fd).bind fun c =>
      if fd ∈ fds ∧ c.status ≠ .toCompile then some (c, m) else none
  | _, _ => none

/-- An event after which the loop does not look at a client that is gone: a transfer's
buffered message does not end its client when the poll set is filled, and who waits for a
native environment can be told of it. -/
def Careful (s : EventLoop) (e : Event) : Prop :=
  match e, s.phase with
  | .collect (some m) _, .collecting (fd :: _) _ _ => ∀ c ∈ s.daemon.clients.findByFd fd,
      c.status = .toInstall → s.daemon.Continues m
  | .createEnvDone key output, _ => s.daemon.Tells key output
  | _, _ => True

instance (s : EventLoop) (e : Event) : Decidable (s.Careful e) := by
  unfold Careful
  split <;> infer_instance

/-- What an event calls, and the daemon it leaves. -/
inductive Call (s : EventLoop) (e : Event) : Daemon → Prop
  | aside {d' : Daemon} : Aside s.daemon d' → Call s e d'
  | reconnect (found : Option (ℕ × Str)) : e = .reconnect found →
      Call s e (s.daemon.reconnect found)
  | oldRequest {d' : Daemon} : e = .oldRequest → Aside s.daemon.handleOldRequest.1 d' → Call s e d'
  | message (c : Client) (m : Msg) (next : Option Msg) {d' : Daemon} :
      s.handles e = some (c, m) → c ∈ s.daemon.clients.list →
      Stray (s.daemon.handleActivity c (some m) next).1 d' →
      (s.Careful e → d' = (s.daemon.handleActivity c (some m) next).1) → Call s e d'
  | hangup (c : Client) {d' : Daemon} : c ∈ s.daemon.clients.list →
      Stray (s.daemon.handleActivity c none none).1 d' →
      (s.Careful e → d' = (s.daemon.handleActivity c none none).1) → Call s e d'
  | scheduler (m : Msg) {d' : Daemon} : e = .schedulerMsg (some m) →
      Aside (s.daemon.handleScheduler m).1 d' → Call s e d'
  | clear {d₁ : Daemon} : Aside s.daemon d₁ → Call s e d₁.clearChildren
  | accept (place fd protocol : ℕ) : s.daemon.clients.findByFd fd = none →
      s.daemon.newClientId + 1 < 2 ^ 31 →
      place ≤ s.daemon.clients.list.length → Call s e (s.daemon.addClient place fd protocol)
  | compileDone (c : Client) (stat : Option JobStat) : c ∈ s.daemon.clients.list →
      c.status = .waitForChild → Call s e (s.daemon.handleCompileDone c stat).1
  | installDone (c : Client) (success : Bool) : c ∈ s.daemon.clients.list →
      c.status = .toInstall ∨ c.status = .waitInstall →
      Call s e (s.daemon.handleEnvInstallChildDone c success).1
  | createEnvDone (key output : Str) {d' : Daemon} : e = .createEnvDone key output →
      key ∈ s.daemon.nativeEnvironments →
      Aside (s.daemon.createEnvFinished key output).1 d' → Call s e d'

theorem findByFd_mem {d : Daemon} {fd : ℕ} {c : Client} (h : d.clients.findByFd fd = some c) :
    c ∈ d.clients.list :=
  List.mem_of_find?_eq_some h

theorem handleActivity_none (d : Daemon) (c : Client) (next : Option Msg) :
    d.handleActivity c none next = d.handleActivity c none none := rfl

theorem call_activity {s : EventLoop} {e : Event} {c : Client} {m next : Option Msg} {d' : Daemon}
    (hc : c ∈ s.daemon.clients.list) (hm : ∀ m', m = some m' → s.handles e = some (c, m'))
    (h : Stray (s.daemon.handleActivity c m next).1 d')
    (heq : s.Careful e → d' = (s.daemon.handleActivity c m next).1) : Call s e d' := by
  cases m with
  | none =>
    rw [handleActivity_none] at h heq
    exact .hangup c hc h heq
  | some m => exact .message c m next (hm m rfl) hc h heq

theorem findByFd_keeps {d : Daemon} {fd : ℕ} {c : Client} (h : d.clients.findByFd fd = some c) :
    d.Keeps c ∧ c.fd = fd := by
  have hfd := List.find?_some h
  rw [decide_eq_true_eq] at hfd
  exact ⟨⟨c, findByFd_mem h, rfl, rfl⟩, hfd⟩

theorem Keeps.findByFd {d : Daemon} {c : Client} (h : d.Keeps c) :
    ∃ c₁, d.clients.findByFd c.fd = some c₁ := by
  obtain ⟨c₁, hc₁, -, hfd⟩ := h
  rw [← Option.isSome_iff_exists, Clients.findByFd, List.find?_isSome]
  exact ⟨c₁, hc₁, decide_eq_true hfd⟩

theorem collected_frame (d : Daemon) (fd : ℕ) (status : Status) (selected : Bool)
    (todo fds pipes : List ℕ) : Stray d (collected d fd status selected todo fds pipes).daemon := by
  unfold collected
  dsimp only
  split
  · split
    · exact Stray.read
    · exact .refl
  · exact .refl

theorem collected_daemon {d : Daemon} {fd : ℕ} {c : Client} (h : d.clients.findByFd fd = some c)
    (status : Status) (selected : Bool) (todo fds pipes : List ℕ) :
    (collected d fd status selected todo fds pipes).daemon = d := by
  unfold collected
  rw [h]

theorem afterActivity_frame (r : Daemon × Bool) (fd : ℕ) (stay leave : Phase) :
    Stray r.1 (afterActivity r fd stay leave).daemon := by
  unfold afterActivity
  split
  · exact .refl
  · split
    · exact Stray.read
    · exact .refl

theorem afterActivity_phase (r : Daemon × Bool) (fd : ℕ) (stay leave : Phase) :
    ((afterActivity r fd stay leave).phase = stay ∧ ∃ c, r.1.clients.findByFd fd = some c) ∨
      (afterActivity r fd stay leave).phase = leave := by
  unfold afterActivity
  split
  · exact Or.inr rfl
  · split
    · exact Or.inr rfl
    · rename_i c hc
      dsimp only
      split
      · exact Or.inr rfl
      · exact Or.inl ⟨rfl, c, hc⟩

theorem collected_phase (d : Daemon) (fd : ℕ) (status : Status) (selected : Bool)
    (todo fds pipes : List ℕ) : ∃ fds' pipes',
    (collected d fd status selected todo fds pipes).phase = .collecting todo fds' pipes' := by
  unfold collected
  dsimp only
  split
  · exact ⟨_, _, rfl⟩
  · exact ⟨_, _, rfl⟩

/-- The loop looks at the client again only after a true result. -/
theorem afterActivity_daemon {d : Daemon} {fd : ℕ} {c : Client}
    (hc : d.clients.findByFd fd = some c) (m next : Option Msg) (stay leave : Phase) :
    (afterActivity (d.handleActivity c m next) fd stay leave).daemon =
      (d.handleActivity c m next).1 := by
  obtain ⟨hkeeps, rfl⟩ := findByFd_keeps hc
  unfold afterActivity
  split
  · rfl
  · rename_i htrue
    obtain ⟨c₁, hc₁⟩ := Keeps.findByFd (Daemon.handleActivity_keeps hkeeps (by simpa using htrue))
    rw [hc₁]

/-- After a client has been dealt with for the poll set -/
theorem collected_handled {d : Daemon} {fd : ℕ} {c : Client} {m : Option Msg}
    (hc : d.clients.findByFd fd = some c)
    (hno : ¬ (c.status = .toCompile ∨ c.status = .waitForChild ∨ c.status = .waitInstall))
    (hm : c.status = .toInstall → d.Continues m) (next : Option Msg) (selected : Bool)
    (todo fds pipes : List ℕ) :
    (collected (d.handleActivity c m next).1 fd c.status selected todo fds pipes).daemon =
      (d.handleActivity c m next).1 := by
  obtain ⟨hkeeps, rfl⟩ := findByFd_keeps hc
  by_cases hinst : c.status = .toInstall
  · have hkept : (d.handleActivity c m next).1.Keeps c :=
      Daemon.handleActivity_keeps_transfer hkeeps hinst (hm hinst)
    obtain ⟨c₁, hc₁⟩ := Keeps.findByFd hkept
    exact collected_daemon hc₁ _ _ _ _ _
  · push Not at hno
    unfold collected
    simp only [hno, hinst, or_self, if_false, false_and]
    split <;> rfl

theorem step_call {s t : EventLoop} {e : Event} (h : step s e = some t) : Call s e t.daemon := by
  cases step_leads h with
  | reconnect => exact .reconnect _ rfl
  | oldRequest => exact .oldRequest rfl .refl
  | answered hphase hd =>
    subst hd
    exact .oldRequest rfl (.ite (fun _ => Daemon.maybeStats_frame false) fun _ => .refl)
  | filled | pollNothing | pollReady | schedulerRead | acceptFailed | visit | acceptedRead
  | clientRead => exact .aside .refl
  | listed hphase hc =>
    rw [collected_daemon hc]
    exact .aside .refl
  | handled hphase hc hno =>
    apply call_activity (findByFd_mem hc) _ (collected_frame _ _ _ _ _ _ _)
    · intro hcareful
      apply collected_handled hc hno
      simp only [Careful, hphase] at hcareful
      exact hcareful _ hc
    · rintro m rfl
      simp only [handles, hphase, hc, Option.bind_some, if_neg hno]
  | pollError => exact .aside .closeScheduler
  | schedulerGone => exact .clear .closeScheduler
  | schedulerRefused => exact .scheduler _ rfl .closeScheduler
  | schedulerLost => exact .scheduler _ rfl .crash
  | schedulerMsg => exact .scheduler _ rfl .refl
  | accept hphase hfd hid hplace => exact .accept _ _ _ hfd hid hplace
  | greeted hphase hc =>
    apply call_activity (findByFd_mem hc) _ (afterActivity_frame _ _ _ _)
    · exact fun _ => afterActivity_daemon hc _ _ _ _
    · rintro m rfl
      simp only [handles, hphase, hc, Option.map_some]
  | clientMsg hphase hc hok =>
    apply call_activity (findByFd_mem hc) _ (afterActivity_frame _ _ _ _)
    · exact fun _ => afterActivity_daemon hc _ _ _ _
    · rintro m rfl
      simp only [handles, hphase, hc, Option.bind_some, if_pos hok]
  | compileDone hphase hc hok => exact .compileDone _ _ (findByFd_mem hc) hok.1
  | installDone hphase hc hok => exact .installDone _ _ (findByFd_mem hc) hok.1
  | @createEnvDone key output had hphase hpipe =>
    have hkey : key ∈ s.daemon.nativeEnvironments := by
      by_contra hno
      have hnone := AList.lookup_eq_none.mpr hno
      simp [Daemon.native, hnone] at hpipe
    apply Call.createEnvDone key output rfl hkey
    split
    · exact .refl
    · exact
        { clients := rfl, fd2client := rfl, newClientId := rfl, maxKids := rfl, scheduler := id
          nativeKey := fun hk => (AList.mem_erase.mp hk).2
          log := ⟨[], rfl, by simp⟩ }
  | passDone =>
    dsimp only
    split
    · exact .clear .refl
    · exact .aside .refl
  | unpack => exact .aside (Aside.entry rfl rfl rfl rfl rfl rfl rfl rfl)

theorem next_step {s t : EventLoop} {e : Event} (h : next s e = some t) : step s e = some t :=
  (Option.filter_eq_some_iff.mp h).1

end EventLoop

end Icecream.Iceccd
