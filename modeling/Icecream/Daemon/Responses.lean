import Icecream.Daemon.Rebuilds

/-!
# Who hears of an environment that has been created

`create_env_finished` answers every client that waits for the key. The answer to one can
take it out of the map that is being walked through, and the cut of the cache can take
out the entry itself.
-/

namespace Icecream.Iceccd

open Icecream.Comm

/-- Nothing is sent to a client, and nothing crashes. -/
structure Quiet (d d' : Daemon) : Prop where
  sent : ∀ id, d'.sentTo id = d.sentTo id
  crashed : d'.crashed = d.crashed

namespace Quiet

variable {d d' d'' : Daemon}

theorem of_eq (hl : d'.log = d.log) (hx : d'.crashed = d.crashed) : Quiet d d' :=
  ⟨fun _ => Daemon.sentTo_congr hl, hx⟩

theorem refl : Quiet d d := of_eq rfl rfl

theorem trans (h : Quiet d d') (h' : Quiet d' d'') : Quiet d d'' :=
  ⟨fun id => (h'.sent id).trans (h.sent id), h'.crashed.trans h.crashed⟩

theorem ite {p : Prop} [Decidable p] {e e' : Daemon} (h : Quiet d e) (h' : Quiet d e') :
    Quiet d (if p then e else e') := by
  split
  · exact h
  · exact h'

theorem asked : Quiet d d.asked := of_eq rfl rfl

theorem crash (h : Quiet d d') : Quiet d.crash d'.crash := ⟨h.sent, rfl⟩

theorem require (a : Assertion) (b : Bool) : Quiet d (d.require a b) :=
  ⟨d.require_sentTo a b, d.require_crashed a b⟩

theorem toScheduler (m : Msg) (ok : Bool) : Quiet d (d.note (.toScheduler m ok)) :=
  ⟨fun _ => rfl, rfl⟩

theorem sendScheduler (m : Msg) : Quiet d (d.sendScheduler m).1 := by
  unfold Daemon.sendScheduler
  split
  · exact refl
  · split
    · exact asked.trans (toScheduler m true)
    · exact (asked.trans (toScheduler m false)).trans (of_eq rfl rfl)

theorem maybeStats (forceCheck : Bool) : Quiet d (d.maybeStats forceCheck).1 := by
  have hasked : Quiet d { d.asked.asked with lastStat := d.now } := of_eq rfl rfl
  unfold Daemon.maybeStats
  dsimp only
  split
  · split
    · split
      · exact hasked.trans (sendScheduler _)
      · exact (hasked.trans (sendScheduler _)).trans (of_eq rfl rfl)
    · exact hasked.trans (of_eq rfl rfl)
  · exact refl

theorem erase (c : Client) : Quiet d (d.erase c) := of_eq rfl rfl

theorem release (n : UInt32) : Quiet d (d.release n) := by
  refine ⟨fun id => ?_, rfl⟩
  unfold Daemon.release
  split
  · rfl
  · rfl

theorem removeEnvironmentFiles (env : Str) : Quiet d (d.removeEnvironmentFiles env) := by
  unfold Daemon.removeEnvironmentFiles
  dsimp only
  split
  · exact asked
  · exact ⟨fun _ => rfl, rfl⟩

theorem removeEnvironment (key : Str) : Quiet d (d.removeEnvironment key) := by
  have hfiles : ∀ b, Quiet d (((d.require .environmentKey (key ≠ [])).removeEnvironmentFiles
      key).require .environmentSize b) := fun b =>
    ((require _ _).trans (removeEnvironmentFiles key)).trans (require _ _)
  exact (hfiles _).trans (of_eq rfl rfl)

theorem stopTransfer (c : Client) (cancel : Bool) : Quiet d (d.stopTransfer c cancel) := by
  have hasserts : ∀ b₁ b₂ b₃ b₄ b₅, Quiet d (((((d.require .finishOutfile b₁).require
      .finishStatus b₂).require .finishCancelFrom b₃).require .finishCancelTo b₄).require
      .finishCancelPid b₅) := fun b₁ b₂ b₃ b₄ b₅ =>
    ((((require _ b₁).trans (require _ b₂)).trans (require _ b₃)).trans (require _ b₄)).trans
      (require _ b₅)
  unfold Daemon.stopTransfer
  dsimp only
  split
  · exact ((hasserts _ _ _ _ _).trans (require _ _)).trans (of_eq rfl rfl)
  · exact hasserts _ _ _ _ _

/-- A transfer is cancelled; the cache is cut next. -/
theorem settled (c : Client) : Quiet d (d.settled c true) :=
  ((stopTransfer c true).trans (removeEnvironmentFiles c.outfile)).trans (of_eq rfl rfl)

end Quiet

namespace Daemon

variable {d : Daemon} {c : Client} {key : Str}

/-! ## The end of a client -/

theorem evict_sentTo (d : Daemon) (now : ℤ) (newEnv : Str) (id : ℕ) :
    (d.evict now newEnv).1.sentTo id = d.sentTo id := by
  have hseen : ∀ (p : Prop) [Decidable p],
      (if p then (d.require .cacheJob false).crash else d).asked.sentTo id = d.sentTo id := by
    intro p _
    split
    · rfl
    · rfl
  unfold evict
  split
  · rfl
  · dsimp only
    split
    · exact hseen _
    · split
      · exact (removeNativeEnvironment_sentTo _ id).trans (hseen _)
      · exact ((Quiet.removeEnvironment _).sent id).trans (hseen _)

theorem checkCacheSize_sentTo (d : Daemon) (newEnv : Str) (id : ℕ) :
    (d.checkCacheSize newEnv).sentTo id = d.sentTo id := by
  unfold checkCacheSize
  generalize d.receivedEnvironments.entries.length + d.nativeEnvironments.entries.length + 1 = fuel
  generalize d.now = now
  induction fuel generalizing d with
  | zero => rfl
  | succ fuel ih =>
    have hturn := evict_sentTo d now newEnv id
    rw [checkCacheLoop]
    split
    · exact (ih _).trans hturn
    · exact hturn

/-- The record of a job that is not there is looked at, for its id. -/
def Jobless (d : Daemon) (c : Client) : Prop :=
  d.scheduler.isSome ∧ c.status = .toCompile ∧ c.job.isNone

instance (d : Daemon) (c : Client) : Decidable (d.Jobless c) :=
  inferInstanceAs (Decidable (_ ∧ _ ∧ _))

theorem goodbye_quiet (d : Daemon) (c : Client) (x : Int32) :
    Quiet d (match d.goodbye c x with
      | some m => (d.sendScheduler m).1
      | none => d) := by
  split
  · exact .sendScheduler _
  · exact .refl

theorem reportEnd_quiet (c : Client) (x : Int32) :
    Quiet (if d.Jobless c then d.crash else d) (d.reportEnd c x) := by
  have hready : ∀ n : Daemon, Quiet n ((if c.status = .waitForCS then
      n.require .endClientId (0 < c.clientId) else n).requireEndStatus c) := fun _ =>
    (Quiet.ite (.require _ _) .refl).trans (.require _ _)
  unfold reportEnd
  by_cases hs : d.scheduler.isSome ∧ c.status ≠ .waitForChild
  · have hjobless : d.Jobless c ↔ c.status = .toCompile ∧ c.job.isNone := and_iff_right hs.1
    simp only [if_pos hs, hjobless]
    exact (hready _).trans (goodbye_quiet _ c x)
  · have hreported : ¬ d.Jobless c := by
      rintro ⟨hsome, hto, -⟩
      exact hs ⟨hsome, by simp [hto]⟩
    rw [if_neg hs, if_neg hreported]
    exact .refl

theorem noted_quiet (c : Client) :
    Quiet d ((d.note (.ended c.status c.jobId)).dropFd c.fd) := ⟨fun _ => rfl, rfl⟩

theorem finishTransferEnv_quiet (d : Daemon) (c : Client) :
    Quiet ((d.settled c true).checkCacheSize c.outfile) (d.finishTransferEnv c true).1 :=
  (Quiet.sendScheduler _).trans (.maybeStats true)

theorem handleEnd_plain_quiet (hc : ¬ c.Installing) (x : Int32) :
    Quiet (if d.Jobless c then d.crash else d) (d.handleEnd c x) := by
  have hnoted := noted_quiet (d := d) c
  have hscheduler : ((d.note (.ended c.status c.jobId)).dropFd c.fd).scheduler = d.scheduler := rfl
  unfold handleEnd
  simp only [if_neg hc]
  generalize (d.note (.ended c.status c.jobId)).dropFd c.fd = n at hnoted hscheduler ⊢
  have hleft : Quiet d ((if c.status = .clientWork then n.release (n.weight c) else n).erase
      (c.closed x)) := (hnoted.trans (.ite (.release _) .refl)).trans (.erase _)
  have hjobless : ((if c.status = .clientWork then n.release (n.weight c) else n).erase
      (c.closed x)).Jobless (c.closed x) ↔ d.Jobless c := by
    rw [Jobless, Jobless, ← hscheduler]
    split
    · rfl
    · rfl
  have hreport := reportEnd_quiet (d := (if c.status = .clientWork then n.release (n.weight c)
    else n).erase (c.closed x)) (c.closed x) x
  simp only [hjobless] at hreport
  by_cases hd : d.Jobless c
  · rw [if_pos hd] at hreport ⊢
    exact hleft.crash.trans hreport
  · rw [if_neg hd] at hreport ⊢
    exact hleft.trans hreport

/-- The cut of the cache is all that a cancelled transfer can crash in. -/
theorem handleEnd_cut_quiet (hc : c.Installing) (x : Int32) :
    Quiet ((((d.note (.ended c.status c.jobId)).dropFd c.fd).settled c true).checkCacheSize
      c.outfile) (d.handleEnd c x) := by
  have hidle : c.transferOver.status ≠ .clientWork := by simp [Client.transferOver]
  have hreport : ∀ n : Daemon, Quiet n (n.reportEnd (c.transferOver.closed x) x) := by
    intro n
    have hfree : ¬ n.Jobless (c.transferOver.closed x) := by
      simp [Jobless, Client.closed, Client.transferOver]
    have hquiet := reportEnd_quiet (d := n) (c.transferOver.closed x) x
    rwa [if_neg hfree] at hquiet
  unfold handleEnd
  simp only [if_pos hc, if_neg hidle]
  generalize (d.note (.ended c.status c.jobId)).dropFd c.fd = n
  exact ((finishTransferEnv_quiet n c).trans (.erase _)).trans (hreport _)

/-- The end of a client says nothing to any client. -/
theorem handleEnd_sentTo (c : Client) (x : Int32) (id : ℕ) :
    (d.handleEnd c x).sentTo id = d.sentTo id := by
  by_cases hc : c.Installing
  · rw [(handleEnd_cut_quiet hc x).sent, checkCacheSize_sentTo, (Quiet.settled c).sent,
      (noted_quiet c).sent]
  · rw [(handleEnd_plain_quiet hc x).sent]
    split
    · rfl
    · rfl

/-- The end of `c` does not look for a job that is not there, its own or, while the cache is
cut, that of another client. -/
structure EndsWell (d : Daemon) (c : Client) : Prop where
  job : ¬ d.Jobless c
  cuts : ∀ p ∈ d.endCuts c, (p.1.checkCacheSize p.2).crashed = false

theorem handleEnd_crashed_iff (c : Client) (x : Int32) :
    (d.handleEnd c x).crashed = false ↔ d.crashed = false ∧ EndsWell d c := by
  by_cases hc : c.Installing
  · have hsettled : (((d.note (.ended c.status c.jobId)).dropFd c.fd).settled c true).crashed =
        d.crashed := (Quiet.settled c).crashed.trans (noted_quiet c).crashed
    have hcuts : d.endCuts c =
        [(((d.note (.ended c.status c.jobId)).dropFd c.fd).settled c true, c.outfile)] := if_pos hc
    have hfree : ¬ d.Jobless c := by
      rintro ⟨-, hto, -⟩
      rcases hc with h | h <;> simp [hto] at h
    rw [(handleEnd_cut_quiet hc x).crashed]
    constructor
    · intro hcut
      refine ⟨?_, hfree, ?_⟩
      · by_contra hd
        rw [Bool.not_eq_false, ← hsettled] at hd
        exact Bool.false_ne_true (hcut.symm.trans (checkCacheLoop_crashed hd _ _ _))
      · rw [hcuts, List.forall_mem_singleton]
        exact hcut
    · rintro ⟨-, -, hcut⟩
      rwa [hcuts, List.forall_mem_singleton] at hcut
  · have hcuts : d.endCuts c = [] := if_neg hc
    rw [(handleEnd_plain_quiet hc x).crashed]
    by_cases hd : d.Jobless c
    · rw [if_pos hd]
      exact iff_of_false (Bool.false_ne_true ∘ Eq.symm) fun h => h.2.job hd
    · rw [if_neg hd]
      refine ⟨fun h => ⟨h, hd, ?_⟩, And.left⟩
      rw [hcuts]
      exact List.forall_mem_nil _

/-! ## The refusals -/

theorem sendClient_sentTo (d : Daemon) (c : Client) (m : Msg) (id : ℕ) :
    (d.sendClient c m).1.sentTo id = if c.clientId = id then m :: d.sentTo id else d.sentTo id := by
  by_cases hid : c.clientId = id
  · simp [sentTo, sendClient, note, asked, hid]
  · simp [sentTo, sendClient, note, asked, hid]

/-- The clients that are refused, each with the daemon at its end -/
def refuseEnds (key : Str) : ℕ → Daemon → List (Daemon × Client)
  | 0, _ => []
  | fuel + 1, d =>
    match d.clients.list.find? fun c => c.pendingCreateEnv = key with
    | none => []
    | some c =>
      let d := (d.sendClient c .endMsg).1
      (d, c) :: refuseEnds key fuel (d.handleEnd c 121)

theorem refuseWaiting_crashed_iff (d : Daemon) (key : Str) (fuel : ℕ) : (refuseWaiting key fuel d).crashed = false ↔
    d.crashed = false ∧ ∀ p ∈ refuseEnds key fuel d, EndsWell p.1 p.2 := by
  induction fuel generalizing d with
  | zero => exact (and_iff_left (List.forall_mem_nil _)).symm
  | succ fuel ih =>
    unfold refuseWaiting refuseEnds
    cases hfind : d.clients.list.find? fun c => c.pendingCreateEnv = key with
    | none => exact (and_iff_left (List.forall_mem_nil _)).symm
    | some c =>
      dsimp only
      rw [ih, handleEnd_crashed_iff, List.forall_mem_cons, and_assoc]
      rfl

/-- Nothing is said to a client that does not wait. -/
theorem refuseWaiting_spared (fuel : ℕ) {id : ℕ}
    (hid : ∀ c ∈ d.clients.list, c.pendingCreateEnv = key → c.clientId ≠ id) :
    (refuseWaiting key fuel d).sentTo id = d.sentTo id := by
  induction fuel generalizing d with
  | zero => rfl
  | succ fuel ih =>
    unfold refuseWaiting
    cases hfind : d.clients.list.find? fun c => c.pendingCreateEnv = key with
    | none => rfl
    | some c =>
      have hmem := List.mem_of_find?_eq_some hfind
      have hp : c.pendingCreateEnv = key := by simpa using List.find?_some hfind
      dsimp only
      rw [ih, handleEnd_sentTo, sendClient_sentTo, if_neg (hid c hmem hp)]
      intro y hy
      rw [handleEnd_list] at hy
      exact hid y (Records.mem_remove.mp hy).1

theorem refused_nodup (hnd : (d.clients.list.map Client.clientId).Nodup) (c : Client) (x : Int32) :
    (((d.sendClient c .endMsg).1.handleEnd c x).clients.list.map Client.clientId).Nodup := by
  rw [handleEnd_list, Records.map_key_remove]
  exact hnd.filter _

/-- Another client than the one refused stays. -/
theorem refused_mem (hnd : (d.clients.list.map Client.clientId).Nodup) {y : Client}
    (hy : y ∈ d.clients.list) (hc : c ∈ d.clients.list) (hne : c ≠ y) (x : Int32) :
    c.clientId ≠ y.clientId ∧ c ∈ ((d.sendClient y .endMsg).1.handleEnd y x).clients.list := by
  have hid : c.clientId ≠ y.clientId := fun heq =>
    hne (List.inj_on_of_nodup_map hnd hc hy heq)
  refine ⟨hid, ?_⟩
  rw [handleEnd_list]
  exact Records.mem_remove.mpr ⟨hc, hid⟩

/-- Who waits is told once. -/
theorem refuseWaiting_told {fuel : ℕ} (hfuel : d.clients.list.length ≤ fuel)
    (hnd : (d.clients.list.map Client.clientId).Nodup) (hc : c ∈ d.clients.list)
    (hp : c.pendingCreateEnv = key) :
    (refuseWaiting key fuel d).sentTo c.clientId = .endMsg :: d.sentTo c.clientId := by
  induction fuel generalizing d with
  | zero =>
    rw [List.length_eq_zero_iff.mp (Nat.le_zero.mp hfuel)] at hc
    cases hc
  | succ fuel ih =>
    unfold refuseWaiting
    cases hfind : d.clients.list.find? fun c => c.pendingCreateEnv = key with
    | none => exact absurd hp (by simpa using List.find?_eq_none.mp hfind c hc)
    | some y =>
      have hy := List.mem_of_find?_eq_some hfind
      dsimp only
      by_cases hcy : c = y
      · subst hcy
        rw [refuseWaiting_spared fuel, handleEnd_sentTo, sendClient_sentTo, if_pos rfl]
        intro z hz _
        rw [handleEnd_list] at hz
        exact (Records.mem_remove.mp hz).2
      · obtain ⟨hid, hmem⟩ := refused_mem hnd hy hc hcy 121
        have hlen : ((d.sendClient y .endMsg).1.handleEnd y 121).clients.list.length ≤ fuel := by
          rw [handleEnd_list]
          have hlt : (Records.remove Client.clientId y.clientId d.clients.list).length <
              d.clients.list.length :=
            List.length_filter_lt_length_iff_exists.mpr ⟨y, hy, by simp⟩
          exact Nat.le_of_lt_succ (lt_of_lt_of_le hlt hfuel)
        rw [ih hlen (refused_nodup hnd y 121) hmem, handleEnd_sentTo, sendClient_sentTo,
          if_neg hid.symm]

theorem mem_refuseWaiting (fuel : ℕ) (hnd : (d.clients.list.map Client.clientId).Nodup)
    (hc : c ∈ d.clients.list) (hp : c.pendingCreateEnv ≠ key) :
    c ∈ (refuseWaiting key fuel d).clients.list := by
  induction fuel generalizing d with
  | zero => exact hc
  | succ fuel ih =>
    unfold refuseWaiting
    cases hfind : d.clients.list.find? fun c => c.pendingCreateEnv = key with
    | none => exact hc
    | some y =>
      have hy := List.mem_of_find?_eq_some hfind
      have hwaits : y.pendingCreateEnv = key := by simpa using List.find?_some hfind
      have hne : c ≠ y := fun heq => hp (heq ▸ hwaits)
      exact ih (refused_nodup hnd y 121) (refused_mem hnd hy hc hne 121).2

theorem refuseWaiting_subset {fuel : ℕ} (hc : c ∈ (refuseWaiting key fuel d).clients.list) :
    c ∈ d.clients.list := by
  induction fuel generalizing d with
  | zero => exact hc
  | succ fuel ih =>
    unfold refuseWaiting at hc
    split at hc
    · exact hc
    · have hmem := ih hc
      rw [handleEnd_list] at hmem
      exact (Records.mem_remove.mp hmem).1

/-! ## The answers -/

/-- What the answer to a client changes when it goes out -/
structure Informs (c : Client) (key : Str) (d d' : Daemon) : Prop where
  crashed : d'.crashed = d.crashed
  name : (d'.native key).name = (d.native key).name
  list : d'.clients.list = Records.replace Client.clientId
    { c with status := .gotNative, pendingCreateEnv := [] } d.clients.list
  sent : ∀ id, d'.sentTo id =
    if c.clientId = id then .useNativeEnv (d.native key).name :: d.sentTo id else d.sentTo id

theorem native_setNative (d : Daemon) (key : Str) (env : NativeEnvironment) :
    (d.setNative key env).native key = env := by
  rw [native, setNative, AList.lookup_insert]
  rfl

theorem finishGetNativeEnv_informs (hok : d.ask ≠ 0) :
    Informs c key d (d.finishGetNativeEnv c key).1 := by
  have hok : (d.finishGetNativeEnv c key).2 = true := (finishGetNativeEnv_answered hok).1
  have hquiet : Quiet d ((d.requireCreating c key).setNative key (d.native key)) :=
    ((Quiet.require _ _).trans (.require _ _)).trans (.of_eq rfl rfl)
  have hlist : (d.requireCreating c key).clients = d.clients := by
    simp only [requireCreating, require_clients]
  unfold finishGetNativeEnv at hok ⊢
  dsimp only at hok ⊢
  split at hok
  · cases hok
  · rename_i hsent
    rw [if_neg hsent]
    constructor
    · exact hquiet.crashed
    · exact (congrArg NativeEnvironment.name (native_setNative _ _ _)).trans rfl
    · change Records.replace _ _ (d.requireCreating c key).clients.list = _
      rw [hlist]
    · intro id
      rw [← hquiet.sent id]
      exact sendClient_sentTo _ _ _ _

theorem finishGetNativeEnv_fails (hfail : d.ask = 0) : (d.finishGetNativeEnv c key).2 = false := by
  have hcalls : (d.requireCreating c key).calls = d.calls ∧
      (d.requireCreating c key).host = d.host := by
    simp only [requireCreating, require_calls, and_self]
  have hsent : (((d.requireCreating c key).setNative key (d.native key)).sendClient c
      (.useNativeEnv (d.native key).name)).2 = false := by
    change decide ((d.requireCreating c key).host.answer (d.requireCreating c key).calls ≠ 0) = false
    rw [hcalls.1, hcalls.2]
    exact decide_eq_false (not_not.mpr hfail)
  unfold finishGetNativeEnv
  dsimp only
  rw [if_pos hsent]

/-- The walk gets to its end just when every answer goes out. -/
theorem answerWaiting_crashed_iff (l : List Client) (hlive : d.crashed = false) :
    (answerWaiting key l d).crashed = false ↔ d.Answered key l := by
  induction l generalizing d with
  | nil => exact iff_of_true hlive (by simp [Answered])
  | cons c rest ih =>
    unfold answerWaiting
    by_cases hp : c.pendingCreateEnv = key
    · simp only [if_pos hp]
      by_cases hok : d.ask = 0
      · have hfails : ¬ (d.finishGetNativeEnv c key).2 = true := by
          rw [finishGetNativeEnv_fails hok]
          exact Bool.false_ne_true
        rw [if_neg hfails]
        apply iff_of_false
        · rw [Bool.not_eq_false]
          exact answerWaiting_crashed rest rfl
        · exact fun hall => hall.head hp hok
      · have htold : (d.finishGetNativeEnv c key).2 = true := (finishGetNativeEnv_answered hok).1
        rw [if_pos htold, ih ((finishGetNativeEnv_informs hok).crashed.trans hlive)]
        have hanswered : (d.finishGetNativeEnv c key).2 = true ∧ _ := finishGetNativeEnv_answered hok
        obtain ⟨-, hcalls, hhost⟩ := hanswered
        constructor
        · intro hrest i hi
          cases i with
          | zero => exact hok
          | succ i =>
            have hnext := hrest i (by
              rw [List.countP_cons_of_pos (by simpa using hp)] at hi
              omega)
            rwa [hcalls, hhost, add_assoc, add_comm 1] at hnext
        · exact fun hall => hall.tail hp hok
    · simp only [if_neg hp]
      rw [ih hlive, Answered, Answered, List.countP_cons_of_neg (by simpa using hp)]

/-- What each answer that goes out keeps, the walk keeps. -/
theorem answerWaiting_walk {J : List Client → Daemon → Prop} {l : List Client}
    (hall : d.Answered key l)
    (hskip : ∀ {c : Client} {l : List Client} {d : Daemon}, c.pendingCreateEnv ≠ key →
      J (c :: l) d → J l d)
    (htell : ∀ {c : Client} {l : List Client} {d d' : Daemon}, c.pendingCreateEnv = key →
      Informs c key d d' → J (c :: l) d → J l d')
    (hd : J l d) : J [] (answerWaiting key l d) := by
  induction l generalizing d with
  | nil => exact hd
  | cons c rest ih =>
    unfold answerWaiting
    by_cases hp : c.pendingCreateEnv = key
    · have hok := hall.head hp
      have htold : (d.finishGetNativeEnv c key).2 = true := (finishGetNativeEnv_answered hok).1
      simp only [if_pos hp, if_pos htold]
      exact ih (hall.tail hp hok) (htell hp (finishGetNativeEnv_informs hok) hd)
    · simp only [if_neg hp]
      apply ih _ (hskip hp hd)
      rwa [Answered, List.countP_cons_of_neg (by simpa using hp)] at hall

variable {l : List Client}

theorem answerWaiting_spared (hall : d.Answered key l) {id : ℕ}
    (hid : ∀ c ∈ l, c.pendingCreateEnv = key → c.clientId ≠ id) :
    (answerWaiting key l d).sentTo id = d.sentTo id := by
  have hwalk := answerWaiting_walk (J := fun l d' => d'.sentTo id = d.sentTo id ∧
    ∀ c ∈ l, c.pendingCreateEnv = key → c.clientId ≠ id) hall ?_ ?_ ⟨rfl, hid⟩
  · exact hwalk.1
  · rintro c l d' - ⟨hsent, hleft⟩
    exact ⟨hsent, fun x hx => hleft x (List.mem_cons_of_mem _ hx)⟩
  · rintro c l d' d'' hp hinforms ⟨hsent, hleft⟩
    refine ⟨?_, fun x hx => hleft x (List.mem_cons_of_mem _ hx)⟩
    rw [hinforms.sent, if_neg (hleft c List.mem_cons_self hp), hsent]

theorem answerWaiting_told (hall : d.Answered key l) (hnd : (l.map Client.clientId).Nodup)
    (hc : c ∈ l) (hp : c.pendingCreateEnv = key) : (answerWaiting key l d).sentTo c.clientId =
      .useNativeEnv (d.native key).name :: d.sentTo c.clientId := by
  have hwalk := answerWaiting_walk (J := fun l d' => (d'.native key).name = (d.native key).name ∧
    (l.map Client.clientId).Nodup ∧ (c ∈ l ∧ d'.sentTo c.clientId = d.sentTo c.clientId ∨
      c.clientId ∉ l.map Client.clientId ∧ d'.sentTo c.clientId =
        .useNativeEnv (d.native key).name :: d.sentTo c.clientId)) hall ?_ ?_ ⟨rfl, hnd, .inl ⟨hc, rfl⟩⟩
  · obtain ⟨-, -, ⟨hnil, -⟩ | ⟨-, htold⟩⟩ := hwalk
    · cases hnil
    · exact htold
  · rintro x l d' hx ⟨hname, hnd, hcase⟩
    rw [List.map_cons, List.nodup_cons] at hnd
    refine ⟨hname, hnd.2, ?_⟩
    rcases hcase with ⟨hmem, hsent⟩ | ⟨hmem, hsent⟩
    · rcases List.mem_cons.mp hmem with rfl | hmem
      · exact absurd hp hx
      · exact .inl ⟨hmem, hsent⟩
    · exact .inr ⟨fun h => hmem (List.mem_cons_of_mem _ h), hsent⟩
  · rintro x l d' d'' hx hinforms ⟨hname, hnd, hcase⟩
    rw [List.map_cons, List.nodup_cons] at hnd
    refine ⟨hinforms.name.trans hname, hnd.2, ?_⟩
    rw [hinforms.sent]
    rcases hcase with ⟨hmem, hsent⟩ | ⟨hmem, hsent⟩
    · rcases List.mem_cons.mp hmem with rfl | hmem
      · rw [if_pos rfl, hname, hsent]
        exact .inr ⟨hnd.1, rfl⟩
      · have hne : x.clientId ≠ c.clientId := fun heq =>
          hnd.1 (heq ▸ List.mem_map_of_mem hmem)
        rw [if_neg hne]
        exact .inl ⟨hmem, hsent⟩
    · rw [List.map_cons, List.mem_cons, not_or] at hmem
      rw [if_neg (fun heq => hmem.1 heq.symm)]
      exact .inr ⟨hmem.2, hsent⟩

/-- Nobody waits after the walk who was told. -/
theorem answerWaiting_waiting (hall : d.Answered key l) {x : Client}
    (hx : x ∈ (answerWaiting key l d).clients.list) (hw : x.status = .waitCreateEnv) :
    ∀ c ∈ l, c.pendingCreateEnv = key → c.clientId ≠ x.clientId := by
  have hwalk := answerWaiting_walk (J := fun l' d' => ∀ x ∈ d'.clients.list,
    x.status = .waitCreateEnv → ∀ c ∈ l, c.pendingCreateEnv = key → c.clientId = x.clientId →
      c ∈ l') hall ?_ ?_ (fun _ _ _ _ hc _ _ => hc)
  · intro c hc hp hid
    cases hwalk x hx hw c hc hp hid
  · intro y l' d' hy hleft x hx hw c hc hp hid
    rcases List.mem_cons.mp (hleft x hx hw c hc hp hid) with rfl | hmem
    · exact absurd hp hy
    · exact hmem
  · intro y l' d' d'' hy hinforms hleft x hx hw c hc hp hid
    rw [hinforms.list] at hx
    rcases Records.mem_replace.mp hx with ⟨rfl, -⟩ | ⟨hx, hne⟩
    · cases hw
    · rcases List.mem_cons.mp (hleft x hx hw c hc hp hid) with rfl | hmem
      · exact absurd hid.symm hne
      · exact hmem

theorem mem_answerWaiting (hall : d.Answered key l) {x : Client} (hx : x ∈ d.clients.list)
    (hid : ∀ c ∈ l, c.pendingCreateEnv = key → c.clientId ≠ x.clientId) :
    x ∈ (answerWaiting key l d).clients.list := by
  have hwalk := answerWaiting_walk (J := fun l d' => x ∈ d'.clients.list ∧
    ∀ c ∈ l, c.pendingCreateEnv = key → c.clientId ≠ x.clientId) hall ?_ ?_ ⟨hx, hid⟩
  · exact hwalk.1
  · rintro c l d' - ⟨hmem, hleft⟩
    exact ⟨hmem, fun y hy => hleft y (List.mem_cons_of_mem _ hy)⟩
  · rintro c l d' d'' hp hinforms ⟨hmem, hleft⟩
    refine ⟨?_, fun y hy => hleft y (List.mem_cons_of_mem _ hy)⟩
    rw [hinforms.list]
    exact Records.mem_replace.mpr (.inr ⟨hmem, (hleft c List.mem_cons_self hp).symm⟩)

/-! ## The end of a creation -/

/-- What the clients hear -/
def response (d : Daemon) (key output : Str) : Msg :=
  if (d.outcome key output).2 = 0 then .endMsg else .useNativeEnv (d.outcome key output).1

/-- Every client that waits for `key` is told once and waits no more; those who wait for
another environment are left alone. -/
structure Responds (d d' : Daemon) (key : Str) (answer : Msg) : Prop where
  alive : d'.crashed = false
  told : ∀ c ∈ d.clients.list, c.status = .waitCreateEnv → c.pendingCreateEnv = key →
    d'.sentTo c.clientId = answer :: d.sentTo c.clientId ∧
      ∀ x ∈ d'.clients.list, x.clientId = c.clientId → x.status ≠ .waitCreateEnv
  others : ∀ c ∈ d.clients.list, c.status = .waitCreateEnv → c.pendingCreateEnv ≠ key →
    d'.sentTo c.clientId = d.sentTo c.clientId ∧ c ∈ d'.clients.list

/-- The entry has got its size and the cache has been cut. -/
def cutEntry (d : Daemon) (key output : Str) : Daemon :=
  (d.sizedEntry key output).checkCacheSize (d.outcome key output).1

/-- If nothing was created, the clients end well one after the other; otherwise the cache is cut
without a crash, the entry is still there, and every answer goes out. -/
structure Completes (d : Daemon) (key output : Str) : Prop where
  failed : (d.outcome key output).2 = 0 → ∀ p ∈ refuseEnds key d.clients.list.length
    (d.closedEntry key output), EndsWell p.1 p.2
  made : (d.outcome key output).2 ≠ 0 → (d.cutEntry key output).crashed = false ∧
    ((d.cutEntry key output).nativeEnvironments.lookup key).isSome ∧
      (d.cutEntry key output).Answered key d.clients.list

theorem createEnvFinished_failed {output : Str} (hsize : (d.outcome key output).2 = 0) :
    (d.createEnvFinished key output).1 = refuseWaiting key
      (d.closedEntry key output).clients.list.length (d.closedEntry key output) := by
  have hfinal : (d.finishCreateEnv (d.native key).name output).2 = 0 := hsize
  unfold createEnvFinished
  dsimp only
  rw [if_pos hfinal]
  rfl

theorem createEnvFinished_made {output : Str} (hsize : (d.outcome key output).2 ≠ 0) :
    (d.createEnvFinished key output).1 =
      let e := d.cutEntry key output
      let e := if (e.nativeEnvironments.lookup key).isSome then e else e.crash
      answerWaiting key e.clients.list e := by
  have hfinal : ¬ (d.finishCreateEnv (d.native key).name output).2 = 0 := hsize
  unfold createEnvFinished
  dsimp only
  rw [if_neg hfinal]
  rfl

theorem closedEntry_quiet (d : Daemon) (key output : Str) : Quiet d (d.closedEntry key output) :=
  ((Quiet.require _ _).trans (.require _ _)).trans (.of_eq rfl rfl)

theorem closedEntry_clients (d : Daemon) (key output : Str) :
    (d.closedEntry key output).clients = d.clients := by
  change (d.requireNative key).clients = d.clients
  simp only [requireNative, require_clients]

theorem refused_responds {output : Str} (hlive : d.crashed = false)
    (hnd : (d.clients.list.map Client.clientId).Nodup) (hsize : (d.outcome key output).2 = 0) :
    Responds d (d.createEnvFinished key output).1 key .endMsg ↔ Completes d key output := by
  have hquiet := closedEntry_quiet d key output
  have hclients := closedEntry_clients d key output
  have hcrash := refuseWaiting_crashed_iff (d.closedEntry key output) key d.clients.list.length
  rw [createEnvFinished_failed hsize, hclients]
  constructor
  · intro h
    exact ⟨fun _ => (hcrash.mp h.alive).2, fun hmade => absurd hsize hmade⟩
  · intro h
    have hends := h.failed hsize
    generalize d.closedEntry key output = k at *
    have hnd' : (k.clients.list.map Client.clientId).Nodup := by rwa [hclients]
    have hfuel : k.clients.list.length ≤ d.clients.list.length := by rw [hclients]
    constructor
    · exact hcrash.mpr ⟨hquiet.crashed.trans hlive, hends⟩
    · intro c hc _ hp
      rw [← hclients] at hc
      rw [refuseWaiting_told hfuel hnd' hc hp, hquiet.sent]
      refine ⟨rfl, fun x hx hid => ?_⟩
      obtain rfl := List.inj_on_of_nodup_map hnd' (refuseWaiting_subset hx) hc hid
      exact absurd hp (refuseWaiting_none _ hfuel x hx)
    · intro c hc _ hp
      rw [← hclients] at hc
      refine ⟨?_, mem_refuseWaiting _ hnd' hc hp⟩
      rw [refuseWaiting_spared, hquiet.sent]
      intro x hx hxp hid
      obtain rfl := List.inj_on_of_nodup_map hnd' hx hc hid
      exact hp hxp

/-- What is still in the table after the cut was there before. -/
theorem checkCacheSize_lookup {newEnv : Str} {env : NativeEnvironment}
    (h : (d.checkCacheSize newEnv).nativeEnvironments.lookup key = some env) :
    d.nativeEnvironments.lookup key = some env := by
  have hkept := checkCacheSize_rule (d := d) (I := fun d' => ∀ env,
    d'.nativeEnvironments.lookup key = some env → d.nativeEnvironments.lookup key = some env)
    ?_ ?_ ?_ newEnv (fun _ h => h)
  · exact hkept env h
  · intro d₁ d₂ hs hd env henv
    rw [hs.native] at henv
    exact hd env henv
  · intro d₁ key' hd env henv
    simp only [forgetReceived, require_native] at henv
    exact hd env henv
  · intro d₁ key' hd env henv
    simp only [forgetNative, require_native] at henv
    by_cases hkey : key = key'
    · rw [hkey, AList.lookup_erase] at henv
      cases henv
    · rw [AList.lookup_erase_ne hkey] at henv
      exact hd env henv

theorem sizedEntry_quiet (d : Daemon) (key output : Str) : Quiet d (d.sizedEntry key output) :=
  (closedEntry_quiet d key output).trans (.of_eq rfl rfl)

theorem cutEntry_clients (d : Daemon) (key output : Str) :
    (d.cutEntry key output).clients = d.clients :=
  (checkCacheSize_frame _).clients.trans (closedEntry_clients d key output)

theorem cutEntry_sentTo (d : Daemon) (key output : Str) (id : ℕ) :
    (d.cutEntry key output).sentTo id = d.sentTo id :=
  (checkCacheSize_sentTo _ _ id).trans ((sizedEntry_quiet d key output).sent id)

theorem cutEntry_native {output : Str}
    (h : ((d.cutEntry key output).nativeEnvironments.lookup key).isSome) :
    ((d.cutEntry key output).native key).name = (d.outcome key output).1 := by
  obtain ⟨env, henv⟩ := Option.isSome_iff_exists.mp h
  have hbefore := checkCacheSize_lookup henv
  change AList.lookup key (AList.insert key _ _) = _ at hbefore
  rw [AList.lookup_insert] at hbefore
  rw [native, henv, ← hbefore]
  rfl

theorem told_responds {output : Str} (hnd : (d.clients.list.map Client.clientId).Nodup)
    (hsize : (d.outcome key output).2 ≠ 0) :
    Responds d (d.createEnvFinished key output).1 key (.useNativeEnv (d.outcome key output).1) ↔
      Completes d key output := by
  have hclients := cutEntry_clients d key output
  have hsent := cutEntry_sentTo d key output
  rw [createEnvFinished_made hsize]
  dsimp only
  by_cases hkept : ((d.cutEntry key output).nativeEnvironments.lookup key).isSome
  · have hname := cutEntry_native hkept
    rw [if_pos hkept, hclients]
    constructor
    · intro h
      have hcut : (d.cutEntry key output).crashed = false := by
        by_contra hcrashed
        rw [Bool.not_eq_false] at hcrashed
        exact Bool.false_ne_true (h.alive.symm.trans (answerWaiting_crashed _ hcrashed))
      have hall := (answerWaiting_crashed_iff _ hcut).mp h.alive
      exact ⟨fun hnone => absurd hnone hsize, fun _ => ⟨hcut, hkept, hall⟩⟩
    · intro h
      obtain ⟨hcut, -, hall⟩ := h.made hsize
      constructor
      · exact (answerWaiting_crashed_iff _ hcut).mpr hall
      · intro c hc _ hp
        rw [answerWaiting_told hall hnd hc hp, hname, hsent]
        refine ⟨rfl, fun x hx hid hw => ?_⟩
        exact answerWaiting_waiting hall hx hw c hc hp hid.symm
      · intro c hc _ hp
        have hother : ∀ y ∈ d.clients.list, y.pendingCreateEnv = key → y.clientId ≠ c.clientId := by
          intro y hy hyp hid
          obtain rfl := List.inj_on_of_nodup_map hnd hy hc hid
          exact hp hyp
        rw [answerWaiting_spared hall hother, hsent]
        refine ⟨rfl, mem_answerWaiting hall ?_ hother⟩
        rwa [hclients]
  · rw [if_neg hkept]
    apply iff_of_false
    · intro h
      exact Bool.false_ne_true (h.alive.symm.trans (answerWaiting_crashed _ rfl))
    · exact fun h => hkept (h.made hsize).2.1

/-- Everybody who waits for the environment is answered, and nobody else, just when the walk
through the clients and the cut of the cache get through. -/
theorem createEnvFinished_responds_iff (key output : Str) (hlive : d.crashed = false)
    (hnd : (d.clients.list.map Client.clientId).Nodup) :
    Responds d (d.createEnvFinished key output).1 key (d.response key output) ↔
      Completes d key output := by
  unfold response
  by_cases hsize : (d.outcome key output).2 = 0
  · rw [if_pos hsize]
    exact refused_responds hlive hnd hsize
  · rw [if_neg hsize]
    exact told_responds hnd hsize

end Daemon

namespace EventLoop

open Daemon

/-- A daemon whose `n`-th question is answered with 0, the others with 1 -/
def faltering (n : ℕ) : EventLoop :=
  let s := passing 0
  { s with daemon := { s.daemon with
      host := { s.daemon.host with answer := fun k => if k = n then 0 else 1 } } }

theorem faltering_init (n : ℕ) : (faltering n).Init :=
  ⟨rfl, rfl, rfl, rfl, rfl, rfl, rfl, rfl, rfl, rfl, rfl, rfl⟩

/-- Two clients wait for the environment of a compiler. -/
def waitingTwo : List Event :=
  .reconnect none :: polling 0 ++ accepting 7 [.getNativeEnv gccRequest] ++ again ++ polling 1 ++
    accepting 8 [.getNativeEnv gccRequest] ++ again ++ polling 2 ++
    [.schedulerRead, .clientRead, .clientRead, .visit]

end EventLoop

namespace Daemon

theorem createEnvFinished_responds_iff_two : ∃ s, EventLoop.system.Reachable s ∧
    s.daemon.clients.list.map Client.status = [.waitCreateEnv, .waitCreateEnv] ∧
    Responds s.daemon (s.daemon.createEnvFinished (str ":/gcc") (str "t")).1 (str ":/gcc")
      (.useNativeEnv (str "/e/native/t")) := by
  have hrun : (EventLoop.system.exec (EventLoop.faltering 0) EventLoop.waitingTwo).map (fun s =>
      decide (s.daemon.clients.list.map Client.status = [.waitCreateEnv, .waitCreateEnv] ∧
        s.daemon.crashed = false ∧ (s.daemon.clients.list.map Client.clientId).Nodup ∧
        s.daemon.outcome (str ":/gcc") (str "t") = (str "/e/native/t", 1) ∧
        (s.daemon.cutEntry (str ":/gcc") (str "t")).crashed = false ∧
        ((s.daemon.cutEntry (str ":/gcc") (str "t")).nativeEnvironments.lookup (str ":/gcc")).isSome ∧
        (s.daemon.cutEntry (str ":/gcc") (str "t")).Answered (str ":/gcc")
          s.daemon.clients.list)) = some true := by
    decide +kernel
  obtain ⟨s, hs, hstate⟩ := Option.map_eq_some_iff.mp hrun
  obtain ⟨hstatus, hlive, hnd, houtcome, hcut, hkept, hall⟩ := of_decide_eq_true hstate
  have hreach := (Transition.System.Reaches.init (EventLoop.faltering_init 0)).exec
    (fun _ _ _ => trivial) hs
  have hsize : (s.daemon.outcome (str ":/gcc") (str "t")).2 ≠ 0 := by
    rw [houtcome]
    decide
  have hiff := createEnvFinished_responds_iff (str ":/gcc") (str "t") hlive hnd
  rw [response, if_neg hsize, houtcome] at hiff
  exact ⟨s, hreach, hstatus, hiff.mpr ⟨fun hnone => absurd hnone hsize, fun _ => ⟨hcut, hkept, hall⟩⟩⟩

end Daemon

namespace EventLoop

open Daemon

/-- One of the two cannot be told: its end takes it out of the map that is walked through. -/
theorem createEnvFinished_dangles : ∃ s t, system.Reachable s ∧
    s.daemon.clients.list.map Client.status = [.waitCreateEnv, .waitCreateEnv] ∧
    step s (.createEnvDone (str ":/gcc") (str "t")) = some t ∧ .readAfterFree ∈ t.daemon.log ∧
    t.daemon.crashed = true := by
  have hrun : ((system.exec (faltering 5) waitingTwo).bind fun s =>
      (step s (.createEnvDone (str ":/gcc") (str "t"))).map fun t =>
        (s.daemon.clients.list.map Client.status, decide (.readAfterFree ∈ t.daemon.log),
          t.daemon.crashed)) = some ([.waitCreateEnv, .waitCreateEnv], true, true) := by
    decide +kernel
  obtain ⟨s, hs, hstep⟩ := Option.bind_eq_some_iff.mp hrun
  obtain ⟨t, ht, hstate⟩ := Option.map_eq_some_iff.mp hstep
  simp only [Prod.mk.injEq, decide_eq_true_eq] at hstate
  obtain ⟨hstatus, hread, hcrash⟩ := hstate
  have hreach := (Transition.System.Reaches.init (faltering_init 5)).exec (fun _ _ _ => trivial) hs
  exact ⟨s, t, hreach, hstatus, ht, hread, hcrash⟩

end EventLoop

end Icecream.Iceccd
