import Icecream.Daemon.Effects

/-!
# What a message does to a record

The handlers of native environments and jobs, and the calls of the event loop.
-/

namespace Icecream.Iceccd

open Icecream.Comm

namespace Daemon

variable {d : Daemon} {c : Client}

/-! ## Native environments -/

theorem setNative_frame {key : Str} (hkey : key ≠ []) (env : NativeEnvironment) :
    Aside d (d.setNative key env) where
  clients := rfl
  fd2client := rfl
  newClientId := rfl
  maxKids := rfl
  scheduler h := h
  nativeKey h := by
    rcases (AList.mem_insert _).mp h with hk | hk
    · exact absurd hk.symm hkey
    · exact hk
  log := ⟨[], rfl, by simp⟩

theorem addNative_frame {key : Str} (hkey : key ≠ []) (env : NativeEnvironment) (size : UInt64) :
    Aside d (d.addNative key env size) :=
  (setNative_frame hkey env).trans (Aside.same rfl rfl rfl rfl rfl rfl rfl)

theorem requireCreating_frame {key : Str} : Aside d (d.requireCreating c key) :=
  (Aside.require rfl).required rfl

theorem requireNative_frame {key : Str} : Aside d (d.requireNative key) :=
  (Aside.require rfl).required rfl

theorem finishGetNativeEnv_outcome {key : Str} (hkey : key ≠ []) :
    Outcome c.Creating d c (d.finishGetNativeEnv c key).1 := by
  unfold finishGetNativeEnv
  dsimp only
  have hsent := (requireCreating_frame.trans (setNative_frame hkey (d.native key))).trans
    (sendClient_frame (d := (d.requireCreating c key).setNative key (d.native key)) c
      (.useNativeEnv (d.native key).name))
  apply Outcome.after hsent
  split
  · exact .ended 138 .refl
  · exact .changed ((setNative_frame hkey _).put _) ⟨rfl, rfl, rfl, rfl, .inr ⟨rfl, rfl⟩⟩

theorem require_calls (a : Assertion) (b : Bool) :
    (d.require a b).calls = d.calls ∧ (d.require a b).host = d.host := by
  unfold require
  split <;> exact ⟨rfl, rfl⟩

/-- One question to the system tells whether the client gets the answer. -/
theorem finishGetNativeEnv_answered {key : Str} (h : d.ask ≠ 0) :
    (d.finishGetNativeEnv c key).2 = true ∧
      (d.finishGetNativeEnv c key).1.calls = d.calls + 1 ∧
      (d.finishGetNativeEnv c key).1.host = d.host := by
  have hcalls : (d.requireCreating c key).calls = d.calls ∧
      (d.requireCreating c key).host = d.host := by
    simp only [requireCreating, require_calls, and_self]
  have hask : ((d.requireCreating c key).setNative key (d.native key)).ask = d.ask := by
    rw [ask, ask, setNative]
    dsimp only
    rw [hcalls.1, hcalls.2]
  have hsent : (((d.requireCreating c key).setNative key (d.native key)).sendClient c
      (.useNativeEnv (d.native key).name)).2 = true := by
    rw [sendClient, hask]
    exact decide_eq_true h
  unfold finishGetNativeEnv
  dsimp only
  rw [if_neg (by rw [hsent]; simp)]
  exact ⟨rfl, congrArg (· + 1) hcalls.1, hcalls.2⟩

theorem keepNative_frame {key : Str} (hkey : key ≠ []) (env : NativeEnvironment) (size : UInt64) :
    Aside d (d.keepNative key env size) := by
  have hkept := (setNative_frame (d := d) hkey { env with lastUse := d.now, size := size }).trans
    (checkCacheSize_frame env.name)
  unfold keepNative
  dsimp only
  split
  · exact hkept
  · exact hkept.trans .crash

theorem nativeKey_ne_nil (m : GetNativeEnvMsg) (ccompiler : Str) : nativeKey m ccompiler ≠ [] := by
  unfold nativeKey
  have hcolon : str ":" ≠ [] := by decide
  simp [hcolon]

theorem dropStale_frame (key : Str) (times : List (Str × ℤ)) : Aside d (d.dropStale key times) := by
  unfold dropStale
  split
  · exact Frame.asked.trans (removeNativeEnvironment_frame _)
  · exact .refl

theorem handleGetNativeEnv_outcome (m : GetNativeEnvMsg) :
    Outcome c.Creating d c (d.handleGetNativeEnv c m).1 := by
  unfold handleGetNativeEnv
  dsimp only
  apply Outcome.after (Aside.require (a := .getNativeEnvCompiler) rfl)
  split
  · exact .ended 122 (Frame.asked.trans (sendClient_frame c .endMsg))
  · rename_i times _
    have hkey := nativeKey_ne_nil m
      ((Services.getCCompiler (nativeCompiler c m.compiler)).getD [])
    apply Outcome.after (Frame.asked.trans (dropStale_frame _ times))
    split
    · apply ((finishGetNativeEnv_outcome hkey).mono _).ofPut
      · exact ⟨rfl, rfl, rfl, rfl, .inl rfl⟩
      · exact fun c₁ h => h.clientId
      · exact fun c₁ h => ⟨h.clientId, h.fd, h.jobId, h.fulljob, h.status⟩
    · exact .changed (Frame.asked.trans (setNative_frame hkey _)) ⟨rfl, rfl, rfl, rfl, .inl rfl⟩

/-! ## Jobs -/

theorem handleCompileFile_outcome (job : CompileJob) :
    Outcome (fun c₁ => (c.status = .clientWork ∧ c₁ = { c with job := some job }) ∨
        (c.status ≠ .clientWork ∧ c₁ = { c with job := some job, status := .toCompile }))
      (d.require .compileFileClient
        (c.status = .clientWork → job.environmentVersion = str "__client"))
      c (d.handleCompileFile c job).1 := by
  unfold handleCompileFile
  dsimp only
  split
  · rename_i hwork
    have hreq : d.require .compileFileClient
        (c.status = .clientWork → job.environmentVersion = str "__client") =
        d.require .compileFileClient (job.environmentVersion = str "__client") := by
      simp [hwork]
    rw [hreq]
    exact .changed (sendScheduler_aside _ fun _ => rfl) (.inl ⟨hwork, rfl⟩)
  · rename_i hwork
    have hreq : d.require .compileFileClient
        (c.status = .clientWork → job.environmentVersion = str "__client") = d := by
      simp [hwork, require]
    rw [hreq]
    exact .changed .refl (.inr ⟨hwork, rfl⟩)

/-- A client that asks for a compile server, with and without a scheduler. -/
structure Asking (d : Daemon) (c c₁ : Client) : Prop where
  clientId : c₁.clientId = c.clientId
  fd : c₁.fd = c.fd
  fulljob : c₁.fulljob = c.fulljob
  pending : c₁.pendingCreateEnv = c.pendingCreateEnv
  status : (d.scheduler.isSome ∧ c₁.status = .waitForCS ∧ c₁.jobId = c.jobId) ∨
    (d.scheduler.isNone ∧ c₁.status = .pendingUseCS)

theorem handleGetCS_outcome (m : GetCSMsg) :
    Outcome (d.Asking c) d c (d.handleGetCS c m).1 := by
  unfold handleGetCS
  dsimp only
  split
  · rename_i hs
    exact .changed .refl ⟨rfl, rfl, rfl, rfl, .inr ⟨hs, rfl⟩⟩
  · rename_i hs
    have hsome : d.scheduler.isSome := by simpa [Option.isSome_iff_ne_none] using hs
    exact .changed (sendScheduler_aside _ fun _ => rfl) ⟨rfl, rfl, rfl, rfl, .inl ⟨hsome, rfl, rfl⟩⟩

theorem handleVerifyEnv_frame (m : VerifyEnvMsg) : Aside d (d.handleVerifyEnv c m).1 :=
  (verifyEnv_frame _ _ _).trans (sendClient_frame _ _)

theorem handleBlacklistHostEnv_frame (m : BlacklistHostEnvMsg) :
    Aside d (d.handleBlacklistHostEnv m).1 :=
  sendScheduler_aside _ fun _ => rfl

/-- The record of a client that says its job is done. -/
def jobOver (d : Daemon) (c : Client) (m : JobDoneMsg) : Daemon :=
  ((if c.status = .clientWork then d.release (d.weight c) else d).require .jobDoneId
    (m.jobId = c.jobId)).put { c with status := .jobDone, fulljob := false, jobId := 0 }

theorem handleJobDone_frame (m : JobDoneMsg) :
    Frame (fun o => o.aside ∨ (d.scheduler.isSome ∧ ∃ n ok,
        o = .toScheduler (.jobDone { m with clientCount := n }) ok))
      (d.jobOver c m) (d.handleJobDone c m).1 := by
  unfold handleJobDone
  dsimp only
  have hsched : (d.jobOver c m).scheduler = d.scheduler := by
    unfold jobOver
    dsimp only [put, require]
    split <;> split <;> rfl
  apply (sendScheduler_frame _).mono
  rintro o ⟨hs, ok, rfl⟩
  right
  exact ⟨hsched ▸ hs, _, ok, rfl⟩

theorem requireCompiling_frame : Aside d (d.requireCompiling c) :=
  (((Aside.require rfl).required rfl).required rfl).required rfl

theorem dropDamaged_frame (endStatus : Int32) (key : Str) :
    Aside d (d.dropDamaged endStatus key) := by
  unfold dropDamaged
  split
  · exact (removeEnvironment_frame key).trans reannounceEnvironments_frame
  · exact .refl

theorem compileDoneMsg_fromServer (jobId clientCount : UInt32) (stat : Option JobStat) :
    (compileDoneMsg jobId clientCount stat).isFromServer := by
  have hflags : (compileDoneMsg jobId clientCount stat).flags = JobDoneMsg.fromServer := by
    cases stat <;> rfl
  have hzero : JobDoneMsg.fromServer &&& JobDoneMsg.fromSubmitter = 0 := by decide
  simp [JobDoneMsg.isFromServer, hflags, hzero]

theorem handleCompileDone_outcome (stat : Option JobStat) :
    Outcome (fun c₁ => c₁ = { c with pipeFromChild := false }) d c
      (d.handleCompileDone c stat).1 := by
  unfold handleCompileDone
  dsimp only
  apply Outcome.after (requireCompiling_frame (c := c))
  split
  · exact .kept .crash
  · rename_i job _
    have hdone : ∀ (e : Daemon) (x : Int32) (n : UInt32), Aside e
        (((e.useReceived (jobKey job)).dropDamaged x (jobKey job)).sendScheduler
          (.jobDone (compileDoneMsg job.id n stat))).1 := by
      intro e x n
      have hsent := sendScheduler_aside
        (d := (e.useReceived (jobKey job)).dropDamaged x (jobKey job))
        (.jobDone (compileDoneMsg job.id n stat)) fun _ => compileDoneMsg_fromServer job.id n stat
      exact ((useReceived_frame _).trans (dropDamaged_frame _ _)).trans hsent
    exact .changedEnded _ ((dropKid_frame.put _).trans (hdone _ _ _)) rfl

/-! ## The scheduler's answers -/

theorem handleCsConf_frame (m : ConfCSMsg) : Aside d (d.handleCsConf m) :=
  Aside.same rfl rfl rfl rfl rfl rfl rfl

/-- A client that gets its compile server, or could not be told about it. -/
structure Assigned (c : Client) (jobId : UInt32) (c₁ : Client) : Prop where
  clientId : c₁.clientId = c.clientId
  fd : c₁.fd = c.fd
  fulljob : c₁.fulljob = c.fulljob
  pending : c₁.pendingCreateEnv = c.pendingCreateEnv
  status : (c₁.jobId = jobId ∧ (c₁.status = .pendingUseCS ∨ c₁.status = .waitCompile)) ∨
    (c₁.jobId = c.jobId ∧ c₁.status = c.status)

theorem schedulerUseCS_outcome {m : UseCSMsg} (hc : d.clients.findByClientId m.clientId = some c) :
    Outcome (Assigned c m.jobId) d c (d.schedulerUseCS m).1 := by
  unfold schedulerUseCS
  rw [hc]
  dsimp only
  split
  · exact .changed .refl ⟨rfl, rfl, rfl, rfl, .inl ⟨rfl, .inl rfl⟩⟩
  · split
    · have hsent := (sendClient_frame (d := d.put { c with
        usecsmsg := some ⟨m.jobId, m.hostname, m.port, m.hostPlatform, 1, 1, m.matchedJobId⟩ })
        { c with usecsmsg := some ⟨m.jobId, m.hostname, m.port, m.hostPlatform, 1, 1,
          m.matchedJobId⟩ } (.useCS m)).put { c with
        usecsmsg := some ⟨m.jobId, m.hostname, m.port, m.hostPlatform, 1, 1, m.matchedJobId⟩
        status := .waitCompile
        jobId := m.jobId }
      rw [put_put (by rfl)] at hsent
      exact .changed hsent ⟨rfl, rfl, rfl, rfl, .inl ⟨rfl, .inr rfl⟩⟩
    · exact .changedEnded 143 (sendClient_frame _ _) ⟨rfl, rfl, rfl, rfl, .inr ⟨rfl, rfl⟩⟩

theorem schedulerNoCS_outcome {m : NoCSMsg} (hc : d.clients.findByClientId m.clientId = some c) :
    Outcome (Assigned c m.jobId) d c (d.schedulerNoCS m).1 := by
  unfold schedulerNoCS
  rw [hc]
  exact .changed .refl ⟨rfl, rfl, rfl, rfl, .inl ⟨rfl, .inl rfl⟩⟩

/-- A job of a client that is gone goes back to the scheduler. -/
def Returned (d : Daemon) (jobId : UInt32) (o : Obs) : Prop :=
  ∃ ok, o = .toScheduler (.jobDone
    (jobDoneMsg jobId 107 JobDoneMsg.fromSubmitter d.clients.size)) ok

theorem schedulerUseCS_frame {m : UseCSMsg} (hc : d.clients.findByClientId m.clientId = none) :
    Frame (d.Returned m.jobId) d (d.schedulerUseCS m).1 := by
  unfold schedulerUseCS
  rw [hc]
  exact (sendScheduler_frame _).mono fun o ho => ho.2

theorem schedulerNoCS_frame {m : NoCSMsg} (hc : d.clients.findByClientId m.clientId = none) :
    Frame (d.Returned m.jobId) d (d.schedulerNoCS m).1 := by
  unfold schedulerNoCS
  rw [hc]
  exact (sendScheduler_frame _).mono fun o ho => ho.2

theorem reconnect_cases (found : Option (ℕ × Str)) : d.reconnect found = d ∨
    (d.scheduler = none ∧ ∃ protocol name, found = some (protocol, name) ∧
      Aside (d.connect protocol name) (d.reconnect found)) := by
  unfold reconnect
  split
  · rename_i protocol name hs
    right
    exact ⟨hs, protocol, name, rfl, sendScheduler_aside _ fun _ => rfl⟩
  · exact Or.inl rfl

/-! ## `handle_old_request` -/

theorem earlier_fold {s : Status} (l : List Client) (best : Option Client × ℕ × UInt32)
    {c : Client} (h : (l.foldl (Clients.earlier s) best).1 = some c) :
    best.1 = some c ∨ (c ∈ l ∧ c.status = s) := by
  induction l generalizing best with
  | nil => exact Or.inl h
  | cons x l ih =>
    rcases ih _ h with hbest | ⟨hmem, hs⟩
    · unfold Clients.earlier at hbest
      split at hbest
      · rename_i hx
        obtain rfl : x = c := by simpa using hbest
        exact Or.inr ⟨List.mem_cons_self, hx.1⟩
      · exact Or.inl hbest
    · exact Or.inr ⟨List.mem_cons_of_mem _ hmem, hs⟩

theorem getEarliestClient_mem {s : Status} (h : d.clients.getEarliestClient s = some c) :
    c ∈ d.clients.list ∧ c.status = s :=
  (earlier_fold _ _ h).resolve_left (by simp)

/-- A client that takes `n` of the slots. -/
def working (d : Daemon) (c : Client) (n : UInt32) : Daemon :=
  (d.put { c with status := .clientWork }).reserve n

/-- The client that a turn of the loop takes to start its local job. -/
def StartsLink (d : Daemon) (c : Client) : Prop :=
  d.currentKids + d.clients.activeProcesses < d.slots ∧
    d.clients.getEarliestClient .linkJob = some c

def StartsPending (d : Daemon) (c : Client) : Prop :=
  d.currentKids + d.clients.activeProcesses < d.slots ∧
    d.clients.getEarliestClient .linkJob = none ∧
    d.clients.getEarliestClient .pendingUseCS = some c

def StartsCompile (d : Daemon) (c : Client) : Prop :=
  d.currentKids + d.clients.activeProcesses < d.slots ∧
    d.clients.getEarliestClient .linkJob = none ∧
    d.clients.getEarliestClient .pendingUseCS = none ∧ d.currentLoad < 1000 ∧
    d.clients.getEarliestClient .toCompile = some c

theorem StartsLink.mem (h : d.StartsLink c) : c ∈ d.clients.list ∧ c.status = .linkJob :=
  getEarliestClient_mem h.2

theorem StartsPending.mem (h : d.StartsPending c) :
    c ∈ d.clients.list ∧ c.status = .pendingUseCS :=
  getEarliestClient_mem h.2.2

theorem StartsCompile.mem (h : d.StartsCompile c) : c ∈ d.clients.list ∧ c.status = .toCompile :=
  getEarliestClient_mem h.2.2.2.2

/-- A turn of the loop: the client it takes, if any, and what becomes of it. -/
inductive OldRequest (d : Daemon) : Daemon → Prop
  | kept {d' : Daemon} : Aside d d' → OldRequest d d'
  | ended {c : Client} {d' : Daemon} (x : Int32) :
      c ∈ d.clients.list → Aside d d' → OldRequest d (d'.handleEnd c x)
  | link {c : Client} {d' : Daemon} : d.StartsLink c →
      Aside (d.working c (d.weight c)) d' → OldRequest d d'
  | pending {c : Client} {d' : Daemon} : d.StartsPending c →
      Aside (d.working c 1) d' → OldRequest d d'
  | compile {c : Client} {d' : Daemon} : d.StartsCompile c →
      Aside (d.put { c with status := .waitForChild, pipeFromChild := true, childPid := true }) d' →
      OldRequest d d'

theorem handleOldRequest_cases : OldRequest d d.handleOldRequest.1 := by
  unfold handleOldRequest
  split
  · exact .kept .refl
  · rename_i hroom
    have hroom := not_not.mp hroom
    split
    · rename_i c hearliest
      have hstart : d.StartsLink c := ⟨hroom, hearliest⟩
      unfold startLocalJob
      dsimp only
      split
      · exact .ended 112 hstart.mem.1 (sendClient_frame c _)
      · apply OldRequest.link hstart
        have hput := ((sendClient_frame (d := d) c (.jobLocalBegin { stime := d.stime })).put
          { c with status := .clientWork }).reserve (d.weight c)
        exact hput.trans (sendScheduler_aside _ fun _ => rfl)
    · rename_i hlink
      split
      · rename_i c hearliest
        have hstart : d.StartsPending c := ⟨hroom, hlink, hearliest⟩
        unfold startPending
        split
        · exact .kept .crash
        · rename_i m _
          dsimp only
          split
          · exact .pending hstart
              (((sendClient_frame c (.useCS m)).put { c with status := .clientWork }).reserve 1)
          · exact .ended 129 hstart.mem.1 (sendClient_frame c _)
      · rename_i hpending
        split
        · exact .kept .refl
        · rename_i hload
          split
          · rename_i c hearliest
            have hstart : d.StartsCompile c := ⟨hroom, hlink, hpending, not_le.mp hload, hearliest⟩
            unfold startCompile
            split
            · exact .kept .crash
            · rename_i job _
              dsimp only
              have hfork := (useReceived_frame (d := d) (jobKey job)).trans
                (handleConnection_frame job)
              split
              · have hput := (hfork.trans addKid_frame).put
                  { c with status := .waitForChild, pipeFromChild := true, childPid := true }
                exact .compile hstart (hput.trans (sendScheduler_aside _ fun _ => rfl))
              · exact .ended 117 hstart.mem.1 hfork
          · exact .kept .refl

/-! ## Clients that stay

A handler that returns true has not ended its client.
-/

/-- There is a record with the id and the descriptor of `c`. -/
def Keeps (d : Daemon) (c : Client) : Prop :=
  ∃ c₁ ∈ d.clients.list, c₁.clientId = c.clientId ∧ c₁.fd = c.fd

theorem Keeps.frame {A : Obs → Prop} {d' : Daemon} (h : d.Keeps c) (hf : Frame A d d') :
    d'.Keeps c := by
  unfold Keeps at *
  rwa [hf.clients]

theorem Keeps.put {x : Client} (h : d.Keeps c) (hid : x.clientId = c.clientId)
    (hfd : x.fd = c.fd) : (d.put x).Keeps c := by
  obtain ⟨c₁, hc₁, hid₂, -⟩ := h
  refine ⟨x, Records.mem_replace.mpr (.inl ⟨rfl, List.mem_map.mpr ⟨c₁, hc₁, ?_⟩⟩), hid, hfd⟩
  exact hid₂.trans hid.symm

theorem Keeps.congr {x : Client} (h : d.Keeps c) (hid : x.clientId = c.clientId)
    (hfd : x.fd = c.fd) : d.Keeps x := by
  obtain ⟨c₁, hc₁, hid₂, hfd₂⟩ := h
  exact ⟨c₁, hc₁, hid₂.trans hid.symm, hfd₂.trans hfd.symm⟩

/-- A message of a transfer that does not end its client: a chunk that can be written, or
the end. -/
def Continues (d : Daemon) : Option Msg → Prop
  | some (.fileChunk chunk) => chunk.len = 0 ∨ d.ask ≠ 0
  | some .endMsg => True
  | _ => False

instance (d : Daemon) (m : Option Msg) : Decidable (d.Continues m) := by
  unfold Continues
  split <;> infer_instance

theorem require_ask (a : Assertion) (b : Bool) : (d.require a b).ask = d.ask := by
  unfold require
  split <;> rfl

theorem finishTransferEnv_keeps {c₁ : Client} (cancel : Bool) (h : d.Keeps c)
    (hid : c₁.clientId = c.clientId) (hfd : c₁.fd = c.fd) :
    ((d.put c₁).finishTransferEnv c₁ cancel).1.Keeps c :=
  (h.put (x := c₁.transferOver) hid hfd).frame (finishTransferEnv_put cancel)

theorem handleFileChunkEnv_keeps {m : Msg} (h : d.Keeps c) (hm : d.Continues (some m)) :
    (d.handleFileChunkEnv c m).1.Keeps c := by
  have hready := h.frame (requireChunk_frame (c := c))
  have hask : (d.requireChunk c).ask = d.ask := by
    rw [requireChunk, require_ask, require_ask]
  cases m with
  | fileChunk chunk =>
    have hwritten : chunk.len = 0 ∨ (d.requireChunk c).ask ≠ 0 := by rwa [hask]
    simp only [handleFileChunkEnv, if_pos hwritten]
    exact hready.frame (A := fun _ => True) .asked
  | endMsg =>
    simp only [handleFileChunkEnv]
    split
    · exact hready.put rfl rfl
    · exact finishTransferEnv_keeps false hready rfl rfl
  | _ => exact hm.elim

theorem handleFileChunkEnv_continues {m : Msg} (h : (d.handleFileChunkEnv c m).2 = true) :
    d.Continues (some m) := by
  have hask : (d.requireChunk c).ask = d.ask := by
    rw [requireChunk, require_ask, require_ask]
  cases m with
  | fileChunk chunk =>
    by_cases hwritten : chunk.len = 0 ∨ (d.requireChunk c).ask ≠ 0
    · rwa [hask] at hwritten
    · simp only [handleFileChunkEnv, if_neg hwritten] at h
      cases h
  | endMsg => trivial
  | _ => cases h

theorem handleTransferEnv_keeps {m : EnvTransferMsg} {next : Option Msg} (h : d.Keeps c)
    (htrue : (d.handleTransferEnv c m next).2 = true) : (d.handleTransferEnv c m next).1.Keeps c := by
  have hstart := h.frame (requireIdle_frame.trans (startInstallEnvironment_frame
    (d := d.requireIdle c) (d.transferTarget m) m.name next))
  unfold handleTransferEnv at htrue ⊢
  dsimp only at htrue ⊢
  split
  · rename_i hfail
    rw [if_pos hfail] at htrue
    cases htrue
  · rename_i hok
    rw [if_neg hok] at htrue
    have hput := (hstart.frame addKid_frame).put (x := { c with
      status := .toInstall, outfile := envKey (d.transferTarget m) m.name,
      pipeToChild := true, pipeFromChild := true, childPid := true }) rfl rfl
    have hown := hput.congr (x := { c with
      status := .toInstall, outfile := envKey (d.transferTarget m) m.name,
      pipeToChild := true, pipeFromChild := true, childPid := true }) rfl rfl
    exact (handleFileChunkEnv_keeps hown (handleFileChunkEnv_continues htrue)).congr rfl rfl

theorem finishGetNativeEnv_keeps {key : Str} (hkey : key ≠ []) (h : d.Keeps c)
    (htrue : (d.finishGetNativeEnv c key).2 = true) : (d.finishGetNativeEnv c key).1.Keeps c := by
  have hsent := h.frame ((requireCreating_frame.trans (setNative_frame hkey (d.native key))).trans
    (sendClient_frame (d := (d.requireCreating c key).setNative key (d.native key)) c
      (.useNativeEnv (d.native key).name)))
  unfold finishGetNativeEnv at htrue ⊢
  dsimp only at htrue ⊢
  split
  · rename_i hfail
    rw [if_pos hfail] at htrue
    cases htrue
  · exact (hsent.frame (setNative_frame hkey _)).put rfl rfl

theorem handleGetNativeEnv_keeps {m : GetNativeEnvMsg} (h : d.Keeps c)
    (htrue : (d.handleGetNativeEnv c m).2 = true) : (d.handleGetNativeEnv c m).1.Keeps c := by
  unfold handleGetNativeEnv at htrue ⊢
  dsimp only at htrue ⊢
  have hready := h.frame (Aside.require (a := .getNativeEnvCompiler)
    (b := ((Services.getCCompiler (nativeCompiler c m.compiler)).isSome ∧
      (Services.getCppCompiler (nativeCompiler c m.compiler)).isSome)) rfl)
  split
  · rename_i hnone
    simp only [hnone] at htrue
    cases htrue
  · rename_i times hsome
    simp only [hsome] at htrue
    have hkey := nativeKey_ne_nil m
      ((Services.getCCompiler (nativeCompiler c m.compiler)).getD [])
    have hfresh := hready.frame (Frame.asked.trans (dropStale_frame
      (nativeKey m ((Services.getCCompiler (nativeCompiler c m.compiler)).getD [])) times))
    have hput := hfresh.put (x := { c with
      status := .waitCreateEnv
      pendingCreateEnv := nativeKey m
        ((Services.getCCompiler (nativeCompiler c m.compiler)).getD []) }) rfl rfl
    split
    · rename_i hnamed
      rw [if_pos hnamed] at htrue
      have hown := hput.congr (x := { c with
        status := .waitCreateEnv
        pendingCreateEnv := nativeKey m
          ((Services.getCCompiler (nativeCompiler c m.compiler)).getD []) }) rfl rfl
      exact (finishGetNativeEnv_keeps hkey hown htrue).congr rfl rfl
    · exact hput.frame (Frame.asked.trans (setNative_frame hkey _))

theorem handleJobDone_keeps (m : JobDoneMsg) (h : d.Keeps c) : (d.handleJobDone c m).1.Keeps c := by
  apply Keeps.frame _ (handleJobDone_frame m)
  apply Keeps.put _ rfl rfl
  have hlist : ((if c.status = .clientWork then d.release (d.weight c) else d).require .jobDoneId
      (m.jobId = c.jobId)).clients.list = d.clients.list := by
    unfold require
    split <;> split <;> rfl
  unfold Keeps at *
  rwa [hlist]

theorem handleCompileFile_keeps (job : CompileJob) (h : d.Keeps c) :
    (d.handleCompileFile c job).1.Keeps c := by
  unfold handleCompileFile
  dsimp only
  split
  · have hready := h.frame (Frame.require (A := fun _ => True) (a := .compileFileClient)
      (b := job.environmentVersion = str "__client") fun _ => trivial)
    apply Keeps.frame _ (sendScheduler_aside _ fun _ => rfl)
    exact hready.put rfl rfl
  · exact h.put rfl rfl

theorem handleGetCS_keeps (m : GetCSMsg) (h : d.Keeps c) : (d.handleGetCS c m).1.Keeps c := by
  unfold handleGetCS
  dsimp only
  split
  · exact h.put rfl rfl
  · apply Keeps.frame _ (sendScheduler_aside _ fun _ => rfl)
    exact h.put rfl rfl

theorem handleActivity_keeps {m next : Option Msg} (h : d.Keeps c)
    (htrue : (d.handleActivity c m next).2 = true) : (d.handleActivity c m next).1.Keeps c := by
  have hready := h.frame (Aside.require (a := .activityStatus)
    (b := (c.status ≠ .toCompile ∧ c.status ≠ .waitInstall)) rfl)
  unfold handleActivity at htrue ⊢
  dsimp only at htrue ⊢
  cases m with
  | none => cases htrue
  | some m =>
    dsimp only at htrue ⊢
    by_cases hinst : c.status = .toInstall
    · rw [if_pos hinst] at htrue ⊢
      exact handleFileChunkEnv_keeps hready (handleFileChunkEnv_continues htrue)
    · rw [if_neg hinst] at htrue ⊢
      cases m with
      | getNativeEnv r => exact handleGetNativeEnv_keeps hready htrue
      | compileFile job => exact handleCompileFile_keeps job hready
      | transferEnv r => exact handleTransferEnv_keeps hready htrue
      | getCS r => exact handleGetCS_keeps r hready
      | jobLocalBegin r => exact hready.put rfl rfl
      | jobDone r => exact handleJobDone_keeps r hready
      | verifyEnv r => exact hready.frame (handleVerifyEnv_frame r)
      | blacklistHostEnv r => exact hready.frame (handleBlacklistHostEnv_frame r)
      | _ => cases htrue

theorem handleActivity_keeps_transfer {m next : Option Msg} (h : d.Keeps c)
    (hinst : c.status = .toInstall) (hm : d.Continues m) :
    (d.handleActivity c m next).1.Keeps c := by
  have hready := h.frame (Aside.require (a := .activityStatus)
    (b := (c.status ≠ .toCompile ∧ c.status ≠ .waitInstall)) rfl)
  cases m with
  | none => exact hm.elim
  | some m =>
    simp only [handleActivity, if_pos hinst]
    apply handleFileChunkEnv_keeps hready
    cases m with
    | fileChunk chunk =>
      rcases hm with hm | hm
      · exact .inl hm
      · rw [← require_ask] at hm
        exact .inr hm
    | endMsg => trivial
    | _ => exact hm.elim

theorem handleEnvInstallChildDone_keeps (success : Bool) (h : d.Keeps c) :
    (d.handleEnvInstallChildDone c success).1.Keeps c := by
  have hready := h.frame (requireInstalling_frame.trans (dropKid_frame (d := d.requireInstalling c)))
  unfold handleEnvInstallChildDone
  dsimp only
  split
  · exact finishTransferEnv_keeps true hready rfl rfl
  · split
    · have hput := hready.put (x := { c with childPid := false, pipeFromChild := false }) rfl rfl
      exact hput.frame (Aside.require rfl)
    · exact finishTransferEnv_keeps false hready rfl rfl

end Daemon

end Icecream.Iceccd
