import Icecream.Client.Remote
import Icecream.Library.Chunked

/-!
# Runs of a remote build

What `build_remote_int` finds before each of its operations and what it leaves, in every run:
whatever the server sends, whatever fails, and however the files are read.
-/

namespace Icecream.Client

open Icecream.Comm (Bytes Str str Msg UseCSMsg CompileResultMsg FileChunkMsg Content chunk transfer
  contents)
open Icecream.Services (WaitStatus shellExitStatus)

/-- The lock file of a slot is locked. -/
def HostLock.Process.Held (p : HostLock.Process) : Prop := ∃ fd ∈ p.locks, p.lockFd = (fd : ℤ)

namespace Remote

/-- A file has come over the channel last, and it is what is found at the path. -/
def State.Whole (s : State) (path : Str) : Prop :=
  ∃ before chunks, s.received = before ++ transfer chunks ∧ s.files path = some (contents chunks)

/-- The job with another number, environment or flags -/
def Relabelled (old new : Job) : Prop :=
  ∃ id environment flags, new = { old with id := id, environmentVersion := environment, flags := flags }

/-- The host is not locked while the client waits for others, it is locked while the output of a
preprocessor is read, files are written under temporary names and get their names when they are
whole, and no check of the code fails. -/
def asks (piped : Bool) (outputs : List Str) : Op → State → Prop
  | .createChannel _ _, s | .send _, s | .get, s | .lockHost, s => s.lock.lockFd = -1
  | .tell m, s => s.lock.lockFd = -1 ∧ ∃ b, m = .blacklistHostEnv b
  | .setJob job, s => Relabelled s.job job
  | .read .source _, s => piped = true → s.lock.Held
  | .create path, _ | .write path _, _ | .unlink path, _ => ∃ file ∈ outputs, path = icetmp file
  | .rename path path', s => path' ∈ outputs ∧ path = icetmp path' ∧ s.Whole path
  | .fault _, _ => False
  | _, _ => True

/-! ## Operations -/

section

variable {piped : Bool} {outputs : List Str} {α : Type} {R : α → State → Prop}
  {E : ClientError → State → Prop} {s : State}

theorem meets_call {c : Call} {f : Bool → Remote α}
    (h : ∀ ok, (f ok).Meets act (asks piped outputs) R E s) :
    (call c >>= f).Meets act (asks piped outputs) R E s := by
  refine .step trivial fun c r t hact => ?_
  cases c <;> cases hact
  exact h r

theorem meets_send {m : Msg} {f : Bool → Remote α} (hlock : s.lock.lockFd = -1)
    (hsent : (f true).Meets act (asks piped outputs) R E { s with sent := s.sent ++ [m] })
    (hfailed : (f false).Meets act (asks piped outputs) R E s) :
    (op (.send m) >>= f).Meets act (asks piped outputs) R E s := by
  refine .step hlock fun c r t hact => ?_
  cases c <;> cases hact
  cases r with
  | true => exact hsent
  | false => exact hfailed

theorem meets_get {f : Option Msg → Remote α} (hlock : s.lock.lockFd = -1)
    (h : ∀ m, (f m).Meets act (asks piped outputs) R E
      { s with received := s.received ++ m.toList }) :
    (op .get >>= f).Meets act (asks piped outputs) R E s := by
  refine .step hlock fun c r t hact => ?_
  cases c <;> cases hact
  exact h r

theorem meets_job {f : Job → Remote α} (h : (f s.job).Meets act (asks piped outputs) R E s) :
    (op .job >>= f).Meets act (asks piped outputs) R E s := by
  refine .step trivial fun c r t hact => ?_
  cases c <;> cases hact
  exact h

theorem meets_unlock {f : Unit → Remote α}
    (h : (f ()).Meets act (asks piped outputs) R E { s with lock := HostLock.dccUnlock s.lock }) :
    (op .unlock >>= f).Meets act (asks piped outputs) R E s := by
  refine .step trivial fun c r t hact => ?_
  cases c <;> cases hact
  exact h

/-- The lock is got, or it is not held. -/
theorem meets_lock {f : Bool → Remote α} (hfree : s.lock.lockFd = -1)
    (hlocked : ∀ lock, lock.Held → (f true).Meets act (asks piped outputs) R E { s with lock := lock })
    (hfailed : ∀ lock, lock.lockFd = -1 ∨ lock.lockFd = 0 →
      (f false).Meets act (asks piped outputs) R E { s with lock := lock }) :
    (op .lockHost >>= f).Meets act (asks piped outputs) R E s := by
  refine .step hfree fun c r t hact => ?_
  cases c with
  | lock a =>
    obtain ⟨r', hr, heq⟩ := Option.map_eq_some_iff.mp hact
    obtain ⟨rfl, rfl⟩ := Prod.mk.inj heq
    rcases HostLock.dccLockHost_cases (a := a) hfree with ⟨-, hlock⟩ | ⟨-, -, name, block, fd, -, hlock⟩ |
      ⟨-, -, hlock⟩
    · rw [hlock] at hr
      obtain rfl := Option.some.inj hr
      exact hfailed _ (.inl hfree)
    · rw [hlock] at hr
      obtain rfl := Option.some.inj hr
      exact hlocked _ ⟨fd, List.mem_cons_self, rfl⟩
    · rw [hlock] at hr
      obtain rfl := Option.some.inj hr
      exact hfailed _ (.inr rfl)
  | _ => cases hact

theorem meets_write {path : Str} {content : Content} {f : Bool → Remote α}
    (hpath : ∃ file ∈ outputs, path = icetmp file)
    (hwritten : (f true).Meets act (asks piped outputs) R E
      (s.put path ((s.files path).map (· ++ content))))
    (hfailed : ∀ files, (f false).Meets act (asks piped outputs) R E { s with files := files }) :
    (op (.write path content) >>= f).Meets act (asks piped outputs) R E s := by
  refine .step hpath fun c r t hact => ?_
  cases c with
  | does ok =>
    cases hact
    exact hwritten
  | wrote n =>
    obtain ⟨-, heq⟩ := Option.ite_none_right_eq_some.mp hact
    cases heq
    exact hfailed _
  | _ => cases hact

theorem meets_create {path : Str} {f : Bool → Remote α}
    (hpath : ∃ file ∈ outputs, path = icetmp file)
    (hcreated : (f true).Meets act (asks piped outputs) R E (s.put path (some [])))
    (hfailed : (f false).Meets act (asks piped outputs) R E s) :
    (op (.create path) >>= f).Meets act (asks piped outputs) R E s := by
  refine .step hpath fun c r t hact => ?_
  cases c <;> cases hact
  cases r with
  | true => exact hcreated
  | false => exact hfailed

theorem meets_rename {path path' : Str} {f : Bool → Remote α}
    (hwhole : path' ∈ outputs ∧ path = icetmp path' ∧ s.Whole path)
    (hrenamed : (f true).Meets act (asks piped outputs) R E ((s.put path' (s.files path)).put path none))
    (hfailed : (f false).Meets act (asks piped outputs) R E s) :
    (op (.rename path path') >>= f).Meets act (asks piped outputs) R E s := by
  refine .step hwhole fun c r t hact => ?_
  cases c <;> cases hact
  cases r with
  | true => exact hrenamed
  | false => exact hfailed

theorem meets_unlink {path : Str} {f : Bool → Remote α} (hpath : ∃ file ∈ outputs, path = icetmp file)
    (h : ∀ ok files, (f ok).Meets act (asks piped outputs) R E { s with files := files }) :
    (op (.unlink path) >>= f).Meets act (asks piped outputs) R E s := by
  refine .step hpath fun c r t hact => ?_
  cases c <;> cases hact
  cases r with
  | true => exact h true _
  | false => exact h false s.files

end

/-! ## Sending a file -/

section

variable {piped : Bool} {outputs : List Str} {s : State} {α : Type} {R : α → State → Prop}
  {E : ClientError → State → Prop}

theorem meets_fail {β : Type} {errorCode : ℕ} {what : Str} {f : β → Remote α}
    (h : E ⟨false, errorCode, what⟩ s) :
    (fail errorCode what >>= f).Meets act (asks piped outputs) R E s :=
  .bind (.raise h)

theorem meets_refuse {β : Type} {errorCode : ℕ} {what : Str} {f : β → Remote α}
    (h : E ⟨true, errorCode, what⟩ s) :
    (refuse errorCode what >>= f).Meets act (asks piped outputs) R E s :=
  .bind (.raise h)

theorem meets_check {peer : Peer} {m : Option Msg} {f : Unit → Remote α}
    (hfailed : ∀ what, E ⟨false, 23, what⟩ s)
    (h : (∀ text, m ≠ some (.statusText text)) → (f ()).Meets act (asks piped outputs) R E s) :
    (checkForFailure peer m >>= f).Meets act (asks piped outputs) R E s := by
  unfold checkForFailure
  split
  · exact meets_fail (hfailed _)
  · next hno => exact .bind (.pure (h hno))

end

variable {piped : Bool} {outputs : List Str} {s : State}

/-- The lock as it is while a file is read that is sent -/
def Kept (unlockSending : Bool) (lock : HostLock.Process) : Prop :=
  if unlockSending then lock.Held else lock.lockFd = -1

/-- After an exception the lock is let go by whoever has taken it. -/
def Left (unlockSending : Bool) (_ : ClientError) (t : State) : Prop :=
  unlockSending = false → t.lock.lockFd = -1

theorem sendChunk_meets (peer : Peer) (i : Input) (unlockSending : Bool) (buffer : Bytes)
    (hlock : Kept unlockSending s.lock) :
    (sendChunk peer i unlockSending buffer).Meets act (asks piped outputs)
      (fun _ t => ∃ lock, Kept unlockSending lock ∧
        t = { s with lock := lock, sent := s.sent ++ [.fileChunk (chunk buffer)] })
      (Left unlockSending) s := by
  unfold sendChunk
  cases unlockSending with
  | true =>
    simp only [if_true]
    refine meets_unlock (meets_send rfl ?_ ?_)
    · exact meets_lock rfl (fun lock hheld => .pure ⟨lock, hheld, rfl⟩) fun lock hno =>
        meets_call fun _ => .raise fun h => Bool.noConfusion h
    · exact meets_get rfl fun _ => meets_check (fun _ h => Bool.noConfusion h) fun _ =>
        meets_call fun _ => meets_fail fun h => Bool.noConfusion h
  | false =>
    simp only [Bool.false_eq_true, if_false]
    refine meets_send hlock (.pure ⟨s.lock, hlock, rfl⟩) ?_
    exact meets_get hlock fun _ => meets_check (fun _ _ => hlock) fun _ =>
      meets_call fun _ => meets_fail fun _ => hlock

/-- What has been read is sent in chunks that do not depend on how it was read. -/
structure Sends (i : Input) (unlockSending : Bool) (buffer : Bytes) (s t : State) : Prop where
  spells : ∃ lock bs pieces, Kept unlockSending lock ∧ Chunked bufferSize (buffer ++ bs) pieces ∧
    t = (State.readFrom { s with
      lock := lock, sent := s.sent ++ pieces.map fun p => .fileChunk (chunk p) } i bs).endOf i

section

variable {i : Input} {unlockSending : Bool} {buffer bs : Bytes} {t : State}

theorem lock_endOf (s : State) (i : Input) : (s.endOf i).lock = s.lock := by
  cases i <;> rfl

theorem lock_readFrom (s : State) (i : Input) (bs : Bytes) : (s.readFrom i bs).lock = s.lock := by
  cases i <;> rfl

/-- Nothing comes any more. -/
theorem Sends.atEnd {lock : HostLock.Process} {pieces : List Bytes} (hlock : Kept unlockSending lock)
    (hpieces : Chunked bufferSize buffer pieces) :
    Sends i unlockSending buffer s { s.endOf i with
      lock := lock, sent := (s.endOf i).sent ++ pieces.map fun p => .fileChunk (chunk p) } := by
  refine ⟨lock, [], pieces, hlock, by rwa [List.append_nil], ?_⟩
  cases i <;> simp [State.endOf, State.readFrom]

theorem Sends.nothing (hlock : Kept unlockSending s.lock) :
    Sends i unlockSending [] s (s.endOf i) := by
  refine ⟨s.lock, [], [], hlock, .nil, ?_⟩
  cases i <;> simp [State.endOf, State.readFrom]

/-- More comes into the buffer. -/
theorem Sends.more (h : Sends i unlockSending (buffer ++ bs) (s.readFrom i bs) t) :
    Sends i unlockSending buffer s t := by
  obtain ⟨lock, bs', pieces, hlock, hpieces, rfl⟩ := h
  refine ⟨lock, bs ++ bs', pieces, hlock, by rwa [← List.append_assoc], ?_⟩
  cases i <;> simp [State.endOf, State.readFrom]

/-- The buffer has been sent off. -/
theorem Sends.full {lock : HostLock.Process} (hfull : (buffer ++ bs).length = bufferSize)
    (h : Sends i unlockSending [] { s.readFrom i bs with
      lock := lock, sent := (s.readFrom i bs).sent ++ [.fileChunk (chunk (buffer ++ bs))] } t) :
    Sends i unlockSending buffer s t := by
  obtain ⟨lock', bs', pieces, hlock, hpieces, rfl⟩ := h
  refine ⟨lock', bs ++ bs', (buffer ++ bs) :: pieces, hlock, ?_, ?_⟩
  · rw [← List.append_assoc]
    exact .full hfull hpieces
  · cases i <;> simp [State.endOf, State.readFrom]

end

theorem writeFd_meets (peer : Peer) (i : Input) (unlockSending : Bool) (n : ℕ) {buffer : Bytes}
    (hbuffer : buffer.length < bufferSize) (hlock : Kept unlockSending s.lock)
    (hheld : i = .source → piped = true → unlockSending = true) :
    (writeFd peer i unlockSending n buffer).Meets act (asks piped outputs)
      (fun _ => Sends i unlockSending buffer s) (Left unlockSending) s := by
  induction n generalizing buffer s with
  | zero => exact ⟨trivial, fun c r => nomatch r⟩
  | succ n ih =>
    have hasks : asks piped outputs (.read i (bufferSize - buffer.length)) s := by
      cases i with
      | environment => trivial
      | source =>
        intro hpiped
        rw [Kept, hheld rfl hpiped] at hlock
        exact hlock
    unfold writeFd
    refine .step hasks fun c r t hact => ?_
    cases c with
    | read result =>
      cases result with
      | interrupted =>
        cases hact
        exact ih hbuffer hlock
      | failed =>
        cases hact
        refine meets_call fun _ => .raise fun h => ?_
        rw [Kept, h] at hlock
        exact hlock
      | bytes bs =>
        obtain ⟨hroom, heq⟩ := Option.ite_none_right_eq_some.mp hact
        obtain ⟨rfl, rfl⟩ := Prod.mk.inj (Option.some.inj heq)
        refine .ite (fun hend => ?_) fun hmore => .ite (fun hfull => ?_) fun hpart => ?_
        · subst hend
          rw [List.append_nil, if_pos rfl]
          have hlock' : Kept unlockSending (s.endOf i).lock := by rwa [lock_endOf]
          refine .ite (fun hne => ?_) fun hempty => ?_
          · refine .andThen (sendChunk_meets peer i unlockSending buffer hlock') ?_ fun _ _ h => h
            rintro - t ⟨lock, hlock, rfl⟩
            exact meets_call fun _ => .pure (Sends.atEnd hlock (.last hne hbuffer.le))
          · refine meets_call fun _ => .pure ?_
            rw [not_not.mp hempty]
            exact Sends.nothing hlock
        · rw [if_neg hmore]
          have hlock' : Kept unlockSending (s.readFrom i bs).lock := by rwa [lock_readFrom]
          refine .andThen (sendChunk_meets peer i unlockSending _ hlock') ?_ fun _ _ h => h
          rintro - t ⟨lock, hlock, rfl⟩
          exact (ih (by decide) hlock).mono (fun _ _ h => h.full hfull) fun _ _ h => h
        · rw [if_neg hmore]
          have hlock' : Kept unlockSending (s.readFrom i bs).lock := by rwa [lock_readFrom]
          have hless : (buffer ++ bs).length < bufferSize := by
            rw [List.length_append] at hpart ⊢
            omega
          exact (ih hless hlock').mono (fun _ _ h => h.more) fun _ _ h => h
    | _ => cases hact

/-! ## Receiving a file -/

/-- What is thrown leaves the host unlocked. -/
def Unlocked (_ : ClientError) (t : State) : Prop := t.lock.lockFd = -1

theorem put_same {s : State} {path : Str} {content : Option Content} (h : s.files path = content) :
    s.put path content = s := by
  rw [State.put, ← h, Function.update_eq_self]

theorem receiveChunks_meets (peer : Peer) {file : Str} (hfile : file ∈ outputs) (n : ℕ)
    {content : Content} (hlock : s.lock.lockFd = -1) (hopen : s.files (icetmp file) = some content) :
    (receiveChunks peer (icetmp file) n).Meets act (asks piped outputs)
      (fun _ t => ∃ chunks, t = { s with
        received := s.received ++ transfer chunks
        files := Function.update s.files (icetmp file) (some (content ++ contents chunks)) })
      Unlocked s := by
  have htmp : ∃ file' ∈ outputs, icetmp file = icetmp file' := ⟨file, hfile, rfl⟩
  induction n generalizing s content with
  | zero => exact ⟨trivial, fun c r => nomatch r⟩
  | succ n ih =>
    unfold receiveChunks
    refine meets_get hlock fun m => ?_
    cases m with
    | none => exact meets_unlink htmp fun _ _ => meets_fail hlock
    | some m =>
      refine meets_check (fun _ => hlock) fun hno => ?_
      cases m with
      | endMsg =>
        refine .pure ⟨[], ?_⟩
        rw [contents, List.flatMap_nil, List.append_nil, ← hopen, Function.update_eq_self]
        rfl
      | fileChunk m =>
        refine meets_write htmp ?_ fun _ => meets_unlink htmp fun _ _ => meets_fail hlock
        refine .mono (@ih _ (content ++ m.content) ?_ ?_) ?_ fun _ _ h => h
        · exact hlock
        · simp [State.put, hopen]
        · rintro - t ⟨chunks, rfl⟩
          refine ⟨m :: chunks, ?_⟩
          simp [State.put, transfer, contents]
      | _ => exact meets_unlink htmp fun _ _ => .raise hlock

theorem icetmp_ne (file : Str) : icetmp file ≠ file := by
  intro h
  have hlength := congrArg List.length h
  rw [icetmp, List.length_append] at hlength
  have hsuffix : (str "_icetmp").length = 7 := by decide
  omega

/-- The state once a file has been received -/
def State.receives (s : State) (file : Str) (chunks : List FileChunkMsg) : State :=
  { s with
    received := s.received ++ transfer chunks
    files := Function.update (Function.update s.files file (some (contents chunks))) (icetmp file) none }

theorem receiveFile_meets (turns : ℕ) (peer : Peer) {file : Str} (hfile : file ∈ outputs)
    (hlock : s.lock.lockFd = -1) :
    (receiveFile turns peer file).Meets act (asks piped outputs)
      (fun _ t => ∃ chunks, t = s.receives file chunks) Unlocked s := by
  have htmp : ∃ file' ∈ outputs, icetmp file = icetmp file' := ⟨file, hfile, rfl⟩
  unfold receiveFile
  refine meets_create htmp ?_ (meets_fail hlock)
  have hcreated : (s.put (icetmp file) (some [])).files (icetmp file) = some [] :=
    Function.update_self ..
  refine .andThen (receiveChunks_meets peer hfile turns hlock hcreated) ?_ fun _ _ h => h
  rintro - t ⟨chunks, rfl⟩
  refine meets_call fun closed => ?_
  cases closed with
  | false => exact meets_unlink htmp fun _ _ => meets_fail hlock
  | true =>
    refine meets_rename ⟨hfile, rfl, s.received, chunks, rfl, ?_⟩ ?_ ?_
    · simp
    · refine .pure ⟨chunks, ?_⟩
      simp only [State.put, State.receives, Function.update_idem, Function.update_self,
        List.nil_append]
      rw [Function.update_comm (icetmp_ne file), Function.update_idem]
    · exact meets_unlink htmp fun _ _ => .raise hlock

/-! ## Before the source -/

/-- What comes before the description of the job -/
structure Prepares (s t : State) : Prop where
  lock : t.lock.lockFd = -1
  sent : ∃ pre, t.sent = s.sent ++ pre ∧ ∀ m ∈ pre, ∀ job, m ≠ .compileFile job
  received : ∃ got, t.received = s.received ++ got ∧ ∀ m ∈ got, ∃ ok, m = .verifyEnvResult ok
  rest : t.job = s.job ∧ t.source = s.source ∧ t.sourceEnded = s.sourceEnded ∧ t.cpp = s.cpp ∧
    t.files = s.files

theorem verifyEnvironment_meets (usecs : UseCSMsg) (job : Job) (hlock : s.lock.lockFd = -1) :
    (verifyEnvironment usecs job).Meets act (asks piped outputs) (fun _ => Prepares s) Unlocked s := by
  unfold verifyEnvironment
  refine meets_send hlock ?_ (meets_fail hlock)
  refine meets_get hlock fun m => ?_
  have hother : (fail 25 (str "Error 25 - other error verifying environment on remote") :
      Remote Unit).Meets act (asks piped outputs) (fun _ => Prepares s) Unlocked
      { s with
        sent := s.sent ++ [.verifyEnv ⟨job.environmentVersion, job.targetPlatform⟩]
        received := s.received ++ m.toList } := .raise hlock
  cases m with
  | none => exact hother
  | some m =>
    cases m with
    | verifyEnvResult ok =>
      cases ok with
      | true =>
        refine .pure ⟨hlock, ⟨_, rfl, ?_⟩, ⟨_, rfl, ?_⟩, rfl, rfl, rfl, rfl, rfl⟩
        · simp
        · simp
      | false =>
        refine .step ⟨hlock, _, rfl⟩ fun c r t hact => ?_
        cases c <;> cases hact
        refine .raise ?_
        cases r <;> exact hlock
    | _ => exact hother

theorem Prepares.trans {s t u : State} (h : Prepares s t) (h' : Prepares t u) : Prepares s u := by
  obtain ⟨pre, hpre, hno⟩ := h.sent
  obtain ⟨pre', hpre', hno'⟩ := h'.sent
  obtain ⟨got, hgot, hverify⟩ := h.received
  obtain ⟨got', hgot', hverify'⟩ := h'.received
  obtain ⟨hjob, hsource, hended, hcpp, hfiles⟩ := h.rest
  obtain ⟨hjob', hsource', hended', hcpp', hfiles'⟩ := h'.rest
  refine ⟨h'.lock, ⟨pre ++ pre', ?_, ?_⟩, ⟨got ++ got', ?_, ?_⟩, hjob'.trans hjob,
    hsource'.trans hsource, hended'.trans hended, hcpp'.trans hcpp, hfiles'.trans hfiles⟩
  · rw [hpre', hpre, List.append_assoc]
  · exact List.forall_mem_append.mpr ⟨hno, hno'⟩
  · rw [hgot', hgot, List.append_assoc]
  · exact List.forall_mem_append.mpr ⟨hverify, hverify'⟩

theorem transferEnvironment_meets (turns : ℕ) (peer : Peer) (usecs : UseCSMsg) (versionFile : Str)
    (hlock : s.lock.lockFd = -1) :
    (transferEnvironment turns peer usecs versionFile).Meets act (asks piped outputs)
      (fun _ => Prepares s) Unlocked s := by
  unfold transferEnvironment
  refine meets_call fun ok => ?_
  cases ok with
  | false => exact meets_fail hlock
  | true =>
    refine meets_job (meets_send hlock (meets_call fun ok => ?_) (meets_fail hlock))
    cases ok with
    | false => exact meets_fail hlock
    | true =>
      refine .andThen (writeFd_meets peer .environment false turns (by decide) hlock (by simp)) ?_
        fun _ _ h => h rfl
      rintro - t ⟨lock, bs, pieces, hkept, -, rfl⟩
      have hkept : lock.lockFd = -1 := hkept
      refine meets_send hkept ?_ (meets_fail hkept)
      have hprepares : Prepares s { s with
          lock := lock
          environment := s.environment ++ bs
          sent := s.sent ++ [.transferEnv ⟨s.job.environmentVersion, s.job.targetPlatform⟩] ++
            (pieces.map fun p => .fileChunk (chunk p)) ++ [.endMsg] } := by
        refine ⟨hkept, ⟨.transferEnv ⟨s.job.environmentVersion, s.job.targetPlatform⟩ ::
          ((pieces.map fun p => .fileChunk (chunk p)) ++ [.endMsg]), ?_, ?_⟩, ⟨[], ?_, ?_⟩,
          rfl, rfl, rfl, rfl, rfl⟩
        · simp
        · refine List.forall_mem_cons.mpr ⟨by simp, List.forall_mem_append.mpr ⟨?_, by simp⟩⟩
          exact List.forall_mem_map.mpr fun _ _ _ => by simp
        · simp
        · simp
      refine .ite (fun _ => .ite (fun _ => ?_) fun _ => .pure hprepares) fun h => absurd rfl h
      exact (verifyEnvironment_meets usecs s.job hkept).mono (fun _ _ h => hprepares.trans h)
        fun _ _ h => h

/-! ## The source -/

/-- What the checks of the code need of a job -/
structure Buildable (job : Job) : Prop where
  compiler : Path.slash ∉ job.compilerName
  output : job.outputFile ≠ []

theorem compilerIsClang_total {job : Job} (h : Buildable job) : ∃ b, compilerIsClang job = .ok b := by
  unfold compilerIsClang
  split
  · exact ⟨_, rfl⟩
  · rw [if_neg h.compiler]
    exact ⟨_, rfl⟩

theorem compilerOnlyRewriteIncludes_total (host : Host) {job : Job} (h : Buildable job) :
    ∃ b, compilerOnlyRewriteIncludes host job = .ok b := by
  obtain ⟨clang, hclang⟩ := compilerIsClang_total h
  unfold compilerOnlyRewriteIncludes
  rw [hclang]
  split
  · exact ⟨_, rfl⟩
  · split
    · exact ⟨_, rfl⟩
    · cases clang <;> exact ⟨_, rfl⟩

theorem outputNeedsWorkaround_total (v : Surroundings) {job : Job} (h : Buildable job) :
    ∃ b, outputNeedsWorkaround v job = .ok b := by
  obtain ⟨clang, hclang⟩ := compilerIsClang_total h
  unfold outputNeedsWorkaround
  rw [hclang]
  cases clang with
  | true => exact ⟨_, rfl⟩
  | false =>
    dsimp only [Bind.bind, Except.bind]
    split
    · next h => cases h
    · split
      · exact ⟨_, rfl⟩
      · split <;> exact ⟨_, rfl⟩

theorem colorifyWanted_total (v : Surroundings) {job : Job} (h : Buildable job) :
    ∃ b, colorifyWanted v job = .ok b := by
  obtain ⟨clang, hclang⟩ := compilerIsClang_total h
  have hcolor : ∃ b, compilerHasColorOutput v.host job = .ok b := by
    unfold compilerHasColorOutput
    rw [hclang]
    split
    · exact ⟨_, rfl⟩
    · cases clang with
      | true => exact ⟨_, rfl⟩
      | false => cases v.host.colorDiagnostics <;> exact ⟨_, rfl⟩
  obtain ⟨color, hcolor⟩ := hcolor
  unfold colorifyWanted
  rw [hcolor]
  cases color <;> exact ⟨_, rfl⟩

theorem meets_checked {α β : Type} {e : Except Fault β} {f : β → Remote α} {R : α → State → Prop}
    {E : ClientError → State → Prop} (htotal : ∃ b, e = .ok b)
    (h : ∀ b, (f b).Meets act (asks piped outputs) R E s) :
    (checked e >>= f).Meets act (asks piped outputs) R E s := by
  obtain ⟨b, rfl⟩ := htotal
  exact .bind (.pure (h b))

/-- The source is sent, whole, and the preprocessor has not failed. -/
def Supplies (preprocFile : Option Str) (s t : State) : Prop :=
  ∃ lock cpp bs pieces, Chunked bufferSize bs pieces ∧
    (preprocFile = none → ∃ w, cpp = some w ∧ shellExitStatus w = 0) ∧
    t = { s with
      lock := lock
      cpp := cpp
      source := s.source ++ bs
      sourceEnded := true
      sent := s.sent ++ pieces.map fun p => .fileChunk (chunk p) }

theorem sendPreprocessed_meets (v : Surroundings) (turns : ℕ) (peer : Peer) (hjob : Buildable s.job)
    (hheld : s.lock.Held) :
    (sendPreprocessed v turns peer).Meets act (asks piped outputs)
      (fun r t => (∀ status, r = some status → status ≠ 0) ∧ (r = none → Supplies none s t))
      (fun _ _ => True) s := by
  unfold sendPreprocessed
  refine meets_job (meets_call fun ok => ?_)
  cases ok with
  | false => exact meets_fail trivial
  | true =>
    refine .andThen (.rescue (writeFd_meets peer .source true turns (by decide) hheld
      fun _ _ => rfl) fun e t _ => meets_call fun _ => .raise trivial) ?_ fun _ _ h => h
    rintro - t ⟨lock, bs, pieces, hkept, hpieces, rfl⟩
    refine .step trivial fun c w t hact => ?_
    cases c <;> cases hact
    refine .ite (fun hfailed => ?_) fun hok => ?_
    · refine .step trivial fun c r t hact => ?_
      cases c <;> cases hact
      refine meets_job (meets_checked (compilerIsClang_total hjob) fun clang =>
        meets_checked (compilerOnlyRewriteIncludes_total v.host hjob) fun only => ?_)
      refine .ite (fun _ => .raise trivial) fun _ => .pure ⟨?_, by simp⟩
      rintro status ⟨⟩
      exact_mod_cast hfailed
    · refine .pure ⟨by simp, fun _ => ⟨lock, some w, bs, pieces, hpieces, ?_, rfl⟩⟩
      exact fun _ => ⟨w, rfl, not_not.mp hok⟩

/-- The function goes on with the source sent, or what it returns is an error. Only a lock that
cannot be had leaves a trace of itself. -/
def Supplied (preprocFile : Option Str) (s : State) : Option ℤ → State → Prop
  | none, t => t.lock.lockFd = -1 ∧ Supplies preprocFile s t
  | some status, t => status ≠ 0 ∧ (t.lock.lockFd = -1 ∨ status = exitDistccFailed)

theorem sendSource_meets (v : Surroundings) (turns : ℕ) (peer : Peer) (preprocFile : Option Str)
    (hjob : Buildable s.job) (hlock : s.lock.lockFd = -1) :
    (sendSource v turns peer preprocFile).Meets act (asks preprocFile.isNone outputs)
      (Supplied preprocFile s) Unlocked s := by
  cases preprocFile with
  | none =>
    unfold sendSource
    refine meets_call fun ok => ?_
    cases ok with
    | false => exact meets_fail hlock
    | true =>
      refine meets_lock hlock (fun lock hheld => ?_) fun lock _ => .pure ⟨by decide, .inr rfl⟩
      refine .leaving (sendPreprocessed_meets v turns peer (s := { s with lock := lock }) hjob hheld)
        (fun r t hr => ?_) fun e t _ => meets_unlock (.pure rfl)
      refine meets_unlock (.pure ?_)
      cases r with
      | some status => exact ⟨hr.1 status rfl, .inl rfl⟩
      | none =>
        obtain ⟨lock', cpp, bs, pieces, hpieces, hcpp, rfl⟩ := hr.2 rfl
        exact ⟨rfl, _, cpp, bs, pieces, hpieces, hcpp, rfl⟩
  | some preprocFile =>
    unfold sendSource
    refine meets_call fun ok => ?_
    cases ok with
    | false => exact meets_fail hlock
    | true =>
      refine .andThen (writeFd_meets peer .source false turns (by decide) hlock (by simp)) ?_
        fun _ _ h => h rfl
      rintro - t ⟨lock, bs, pieces, hkept, hpieces, rfl⟩
      exact .pure ⟨hkept, lock, s.cpp, bs, pieces, hpieces, by simp, rfl⟩

/-! ## The result -/

/-- What is printed changes nothing else. -/
def Prints (s t : State) : Prop := ∃ out err, t = { s with out := out, err := err }

theorem report_meets (v : Surroundings) (m : CompileResultMsg) (hjob : Buildable s.job)
    (hlock : s.lock.lockFd = -1) :
    (report v m).Meets act (asks piped outputs) (fun _ => Prints s) Unlocked s := by
  have hprint : ∀ err, (op (.print .err err) : Remote Unit).Meets act (asks piped outputs)
      (fun _ => Prints s) Unlocked { s with out := s.out ++ m.out } := by
    refine fun err => .perform trivial fun c r t hact => ?_
    cases c <;> cases hact
    exact ⟨_, _, rfl⟩
  unfold report
  refine meets_job (meets_checked (outputNeedsWorkaround_total v hjob) fun workaround => ?_)
  dsimp only
  refine .ite (fun _ => meets_refuse hlock) fun _ => .ite (fun _ => meets_refuse hlock) fun _ => ?_
  refine .step trivial fun c r t hact => ?_
  cases c <;> cases hact
  refine meets_checked (colorifyWanted_total v hjob) fun wanted => ?_
  exact .ite (fun _ => hprint _) fun _ => hprint _

/-- The files that come with a result. The second file is behind the first. -/
inductive Receives (m : CompileResultMsg) (s : State) : State → Prop
  | failed (hstatus : m.status ≠ 0) : Receives m s s
  | object (hstatus : m.status = 0) (hdwo : m.haveDwoFile = false) (object : List FileChunkMsg) :
      Receives m s (s.receives s.job.outputFile object)
  | both (hstatus : m.status = 0) (hdwo : m.haveDwoFile = true) (object dwo : List FileChunkMsg) :
      Receives m s ((s.receives s.job.outputFile object).receives (dwoName s.job.outputFile) dwo)

theorem receiveFiles_meets (turns : ℕ) (peer : Peer) (m : CompileResultMsg)
    (houtput : s.job.outputFile ≠ []) (hlock : s.lock.lockFd = -1) :
    (receiveFiles turns peer m).Meets act (asks piped [s.job.outputFile, dwoName s.job.outputFile])
      (fun status t => status = m.status.toInt ∧ Receives m s t) Unlocked s := by
  unfold receiveFiles
  refine meets_job ?_
  dsimp only
  refine .ite (fun h => absurd h houtput) fun _ => .ite (fun hstatus => ?_) fun hstatus =>
    .pure ⟨rfl, .failed hstatus⟩
  refine .andThen (receiveFile_meets turns peer (by simp) hlock) ?_ fun _ _ h => h
  rintro - t ⟨object, rfl⟩
  refine .ite (fun hdwo => ?_) fun hdwo =>
    .pure ⟨rfl, .object hstatus (Bool.eq_false_iff.mpr hdwo) object⟩
  refine .andThen (receiveFile_meets turns peer (by simp) hlock) ?_ fun _ _ h => h
  rintro - t ⟨dwo, rfl⟩
  exact .pure ⟨rfl, .both hstatus hdwo object dwo⟩

/-- What is received after the source has been sent -/
def Finishes (s : State) (status : ℤ) (t : State) : Prop :=
  ∃ m : CompileResultMsg, ∃ out err, status = m.status.toInt ∧
    Receives m { s with received := s.received ++ [.compileResult m], out := out, err := err } t

theorem receiveResult_meets (v : Surroundings) (turns : ℕ) (peer : Peer) (output : Bool)
    (hjob : Buildable s.job) (hlock : s.lock.lockFd = -1) :
    (receiveResult v turns peer output).Meets act
      (asks piped [s.job.outputFile, dwoName s.job.outputFile]) (Finishes s) Unlocked s := by
  unfold receiveResult
  refine meets_get hlock fun msg => ?_
  cases msg with
  | none => exact meets_fail hlock
  | some msg =>
    refine meets_check (fun _ => hlock) fun _ => ?_
    cases msg with
    | compileResult m =>
      have hfiles : ∀ out err, (receiveFiles turns peer m).Meets act
          (asks piped [s.job.outputFile, dwoName s.job.outputFile]) (Finishes s) Unlocked
          { s with received := s.received ++ [.compileResult m], out := out, err := err } :=
        fun out err => (receiveFiles_meets (s := { s with
          received := s.received ++ [.compileResult m], out := out, err := err }) turns peer m
          hjob.output hlock).mono (fun _ _ h => ⟨m, out, err, h⟩) fun _ _ h => h
      dsimp only
      refine .ite (fun _ => meets_refuse hlock) fun _ => .ite (fun _ => ?_) fun _ => hfiles s.out s.err
      refine .andThen (report_meets v m (by exact hjob) hlock) ?_ fun _ _ h => h
      rintro - t ⟨out, err, rfl⟩
      exact hfiles out err
    | _ => exact .raise hlock

/-! ## The whole -/

theorem drain_meets (n : ℕ) (hlock : s.lock.lockFd = -1) {E : ClientError → State → Prop} :
    (drain n).Meets act (asks piped outputs) (fun _ t => t.lock.lockFd = -1) E s := by
  induction n generalizing s with
  | zero => exact ⟨trivial, fun c r => nomatch r⟩
  | succ n ih =>
    unfold drain
    refine meets_get hlock fun m => .ite (fun _ => ih hlock) fun _ => ?_
    refine .perform trivial fun c r t hact => ?_
    cases c <;> cases hact
    exact hlock

theorem tellLanguage_meets (peer : Peer) :
    (tellLanguage peer).Meets act (asks piped outputs)
      (fun _ t => ∃ flags, t = { s with job := { s.job with flags := flags } })
      Unlocked s := by
  unfold tellLanguage
  refine meets_job (.ite (fun _ => ?_) fun _ => .pure ⟨s.job.flags, rfl⟩)
  refine .perform ⟨_, _, _, rfl⟩ fun c r t hact => ?_
  cases c <;> cases hact
  exact ⟨_, rfl⟩

/-- A job that is built elsewhere without an error: everything has been sent, everything that came
is known, and the files are there. -/
structure Built (preprocFile : Option Str) (s t : State) : Prop where
  sent : ∃ pre job bs pieces, (∀ m ∈ pre, ∀ job, m ≠ .compileFile job) ∧
    Chunked bufferSize bs pieces ∧ t.source = s.source ++ bs ∧
    t.sent = s.sent ++ (pre ++ .compileFile job :: transfer (pieces.map chunk))
  source : t.sourceEnded = true
  cpp : preprocFile = none → ∃ w, t.cpp = some w ∧ shellExitStatus w = 0
  received : ∃ got m u, (∀ a ∈ got, ∃ ok, a = .verifyEnvResult ok) ∧ m.status = 0 ∧
    u.received = s.received ++ got ++ [.compileResult m] ∧ u.files = s.files ∧
    u.job.outputFile = s.job.outputFile ∧ Receives m u t

/-- What is returned: no error, and everything is there, or the lock may be left half taken. -/
def Returns (preprocFile : Option Str) (s : State) (status : ℤ) (t : State) : Prop :=
  (t.lock.lockFd = -1 ∨ status = exitDistccFailed) ∧ (status = 0 → Built preprocFile s t)

theorem Receives.rest {m : CompileResultMsg} {t : State} (h : Receives m s t) :
    t.lock = s.lock ∧ t.sent = s.sent ∧ t.source = s.source ∧ t.sourceEnded = s.sourceEnded ∧
      t.cpp = s.cpp := by
  cases h <;> exact ⟨rfl, rfl, rfl, rfl, rfl⟩

theorem Receives.success {m : CompileResultMsg} {t : State} (h : Receives m s t) (hstatus : m.status = 0) :
    ∃ object, m.haveDwoFile = false ∧ t = s.receives s.job.outputFile object ∨
      m.haveDwoFile = true ∧ ∃ dwo,
        t = (s.receives s.job.outputFile object).receives (dwoName s.job.outputFile) dwo := by
  cases h with
  | failed hfailed => exact absurd hstatus hfailed
  | object _ hdwo object => exact ⟨object, .inl ⟨hdwo, rfl⟩⟩
  | both _ hdwo object dwo => exact ⟨object, .inr ⟨hdwo, dwo, rfl⟩⟩

theorem Receives.disconnected {m : CompileResultMsg} {t : State} (h : Receives m s t) :
    Receives m { s with connected := false } { t with connected := false } := by
  cases h with
  | failed hstatus => exact .failed hstatus
  | object hstatus hdwo object => exact .object hstatus hdwo object
  | both hstatus hdwo object dwo => exact .both hstatus hdwo object dwo

theorem buildOn_meets (v : Surroundings) (turns : ℕ) (usecs : UseCSMsg) (versionFile : Str)
    (preprocFile : Option Str) (output : Bool) (hjob : Buildable s.job) (hlock : s.lock.lockFd = -1) :
    (buildOn v turns usecs versionFile preprocFile output).Meets act
      (asks preprocFile.isNone [s.job.outputFile, dwoName s.job.outputFile])
      (Returns preprocFile s) Unlocked s := by
  unfold buildOn
  refine .step hlock fun c peer t hact => ?_
  cases c <;> cases hact
  cases peer with
  | none => exact .raise hlock
  | some peer =>
    have hconnected : Prepares s { s with connected := true } :=
      ⟨hlock, ⟨[], by simp⟩, ⟨[], by simp⟩, rfl, rfl, rfl, rfl, rfl⟩
    refine .optional (I := Prepares s) (fun _ => ?_) (fun _ => hconnected) fun t hprepares => ?_
    · exact .mono (transferEnvironment_meets turns peer usecs versionFile hconnected.lock)
        (fun _ _ h => hconnected.trans h) fun _ _ h => h
    refine .ite (fun _ => meets_fail hprepares.lock) fun _ => ?_
    refine .andThen (tellLanguage_meets peer) ?_ fun _ _ h => h
    rintro - u ⟨flags, rfl⟩
    refine meets_job (meets_send hprepares.lock ?_ (meets_fail hprepares.lock))
    obtain ⟨hsame, hrest⟩ := hprepares.rest
    rw [hsame]
    refine .andThen (sendSource_meets v turns peer preprocFile ⟨hjob.compiler, hjob.output⟩
      hprepares.lock) ?_ fun _ _ h => h
    rintro (_ | status) u hsupplied
    · obtain ⟨hfree, hsupplies⟩ := hsupplied
      obtain ⟨lock, cpp, bs, pieces, hpieces, hcpp, rfl⟩ := hsupplies
      refine meets_send hfree ?_ (meets_fail hfree)
      refine .andThen (receiveResult_meets v turns peer output ⟨hjob.compiler, hjob.output⟩ hfree) ?_
        fun _ _ h => h
      rintro status u ⟨m, out, err, hstatus, hreceives⟩
      obtain ⟨hlock', hsent, hsource, hended, hcpp'⟩ := hreceives.rest
      refine .step trivial fun c r u' hact => ?_
      cases c <;> cases hact
      refine .pure ⟨.inl (hlock'.symm ▸ hfree), ?_⟩
      intro hzero
      have hm : m.status = 0 := Int32.toInt_inj.mp (hstatus.symm.trans hzero)
      obtain ⟨pre, hpre, hno⟩ := hprepares.sent
      obtain ⟨got, hgot, hverify⟩ := hprepares.received
      obtain ⟨hsource', hended', hcpp'', hfiles⟩ := hrest
      refine ⟨⟨pre, updateFlags { s.job with flags := flags }.toCompileJob (rebased v), bs, pieces, hno,
        hpieces, ?_, ?_⟩, hended, ?_, ?_⟩
      · exact hsource.trans (congrArg (· ++ bs) hsource')
      · refine hsent.trans ?_
        simp [hpre, transfer]
      · intro hnone
        obtain ⟨w, hw, hok⟩ := hcpp hnone
        exact ⟨w, hcpp'.trans hw, hok⟩
      · refine ⟨got, m, _, hverify, hm, ?_, ?_, ?_, hreceives.disconnected⟩
        · exact congrArg (· ++ [.compileResult m]) hgot
        · exact hfiles
        · rfl
    · exact .pure ⟨hsupplied.2, fun h => absurd h hsupplied.1⟩

theorem buildRemoteInt_meets (v : Surroundings) (turns : ℕ) (usecs : UseCSMsg)
    (environment versionFile : Str) (preprocFile : Option Str) (output : Bool)
    (hjob : Buildable s.job) (hlock : s.lock.lockFd = -1) :
    (buildRemoteInt v turns usecs environment versionFile preprocFile output).Meets act
      (asks preprocFile.isNone [s.job.outputFile, dwoName s.job.outputFile])
      (Returns preprocFile s) Unlocked s := by
  unfold buildRemoteInt
  refine meets_job (.step ⟨_, _, _, rfl⟩ fun c r t hact => ?_)
  cases c <;> cases hact
  refine .rescue (.mono (buildOn_meets v turns usecs versionFile preprocFile output
    (s := { s with job := { s.job with id := usecs.jobId, environmentVersion := environment } })
    ⟨hjob.compiler, hjob.output⟩ hlock) (fun status t h => ⟨h.1, fun hzero => ?_⟩)
    fun _ _ h => h) fun e t hfree => ?_
  · obtain ⟨hsent, hended, hcpp, hreceived⟩ := h.2 hzero
    exact ⟨hsent, hended, hcpp, hreceived⟩
  · refine .step trivial fun c r t' hact => ?_
    cases c <;> cases hact
    exact .optional (I := Unlocked e) (fun _ => drain_meets turns hfree) (fun _ => hfree)
      fun _ h => .raise h

/-! ## Runs -/

section

variable (v : Surroundings) (turns : ℕ) (usecs : UseCSMsg) (environment versionFile : Str)
  (preprocFile : Option Str) (output : Bool)

/-- The runs from a state -/
def runs (s : State) : Transition.System (Running Op Op.Res State (Except ClientError ℤ)) Choice :=
  Script.system act (buildRemoteInt v turns usecs environment versionFile preprocFile output)
    fun t => t = s

variable {v turns usecs environment versionFile preprocFile output}
  {r : Running Op Op.Res State (Except ClientError ℤ)}
  (hr : (runs v turns usecs environment versionFile preprocFile output s).Reachable r)
  (hjob : Buildable s.job) (hlock : s.lock.lockFd = -1)

omit hr in
include hjob hlock in
theorem runs_meets : ∀ t, t = s →
    (buildRemoteInt v turns usecs environment versionFile preprocFile output).Meets act
      (asks preprocFile.isNone [s.job.outputFile, dwoName s.job.outputFile])
      (Returns preprocFile s) Unlocked t := by
  rintro t rfl
  exact buildRemoteInt_meets v turns usecs environment versionFile preprocFile output hjob hlock

include hr hjob hlock

theorem runs_asks {o : Op} {rest : Op.Res o → Script Op Op.Res (Except ClientError ℤ)}
    (hnext : r.program = .step o rest) :
    asks preprocFile.isNone [s.job.outputFile, dwoName s.job.outputFile] o r.state :=
  Script.reaches_asks hr (runs_meets hjob hlock) hnext

theorem runs_returns {status : ℤ} (hend : r.program = .done (.ok status)) :
    Returns preprocFile s status r.state :=
  Script.reaches_done hr (runs_meets hjob hlock) hend

theorem runs_throws {e : ClientError} (hend : r.program = .done (.error e)) :
    r.state.lock.lockFd = -1 :=
  Script.reaches_done hr (runs_meets hjob hlock) hend

theorem runs_keeps {I : State → Prop} (hinit : I s)
    (hact : ∀ o c t x u, asks preprocFile.isNone [s.job.outputFile, dwoName s.job.outputFile] o t →
      act o c t = some (x, u) → I t → I u) : I r.state :=
  Script.reaches_keeps hr (runs_meets hjob hlock) (by rintro t rfl; exact hinit) hact

end

/-- What waits for another host, or for the lock -/
def Waits : Op → Prop
  | .createChannel _ _ | .send _ | .get | .tell _ | .lockHost => True
  | _ => False

/-- A file is as it was before, or it has come whole. -/
def Installed (outputs : List Str) (before : Str → Option Content) (t : State) (path : Str) : Prop :=
  t.files path = before path ∨
    path ∈ outputs ∧ ∃ chunks, transfer chunks <:+: t.received ∧ t.files path = some (contents chunks)

section

variable {before : Str → Option Content} {path : Str} {t u : State} {o : Op} {c : Choice} {x : o.Res}

theorem Installed.keeps (h : Installed outputs before t path) (hfiles : u.files path = t.files path)
    (hreceived : t.received <+: u.received) : Installed outputs before u path := by
  rcases h with hsame | ⟨hpath, chunks, hchunks, hwhole⟩
  · exact .inl (hfiles.trans hsame)
  · exact .inr ⟨hpath, chunks, hchunks.trans hreceived.isInfix, hfiles.trans hwhole⟩

/-- Files are changed by the operations on them only. -/
theorem act_files (h : act o c t = some (x, u)) :
    (u.files = t.files ∧ t.received <+: u.received) ∨
    (∃ path content, (o = .create path ∨ (∃ bs, o = .write path bs) ∨ o = .unlink path) ∧
      u = t.put path content) ∨
    ∃ path path', o = .rename path path' ∧ u = (t.put path' (t.files path)).put path none := by
  have hsame : u = t → (u.files = t.files ∧ t.received <+: u.received) := by
    rintro rfl
    exact ⟨rfl, List.prefix_rfl⟩
  cases o with
  | create path =>
    cases c <;> cases h
    cases x with
    | true => exact .inr (.inl ⟨path, _, .inl rfl, rfl⟩)
    | false => exact .inl (hsame rfl)
  | write path bs =>
    cases c with
    | does ok =>
      cases h
      exact .inr (.inl ⟨path, _, .inr (.inl ⟨bs, rfl⟩), rfl⟩)
    | wrote n =>
      obtain ⟨-, heq⟩ := Option.ite_none_right_eq_some.mp h
      cases heq
      exact .inr (.inl ⟨path, _, .inr (.inl ⟨bs, rfl⟩), rfl⟩)
    | _ => cases h
  | unlink path =>
    cases c <;> cases h
    cases x with
    | true => exact .inr (.inl ⟨path, _, .inr (.inr rfl), rfl⟩)
    | false => exact .inl (hsame rfl)
  | rename path path' =>
    cases c <;> cases h
    cases x with
    | true => exact .inr (.inr ⟨path, path', rfl, rfl⟩)
    | false => exact .inl (hsame rfl)
  | get =>
    cases c <;> cases h
    exact .inl ⟨rfl, List.prefix_append _ _⟩
  | send m | tell m =>
    cases c <;> cases h
    cases x <;> exact .inl ⟨rfl, List.prefix_rfl⟩
  | read i room =>
    refine .inl ?_
    cases c with
    | read result =>
      cases result with
      | bytes bs =>
        obtain ⟨-, heq⟩ := Option.ite_none_right_eq_some.mp h
        obtain ⟨rfl, rfl⟩ := Prod.mk.inj (Option.some.inj heq)
        cases i <;> split <;> exact ⟨rfl, List.prefix_rfl⟩
      | _ =>
        cases h
        exact hsame rfl
    | _ => cases h
  | lockHost =>
    cases c with
    | lock a =>
      obtain ⟨r, -, heq⟩ := Option.map_eq_some_iff.mp h
      obtain ⟨rfl, rfl⟩ := Prod.mk.inj heq
      exact .inl ⟨rfl, List.prefix_rfl⟩
    | _ => cases h
  | print stream text =>
    cases stream <;> cases c
    all_goals cases h
    all_goals exact .inl ⟨rfl, List.prefix_rfl⟩
  | fault | turns => exact x.elim
  | _ =>
    cases c <;> cases h
    all_goals exact .inl ⟨rfl, List.prefix_rfl⟩

/-- Messages are added to what has been sent and received. -/
theorem act_history (h : act o c t = some (x, u)) :
    t.sent <+: u.sent ∧ t.received <+: u.received := by
  cases o with
  | send m =>
    cases c <;> cases h
    cases x with
    | true => exact ⟨List.prefix_append _ _, List.prefix_rfl⟩
    | false => exact ⟨List.prefix_rfl, List.prefix_rfl⟩
  | get =>
    cases c <;> cases h
    exact ⟨List.prefix_rfl, List.prefix_append _ _⟩
  | create path | unlink path | rename path path' | tell m =>
    cases c <;> cases h
    cases x <;> exact ⟨List.prefix_rfl, List.prefix_rfl⟩
  | write path bs =>
    cases c with
    | does ok =>
      cases h
      exact ⟨List.prefix_rfl, List.prefix_rfl⟩
    | wrote n =>
      obtain ⟨-, heq⟩ := Option.ite_none_right_eq_some.mp h
      cases heq
      exact ⟨List.prefix_rfl, List.prefix_rfl⟩
    | _ => cases h
  | read i room =>
    cases c with
    | read result =>
      cases result with
      | bytes bs =>
        obtain ⟨-, heq⟩ := Option.ite_none_right_eq_some.mp h
        obtain ⟨rfl, rfl⟩ := Prod.mk.inj (Option.some.inj heq)
        cases i <;> split <;> exact ⟨List.prefix_rfl, List.prefix_rfl⟩
      | _ =>
        cases h
        exact ⟨List.prefix_rfl, List.prefix_rfl⟩
    | _ => cases h
  | lockHost =>
    cases c with
    | lock a =>
      obtain ⟨r, -, heq⟩ := Option.map_eq_some_iff.mp h
      obtain ⟨rfl, rfl⟩ := Prod.mk.inj heq
      exact ⟨List.prefix_rfl, List.prefix_rfl⟩
    | _ => cases h
  | print stream text =>
    cases stream <;> cases c
    all_goals cases h
    all_goals exact ⟨List.prefix_rfl, List.prefix_rfl⟩
  | fault | turns => exact x.elim
  | _ =>
    cases c <;> cases h
    all_goals exact ⟨List.prefix_rfl, List.prefix_rfl⟩

/-- The job and what the daemon was told change by the operations on them only. -/
theorem act_job (h : act o c t = some (x, u)) :
    (u.job = t.job ∧ u.told = t.told) ∨ (∃ job, o = .setJob job ∧ u.job = job ∧ u.told = t.told) ∨
      ∃ m, o = .tell m ∧ u.job = t.job ∧ (u.told = t.told ∨ u.told = t.told ++ [m]) := by
  cases o with
  | setJob job =>
    cases c <;> cases h
    exact .inr (.inl ⟨_, rfl, rfl, rfl⟩)
  | tell m =>
    cases c <;> cases h
    cases x with
    | true => exact .inr (.inr ⟨_, rfl, rfl, .inr rfl⟩)
    | false => exact .inr (.inr ⟨_, rfl, rfl, .inl rfl⟩)
  | send m | create path | unlink path | rename path path' =>
    cases c <;> cases h
    cases x <;> exact .inl ⟨rfl, rfl⟩
  | write path bs =>
    cases c with
    | does ok =>
      cases h
      exact .inl ⟨rfl, rfl⟩
    | wrote n =>
      obtain ⟨-, heq⟩ := Option.ite_none_right_eq_some.mp h
      cases heq
      exact .inl ⟨rfl, rfl⟩
    | _ => cases h
  | read i room =>
    cases c with
    | read result =>
      cases result with
      | bytes bs =>
        obtain ⟨-, heq⟩ := Option.ite_none_right_eq_some.mp h
        obtain ⟨rfl, rfl⟩ := Prod.mk.inj (Option.some.inj heq)
        cases i <;> split <;> exact .inl ⟨rfl, rfl⟩
      | _ =>
        cases h
        exact .inl ⟨rfl, rfl⟩
    | _ => cases h
  | lockHost =>
    cases c with
    | lock a =>
      obtain ⟨r, -, heq⟩ := Option.map_eq_some_iff.mp h
      obtain ⟨rfl, rfl⟩ := Prod.mk.inj heq
      exact .inl ⟨rfl, rfl⟩
    | _ => cases h
  | print stream text =>
    cases stream <;> cases c
    all_goals cases h
    all_goals exact .inl ⟨rfl, rfl⟩
  | fault | turns => exact x.elim
  | _ =>
    cases c <;> cases h
    all_goals exact .inl ⟨rfl, rfl⟩

/-- A file that is found elsewhere than under a temporary name has come there whole. -/
theorem Installed.act (h : Remote.act o c t = some (x, u)) (hasks : asks piped outputs o t)
    (hpath : ∀ file ∈ outputs, path ≠ icetmp file) (hinstalled : Installed outputs before t path) :
    Installed outputs before u path := by
  rcases act_files h with ⟨hfiles, hreceived⟩ | ⟨path', content, hop, rfl⟩ | ⟨tmp, path', rfl, rfl⟩
  · exact hinstalled.keeps (congrFun hfiles path) hreceived
  · have htmp : ∃ file ∈ outputs, path' = icetmp file := by
      rcases hop with rfl | ⟨bs, rfl⟩ | rfl <;> exact hasks
    obtain ⟨file, hfile, rfl⟩ := htmp
    exact hinstalled.keeps (Function.update_of_ne (hpath file hfile) _ _) List.prefix_rfl
  · obtain ⟨hfile, rfl, received, chunks, hreceived, hwhole⟩ := hasks
    have hfiles : ((t.put path' (t.files (icetmp path'))).put (icetmp path') none).files path =
        Function.update t.files path' (t.files (icetmp path')) path :=
      Function.update_of_ne (hpath path' hfile) _ _
    by_cases hsame : path = path'
    · subst hsame
      rw [Function.update_self] at hfiles
      exact .inr ⟨hfile, chunks, (hreceived ▸ List.suffix_append _ _).isInfix, hfiles.trans hwhole⟩
    · exact hinstalled.keeps (hfiles.trans (Function.update_of_ne hsame _ _)) List.prefix_rfl

end

/-! ### A run -/

def smallJob : Job := { language := 0, compilerName := str "gcc", outputFile := str "a.o" }

def smallState : State := { job := smallJob, lock := ⟨-1, [], []⟩ }

def smallUse : UseCSMsg := ⟨1, str "host", 10245, str "x86_64", 1, 1, 0⟩

/-- The preprocessor writes one byte, and so does the server. -/
def smallChoices : List Choice :=
  let free : HostLock.Answers := ⟨[], true, 1, 0, fun _ _ => some 3, fun _ _ => true⟩
  [.does true, .does true, .peer (some ⟨str "host", 44⟩), .does true, .does true, .does true,
    .does true, .lock free, .does true, .does true, .read (.bytes [65]), .read (.bytes []),
    .does true, .does true, .lock free, .does true, .status (.exited 0), .does true, .does true,
    .msg (some (.compileResult {})), .does true, .does true,
    .msg (some (.fileChunk { buffer := [66], len := 1 })), .does true, .msg (some .endMsg),
    .does true, .does true, .does true]

def smallSurroundings : Surroundings where
  host := { absolute := .inl rfl }

abbrev smallRuns : Transition.System (Running Op Op.Res State (Except ClientError ℤ)) Choice :=
  runs smallSurroundings 5 smallUse [] [] none false smallState

theorem smallRuns_end : ∃ r, smallRuns.Reachable r ∧ r.program = .done (.ok 0) ∧
    r.state.files (str "a.o") = some [some 66] := by
  have hinit : smallRuns.Reachable
      ⟨buildRemoteInt smallSurroundings 5 smallUse [] [] none false, smallState⟩ := .init ⟨rfl, rfl⟩
  have hrun : ∃ r, smallRuns.exec
      ⟨buildRemoteInt smallSurroundings 5 smallUse [] [] none false, smallState⟩ smallChoices = some r ∧ r.program = .done (.ok 0) ∧
      r.state.files (str "a.o") = some [some 66] := ⟨_, rfl, rfl, rfl⟩
  obtain ⟨r, hexec, hend, hfile⟩ := hrun
  exact ⟨r, hinit.exec (fun _ _ _ => trivial) hexec, hend, hfile⟩

theorem smallJob_buildable : Buildable smallState.job := ⟨by decide, by decide⟩

end Remote

end Icecream.Client
