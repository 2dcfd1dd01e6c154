import Icecream.Client.Build
import Icecream.Client.RemoteRuns

/-!
# Runs of the client

What the client tells the daemon, what it runs, and what it returns, in every run of `main`.
-/

namespace Icecream.Client.Build

open Icecream.Comm (Bytes Str str Msg UseCSMsg Environments langCustom)
open Icecream.Services (WaitStatus shellExitStatus)
open Icecream.Client.Remote (Relabelled Buildable Returns Built Unlocked exitDistccFailed)

/-! ## The conversation with the daemon -/

/-- Where the client is in what it tells the daemon over one connection: it asks for an environment,
asks for a server, builds a job here for another client's sake and reports it, or asks to start. -/
inductive Phase where
  | fresh | asked | requested
  | compiling (id : UInt32)
  | reported | begun | ended

def Phase.next : Phase → Msg → Option Phase
  | .fresh, .getNativeEnv _ => some .asked
  | .fresh, .getCS _ | .asked, .getCS _ => some .requested
  | .fresh, .jobLocalBegin _ | .asked, .jobLocalBegin _ => some .begun
  | .requested, .compileFile job => some (.compiling job.id)
  | .compiling id, .jobDone m => if m.jobId = id then some .reported else none
  | .requested, .blacklistHostEnv _ => some .requested
  | .compiling id, .blacklistHostEnv _ => some (.compiling id)
  | .requested, .endMsg | .compiling _, .endMsg | .reported, .endMsg => some .ended
  | _, _ => none

def phase (told : List Msg) : Option Phase := told.foldlM Phase.next .fresh

theorem phase_concat {told : List Msg} {m : Msg} {p : Phase} (h : phase told = some p) :
    phase (told ++ [m]) = p.next m := by
  rw [phase, List.foldlM_append]
  show (phase told >>= fun p => [m].foldlM Phase.next p) = _
  rw [h]
  show (p.next m >>= fun q => some q) = _
  cases p.next m <;> rfl

/-- A job that is built here is one that the daemon has sent back. -/
def Says (s : State) : Msg → Prop
  | .compileFile job => ∃ m, .useCS m ∈ s.heard ∧ m.hostname = str "127.0.0.1" ∧ job.id = m.jobId
  | _ => True

/-- The host is not locked while the client waits for others or for the lock; a daemon that it talks to is
there, and is told what belongs there; what is run is the compiler with the arguments of the job.
Nothing fails but what wants the name of a temporary file that could not be made. -/
def asks (v : Invocation) : Op → State → Prop
  | .remote (.createChannel _ _), s | .remote (.send _), s | .remote .get, s | .remote .lockHost, s =>
    s.remote.lock.lockFd = -1
  | .remote (.tell m), s =>
    s.remote.lock.lockFd = -1 ∧ s.daemon.isSome ∧ Says s m ∧ (phase (s.remote.told ++ [m])).isSome
  | .remote (.fault f), s => f = .nullString ∧ s.unnamed = true
  | .hear _, s => s.remote.lock.lockFd = -1 ∧ s.daemon.isSome
  | .exec argv, s => localArguments v.v.host s.remote.job = some argv
  | _, _ => True

/-! ## Operations -/

section

variable {v : Invocation} {α : Type} {R : α → State → Prop} {E : Thrown → State → Prop} {s : State}

theorem act_remote {o : Remote.Op} {c : Choice} {r : o.Res} {t : State}
    (h : act (.remote o) c s = some (r, t)) :
    ∃ k u, Remote.act o k s.remote = some (r, u) ∧ t = { s with remote := u } := by
  cases c with
  | remote c =>
    obtain ⟨⟨x, u⟩, hu, heq⟩ := Option.map_eq_some_iff.mp h
    obtain ⟨rfl, rfl⟩ := Prod.mk.inj heq
    exact ⟨c, u, hu, rfl⟩
  | _ => cases h

theorem act_tmpnam {suffix : Str} {c : Choice} {path : Option Str} {t : State}
    (h : act (.tmpnam suffix) c s = some (path, t)) :
    (path = none ∧ t = { s with unnamed := true }) ∨ ∃ name, path = some name ∧ suffix <:+ name ∧ t = s := by
  cases c with
  | name got =>
    cases got with
    | none =>
      cases h
      exact .inl ⟨rfl, rfl⟩
    | some name =>
      obtain ⟨hsuffix, heq⟩ := Option.ite_none_right_eq_some.mp h
      cases heq
      exact .inr ⟨name, rfl, hsuffix, rfl⟩
  | _ => cases h

theorem act_fork {c : Choice} {pid : ℤ} {t : State} (h : act .fork c s = some (pid, t)) :
    pid ∉ s.children ∧ -1 ≤ pid ∧ t = s.forked pid := by
  cases c with
  | pid pid =>
    obtain ⟨⟨hnew, hpid⟩, heq⟩ := Option.ite_none_right_eq_some.mp h
    cases heq
    exact ⟨hnew, hpid, rfl⟩
  | _ => cases h

/-- A fork is seen in the children only. -/
theorem State.forked_eq (s : State) (pid : ℤ) : ∃ children waited,
    s.forked pid = { s with children := children, waited := waited } := by
  unfold State.forked
  split_ifs
  · exact ⟨_, _, rfl⟩
  · exact ⟨_, _, rfl⟩
  · exact ⟨_, _, rfl⟩

theorem act_wait4 {c : Choice} {w : Waited} {t : State} (h : act .wait4 c s = some (w, t)) :
    (∃ status used, w = .ended status used ∧ t = s.reaped s.childPid status) ∨
      t = s ∧ ∀ status used, w = .ended status used → s.childPid = -1 := by
  cases c with
  | waited w' =>
    cases w' with
    | ended status used =>
      by_cases hchild : s.childPid ∈ s.children
      · rw [act, if_pos hchild] at h
        cases h
        exact .inl ⟨status, used, rfl, rfl⟩
      · rw [act, if_neg hchild] at h
        obtain ⟨hnone, heq⟩ := Option.ite_none_right_eq_some.mp h
        cases heq
        exact .inr ⟨rfl, fun _ _ _ => hnone⟩
    | _ =>
      cases h
      exact .inr ⟨rfl, fun _ _ hended => nomatch hended⟩
  | _ => cases h

theorem act_wait {c : Choice} {child : Option (ℤ × WaitStatus)} {t : State}
    (h : act .wait c s = some (child, t)) :
    (∃ pid w, child = some (pid, w) ∧ pid ∈ s.children ∧ t = s.reaped pid w) ∨ child = none ∧ t = s := by
  cases c with
  | child pid w =>
    obtain ⟨hpid, heq⟩ := Option.ite_none_right_eq_some.mp h
    cases heq
    exact .inl ⟨pid, w, rfl, hpid, rfl⟩
  | noChild =>
    cases h
    exact .inr ⟨rfl, rfl⟩
  | _ => cases h

theorem act_readErr {room : ℕ} {c : Choice} {got : Comm.ReadResult} {t : State}
    (h : act (.readErr room) c s = some (got, t)) : t = s := by
  cases c with
  | read got' =>
    cases got' with
    | bytes bs =>
      obtain ⟨-, heq⟩ := Option.ite_none_right_eq_some.mp h
      cases heq
      rfl
    | _ =>
      cases h
      rfl
  | _ => cases h

theorem act_fread {path : Str} {c : Choice} {got : Option (List Bytes)} {t : State}
    (h : act (.fread path) c s = some (got, t)) : t = { s with reads := s.reads ++ [(path, got)] } := by
  cases c with
  | file got' =>
    cases got' with
    | none =>
      cases h
      rfl
    | some pieces =>
      obtain ⟨-, heq⟩ := Option.ite_none_right_eq_some.mp h
      cases heq
      rfl
  | _ => cases h

theorem meets_job {f : Job → Build α} (h : (f s.remote.job).Meets act (asks v) R E s) :
    (job >>= f).Meets act (asks v) R E s := by
  refine .step trivial fun c r t hact => ?_
  obtain ⟨k, u, hu, rfl⟩ := act_remote hact
  cases k <;> cases hu
  exact h

theorem meets_setJob {j : Job} {f : Unit → Build α}
    (h : (f ()).Meets act (asks v) R E { s with remote := { s.remote with job := j } }) :
    (setJob j >>= f).Meets act (asks v) R E s := by
  refine .step trivial fun c r t hact => ?_
  obtain ⟨k, u, hu, rfl⟩ := act_remote hact
  cases k <;> cases hu
  exact h

theorem meets_tell {m : Msg} {f : Bool → Build α} {p : Phase} (hlock : s.remote.lock.lockFd = -1)
    (hdaemon : s.daemon.isSome) (hsaid : Says s m)
    (hphase : phase s.remote.told = some p) (hnext : (p.next m).isSome)
    (htold : (f true).Meets act (asks v) R E
      { s with remote := { s.remote with told := s.remote.told ++ [m] } })
    (hfailed : (f false).Meets act (asks v) R E s) :
    (tell m >>= f).Meets act (asks v) R E s := by
  refine .step ⟨hlock, hdaemon, hsaid, (phase_concat hphase).symm ▸ hnext⟩ fun c r t hact => ?_
  obtain ⟨k, u, hu, rfl⟩ := act_remote hact
  cases k <;> cases hu
  cases r with
  | true => exact htold
  | false => exact hfailed

theorem meets_call {c : Remote.Call} {f : Bool → Build α}
    (h : ∀ ok, (f ok).Meets act (asks v) R E s) : (call c >>= f).Meets act (asks v) R E s := by
  refine .step trivial fun c r t hact => ?_
  obtain ⟨k, u, hu, rfl⟩ := act_remote hact
  cases k <;> cases hu
  exact h r

theorem meets_unlock {f : Unit → Build α}
    (h : (f ()).Meets act (asks v) R E
      { s with remote := { s.remote with lock := HostLock.dccUnlock s.remote.lock } }) :
    (unlock >>= f).Meets act (asks v) R E s := by
  refine .step trivial fun c r t hact => ?_
  obtain ⟨k, u, hu, rfl⟩ := act_remote hact
  cases k <;> cases hu
  exact h

theorem meets_lock {f : Bool → Build α} (hfree : s.remote.lock.lockFd = -1)
    (h : ∀ locked lock, (f locked).Meets act (asks v) R E { s with remote := { s.remote with lock := lock } }) :
    (op (.remote .lockHost) >>= f).Meets act (asks v) R E s := by
  refine .step hfree fun c r t hact => ?_
  obtain ⟨k, u, hu, rfl⟩ := act_remote hact
  cases k with
  | lock a =>
    obtain ⟨r', -, heq⟩ := Option.map_eq_some_iff.mp hu
    obtain ⟨rfl, rfl⟩ := Prod.mk.inj heq
    exact h _ _
  | _ => cases hu

theorem meets_print {text : Str} {f : Unit → Build α}
    (h : ∀ err, (f ()).Meets act (asks v) R E { s with remote := { s.remote with err := err } }) :
    (op (.remote (.print .err text)) >>= f).Meets act (asks v) R E s := by
  refine .step trivial fun c r t hact => ?_
  obtain ⟨k, u, hu, rfl⟩ := act_remote hact
  cases k <;> cases hu
  exact h _

theorem meets_unlink {path : Str} {f : Bool → Build α}
    (h : ∀ ok files, (f ok).Meets act (asks v) R E { s with remote := { s.remote with files := files } }) :
    (unlink path >>= f).Meets act (asks v) R E s := by
  refine .step trivial fun c r t hact => ?_
  obtain ⟨k, u, hu, rfl⟩ := act_remote hact
  cases k <;> cases hu
  cases r with
  | true => exact h true _
  | false => exact h false s.remote.files

theorem meets_rename {path path' : Str} {f : Bool → Build α}
    (h : ∀ ok files, (f ok).Meets act (asks v) R E { s with remote := { s.remote with files := files } }) :
    (rename path path' >>= f).Meets act (asks v) R E s := by
  refine .step trivial fun c r t hact => ?_
  obtain ⟨k, u, hu, rfl⟩ := act_remote hact
  cases k <;> cases hu
  cases r with
  | true => exact h true _
  | false => exact h false s.remote.files

theorem meets_hear {timeout : ℕ} {f : Option Msg → Build α} (hlock : s.remote.lock.lockFd = -1)
    (hdaemon : s.daemon.isSome)
    (h : ∀ m, (f m).Meets act (asks v) R E { s with heard := s.heard ++ m.toList }) :
    (op (.hear timeout) >>= f).Meets act (asks v) R E s := by
  refine .step ⟨hlock, hdaemon⟩ fun c r t hact => ?_
  cases c <;> cases hact
  exact h r

theorem meets_clock {f : Timeval → Build α} (h : ∀ now, (f now).Meets act (asks v) R E s) :
    (op .clock >>= f).Meets act (asks v) R E s := by
  refine .step trivial fun c r t hact => ?_
  cases c <;> cases hact
  exact h r

theorem meets_rand {f : ℕ → Build α} (h : ∀ n, (f n).Meets act (asks v) R E s) :
    (op .rand >>= f).Meets act (asks v) R E s := by
  refine .step trivial fun c r t hact => ?_
  cases c <;> cases hact
  exact h r

theorem meets_size {path : Str} {f : Option ℕ → Build α} (h : ∀ n, (f n).Meets act (asks v) R E s) :
    (op (.size path) >>= f).Meets act (asks v) R E s := by
  refine .step trivial fun c r t hact => ?_
  cases c <;> cases hact
  exact h r

theorem meets_childPid {f : ℤ → Build α} (h : (f s.childPid).Meets act (asks v) R E s) :
    (op .childPid >>= f).Meets act (asks v) R E s := by
  refine .step trivial fun c r t hact => ?_
  cases c <;> cases hact
  exact h

theorem meets_drop {f : Unit → Build α}
    (h : (f ()).Meets act (asks v) R E { s with
      daemon := none
      sessions := s.sessions ++ [s.remote.told]
      remote := { s.remote with told := [] } }) :
    (op .dropDaemon >>= f).Meets act (asks v) R E s := by
  refine .step trivial fun c r t hact => ?_
  cases c <;> cases hact
  exact h

theorem meets_find {f : Option ℕ → Build α}
    (h : ∀ protocol, (f protocol).Meets act (asks v) R E
      { s with daemon := protocol, remote := { s.remote with told := [] }, heard := [] }) :
    (op .findDaemon >>= f).Meets act (asks v) R E s := by
  refine .step trivial fun c r t hact => ?_
  cases c <;> cases hact
  exact h r

theorem meets_checked {β : Type} {x : Except Fault β} {f : β → Build α} {b : β} (hx : x = .ok b)
    (h : (f b).Meets act (asks v) R E s) : (checked x >>= f).Meets act (asks v) R E s := by
  subst hx
  exact .bind h

theorem meets_named {β : Type} {path : Option β} {f : β → Build α}
    (hnamed : path = none → s.unnamed = true) (h : ∀ p, path = some p → (f p).Meets act (asks v) R E s) :
    (named path >>= f).Meets act (asks v) R E s := by
  cases path with
  | some path => exact .bind (h path rfl)
  | none => exact .bind (.step ⟨rfl, hnamed rfl⟩ fun _ r => nomatch r)

/-- The environment of a host may be refused. -/
def Phase.Open (p : Phase) : Prop := ∀ b, p.next (.blacklistHostEnv b) = some p

theorem relabelled_refl (j : Job) : Relabelled j j := ⟨j.id, j.environmentVersion, j.flags, rfl⟩

theorem relabelled_trans {i j k : Job} (h : Relabelled i j) (h' : Relabelled j k) : Relabelled i k := by
  obtain ⟨id, environment, flags, rfl⟩ := h
  obtain ⟨id', environment', flags', rfl⟩ := h'
  exact ⟨id', environment', flags', rfl⟩

theorem remote_keeps {p : Phase} (hopen : p.Open) {j : Job} {piped : Bool} {outputs : List Str}
    {o : Remote.Op} {c : Remote.Choice} {t u : Remote.State} {r : o.Res}
    (hasks : Remote.asks piped outputs o t) (hact : Remote.act o c t = some (r, u))
    (h : Relabelled j t.job ∧ phase t.told = some p) : Relabelled j u.job ∧ phase u.told = some p := by
  rcases Remote.act_job hact with ⟨hjob, htold⟩ | ⟨job, rfl, rfl, htold⟩ | ⟨m, rfl, hjob, htold⟩
  · rw [hjob, htold]
    exact h
  · rw [htold]
    exact ⟨relabelled_trans h.1 hasks, h.2⟩
  · obtain ⟨-, b, rfl⟩ := hasks
    rw [hjob]
    refine ⟨h.1, ?_⟩
    rcases htold with htold | htold
    · rw [htold]
      exact h.2
    · rw [htold, phase_concat h.2]
      exact hopen b

/-- The state around that of a remote build -/
def State.around (s : State) (u : Remote.State) : State := { s with remote := u }

theorem meets_remotely {p : Remote α} {piped : Bool} {outputs : List Str} {Q : α → Remote.State → Prop}
    {E' : ClientError → Remote.State → Prop} {q : Phase}
    (h : p.Meets Remote.act (Remote.asks piped outputs) Q E' s.remote) (hdaemon : s.daemon.isSome)
    (hphase : phase s.remote.told = some q) (hopen : q.Open)
    (hresult : ∀ a u, Q a u → Relabelled s.remote.job u.job → phase u.told = some q →
      R a { s with remote := u })
    (hthrown : ∀ e u, E' e u → Relabelled s.remote.job u.job → phase u.told = some q →
      E (.error e) { s with remote := u }) :
    (remotely p).Meets act (asks v) R E s := by
  have hkeeps := h.keeps (I := fun u => Relabelled s.remote.job u.job ∧ phase u.told = some q)
    (fun o c t r u hasks hact hI => remote_keeps hopen hasks hact hI)
    ⟨relabelled_refl _, hphase⟩
  show (remotely p).Meets act (asks v) R E (s.around s.remote)
  refine Procedure.Meets.embed hkeeps ?_ ?_
    (fun a u hu => hresult a u hu.1 hu.2.1 hu.2.2) fun e u hu => hthrown e u hu.1 hu.2.1 hu.2.2
  · intro o c t r u hact
    obtain ⟨k, w, hw, rfl⟩ := act_remote hact
    exact ⟨k, w, hw, rfl⟩
  · rintro o t ⟨hasks, -, htold⟩
    cases o with
    | createChannel | send | get | lockHost => exact hasks
    | tell m =>
      obtain ⟨hlock, b, rfl⟩ := hasks
      refine ⟨hlock, hdaemon, trivial, ?_⟩
      show (phase (t.told ++ [.blacklistHostEnv b])).isSome
      rw [phase_concat htold, hopen b]
      rfl
    | fault f => exact hasks.elim
    | _ => trivial

/-! ## A build here -/

/-- The compiler has ended without an error, or there was no process for it: then another child was
waited for. -/
def Ran (t : State) : Prop :=
  (∃ w, t.waited.getLast? = some (t.childPid, w) ∧ shellExitStatus w = 0) ∨ t.childPid = -1

/-- How a job has been done: the compiler has run here, or everything has been sent to another host
and what it made is there. -/
inductive Done (output : Str) (files : Str → Option Comm.Content) (preprocFile : Option Str)
    (t : State) : Prop
  | here (hran : Ran t)
  | there {u w : Remote.State} (hsent : u.sent = []) (hreceived : u.received = []) (hsource : u.source = [])
      (hfiles : u.files = files) (houtput : u.job.outputFile = output)
      (hbuilt : Built preprocFile u w) (hend : t.remote = { w with told := t.remote.told })

/-- What an exception leaves, what the process becomes, and what it has done if it ends without an
error, for the job or for a copy of it that has another output. -/
def Ends (v : Invocation) (j : Job) (files : Str → Option Comm.Content) : Thrown → State → Prop
  | .error _, t => t.remote.lock.lockFd = -1 ∧ Relabelled j t.remote.job
  | .executes argv, _ => ∃ output j', Relabelled { j with outputFile := output } j' ∧
      localArguments v.v.host j' = some argv
  | .exits status, t => status = 0 → ∃ output preprocFile, Done output files preprocFile t
  | .killed, _ => True

/-- An end that is no exception -/
def Quits (v : Invocation) (j : Job) (files : Str → Option Comm.Content) (x : Thrown) (t : State) : Prop :=
  Ends v j files x t ∧ ∀ e, x ≠ .error e

variable {j : Job} {files : Str → Option Comm.Content}

theorem readOutput_meets (n : ℕ) (text : Str) :
    (readOutput n text).Meets act (asks v) (fun _ t => t = s) E s := by
  induction n generalizing text with
  | zero => exact ⟨trivial, fun _ r => nomatch r⟩
  | succ n ih =>
    unfold readOutput
    refine .step trivial fun c r t hact => ?_
    obtain rfl := act_readErr hact
    cases r with
    | interrupted => exact ih text
    | failed => exact .pure rfl
    | bytes bs => exact .ite (fun _ => .pure rfl) fun _ => ih _

theorem waitCompiler_meets (n : ℕ) :
    (waitCompiler n).Meets act (asks v) (fun r t => ∃ children waited,
      t = { s with children := children, waited := waited } ∧ (shellExitStatus r.1 = 0 → Ran t))
      E s := by
  induction n with
  | zero => exact ⟨trivial, fun _ r => nomatch r⟩
  | succ n ih =>
    unfold waitCompiler
    refine .step trivial fun c r t hact => ?_
    rcases act_wait4 hact with ⟨w, used, rfl, rfl⟩ | ⟨rfl, hnone⟩
    · exact .pure ⟨_, _, rfl, fun hzero => .inl ⟨w, List.getLast?_concat, hzero⟩⟩
    cases r with
    | interrupted => exact ih
    | failed => exact .pure ⟨t.children, t.waited, rfl, fun hzero => absurd hzero (by decide)⟩
    | ended w used => exact .pure ⟨t.children, t.waited, rfl, fun _ => .inr (hnone w used rfl)⟩

/-- What a build here changes: there is no lock, unless it was not to be had. -/
structure Local (s : State) (localDaemon : Bool) (status : ℤ) (t : State) : Prop where
  intro ::
  lock : t.remote.lock.lockFd = -1 ∨ localDaemon = false ∧ status = exitDistccFailed
  ran : status = 0 → Ran t
  same : ∃ lock err childPid children waited, t = { s with
    remote := { s.remote with lock := lock, err := err }
    childPid := childPid
    children := children
    waited := waited }

theorem becomeCompiler_meets {argv : List Str} (hjob : Relabelled j s.remote.job)
    (hargv : localArguments v.v.host s.remote.job = some argv) {Q : Unit → State → Prop} :
    (becomeCompiler argv).Meets act (asks v) Q (Quits v j files) s := by
  unfold becomeCompiler
  refine .step hargv fun c r t hact => ?_
  cases c <;> cases hact
  cases r with
  | none => exact .raise ⟨⟨j.outputFile, _, hjob, hargv⟩, by simp⟩
  | some missing => exact meets_unlock (.raise ⟨fun hzero => absurd hzero (by split_ifs <;> decide), by simp⟩)

theorem compile_meets {argv : List Str} (files : Str → Option Comm.Content) (used colour : Bool) (hjob : Relabelled j s.remote.job)
    (hargv : localArguments v.v.host s.remote.job = some argv) (localDaemon : Bool) :
    (compile v argv used colour).Meets act (asks v) (fun r => Local s localDaemon r.1) (Quits v j files) s := by
  unfold compile
  refine .optional (I := fun t => ∃ childPid children waited,
    t = { s with childPid := childPid, children := children, waited := waited })
    (fun _ => ?_) (fun _ => ⟨s.childPid, s.children, s.waited, rfl⟩) ?_
  · unfold forkCompiler
    refine .step trivial fun c pid t hact => .perform trivial fun c' r' t' hact' => ?_
    cases c' <;> cases hact'
    obtain ⟨-, -, rfl⟩ := act_fork hact
    obtain ⟨children, waited, hforked⟩ := s.forked_eq pid
    exact ⟨pid, children, waited, by rw [hforked]⟩
  rintro t ⟨childPid, children, waited, rfl⟩
  refine meets_childPid ?_
  refine .optional (I := fun u => u = { s with childPid := childPid, children := children, waited := waited })
    (fun _ => ?_) (fun _ => rfl) ?_
  · exact becomeCompiler_meets (s := { s with childPid := childPid, children := children, waited := waited })
      hjob hargv
  rintro t rfl
  refine .optional (I := fun u => ∃ err, u = { s with
    childPid := childPid, children := children, waited := waited, remote := { s.remote with err := err } })
    (fun _ => ?_) (fun _ => ⟨s.remote.err, rfl⟩) ?_
  · refine .andThen (readOutput_meets v.turns []) ?_ fun _ _ h => h
    rintro text t rfl
    exact .bind (meets_print fun err => .pure (.pure ⟨err, rfl⟩))
  rintro t ⟨err, rfl⟩
  refine .andThen (waitCompiler_meets v.turns) ?_ fun _ _ h => h
  rintro ⟨status, usage⟩ t ⟨children', waited', rfl, hran⟩
  refine meets_unlock (.pure ⟨.inl rfl, fun hzero => ?_, ⟨_, err, childPid, children', waited', rfl⟩⟩)
  exact hran (Int.ofNat_eq_zero.mp hzero)

theorem wantsColour_total (v : Invocation) {j : Job} (h : Path.slash ∉ j.compilerName) :
    ∃ b, wantsColour v j = .ok b := by
  unfold wantsColour
  split_ifs
  · have hbuildable : Buildable { j with outputFile := [0] } := ⟨h, List.cons_ne_nil _ _⟩
    have htotal := Remote.colorifyWanted_total v.v hbuildable
    exact htotal
  · exact ⟨false, rfl⟩

theorem buildLocal_meets (localDaemon used : Bool) (hjob : Relabelled j s.remote.job)
    (hname : Path.slash ∉ j.compilerName) (hlock : s.remote.lock.lockFd = -1) :
    (buildLocal v localDaemon used).Meets act (asks v) (fun r => Local s localDaemon r.1) (Quits v j files) s := by
  unfold buildLocal
  refine meets_job ?_
  cases hargv : localArguments v.v.host s.remote.job with
  | none =>
    refine .pure ⟨.inl hlock, fun hzero => absurd hzero (by decide), ⟨_, _, _, _, _, rfl⟩⟩
  | some argv =>
    have hname' : Path.slash ∉ s.remote.job.compilerName := by
      obtain ⟨id, environment, flags, hsame⟩ := hjob
      rw [hsame]
      exact hname
    obtain ⟨wanted, hwanted⟩ := wantsColour_total v hname'
    have hcompile : ∀ lock colour, (compile v argv used colour).Meets act (asks v)
        (fun r => Local s localDaemon r.1) (Quits v j files) { s with remote := { s.remote with lock := lock } } := by
      intro lock colour
      have hmeets := compile_meets (s := { s with remote := { s.remote with lock := lock } }) files used colour
        hjob hargv localDaemon
      exact .mono hmeets (fun r t h => ⟨h.lock, h.ran, h.same⟩) fun _ _ h => h
    have hlocked : ∀ locked lock, (localDaemon = true → locked = true) →
        (if locked = true then do
            if ← checked (wantsColour v s.remote.job) then compile v argv used (← call .createPipe)
            else compile v argv used false
          else return (exitDistccFailed, none)).Meets act (asks v) (fun r => Local s localDaemon r.1)
          (Quits v j files) { s with remote := { s.remote with lock := lock } } := by
      intro locked lock hdaemon
      refine .ite (fun _ => ?_) fun hfailed => ?_
      · refine meets_checked hwanted (.ite (fun _ => meets_call fun ok => ?_) fun _ => ?_)
        · exact hcompile lock ok
        · exact hcompile lock false
      · refine .pure ⟨.inr ⟨?_, rfl⟩, fun hzero => absurd hzero (by decide), ⟨_, _, _, _, _, rfl⟩⟩
        cases localDaemon with
        | false => rfl
        | true => exact absurd (hdaemon rfl) hfailed
    unfold lockFor
    cases localDaemon with
    | true => exact hlocked true s.remote.lock fun _ => rfl
    | false => exact meets_lock hlock fun locked lock => hlocked locked lock (by simp)

/-! ## A build on another host -/

/-- The client talks to the daemon. -/
structure Speaks (j : Job) (p : Phase) (s : State) : Prop where
  lock : s.remote.lock.lockFd = -1
  job : Relabelled j s.remote.job
  told : phase s.remote.told = some p
  daemon : s.daemon.isSome

/-- It has not talked to another host. -/
structure Talks (j : Job) (files : Str → Option Comm.Content) (p : Phase) (s : State) : Prop
    extends Speaks j p s where
  sent : s.remote.sent = []
  received : s.remote.received = []
  source : s.remote.source = []
  files : s.remote.files = files

/-- What a build has returned, and that the daemon can be told of its end -/
structure Came (j : Job) (done : State → Prop) (ret : ℤ) (t : State) : Prop where
  lock : t.remote.lock.lockFd = -1 ∨ ret = exitDistccFailed
  job : Relabelled j t.remote.job
  told : ∃ q, phase t.remote.told = some q ∧ (ret = 0 → q.next .endMsg = some .ended)
  daemon : t.daemon.isSome
  done : ret = 0 → done t

variable {p : Phase}

theorem Speaks.ends (h : Speaks j p s) (e : ClientError) : Ends v j files (.error e) s :=
  ⟨h.lock, h.job⟩

theorem Speaks.name (h : Speaks j p s) (hj : Path.slash ∉ j.compilerName) :
    Path.slash ∉ s.remote.job.compilerName := by
  obtain ⟨id, environment, flags, hsame⟩ := h.job
  rw [hsame]
  exact hj

theorem Speaks.output (h : Speaks j p s) : s.remote.job.outputFile = j.outputFile := by
  obtain ⟨id, environment, flags, hsame⟩ := h.job
  rw [hsame]

theorem Speaks.tells {m : Msg} {q : Phase} (h : Speaks j p s) (hnext : p.next m = some q) :
    Speaks j q { s with remote := { s.remote with told := s.remote.told ++ [m] } } :=
  ⟨h.lock, h.job, (phase_concat h.told).trans hnext, h.daemon⟩

theorem Talks.congr {t : State} (h : Talks j files p s) (hremote : t.remote = s.remote)
    (hdaemon : t.daemon = s.daemon) : Talks j files p t := by
  refine ⟨⟨?_, ?_, ?_, hdaemon ▸ h.daemon⟩, ?_, ?_, ?_, ?_⟩ <;> rw [hremote]
  · exact h.lock
  · exact h.job
  · exact h.told
  · exact h.sent
  · exact h.received
  · exact h.source
  · exact h.files

theorem Talks.hears (h : Talks j files p s) (heard : List Msg) : Talks j files p { s with heard := heard } :=
  h.congr rfl rfl

theorem Talks.tells {m : Msg} {q : Phase} (h : Talks j files p s) (hnext : p.next m = some q) :
    Talks j files q { s with remote := { s.remote with told := s.remote.told ++ [m] } } :=
  ⟨h.toSpeaks.tells hnext, h.sent, h.received, h.source, h.files⟩

theorem Talks.sets (h : Talks j files p s) {j' k : Job} (hjob : Relabelled k j') :
    Talks k files p { s with remote := { s.remote with job := j' } } :=
  ⟨⟨h.lock, hjob, h.told, h.daemon⟩, h.sent, h.received, h.source, h.files⟩

theorem Talks.compiles {lock : HostLock.Process} (h : Talks j files p s) (hlock : lock.lockFd = -1) (err : Str)
    (childPid : ℤ) (children : List ℤ) (waited : List (ℤ × WaitStatus)) :
    Talks j files p { s with
      remote := { s.remote with lock := lock, err := err }
      childPid := childPid
      children := children
      waited := waited } :=
  ⟨⟨hlock, h.job, h.told, h.daemon⟩, h.sent, h.received, h.source, h.files⟩

theorem getServer_meets (h : Talks j files p s) :
    (getServer v).Meets act (asks v) (fun m t => t = { s with heard := s.heard ++ [.useCS m] })
      (Ends v j files) s := by
  unfold getServer
  refine meets_hear h.lock h.daemon fun m => ?_
  have hends : ∀ e, Ends v j files (.error e) { s with heard := s.heard ++ m.toList } :=
    (h.hears (s.heard ++ m.toList)).ends
  cases m with
  | none => exact .raise (hends _)
  | some m =>
    cases m with
    | useCS m => exact .pure rfl
    | _ => exact .raise (hends _)

theorem maybeBuildLocal_meets (junk : Usage) {usecs : UseCSMsg} (h : Talks j files .requested s)
    (hname : Path.slash ∉ j.compilerName) (hheard : .useCS usecs ∈ s.heard) (preprocFile : Option Str) :
    (maybeBuildLocal v junk usecs).Meets act (asks v) (fun r t =>
      (∀ ret, r = some ret → Came j (Done j.outputFile files preprocFile) ret t) ∧
        (r = none → ∃ q, q.Open ∧ q.next .endMsg = some .ended ∧ Talks j files q t)) (Ends v j files) s := by
  unfold maybeBuildLocal
  refine .ite (fun hhere => ?_) fun _ => ?_
  · refine meets_job (meets_setJob (meets_job ?_))
    have hset : Talks j files .requested { s with remote := { s.remote with
        job := { s.remote.job with id := usecs.jobId, environmentVersion := str "__client" } } } :=
      h.sets (relabelled_trans h.job ⟨_, _, _, rfl⟩)
    refine meets_tell hset.lock hset.daemon ⟨usecs, hheard, hhere.1, rfl⟩ hset.told rfl ?_
      (.raise (hset.ends _))
    have htold := hset.tells (m := .compileFile ({ s.remote.job with
      id := usecs.jobId, environmentVersion := str "__client" } : Job).toCompileJob) rfl
    refine meets_clock fun begintv => .andThen (buildLocal_meets true true htold.job hname htold.lock) ?_
      fun _ _ h => h.1
    rintro ⟨ret, usage⟩ t ⟨hlock, hran, lock, err, childPid, children, waited, rfl⟩
    have hfree : lock.lockFd = -1 := hlock.resolve_right (by simp)
    have hleft := htold.compiles hfree err childPid children waited
    refine meets_clock fun endtv => meets_job (meets_size fun out => meets_size fun dwo => ?_)
    have hnext : Phase.next (.compiling usecs.jobId) (.jobDone (jobDone usecs.jobId ret begintv endtv
        (out.getD 0 + dwo.getD 0) (usage.getD junk))) = some .reported := if_pos rfl
    refine meets_tell hleft.lock hleft.daemon trivial hleft.told (Option.isSome_iff_exists.mpr ⟨_, hnext⟩) ?_ ?_
    · refine .pure ⟨?_, by simp⟩
      rintro _ ⟨⟩
      have hdone := hleft.tells hnext
      exact ⟨.inl hdone.lock, hdone.job, ⟨_, hdone.told, fun _ => rfl⟩, hdone.daemon, fun hzero => .here (hran hzero)⟩
    · exact .pure ⟨by simp, fun _ => ⟨_, fun b => rfl, rfl, hleft⟩⟩
  · exact .pure ⟨by simp, fun _ => ⟨.requested, fun b => rfl, rfl, h⟩⟩

theorem buildOnServer_meets (junk : Usage) (envs : Versions.Ripped) {usecs : UseCSMsg}
    (h : Talks j files .requested s) (hj : Buildable j) (hheard : .useCS usecs ∈ s.heard)
    (preprocFile : Option Str) (output : Bool) :
    (buildOnServer v junk envs usecs preprocFile output).Meets act (asks v)
      (Came j (Done j.outputFile files preprocFile)) (Ends v j files) s := by
  unfold buildOnServer
  refine .andThen (maybeBuildLocal_meets junk h hj.compiler hheard preprocFile) ?_ fun _ _ h => h
  rintro (_ | ret) t ⟨hsome, hnone⟩
  · obtain ⟨q, hopen, hend, ht⟩ := hnone rfl
    have houtput := ht.output
    have hbuildable : Buildable t.remote.job := ⟨ht.name hj.compiler, houtput ▸ hj.output⟩
    refine meets_remotely (Remote.buildRemoteInt_meets v.v v.turns usecs _ _ preprocFile output hbuildable
      ht.lock) ht.daemon ht.told hopen (fun ret u hreturns hsame htold => ?_)
      fun e u hfree hsame htold => ?_
    · refine ⟨hreturns.1, relabelled_trans ht.job hsame, ⟨q, htold, fun _ => hend⟩, ht.daemon, fun hzero => ?_⟩
      exact .there ht.sent ht.received ht.source ht.files houtput (hreturns.2 hzero) rfl
    · exact ⟨hfree, relabelled_trans ht.job hsame⟩
  · exact .pure (hsome ret rfl)

/-! ### What the scheduler is asked for -/

/-- What is asked of the job and of the client, so that the scheduler can be asked -/
structure Askable (v : Invocation) (j : Job) : Prop where
  flags : ∀ f ∈ j.flags, f.1 ≠ []
  niceness : 0 ≤ v.niceness ∧ v.niceness ≤ 20

theorem argumentFlags_total {j : Job} (h : ∀ f ∈ j.flags, f.1 ≠ []) : ∃ flags, argumentFlags j = .ok flags := by
  have hflag : ∀ (r : UInt32) (a : Str), a ≠ [] → ∃ r', argumentFlag r a = .ok r' := by
    intro r a ha
    unfold argumentFlag
    split
    · exact absurd rfl ha
    all_goals exact ⟨_, rfl⟩
  have hfold : ∀ (l : Comm.ArgumentsList) (r : UInt32), (∀ f ∈ l, f.1 ≠ []) →
      ∃ r', l.foldlM (fun r f => argumentFlag r f.1) r = .ok r' := by
    intro l
    induction l with
    | nil => exact fun r _ => ⟨r, rfl⟩
    | cons f l ih =>
      intro r hl
      obtain ⟨hf, hrest⟩ := List.forall_mem_cons.mp hl
      obtain ⟨r', hr'⟩ := hflag r f.1 hf
      obtain ⟨r'', hr''⟩ := ih r' hrest
      refine ⟨r'', ?_⟩
      rw [List.foldlM_cons, hr']
      exact hr''
  exact hfold j.flags 0 h

theorem getCS_total {j : Job} (h : Askable v j) (envs : Environments) (filename : Str)
    (count features : UInt32) : ∃ m, getCS v j envs filename count features = .ok m := by
  obtain ⟨flags, hflags⟩ := argumentFlags_total h.flags
  rw [getCS, hflags]
  exact ⟨_, if_pos h.niceness⟩

theorem absFilename_total (v : Invocation) (file : Str) : ∃ path, absFilename v file = .ok path := by
  obtain ⟨path, hpath⟩ := Option.isSome_iff_exists.mp (getAbsfilename_isSome v.v.host.absolute file)
  exact ⟨path, by rw [absFilename, hpath]; rfl⟩

theorem askForServer_meets {j' : Job} {p : Phase} (h : Talks j files p s) (haskable : Askable v j')
    (hp : p = .fresh ∨ p = .asked) (envs : Versions.Ripped) {filename : Except Fault Str}
    (hfilename : ∃ name, filename = .ok name) (count features : UInt32) (errorCode : ℕ) (what : Str) :
    (askForServer v j' envs filename count features errorCode what).Meets act (asks v)
      (fun _ t => Talks j files .requested t ∧ ∃ told,
        t = { s with remote := { s.remote with told := told } }) (Ends v j files) s := by
  unfold askForServer
  obtain ⟨name, rfl⟩ := hfilename
  obtain ⟨m, hm⟩ := getCS_total haskable envs.envs name count features
  have hnext : p.next (.getCS m) = some .requested := by rcases hp with rfl | rfl <;> rfl
  refine meets_checked rfl (meets_checked hm ?_)
  refine meets_tell h.lock h.daemon trivial h.told (Option.isSome_iff_exists.mpr ⟨_, hnext⟩) ?_
    (.raise (h.ends _))
  exact .pure ⟨h.tells hnext, _, rfl⟩

theorem fakeFilename_total (v : Invocation) (j : Job) : ∃ name, fakeFilename v j = .ok name := by
  obtain ⟨file, hfile⟩ := absFilename_total v j.inputFile
  rw [fakeFilename, hfile]
  exact ⟨_, rfl⟩

theorem buildOnce_meets (junk : Usage) (envs : Versions.Ripped) (h : Talks j files p s)
    (hp : p = .fresh ∨ p = .asked) (hsame : s.remote.job = j) (hj : Buildable j) (haskable : Askable v j) :
    (buildOnce v junk envs).Meets act (asks v) (Came j (Done j.outputFile files none)) (Ends v j files) s := by
  unfold buildOnce
  refine meets_job ?_
  rw [hsame]
  refine .andThen (askForServer_meets h haskable hp envs (fakeFilename_total v j) _ _ _ _) ?_ fun _ _ h => h
  rintro _ t ⟨ht, -⟩
  refine .andThen (getServer_meets ht) ?_ fun _ _ h => h
  rintro usecs _ rfl
  exact buildOnServer_meets junk envs (ht.hears _) hj List.mem_concat_self none true

end

end Icecream.Client.Build
