import Icecream.Client.Copies
import Icecream.Client.Judgements

/-!
# Runs of `main`

What the client does with a command that has been analysed, in every run: with a daemon or without
one, on another host or here, and whatever fails.
-/

namespace Icecream.Client

open Icecream.Comm (Bytes Str str Msg UseCSMsg Environments)
open Icecream.Services (WaitStatus shellExitStatus findBasename)
open Icecream.Client.Remote (Relabelled Buildable exitDistccFailed)

/-! ## What the analysis leaves -/

theorem analyseArgv_name {host : Host} {argv : List Str} {job : Job} {icerun b : Bool} {t : Scan}
    (h : analyseArgv host argv job icerun [] = .ok (t, b)) : Path.slash ∉ t.job.compilerName := by
  obtain ⟨h, -⟩ := analyseArgv_ok.mp h
  cases hcustom : isCustom (commandName argv job) icerun with
  | true =>
    obtain ⟨rfl, -⟩ := (analyse_custom hcustom).of_ok h
    exact Services.slash_not_mem_findBasename _
  | false =>
    obtain ⟨⟨s, l, hs, hl, ht⟩, -⟩ := (analyse_known hcustom).of_ok h
    rw [ht.job, hl.job, hs.job]
    exact (knownJob_known _ job).name

theorem analyseArgv_buildable {host : Host} {argv : List Str} {job : Job} {icerun : Bool} {t : Scan}
    (h : analyseArgv host argv job icerun [] = .ok (t, false)) : Buildable t.job := by
  refine ⟨analyseArgv_name h, ?_⟩
  obtain ⟨h, hlocal⟩ := analyseArgv_ok.mp h
  cases hcustom : isCustom (commandName argv job) icerun with
  | true =>
    obtain ⟨rfl, -⟩ := (analyse_custom hcustom).of_ok h
    exact absurd hlocal (by simp [verbatim])
  | false =>
    obtain ⟨⟨s, l, hs, hl, ht⟩, -⟩ := (analyse_known hcustom).of_ok h
    rw [ht.job]
    intro hempty
    rw [ht.alwaysLocal, unusable, decide_eq_true (.inl hempty)] at hlocal
    simp at hlocal

namespace Build

section

variable {v : Invocation} {α : Type} {R : α → State → Prop} {E : Thrown → State → Prop} {s : State}
  {j : Job} {files : Str → Option Comm.Content} {p : Phase}

/-! ## A build on another host -/

/-- How the job of the client has been done -/
def Outcome (v : Invocation) (j : Job) (files : Str → Option Comm.Content) (t : State) : Prop :=
  Done j.outputFile files none t ∨ Agreed v j.outputFile t

/-- What is returned: no error, and the job has been done, or the lock may be left half taken. -/
structure Returned (v : Invocation) (j : Job) (files : Str → Option Comm.Content) (ret : ℤ)
    (t : State) : Prop where
  lock : t.remote.lock.lockFd = -1 ∨ ret = exitDistccFailed
  done : ret = 0 → Outcome v j files t

theorem onlyOnce_meets (h : Buildable s.remote.job) :
    (onlyOnce v).Meets act (asks v) (fun _ t => t = s) E s := by
  obtain ⟨clang, hclang⟩ := Remote.compilerIsClang_total h
  unfold onlyOnce
  refine meets_job (meets_checked hclang (.ite (fun _ => .pure rfl) fun _ => ?_))
  exact meets_rand fun n => .pure rfl

theorem Came.weaken {done done' : State → Prop} {ret : ℤ} {t : State} (h : Came j done ret t)
    (hdone : done t → done' t) : Came j done' ret t :=
  ⟨h.lock, h.job, h.told, h.daemon, fun hret => hdone (h.done hret)⟩

theorem buildRemote_meets (junk : Usage) (envs : Environments) (h : Talks j files p s)
    (hp : p = .fresh ∨ p = .asked) (hsame : s.remote.job = j) (hj : Buildable j) (haskable : Askable v j)
    (hchildren : s.children = []) (hwaited : s.waited = []) :
    (buildRemote v junk envs).Meets act (asks v) (Came j (Outcome v j files)) (Ends v j files) s := by
  unfold buildRemote
  refine .andThen (onlyOnce_meets (hsame ▸ hj)) ?_ fun _ _ h => h
  rintro once t rfl
  refine .ite (fun _ => .raise (h.ends _)) fun _ => .ite (fun _ => ?_) fun _ => ?_
  · exact .mono (buildOnce_meets junk _ h hp hsame hj haskable) (fun _ _ hcame => hcame.weaken .inl)
      fun _ _ h => h
  · exact .mono (buildRepeatedly_meets junk _ h hp hsame hj haskable hchildren hwaited)
      (fun _ _ hcame => hcame.weaken .inr) fun _ _ h => h

theorem Outcome.congr {t u : State} {told : List Msg} (h : Outcome v j files t)
    (hremote : u.remote = { t.remote with told := told }) (hchild : u.childPid = t.childPid)
    (hwaited : u.waited = t.waited) (hreads : u.reads = t.reads) : Outcome v j files u := by
  rcases h with hdone | ⟨copies, pids, sum, hlength, hfirst, hsum, hothers⟩
  · cases hdone with
    | here hran =>
      refine .inl (.here ?_)
      rw [Ran, hwaited, hchild]
      exact hran
    | there hsent hreceived hsource hfiles houtput hbuilt hend =>
      refine .inl (.there hsent hreceived hsource hfiles houtput hbuilt ?_)
      rw [hremote, hend]
  · refine .inr ⟨copies, pids, sum, hlength, ?_, ?_, ?_⟩
    · rw [hwaited]
      exact hfirst
    · rw [HasSum, hreads]
      exact hsum
    · simp only [HasSum, hwaited, hreads]
      exact hothers

/-- After an exception another way is gone. -/
theorem tryRemote_meets (junk : Usage) (envs : Environments) (h : Talks j files p s)
    (hp : p = .fresh ∨ p = .asked) (hsame : s.remote.job = j) (hj : Buildable j) (haskable : Askable v j)
    (hchildren : s.children = []) (hwaited : s.waited = []) :
    (tryRemote v junk envs).Meets act (asks v) (fun r t =>
      (∀ ret, r = some ret → Returned v j files ret t) ∧
        (r = none → t.remote.lock.lockFd = -1 ∧ Relabelled j t.remote.job)) (Quits v j files) s := by
  unfold tryRemote
  refine meets_handling (.andThen (buildRemote_meets junk envs h hp hsame hj haskable hchildren hwaited) ?_
    fun _ _ h => h) ?_ fun _ _ hx h => ⟨h, hx⟩
  · intro ret t hcame
    have hreturned : ∀ told, Returned v j files ret { t with remote := { t.remote with told := told } } :=
      fun told => ⟨hcame.lock, fun hret => (hcame.done hret).congr rfl rfl rfl rfl⟩
    refine .ite (fun hret => ?_) fun _ => ?_
    · obtain ⟨q, hq, hnext⟩ := hcame.told
      have hfree : t.remote.lock.lockFd = -1 := hcame.lock.resolve_right (by rw [hret]; decide)
      refine meets_tell hfree hcame.daemon trivial hq (Option.isSome_iff_exists.mpr ⟨_, hnext hret⟩) ?_ ?_
      · exact .pure ⟨by rintro _ ⟨⟩; exact hreturned _, by simp⟩
      · exact .pure ⟨by rintro _ ⟨⟩; exact hreturned t.remote.told, by simp⟩
    · exact .pure ⟨by rintro _ ⟨⟩; exact hreturned t.remote.told, by simp⟩
  · exact fun e t he => .pure ⟨by simp, fun _ => he⟩

/-! ## A build here -/

theorem Speaks.hears (h : Speaks j p s) (heard : List Msg) : Speaks j p { s with heard := heard } :=
  ⟨h.lock, h.job, h.told, h.daemon⟩

/-- Without a daemon, as at the end of every run -/
def Alone (v : Invocation) (j : Job) (files : Str → Option Comm.Content) (ret : ℤ) (t : State) : Prop :=
  t.daemon = none ∧ Returned v j files ret t

theorem buildAlone_meets (hdaemon : s.daemon = none) (hlock : s.remote.lock.lockFd = -1)
    (hjob : Relabelled j s.remote.job) (hname : Path.slash ∉ j.compilerName) :
    (buildAlone v).Meets act (asks v) (Alone v j files) (Quits v j files) s := by
  unfold buildAlone
  refine .andThen (buildLocal_meets false false hjob hname hlock) ?_ fun _ _ h => h
  rintro ⟨ret, usage⟩ _ ⟨hfree, hran, lock, err, childPid, children, waited, rfl⟩
  exact .pure ⟨hdaemon, hfree.imp_right And.right, fun hret => .inl (.here (hran hret))⟩

theorem requestStart_meets (fulljob : Bool) (h : Speaks j p s) (hp : p = .fresh ∨ p = .asked) :
    (requestStart v fulljob).Meets act (asks v) (fun _ t => ∃ q, Speaks j q t) (Quits v j files) s := by
  obtain ⟨outfile, houtfile⟩ := absFilename_total v s.remote.job.outputFile
  unfold requestStart
  refine meets_job (meets_checked houtfile (meets_clock fun now => ?_))
  have hnext : ∀ m, p.next (.jobLocalBegin m) = some .begun := by
    rcases hp with rfl | rfl <;> exact fun _ => rfl
  refine meets_tell h.lock h.daemon trivial h.told (Option.isSome_iff_exists.mpr ⟨_, hnext _⟩) ?_ ?_
  · have htold := h.tells (hnext {
      outfile := outfile, stime := UInt32.ofInt now.sec, fulljob := fulljob,
      niceness := UInt32.ofInt v.niceness })
    refine .perform ⟨htold.lock, htold.daemon⟩ fun c r t hact => ?_
    cases c <;> cases hact
    exact ⟨.begun, htold.hears _⟩
  · exact .pure ⟨p, h⟩

theorem buildHere_meets (fulljob : Bool) (h : Speaks j p s) (hp : p = .fresh ∨ p = .asked)
    (hname : Path.slash ∉ j.compilerName) :
    (buildHere v fulljob).Meets act (asks v) (Alone v j files) (Quits v j files) s := by
  unfold buildHere
  refine .andThen (requestStart_meets fulljob h hp) ?_ fun _ _ h => h
  rintro r t ⟨q, ht⟩
  have halone : (do op .dropDaemon; buildAlone v).Meets act (asks v) (Alone v j files) (Quits v j files) t :=
    meets_drop (buildAlone_meets rfl ht.lock ht.job hname)
  split
  · refine .andThen (buildLocal_meets true true ht.job hname ht.lock) ?_ fun _ _ h => h
    rintro ⟨ret, usage⟩ _ ⟨hfree, hran, lock, err, childPid, children, waited, rfl⟩
    refine meets_drop (.pure ⟨rfl, hfree.imp_right And.right, fun hret => .inl (.here (hran hret))⟩)
  · exact halone

theorem buildInstead_meets (fulljob : Bool) (hlock : s.remote.lock.lockFd = -1)
    (hjob : Relabelled j s.remote.job) (hname : Path.slash ∉ j.compilerName) :
    (buildInstead v fulljob).Meets act (asks v) (Alone v j files) (Quits v j files) s := by
  unfold buildInstead
  refine meets_drop (meets_find fun protocol => ?_)
  cases protocol with
  | none => exact buildAlone_meets rfl hlock hjob hname
  | some protocol => exact buildHere_meets fulljob ⟨hlock, hjob, rfl, rfl⟩ (.inl rfl) hname

theorem buildThere_meets (junk : Usage) (fulljob : Bool) (envs : Environments) (h : Talks j files p s)
    (hp : p = .fresh ∨ p = .asked) (hsame : s.remote.job = j) (hj : Buildable j) (haskable : Askable v j)
    (hchildren : s.children = []) (hwaited : s.waited = []) :
    (buildThere v junk fulljob envs).Meets act (asks v) (Alone v j files) (Quits v j files) s := by
  unfold buildThere
  refine .andThen (tryRemote_meets junk envs h hp hsame hj haskable hchildren hwaited) ?_ fun _ _ h => h
  rintro (_ | ret) t ⟨hsome, hnone⟩
  · exact buildInstead_meets fulljob (hnone rfl).1 (hnone rfl).2 hj.compiler
  · have hreturned := hsome ret rfl
    exact meets_drop (.pure ⟨rfl, hreturned.lock, fun hret => (hreturned.done hret).congr rfl rfl rfl rfl⟩)

/-! ## Environments -/

theorem listExtraFiles_total (v : Invocation) (fs extra : List Str) :
    ∃ r, listExtraFiles v fs extra = .ok r := by
  induction fs generalizing extra with
  | nil => exact ⟨_, rfl⟩
  | cons file fs ih =>
    obtain ⟨path, hpath⟩ := absFilename_total v file
    rw [listExtraFiles, hpath]
    show ∃ r, (if v.present path then listExtraFiles v fs (extra ++ [path]) else .ok (extra, false)) = .ok r
    split_ifs
    · exact ih _
    · exact ⟨_, rfl⟩

theorem extraFiles_total (v : Invocation) (extra : List Str) : ∃ r, extraFiles v extra = .ok r := by
  unfold extraFiles
  split
  · exact ⟨_, rfl⟩
  · exact listExtraFiles_total v _ _

theorem nativeCompiler_total (v : Invocation) (protocol : ℕ) (hj : Buildable j) :
    ∃ compiler, nativeCompiler v protocol j = .ok compiler := by
  unfold nativeCompiler
  split_ifs
  · exact absFilename_total v _
  · obtain ⟨clang, hclang⟩ := Remote.compilerIsClang_total hj
    rw [hclang]
    cases clang
    · exact ⟨_, rfl⟩
    · exact ⟨_, rfl⟩

/-- The daemon may have been asked for an environment, and nothing else has been done. -/
def Prepared (j : Job) (files : Str → Option Comm.Content) (s t : State) : Prop :=
  (∃ p, (p = .fresh ∨ p = .asked) ∧ Talks j files p t) ∧ t.remote.job = s.remote.job ∧
    t.children = s.children ∧ t.waited = s.waited

theorem findEnvironments_meets (protocol : ℕ) (extra : List Str) (h : Talks j files .fresh s)
    (hsame : s.remote.job = j) (hj : Buildable j) (hversion : v.iceccVersion ≠ some []) :
    (findEnvironments v protocol extra).Meets act (asks v) (fun _ => Prepared j files s) (Quits v j files) s := by
  have hstart : Prepared j files s s := ⟨⟨.fresh, .inl rfl, h⟩, rfl, rfl, rfl⟩
  unfold findEnvironments
  cases hvalue : v.iceccVersion with
  | some value =>
    refine meets_job (.ite (fun hempty => ?_) fun _ => .pure hstart)
    exact absurd (hvalue.trans (congrArg some hempty)) hversion
  | none =>
    refine .ite (fun _ => .pure hstart) fun _ => ?_
    obtain ⟨compiler, hcompiler⟩ := nativeCompiler_total v protocol (hsame ▸ hj)
    refine meets_job (meets_checked hcompiler (meets_tell h.lock h.daemon trivial h.told rfl ?_ (.pure hstart)))
    have htold := h.tells (m := .getNativeEnv ⟨compiler, extra, v.envCompression.getD []⟩) rfl
    refine meets_hear htold.lock htold.daemon fun m => ?_
    have hend : Prepared j files s { s with
        remote := { s.remote with
          told := s.remote.told ++ [.getNativeEnv ⟨compiler, extra, v.envCompression.getD []⟩] }
        heard := s.heard ++ m.toList } :=
      ⟨⟨.asked, .inr rfl, htold.hears _⟩, rfl, rfl, rfl⟩
    split
    · exact .ite (fun _ => .pure hend) fun _ => .pure hend
    · exact .pure hend

theorem environments_meets (protocol : ℕ) (extra : List Str) (h : Talks j files .fresh s)
    (hsame : s.remote.job = j) (hj : Buildable j) (hversion : v.iceccVersion ≠ some []) :
    (environments v protocol extra).Meets act (asks v) (fun _ => Prepared j files s) (Quits v j files) s := by
  unfold environments
  refine .andThen (findEnvironments_meets protocol extra h hsame hj hversion) ?_ fun _ _ h => h
  rintro (_ | envs) t ht
  · exact .pure ht
  · exact .ite (fun _ => .pure ht) fun _ => .pure ht

/-! ## The whole of it -/

theorem buildWith_meets (junk : Usage) (protocol : ℕ) (isLocal fulljob : Bool) (extra : List Str)
    (h : Talks j files .fresh s) (hsame : s.remote.job = j) (hname : Path.slash ∉ j.compilerName)
    (hremote : isLocal = false → Buildable j ∧ Askable v j) (hversion : v.iceccVersion ≠ some [])
    (hchildren : s.children = []) (hwaited : s.waited = []) :
    (buildWith v junk protocol isLocal fulljob extra).Meets act (asks v) (Alone v j files) (Quits v j files) s := by
  obtain ⟨⟨extra', found⟩, hextra⟩ := extraFiles_total v extra
  unfold buildWith
  refine meets_checked hextra (.ite (fun _ => ?_) fun hthere => ?_)
  · exact buildHere_meets fulljob h.toSpeaks (.inl rfl) hname
  · have hlocal : isLocal = false := by
      cases isLocal with
      | false => rfl
      | true => exact absurd rfl hthere
    obtain ⟨hj, haskable⟩ := hremote hlocal
    refine .andThen (environments_meets protocol extra' h hsame hj hversion) ?_ fun _ _ h => h
    rintro envs t ⟨⟨p, hp, ht⟩, hjob, hchildren', hwaited'⟩
    cases envs with
    | none => exact buildHere_meets fulljob ht.toSpeaks hp hname
    | some envs =>
      exact buildThere_meets junk fulljob envs ht hp (hjob.trans hsame) hj haskable (hchildren'.trans hchildren)
        (hwaited'.trans hwaited)

/-- The client has begun: it is alone, and nothing is locked. -/
structure Begins (s : State) : Prop where
  lock : s.remote.lock.lockFd = -1
  daemon : s.daemon = none
  told : s.remote.told = []
  sent : s.remote.sent = []
  received : s.remote.received = []
  source : s.remote.source = []
  children : s.children = []
  waited : s.waited = []
  sessions : s.sessions = []

/-- What `main` expects of a command that it has analysed: no flag is empty where they are looked at, and
the niceness is one that the scheduler can be told. -/
structure Runnable (v : Invocation) (argv : List Str) (job : Job) (icerun : Bool) (j : Job) : Prop where
  intro ::
  analysed : ∃ scan result, analyseArgv v.v.host argv job icerun [] = .ok (scan, result) ∧ scan.job = j ∧
    (result = false → Askable v j)
  version : v.iceccVersion ≠ some []

variable {argv : List Str} {job : Job} {icerun : Bool}

theorem judged_local (result : Bool) : ∃ fulljob, judged (argvResult result) = (result, fulljob) := by
  cases result
  · exact ⟨_, rfl⟩
  · exact ⟨_, rfl⟩

theorem analysed_meets (junk : Usage) (hrun : Runnable v argv job icerun j) {daemon : Option ℕ}
    (hdaemon : s.daemon = daemon) (hlock : s.remote.lock.lockFd = -1) (htold : s.remote.told = [])
    (hsent : s.remote.sent = []) (hreceived : s.remote.received = []) (hsource : s.remote.source = [])
    (hchildren : s.children = []) (hwaited : s.waited = []) :
    (analysed v junk argv job icerun daemon).Meets act (asks v) (Alone v j s.remote.files)
      (Quits v j s.remote.files) s := by
  obtain ⟨⟨scan, result, hanalyse, rfl, hask⟩, hversion⟩ := hrun
  have hname := analyseArgv_name hanalyse
  unfold analysed
  refine meets_checked hanalyse (meets_setJob ?_)
  cases daemon with
  | none => exact buildAlone_meets hdaemon hlock (relabelled_refl _) hname
  | some protocol =>
    have htalks : Talks scan.job s.remote.files .fresh { s with remote := { s.remote with job := scan.job } } := by
      refine ⟨⟨hlock, relabelled_refl _, ?_, ?_⟩, hsent, hreceived, hsource, rfl⟩
      · rw [htold]
        rfl
      · rw [hdaemon]
        rfl
    obtain ⟨fulljob, hjudged⟩ := judged_local result
    rw [hjudged]
    refine buildWith_meets junk protocol _ fulljob _ htalks rfl hname (fun hlocal => ?_) hversion hchildren
      hwaited
    obtain rfl : result = false := (Bool.or_eq_false_iff.mp hlocal).1
    exact ⟨analyseArgv_buildable hanalyse, hask rfl⟩

theorem main_meets (junk : Usage) (hrun : Runnable v argv job icerun j) (h : Begins s) :
    (main v junk argv job icerun).Meets act (asks v) (Alone v j s.remote.files) (Quits v j s.remote.files) s := by
  unfold main
  refine .ite (fun _ => ?_) fun _ => meets_find fun protocol => ?_
  · exact analysed_meets junk hrun h.daemon h.lock h.told h.sent h.received h.source h.children h.waited
  · exact analysed_meets
      (s := { s with daemon := protocol, remote := { s.remote with told := [] }, heard := [] }) junk hrun rfl
      h.lock rfl h.sent h.received h.source h.children h.waited

/-! ## Runs -/

abbrev runs (v : Invocation) (junk : Usage) (argv : List Str) (job : Job) (icerun : Bool) (s : State) :
    Transition.System (Running Op Op.Res State (Except Thrown ℤ)) Choice :=
  Script.system act (main v junk argv job icerun) (· = s)

theorem runs_meets (junk : Usage) (hrun : Runnable v argv job icerun j) (hbegins : Begins s) : ∀ t, t = s →
    (main v junk argv job icerun).Meets act (asks v) (Alone v j s.remote.files) (Quits v j s.remote.files) t := by
  rintro t rfl
  exact main_meets junk hrun hbegins

/-- Operations that wait for other processes -/
def Waits : Op → Prop
  | .remote (.createChannel _ _) | .remote (.send _) | .remote .get | .remote .lockHost | .remote (.tell _)
  | .hear _ => True
  | _ => False

/-- What has been told over every connection is in its order, and a job that is told of has been sent back
by the scheduler. -/
structure Converses (s : State) : Prop where
  told : (phase s.remote.told).isSome
  sessions : ∀ told ∈ s.sessions, (phase told).isSome
  jobs : ∀ m ∈ s.remote.told, Says s m

theorem Says.mono {t : State} {m : Msg} (h : Says s m) (hheard : s.heard <+: t.heard) : Says t m := by
  cases m with
  | compileFile job =>
    obtain ⟨use, huse, hhere⟩ := h
    exact ⟨use, hheard.subset huse, hhere⟩
  | _ => trivial

/-- What has been told and heard changes by the operations on the daemon only. -/
theorem act_conversation {o : Op} {c : Choice} {x : o.Res} {t : State} (hact : act o c s = some (x, t)) :
    (t.remote.told = s.remote.told ∧ t.sessions = s.sessions ∧ s.heard <+: t.heard) ∨
      (∃ m, o = .remote (.tell m) ∧ t.remote.told = s.remote.told ++ [m] ∧ t.sessions = s.sessions ∧
        t.heard = s.heard) ∨
      t.remote.told = [] ∧ (t.sessions = s.sessions ∨ t.sessions = s.sessions ++ [s.remote.told]) := by
  have hsame : t.remote.told = s.remote.told → t.sessions = s.sessions → t.heard = s.heard →
      t.remote.told = s.remote.told ∧ t.sessions = s.sessions ∧ s.heard <+: t.heard :=
    fun htold hsessions hheard => ⟨htold, hsessions, hheard ▸ List.prefix_rfl⟩
  cases o with
  | remote o =>
    obtain ⟨k, u, hu, rfl⟩ := act_remote hact
    rcases Remote.act_job hu with ⟨-, htold⟩ | ⟨job, -, -, htold⟩ | ⟨m, rfl, -, htold | htold⟩
    · exact .inl (hsame htold rfl rfl)
    · exact .inl (hsame htold rfl rfl)
    · exact .inl (hsame htold rfl rfl)
    · exact .inr (.inl ⟨m, rfl, htold, rfl, rfl⟩)
  | findDaemon =>
    cases c <;> cases hact
    exact .inr (.inr ⟨rfl, .inl rfl⟩)
  | dropDaemon =>
    cases c <;> cases hact
    exact .inr (.inr ⟨rfl, .inr rfl⟩)
  | hear n =>
    cases c <;> cases hact
    exact .inl ⟨rfl, rfl, List.prefix_append _ _⟩
  | clock | rand | size | childPid | setChildPid | exec =>
    cases c <;> cases hact
    exact .inl (hsame rfl rfl rfl)
  | tmpnam suffix =>
    rcases act_tmpnam hact with ⟨-, rfl⟩ | ⟨path, -, -, rfl⟩
    · exact .inl (hsame rfl rfl rfl)
    · exact .inl (hsame rfl rfl rfl)
  | fork =>
    obtain ⟨-, -, rfl⟩ := act_fork hact
    obtain ⟨children, waited, hforked⟩ := s.forked_eq x
    rw [hforked]
    exact .inl ⟨rfl, rfl, List.prefix_rfl⟩
  | wait4 =>
    rcases act_wait4 hact with ⟨w, used, -, rfl⟩ | ⟨rfl, -⟩
    · exact .inl (hsame rfl rfl rfl)
    · exact .inl (hsame rfl rfl rfl)
  | wait =>
    rcases act_wait hact with ⟨pid, w, -, -, rfl⟩ | ⟨-, rfl⟩
    · exact .inl (hsame rfl rfl rfl)
    · exact .inl (hsame rfl rfl rfl)
  | readErr room =>
    obtain rfl := act_readErr hact
    exact .inl (hsame rfl rfl rfl)
  | fread path =>
    obtain rfl := act_fread hact
    exact .inl (hsame rfl rfl rfl)

theorem Converses.act {o : Op} {c : Choice} {x : o.Res} {t : State} (h : Converses s) (hasks : asks v o s)
    (hact : act o c s = some (x, t)) : Converses t := by
  rcases act_conversation hact with ⟨htold, hsessions, hheard⟩ | ⟨m, rfl, htold, hsessions, hheard⟩ |
    ⟨htold, hsessions⟩
  · exact ⟨htold ▸ h.told, hsessions ▸ h.sessions, fun m hm => (h.jobs m (htold ▸ hm)).mono hheard⟩
  · refine ⟨htold ▸ hasks.2.2.2, hsessions ▸ h.sessions, fun m' hm' => ?_⟩
    rw [htold] at hm'
    refine Says.mono (s := s) ?_ (hheard ▸ List.prefix_rfl)
    rcases List.mem_append.mp hm' with hold | hnew
    · exact h.jobs m' hold
    · exact (List.mem_singleton.mp hnew) ▸ hasks.2.2.1
  · refine ⟨by rw [htold]; rfl, ?_, by simp [htold]⟩
    rcases hsessions with hsessions | hsessions <;> rw [hsessions]
    · exact h.sessions
    · intro told htold'
      rcases List.mem_append.mp htold' with hold | hlast
      · exact h.sessions told hold
      · exact (List.mem_singleton.mp hlast) ▸ h.told

theorem Begins.converses (h : Begins s) : Converses s := by
  refine ⟨by rw [h.told]; rfl, ?_, ?_⟩
  · rw [h.sessions]
    exact fun _ h => nomatch h
  · rw [h.told]
    exact fun _ h => nomatch h

end

/-! ### A run -/

def smallInvocation : Invocation where
  v := { Remote.smallSurroundings with
    host := { Remote.smallSurroundings.host with cc := some (str "/usr/bin/gcc") } }
  turns := 3
  disk := { readable := fun _ => true, lstat := fun _ => some (true, 1000) }
  iceccVersion := some (str "/e.tar.gz")

def smallUsage : Usage := ⟨⟨0, 0⟩, ⟨0, 0⟩, 0, 0, 0⟩

def smallUse : UseCSMsg := ⟨1, str "127.0.0.1", 0, str "x86_64", 1, 1, 0⟩
/-- The scheduler sends the job back, and the compiler runs here. -/
def smallChoices : List Choice :=
  let yes : Choice := .remote (.does true)
  [.daemon (some 44), yes, yes, yes, .number 0, yes, yes, .msg (some (.useCS smallUse)), yes, yes,
    yes, yes, .clock ⟨0, 0⟩, yes, .pid 7, .does, .does, .waited (.ended (.exited 0) smallUsage), yes,
    .clock ⟨1, 0⟩, yes, .size (some 10), .size none, yes, yes, .does]

def smallState : State := { remote := { job := { language := 0 }, lock := ⟨-1, [], []⟩ } }

def smallArgv : List Str := ["gcc", "-c", "a.c"].map str

abbrev smallRuns : Transition.System (Running Op Op.Res State (Except Thrown ℤ)) Choice :=
  runs smallInvocation smallUsage smallArgv { language := 0 } false smallState

theorem smallRunnable : ∃ j, Runnable smallInvocation smallArgv { language := 0 } false j := by
  have hflags : (match analyseArgv smallInvocation.v.host smallArgv { language := 0 } false [] with
      | .ok r => decide (∀ f ∈ r.1.job.flags, f.1 ≠ [])
      | .error _ => false) = true := by decide +kernel
  split at hflags
  · next r hanalyse =>
    exact ⟨r.1.job, ⟨_, _, hanalyse, rfl, fun _ => ⟨of_decide_eq_true hflags, by decide⟩⟩, by decide⟩
  · cases hflags

/-- What `main` has returned -/
def exitStatus : Running Op Op.Res State (Except Thrown ℤ) → Option ℤ
  | ⟨.done (.ok ret), _⟩ => some ret
  | _ => none

theorem exitStatus_eq {r : Running Op Op.Res State (Except Thrown ℤ)} {ret : ℤ}
    (h : exitStatus r = some ret) : r.program = .done (.ok ret) := by
  unfold exitStatus at h
  split at h
  · cases h
    rfl
  · cases h

theorem smallRuns_end : ∃ r, smallRuns.Reachable r ∧ r.program = .done (.ok 0) := by
  have hinit : smallRuns.Reachable
      ⟨main smallInvocation smallUsage smallArgv { language := 0 } false, smallState⟩ := .init ⟨rfl, rfl⟩
  have hrun : (smallRuns.exec ⟨main smallInvocation smallUsage smallArgv { language := 0 } false, smallState⟩
      smallChoices).bind exitStatus = some 0 := by decide +kernel
  obtain ⟨r, hexec, hret⟩ := Option.bind_eq_some_iff.mp hrun
  exact ⟨r, hinit.exec (fun _ _ _ => trivial) hexec, exitStatus_eq hret⟩

theorem smallState_begins : Begins smallState := ⟨rfl, rfl, rfl, rfl, rfl, rfl, rfl, rfl, rfl⟩

section

variable {v : Invocation} {junk : Usage} {argv : List Str} {job j : Job} {icerun : Bool} {s : State}
  {r : Running Op Op.Res State (Except Thrown ℤ)}

end

end Build

end Icecream.Client
