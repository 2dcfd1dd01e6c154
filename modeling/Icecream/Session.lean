import Icecream.Client.RemoteRuns
import Icecream.Daemon.ServeRuns

/-!
# A job on another host

The client's `build_remote_int` and the daemon that it talks to, with the messages on their way
between them. Both go on whenever they can; what becomes of their operations is as open as it is
for each of them alone, except that only messages that have been sent arrive, in their order and
as the other side reads them.
-/

namespace Icecream.Session

open Transition
open Icecream.Comm (Str Msg UseCSMsg CompileJob CompileResultMsg FileChunkMsg Compression Content
  transfer contents)
open Icecream.Client (Surroundings Remote ClientError)
open Icecream.Daemon (Serve)

/-- The arguments of the two functions, and what compresses the chunks -/
structure Setup where
  surroundings : Surroundings
  turns : ℕ
  usecs : UseCSMsg
  environment : Str
  versionFile : Str
  preprocFile : Option Str
  output : Bool
  place : Serve.Place
  starttv : Daemon.Timeval
  compression : Compression

abbrev ClientRun :=
  Running Remote.Op Remote.Op.Res Remote.State (Except ClientError ℤ)

abbrev ChildRun := Running Serve.Op Serve.Op.Res Serve.State (Except Serve.Thrown Int32)

/-- `handled` is what the daemon has taken of the client before it forks, and `answered` what it has
sent itself. -/
structure State where
  client : ClientRun
  child : Option ChildRun := none
  handled : List Msg := []
  answered : List Msg := []
  toServer : List Msg := []
  toClient : List Msg := []

inductive Event where
  | client (c : Remote.Choice)
  /-- The daemon says something of its own. -/
  | answer (m : Msg)
  /-- The daemon takes a message; a job is given to a child. -/
  | handle
  | child (c : Serve.Choice)

def Setup.read (u : Setup) (m : Msg) : Msg := m.normalised u.place.protocol u.compression

/-- What has come to the end of a list -/
def news (before after : List Msg) : List Msg := after.drop before.length

def Setup.clientStep (u : Setup) (s : State) (c : Remote.Choice) : Option State :=
  (Running.next Remote.act s.client c).bind fun client =>
    if news s.client.state.received client.state.received <+: s.toClient then
      some { s with
        client := client
        toServer := s.toServer ++ (news s.client.state.sent client.state.sent).map u.read
        toClient := s.toClient.drop (news s.client.state.received client.state.received).length }
    else none

def Setup.childStep (u : Setup) (s : State) (child : ChildRun) (c : Serve.Choice) : Option State :=
  (Running.next Serve.act child c).bind fun child' =>
    if news child.state.taken child'.state.taken <+: s.toServer then
      some { s with
        child := some child'
        toClient := s.toClient ++ (news child.state.sent child'.state.sent).map u.read
        toServer := s.toServer.drop (news child.state.taken child'.state.taken).length }
    else none

def isResult : Msg → Bool
  | .compileResult _ => true
  | _ => false

/-- Only a child sends results. -/
def next (u : Setup) (s : State) : Event → Option State
  | .client c => u.clientStep s c
  | .answer m =>
    if s.child.isNone ∧ isResult m = false then
      some { s with answered := s.answered ++ [m], toClient := s.toClient ++ [u.read m] }
    else none
  | .handle =>
    match s.child, s.toServer with
    | none, m :: rest =>
      some { s with
        child := match m with
          | .compileFile job =>
            some ⟨Serve.handleConnection u.place u.turns job, Serve.start u.place u.starttv⟩
          | _ => none
        handled := s.handled ++ [m]
        toServer := rest }
    | _, _ => none
  | .child c =>
    match s.child with
    | some child => u.childStep s child c
    | none => none

/-- The client before it has done anything, with a job that can be built -/
structure Begins (c : Remote.State) : Prop where
  job : Remote.Buildable c.job
  lock : c.lock.lockFd = -1
  sent : c.sent = []
  received : c.received = []
  source : c.source = []

def Setup.program (u : Setup) : Remote ℤ :=
  Remote.buildRemoteInt u.surroundings u.turns u.usecs u.environment u.versionFile u.preprocFile
    u.output

def system (u : Setup) (c : Remote.State) : System State Event where
  init s := s = { client := ⟨u.program, c⟩ }
  next := next u

/-! ## What is on its way -/

section

variable {before after queue : List Msg}

theorem append_news (h : before <+: after) : before ++ news before after = after := by
  obtain ⟨rest, rfl⟩ := h
  rw [news, List.drop_left]

theorem take_news (h : news before after <+: queue) :
    news before after ++ queue.drop (news before after).length = queue := by
  obtain ⟨rest, rfl⟩ := h
  rw [List.drop_left]

/-- The first element of a kind is at one place. -/
theorem first_unique {α : Type} {p : α → Prop} {a a' b b' : List α} {x x' : α}
    (h : a ++ x :: b = a' ++ x' :: b') (ha : ∀ y ∈ a, ¬ p y) (ha' : ∀ y ∈ a', ¬ p y) (hx : p x)
    (hx' : p x') : a = a' ∧ x = x' ∧ b = b' := by
  induction a generalizing a' with
  | nil =>
    cases a' with
    | nil =>
      obtain ⟨rfl, rfl⟩ := List.cons_eq_cons.mp h
      exact ⟨rfl, rfl, rfl⟩
    | cons y a' =>
      obtain ⟨rfl, -⟩ := List.cons_eq_cons.mp h
      exact absurd hx (ha' x List.mem_cons_self)
  | cons y a ih =>
    cases a' with
    | nil =>
      obtain ⟨rfl, -⟩ := List.cons_eq_cons.mp h
      exact absurd hx' (ha y List.mem_cons_self)
    | cons y' a' =>
      obtain ⟨rfl, hrest⟩ := List.cons_eq_cons.mp h
      rw [List.forall_mem_cons] at ha ha'
      obtain ⟨rfl, hx⟩ := ih hrest ha.2 ha'.2
      exact ⟨rfl, hx⟩

end

variable {u : Setup} {c₀ : Remote.State} {s t : State} {e : Event}

def State.taken (s : State) : List Msg := s.child.elim [] fun child => child.state.taken

def State.told (s : State) : List Msg := s.child.elim [] fun child => child.state.sent

/-- Both sides are in runs of their own, and nothing is lost on the way. -/
structure Sound (u : Setup) (c₀ : Remote.State) (s : State) : Prop where
  client : (Remote.runs u.surroundings u.turns u.usecs u.environment u.versionFile u.preprocFile
    u.output c₀).Reachable s.client
  child : ∀ child, s.child = some child → ∃ pre job,
    (Serve.runs u.place u.turns job u.starttv).Reachable child ∧
    s.handled = pre ++ [.compileFile job] ∧ ∀ m ∈ pre, ∀ job, m ≠ .compileFile job
  alone : s.child = none → ∀ m ∈ s.handled, ∀ job, m ≠ .compileFile job
  answered : ∀ m ∈ s.answered, isResult m = false
  upward : s.client.state.sent.map u.read = s.handled ++ s.taken ++ s.toServer
  downward : (s.answered ++ s.told).map u.read = s.client.state.received ++ s.toClient

theorem clientStep_sound {c : Remote.Choice} (h : Sound u c₀ s) (hstep : u.clientStep s c = some t) :
    Sound u c₀ t := by
  obtain ⟨client, hnext, hqueue⟩ := Option.bind_eq_some_iff.mp hstep
  obtain ⟨hnews, heq⟩ := Option.ite_none_right_eq_some.mp hqueue
  cases heq
  obtain ⟨o, rest, x, -, hact⟩ := Running.next_eq_some hnext
  obtain ⟨hsent, hreceived⟩ := Remote.act_history hact
  have htaken : s.client.state.received ++ s.toClient = client.state.received ++ s.toClient.drop
      (news s.client.state.received client.state.received).length := by
    conv_lhs => rw [← take_news hnews]
    rw [← List.append_assoc, append_news hreceived]
  refine ⟨h.client.step c trivial hnext, h.child, h.alone, h.answered, ?_, h.downward.trans htaken⟩
  show client.state.sent.map u.read = s.handled ++ s.taken ++ (s.toServer ++ _)
  rw [← List.append_assoc, ← h.upward, ← List.map_append, append_news hsent]

theorem childStep_sound {child : ChildRun} {c : Serve.Choice} (h : Sound u c₀ s)
    (hchild : s.child = some child) (hstep : u.childStep s child c = some t) : Sound u c₀ t := by
  obtain ⟨child', hnext, hqueue⟩ := Option.bind_eq_some_iff.mp hstep
  obtain ⟨hnews, heq⟩ := Option.ite_none_right_eq_some.mp hqueue
  cases heq
  obtain ⟨o, rest, x, -, hact⟩ := Running.next_eq_some hnext
  obtain ⟨hsent, hloop⟩ := Serve.act_history hact
  have hmore : child.state.taken <+: child'.state.taken := by
    rcases hloop with ⟨-, hsame⟩ | ⟨e, -, htaken⟩
    · rw [hsame]
    · exact ⟨_, htaken.symm⟩
  have htaken : s.taken = child.state.taken := by rw [State.taken, hchild]; rfl
  have htold : s.told = child.state.sent := by rw [State.told, hchild]; rfl
  refine ⟨h.client, ?_, by simp, h.answered, ?_, ?_⟩
  · rintro _ ⟨⟩
    obtain ⟨pre, job, hreach, hhandled⟩ := h.child child hchild
    exact ⟨pre, job, hreach.step c trivial hnext, hhandled⟩
  · show s.client.state.sent.map u.read = s.handled ++ child'.state.taken ++ s.toServer.drop _
    rw [h.upward, htaken, List.append_assoc, List.append_assoc]
    conv_lhs => rw [← take_news hnews]
    rw [← append_news hmore, List.append_assoc, append_news hmore]
  · show (s.answered ++ child'.state.sent).map u.read = _ ++ (s.toClient ++ _)
    rw [← List.append_assoc, ← h.downward, htold, ← List.map_append, List.append_assoc,
      append_news hsent]

theorem answer_sound {m : Msg} (h : Sound u c₀ s) (hstep : next u s (.answer m) = some t) :
    Sound u c₀ t := by
  obtain ⟨⟨hchild, hresult⟩, heq⟩ := Option.ite_none_right_eq_some.mp hstep
  cases heq
  have htold : s.told = [] := by rw [State.told, Option.isNone_iff_eq_none.mp hchild]; rfl
  refine ⟨h.client, h.child, h.alone, ?_, h.upward, ?_⟩
  · exact List.forall_mem_append.mpr ⟨h.answered, by simpa using hresult⟩
  · show (s.answered ++ [m] ++ s.told).map u.read = _ ++ (s.toClient ++ _)
    rw [← List.append_assoc, ← h.downward, htold]
    simp

theorem handle_sound (h : Sound u c₀ s) (hstep : next u s .handle = some t) : Sound u c₀ t := by
  cases hchild : s.child with
  | some child => simp [next, hchild] at hstep
  | none =>
    cases hqueue : s.toServer with
    | nil => simp [next, hchild, hqueue] at hstep
    | cons m rest =>
      have htaken : s.taken = [] := by rw [State.taken, hchild]; rfl
      have htold : s.told = [] := by rw [State.told, hchild]; rfl
      have hup : s.client.state.sent.map u.read = s.handled ++ [m] ++ [] ++ rest := by
        rw [h.upward, htaken, hqueue]
        simp
      have hdown : (s.answered ++ []).map u.read = s.client.state.received ++ s.toClient := by
        rw [← htold]
        exact h.downward
      simp only [next, hchild, hqueue] at hstep
      cases hstep
      cases m with
      | compileFile job =>
        refine ⟨h.client, ?_, (by simp), h.answered, hup, hdown⟩
        rintro _ ⟨⟩
        exact ⟨s.handled, job, .init ⟨rfl, rfl⟩, rfl, h.alone hchild⟩
      | _ =>
        refine ⟨h.client, by simp, fun _ => ?_, h.answered, hup, hdown⟩
        exact List.forall_mem_append.mpr ⟨h.alone hchild, by simp⟩

theorem next_sound (h : Sound u c₀ s) (hstep : next u s e = some t) : Sound u c₀ t := by
  cases e with
  | client c => exact clientStep_sound h hstep
  | answer m => exact answer_sound h hstep
  | handle => exact handle_sound h hstep
  | child c =>
    cases hchild : s.child with
    | none => simp [next, hchild] at hstep
    | some child =>
      simp only [next, hchild] at hstep
      exact childStep_sound h hchild hstep

theorem reachable_sound (hc : Begins c₀) (hs : (system u c₀).Reachable s) : Sound u c₀ s := by
  refine hs.invariant ?_ fun s e t h _ hstep => next_sound h hstep
  rintro s rfl
  refine ⟨.init ⟨rfl, rfl⟩, by simp, by simp, by simp, ?_, ?_⟩
  · simp [State.taken, hc.sent]
  · simp [State.told, hc.received]

/-! ## What the two know of each other -/

theorem isResult_read (u : Setup) (m : Msg) : isResult (u.read m) = isResult m := by
  cases m <;> rfl

theorem read_compileFile {m : Msg} {job : CompileJob} (h : u.read m = .compileFile job) :
    ∃ job', m = .compileFile job' := by
  cases m <;> cases h
  exact ⟨_, rfl⟩

theorem read_transfer (u : Setup) (c : List FileChunkMsg) :
    (transfer c).map u.read = transfer (c.map fun m => m.normalised u.place.protocol u.compression) :=
  Comm.transfer_normalised _ _ c

/-- The compiler has been given the beginning of the file, or all of it. -/
theorem taken_input {w : Daemon.Worker} {taken queue : List Msg} {c : List FileChunkMsg}
    (h : Serve.Taken w taken) (hall : taken ++ queue = transfer c) :
    w.fed <+: contents c ∧ (w.inputComplete = true → w.returnValue = 0 →
      w.lost = true ∨ w.fed = contents c) := by
  cases h with
  | @reading past hincomplete hfed =>
    obtain ⟨more, rfl, -⟩ := Comm.transfer_split hall
    refine ⟨hfed.initial, fun hcomplete => ?_⟩
    rw [hincomplete] at hcomplete
    cases hcomplete
  | @done past rest _ _ hfed hwhole =>
    rw [List.append_assoc] at hall
    obtain ⟨more, rfl, hrest⟩ := Comm.transfer_split hall
    refine ⟨?_, fun _ hvalue => ?_⟩
    · rw [Comm.contents_append]
      exact hfed.trans (List.prefix_append _ _)
    · obtain ⟨rfl, hall'⟩ := hwhole hvalue
      have hmore : more = [] := (Comm.transfer_append_inj (c := []) (by simpa [transfer] using hrest)).1.symm
      rwa [hmore, List.append_nil]

theorem no_end (chunks : List FileChunkMsg) {object : List FileChunkMsg} {after rest : List Msg}
    (hafter : ∀ x ∈ after, Serve.IsText x) :
    (chunks.map Msg.fileChunk ++ after).map u.read ≠ transfer object ++ rest := by
  intro h
  have hend : Msg.endMsg ∈ (chunks.map Msg.fileChunk ++ after).map u.read := by
    rw [h, transfer]
    simp
  obtain ⟨x, hx, hread⟩ := List.mem_map.mp hend
  rcases List.mem_append.mp hx with hchunk | htext
  · obtain ⟨c, -, rfl⟩ := List.mem_map.mp hchunk
    cases hread
  · cases x with
    | statusText => cases hread
    | _ => exact hafter _ htext

/-- A whole file that has come over the channel is the first one that has been sent. -/
theorem files_split {copied : List Serve.Copied} {after rest : List Msg} {object : List FileChunkMsg}
    (hafter : ∀ x ∈ after, Serve.IsText x) (hclosed : ∀ c ∈ copied.dropLast, c.closed = true)
    (h : (copied.flatMap Serve.Copied.messages ++ after).map u.read = transfer object ++ rest) :
    ∃ c cs, copied = c :: cs ∧ c.closed = true ∧ contents object = contents c.chunks ∧
      (cs.flatMap Serve.Copied.messages ++ after).map u.read = rest := by
  cases copied with
  | nil => exact absurd h (no_end [] hafter)
  | cons c cs =>
    by_cases hc : c.closed = true
    · have hmessages : c.messages = transfer c.chunks := by simp [Serve.Copied.messages, transfer, hc]
      rw [List.flatMap_cons, hmessages, List.append_assoc, List.map_append, read_transfer] at h
      obtain ⟨rfl, hrest⟩ := Comm.transfer_append_inj h
      exact ⟨c, cs, rfl, hc, Comm.contents_normalised _ _ _, hrest⟩
    · have hnil : cs = [] := by
        cases cs with
        | nil => rfl
        | cons c' cs => exact absurd (hclosed c (by simp)) hc
      have hmessages : c.messages = c.chunks.map .fileChunk := by simp [Serve.Copied.messages, hc]
      rw [hnil, List.flatMap_singleton, hmessages] at h
      exact absurd h (no_end _ hafter)

/-- Success is told of a compiler that has exited with it. -/
theorem finish_success {w : Daemon.Worker} {memLimit : UInt64} {starttv : Daemon.Timeval}
    {e : Daemon.End} (h : (w.finish memLimit starttv e).rmsg.status = 0) : e.status = .exited 0 := by
  have hfailed : w.failed.status ≠ 0 := show Int32.ofNat Daemon.exitOutOfMemory ≠ 0 by decide
  have hexhausted : Services.shellExitStatus e.status ≠ 0 →
      ¬ Daemon.Exhausted memLimit e w.err.text := by
    intro hcode hexhausted
    obtain ⟨ret, -, hfinish⟩ := w.finish_exhausted starttv hcode hexhausted
    rw [hfinish] at h
    exact hfailed h
  cases hstatus : e.status with
  | exited c =>
    have hc : c = 0 ∨ ¬ Daemon.Exhausted memLimit e w.err.text := by
      refine or_iff_not_imp_left.mpr fun hc => hexhausted ?_
      rw [hstatus]
      exact fun hzero => hc (UInt8.toNat_inj.mp hzero)
    have hzero : UInt32.ofNat c.toNat = 0 :=
      (Daemon.toInt32_eq_zero_iff _).mp ((w.finish_exited starttv hstatus hc).2.1.symm.trans h)
    have hnat : c.toNat % 4294967296 = 0 := by simpa using congrArg UInt32.toNat hzero
    have hless := c.toNat_lt
    have : c = 0 := UInt8.toNat_inj.mp (by simp; omega)
    rw [this]
  | signaled signal =>
    have hcode : Services.shellExitStatus e.status ≠ 0 := by
      rw [hstatus]
      exact Nat.succ_ne_zero _
    rw [w.finish_signaled starttv hstatus (hexhausted hcode)] at h
    exact absurd h hfailed

/-- A job that has been built elsewhere: the compiler has been given nothing but the source, and what
the client has got is what the child has read, to the end of it. -/
structure Delivered (out : Str) (m : CompileResultMsg) (client : Remote.State) (child : Serve.State) :
    Prop where
  input : child.process.worker.fed <+: client.source.map some
  compiled : m.wasOutOfMemory = false → ∃ e, child.process.died = some e ∧ e.status = .exited 0 ∧
    (child.process.worker.lost = true ∨ child.process.worker.fed = client.source.map some)
  object : ∃ c cs, child.copied = c :: cs ∧ c.file = child.locals.objFile ∧ c.atEnd = true ∧
    client.files out = some (c.bytes.map some)
  dwo : m.haveDwoFile = true → ∃ c c', child.copied = [c, c'] ∧ c'.file = child.locals.dwoFile ∧
    c'.atEnd = true ∧ client.files (Remote.dwoName out) = some (c'.bytes.map some)

/-- What the result says of the compiler -/
theorem compiled_input {child : ChildRun} {m : CompileResultMsg} {job : CompileJob}
    {c : List FileChunkMsg} {queue : List Msg}
    (hchild : (Serve.runs u.place u.turns job u.starttv).Reachable child)
    (hanswers : Serve.Answers child.state m) (hstatus : m.status = 0)
    (hqueue : child.state.taken ++ queue = transfer c) (hflag : m.wasOutOfMemory = false) :
    ∃ e, child.state.process.died = some e ∧ e.status = .exited 0 ∧
      (child.state.process.worker.lost = true ∨ child.state.process.worker.fed = contents c) := by
  rcases hanswers with ⟨e, hended, hdied, hsame, hvalue⟩ | ⟨-, hset⟩
  · have hexited := finish_success (hsame.symm.trans hstatus)
    refine ⟨e, hdied, hexited, ?_⟩
    have hfed := Serve.runs_fed hchild
    refine (taken_input hfed.taken hqueue).2 (hfed.complete hended) ?_
    rw [← (Daemon.Worker.finish_exited _ hexited (.inl rfl)).1]
    exact hvalue hflag
  · rw [hset] at hflag
    cases hflag

/-- Where a result has come, a child has sent it. -/
theorem result_told {m : CompileResultMsg} (h : Sound u c₀ s)
    (hm : .compileResult m ∈ s.client.state.received) : ∃ m', .compileResult m' ∈ s.told := by
  have hmem : .compileResult m ∈ (s.answered ++ s.told).map u.read := by
    rw [h.downward]
    exact List.mem_append_left _ hm
  obtain ⟨x, hx, hread⟩ := List.mem_map.mp hmem
  have hresult : isResult x = true := by
    rw [← isResult_read u, hread]
    rfl
  rcases List.mem_append.mp hx with hanswered | htold
  · rw [h.answered x hanswered] at hresult
    cases hresult
  · cases x with
    | compileResult m' => exact ⟨m', htold⟩
    | _ => cases hresult

theorem isText_not_result {x : Msg} (h : Serve.IsText x) : isResult x = false := by
  cases x with
  | compileResult m => exact h.elim
  | _ => rfl

/-- What has been sent and received of a job, on both ends -/
theorem built_messages {pre got : List Msg} {job : CompileJob} {c : List FileChunkMsg}
    {m : CompileResultMsg} {rest : List Msg} (h : Sound u c₀ s)
    (hsent : s.client.state.sent = pre ++ .compileFile job :: transfer c)
    (hpre : ∀ m ∈ pre, ∀ job, m ≠ .compileFile job)
    (hreceived : s.client.state.received = got ++ .compileResult m :: rest)
    (hgot : ∀ m ∈ got, isResult m = false) :
    ∃ child job' after m', s.child = some child ∧
      (Serve.runs u.place u.turns job' u.starttv).Reachable child ∧
      child.state.taken ++ s.toServer = (transfer c).map u.read ∧
      Serve.Answers child.state m' ∧ m = m'.normalised u.place.protocol ∧
      (child.state.copied.flatMap Serve.Copied.messages ++ after).map u.read = rest ++ s.toClient ∧
      (∀ x ∈ after, Serve.IsText x) ∧
      child.state.copied.map Serve.Copied.file <+:
        [child.state.locals.objFile, child.state.locals.dwoFile] ∧
      (∀ c ∈ child.state.copied, c.Sound) ∧ ∀ c ∈ child.state.copied.dropLast, c.closed = true := by
  obtain ⟨told, htold⟩ := result_told h (m := m) (by rw [hreceived]; simp)
  cases hchild : s.child with
  | none => simp [State.told, hchild] at htold
  | some child =>
    have hsame : s.told = child.state.sent := by rw [State.told, hchild]; rfl
    obtain ⟨pre', job', hreach, hhandled, hpre'⟩ := h.child child hchild
    have hup : pre.map u.read ++ u.read (.compileFile job) :: (transfer c).map u.read =
        pre' ++ .compileFile job' :: (child.state.taken ++ s.toServer) := by
      have hupward := h.upward
      rw [hsent, hhandled, State.taken, hchild] at hupward
      simpa using hupward
    have hinput := (first_unique (p := fun m => ∃ job, m = .compileFile job) hup
      (by
        rintro y hy ⟨job, rfl⟩
        obtain ⟨x, hx, hread⟩ := List.mem_map.mp hy
        obtain ⟨job, rfl⟩ := read_compileFile hread
        exact hpre _ hx job rfl)
      (by rintro y hy ⟨job, rfl⟩; exact hpre' _ hy job rfl) ⟨_, rfl⟩ ⟨_, rfl⟩).2.2
    cases Serve.runs_said hreach with
    | before hquiet =>
      rw [hsame] at htold
      exact (hquiet.sent _ htold).elim
    | @replied texts after m' hquiet hs hafter hanswers hfiles hsound hclosed =>
      have hdown : (s.answered ++ texts).map u.read ++ u.read (.compileResult m') ::
          (child.state.copied.flatMap Serve.Copied.messages ++ after).map u.read =
            got ++ .compileResult m :: (rest ++ s.toClient) := by
        have hdownward := h.downward
        rw [hsame, hs, hreceived] at hdownward
        simpa using hdownward
      obtain ⟨-, hm, hrest⟩ := first_unique (p := fun m => isResult m = true) hdown
        (by
          rintro y hy hresult
          obtain ⟨x, hx, rfl⟩ := List.mem_map.mp hy
          rw [isResult_read] at hresult
          rcases List.mem_append.mp hx with hanswered | htext
          · rw [h.answered x hanswered] at hresult
            cases hresult
          · rw [isText_not_result (hquiet x htext)] at hresult
            cases hresult)
        (by intro y hy; rw [hgot y hy]; simp) rfl rfl
      refine ⟨child, job', after, m', rfl, hreach, hinput.symm, hanswers, ?_, hrest, hafter, hfiles, hsound,
        hclosed⟩
      exact (Msg.compileResult.inj hm).symm

/-! ## What has been built -/

theorem receives_self (s : Remote.State) (file : Str) (chunks : List FileChunkMsg) :
    (s.receives file chunks).files file = some (contents chunks) :=
  (Function.update_of_ne (Remote.icetmp_ne file).symm _ _).trans (Function.update_self ..)

theorem receives_of_ne {s : Remote.State} {file path : Str} {chunks : List FileChunkMsg}
    (hfile : path ≠ file) (htmp : path ≠ Remote.icetmp file) :
    (s.receives file chunks).files path = s.files path :=
  (Function.update_of_ne htmp _ _).trans (Function.update_of_ne hfile _ _)

theorem dwoName_suffix (file : Str) : Comm.str ".dwo" <:+ Remote.dwoName file := List.suffix_append _ _

theorem icetmp_suffix (file : Str) : Comm.str "_icetmp" <:+ Remote.icetmp file := List.suffix_append _ _

/-- What has come of a file is what has been read of it. -/
theorem contents_copied {c : Serve.Copied} {object : List FileChunkMsg} {content : Option Content}
    (hsound : c.Sound) (hclosed : c.closed = true) (hcontents : contents object = contents c.chunks)
    (hfile : content = some (contents object)) :
    c.atEnd = true ∧ content = some (c.bytes.map some) := by
  obtain ⟨hend, hall⟩ := hsound.whole hclosed
  exact ⟨hend, by rw [hfile, hcontents, hall]⟩

def smallSetup : Setup where
  surroundings := Remote.smallSurroundings
  turns := 5
  usecs := Remote.smallUse
  environment := Comm.str "e"
  versionFile := []
  preprocFile := none
  output := false
  place := Serve.smallPlace
  starttv := ⟨0, 0⟩
  compression := ⟨id, some, id, fun _ bs => some bs⟩

theorem smallState_begins : Begins Remote.smallState :=
  ⟨Remote.smallJob_buildable, rfl, rfl, rfl, rfl⟩

/-- The client sends one byte, and the compiler makes one of it. -/
def smallEvents : List Event :=
  (Remote.smallChoices.take 19).map .client ++ [.handle] ++
    ((Serve.smallChoices.take 9).map .child) ++
    [.child (.event (.round (.msg (smallSetup.read (.fileChunk (Comm.chunk [65]))))
      (.ready { stdin := some (.wrote 1) })))] ++
    ((Serve.smallChoices.drop 9).map .child) ++
    [.client (.msg (some (.compileResult {}))), .client (.does true), .client (.does true),
      .client (.msg (some (smallSetup.read (.fileChunk (Comm.chunk [66]))))), .client (.does true),
      .client (.msg (some .endMsg)), .client (.does true), .client (.does true), .client (.does true)]

end Icecream.Session
