import Icecream.Daemon.Serve
import Icecream.Daemon.Supply

/-!
# Runs of the child that compiles

What the client and the daemon are told in every run of `handle_connection`, and what is left
behind.
-/

namespace Icecream.Daemon.Serve

open Icecream.Comm (Bytes Str str Msg CompileJob CompileResultMsg FileChunkMsg ReadResult chunk contents
  exitIoError)
open Icecream.Iceccd (JobStat)
open Icecream.Services (shellExitStatus)

def IsText : Msg → Prop
  | .statusText _ => True
  | _ => False

/-! ## Files on their way -/

namespace Copied

def messages (c : Copied) : List Msg :=
  c.chunks.map .fileChunk ++ if c.closed then [.endMsg] else []

/-- What has been sent of a file is the beginning of it, and all of it once its end is told. -/
structure Sound (c : Copied) : Prop where
  initial : contents c.chunks <+: c.bytes.map some
  whole : c.closed = true → c.atEnd = true ∧ contents c.chunks = c.bytes.map some

end Copied

/-! ## What is asked of an operation -/

/-- The result comes of the end of the compiler, or no compiler has been run. -/
def Answers (s : State) (m : CompileResultMsg) : Prop :=
  (∃ e, s.process.ended = true ∧ s.process.died = some e ∧
    m.status = (s.process.worker.finish s.memLimit s.starttv e).rmsg.status ∧
    (m.wasOutOfMemory = false →
      (s.process.worker.finish s.memLimit s.starttv e).returnValue = 0)) ∨
  s.process = {} ∧ m.wasOutOfMemory = true

/-- The client has been sent the result, and the files as far as they have come. -/
structure Replied (s : State) (texts : List Msg) (m : CompileResultMsg) : Prop where
  quiet : ∀ x ∈ texts, IsText x
  sent : s.sent = texts ++ .compileResult m :: s.copied.flatMap Copied.messages
  answers : Answers s m

/-- Nothing has been sent but texts. -/
structure Quiet (s : State) : Prop where
  sent : ∀ x ∈ s.sent, IsText x
  copied : s.copied = []

/-- A file is on its way. -/
structure Copying (s : State) (done : List Copied) (cur : Copied) : Prop where
  replied : ∃ texts m, Replied s texts m
  copied : s.copied = done ++ [cur]
  going : cur.closed = false

def asks : Op → State → Prop
  | .send (.statusText _), _ => True
  | .send (.compileResult m), s => Quiet s ∧ Answers s m
  | .send (.fileChunk c), s => ∃ done cur, Copying s done cur ∧
    contents cur.chunks ++ c.content = cur.bytes.map some
  | .send .endMsg, s => ∃ done cur, Copying s done cur ∧ cur.atEnd = true ∧
    contents cur.chunks = cur.bytes.map some
  | .send _, _ => False
  | .fork _ _, s | .work, s => Quiet s
  | .setLocals l, s => s.copied ≠ [] → l.objFile = s.locals.objFile ∧ l.dwoFile = s.locals.dwoFile
  | .openFile path, s => (∃ texts m, Replied s texts m) ∧ (∀ c ∈ s.copied, c.closed = true) ∧
    s.copied.map Copied.file ++ [path] <+: [s.locals.objFile, s.locals.dwoFile]
  | .read, s => ∃ done cur, Copying s done cur ∧ contents cur.chunks = cur.bytes.map some
  | .fault, _ => False
  | _, _ => True

/-! ## Operations -/

section

variable {α : Type} {R : α → State → Prop} {E : Thrown → State → Prop} {s : State}

theorem meets_call {c : Call} {f : Bool → Serve α}
    (h : ∀ ok, (f ok).Meets act asks R E s) : (call c >>= f).Meets act asks R E s := by
  refine .step trivial fun c r t hact => ?_
  cases c <;> cases hact
  exact h r

theorem meets_locals {f : Locals → Serve α} (h : (f s.locals).Meets act asks R E s) :
    (op .locals >>= f).Meets act asks R E s := by
  refine .step trivial fun c r t hact => ?_
  cases c <;> cases hact
  exact h

theorem meets_setLocals {l : Locals} {f : Unit → Serve α}
    (hsame : s.copied ≠ [] → l.objFile = s.locals.objFile ∧ l.dwoFile = s.locals.dwoFile)
    (h : (f ()).Meets act asks R E { s with locals := l }) :
    (op (.setLocals l) >>= f).Meets act asks R E s := by
  refine .step hsame fun c r t hact => ?_
  cases c <;> cases hact
  exact h

theorem meets_send {m : Msg} {f : Bool → Serve α} (hasks : asks (.send m) s)
    (hsent : (f true).Meets act asks R E (s.say m)) (hfailed : (f false).Meets act asks R E s) :
    (op (.send m) >>= f).Meets act asks R E s := by
  refine .step hasks fun c r t hact => ?_
  cases c <;> cases hact
  cases r with
  | true => exact hsent
  | false => exact hfailed

theorem onLast_note {m : Msg} (h : ∀ c : Copied, c.note m = c) (s : State) :
    s.onLast (fun c => c.note m) = s := by
  have hsame : s.copied.dropLast ++ s.copied.getLast?.toList.map (fun c => c.note m) = s.copied := by
    rcases List.eq_nil_or_concat s.copied with hnil | ⟨done, cur, hcopied⟩
    · simp [hnil]
    · simp [hcopied, h]
  exact congrArg (fun copied => { s with copied := copied }) hsame

theorem say_text (s : State) (text : Str) :
    s.say (.statusText text) = { s with sent := s.sent ++ [.statusText text] } := by
  rw [State.say, onLast_note fun _ => rfl]

theorem say_result (s : State) (m : CompileResultMsg) :
    s.say (.compileResult m) = { s with sent := s.sent ++ [.compileResult m] } := by
  rw [State.say, onLast_note fun _ => rfl]

theorem meets_exit {β : Type} {code : ℕ} {f : β → Serve α} (h : E (.exit code) s) :
    (exit code >>= f).Meets act asks R E s :=
  .bind (.raise h)

theorem meets_throw {β : Type} {exitcode : Int32} {f : β → Serve α} (h : E (.exception exitcode) s) :
    (throw exitcode >>= f).Meets act asks R E s :=
  .bind (.raise h)

end

variable {s t : State}

/-- Texts are sent, and nothing else is done. -/
def Texts (s t : State) : Prop :=
  ∃ texts, (∀ x ∈ texts, IsText x) ∧ t = { s with sent := s.sent ++ texts }

theorem Texts.refl (s : State) : Texts s s := ⟨[], by simp, by simp⟩

theorem Texts.trans {u : State} (h : Texts s t) (h' : Texts t u) : Texts s u := by
  obtain ⟨texts, htexts, rfl⟩ := h
  obtain ⟨texts', htexts', rfl⟩ := h'
  exact ⟨texts ++ texts', List.forall_mem_append.mpr ⟨htexts, htexts'⟩, by simp⟩

theorem Texts.quiet (h : Texts s t) (hs : Quiet s) : Quiet t := by
  obtain ⟨texts, htexts, rfl⟩ := h
  exact ⟨List.forall_mem_append.mpr ⟨hs.sent, htexts⟩, hs.copied⟩

theorem errorClient_meets (v : Place) (version : ℕ) (error : Str) {E : Thrown → State → Prop} :
    (errorClient v version error).Meets act asks (fun _ => Texts s) E s := by
  unfold errorClient
  refine .ite (fun _ => ?_) fun _ => .pure (Texts.refl s)
  refine meets_send trivial (.pure ?_) (.pure (Texts.refl s))
  rw [say_text]
  exact ⟨[.statusText error], by simp [IsText], rfl⟩

/-- A text, and then the exception -/
theorem meets_error {v : Place} {version : ℕ} {error : Str} {α β : Type} {e : Thrown}
    {f : α → Serve β} {R : β → State → Prop} {E : Thrown → State → Prop} (h : ∀ t, Texts s t → E e t) :
    (errorClient v version error >>= fun _ => (Procedure.raise e : Serve α) >>= f).Meets act asks R E s :=
  .andThen (errorClient_meets v version error) (fun _ t ht => .bind (.raise (h t ht))) fun _ _ h => h

/-- A call without which nothing goes on -/
theorem meets_demand {v : Place} {c : Call} {version : ℕ} {error : Str} {β : Type} {e : Thrown}
    {f : Unit → Serve β} {R : β → State → Prop} {E : Thrown → State → Prop}
    (hdone : (f ()).Meets act asks R E s) (hfailed : ∀ t, Texts s t → E e t) :
    (call c >>= fun ok => if ok = true then f () else
      errorClient v version error >>= fun _ => (Procedure.raise e : Serve Unit) >>= f).Meets
      act asks R E s :=
  meets_call fun _ => .ite (fun _ => hdone) fun _ => meets_error hfailed

/-! ## The environment -/

theorem chdirToEnvironment_meets (v : Place) (dirname : Str) :
    (chdirToEnvironment v dirname).Meets act asks (fun _ => Texts s)
      (fun e t => (∃ code, e = .exit code) ∧ Texts s t) s := by
  have hexit : ∀ code t, Texts s t → (∃ code', Thrown.exit code = .exit code') ∧ Texts s t :=
    fun code t ht => ⟨⟨code, rfl⟩, ht⟩
  unfold chdirToEnvironment
  refine .ite (fun _ => ?_) fun _ => meets_call fun root => .ite (fun _ => ?_) fun _ => ?_
  · refine meets_demand ?_ (hexit 145)
    exact meets_call fun _ => .ite (fun _ => .pure (Texts.refl s)) fun _ =>
      .andThen (errorClient_meets v 23 _) (fun _ t ht => .raise (hexit 144 t ht)) fun _ _ h => h
  · refine meets_demand (meets_demand (meets_demand (meets_demand ?_ (hexit 143)) (hexit 143))
      (hexit 144)) (hexit 145)
    exact meets_call fun _ => .ite (fun _ => .pure (Texts.refl s)) fun _ =>
      .andThen (errorClient_meets v 23 _) (fun _ t ht => .raise (hexit 142 t ht)) fun _ _ h => h
  · exact .andThen (errorClient_meets v 23 _) (fun _ t ht => .raise (hexit 146 t ht)) fun _ _ h => h

/-! ## The compiler -/

/-- The arguments fit into the room that is made for them. -/
theorem workArgv_length_le (v : Place) (job : CompileJob) (tmpRoot fileName : Str) :
    (workArgv v job tmpRoot fileName).length ≤ workArgc v job := by
  have hlanguage : (languageName job.language).length ≤ 1 := by
    unfold languageName
    split_ifs <;> simp
  unfold workArgv workArgc
  cases isClang v job <;> simp only [List.length_append]
  all_goals split_ifs <;> simp_all <;> omega

/-- What `work_it` leaves: the end of the compiler has been dealt with, or none has been run. -/
structure Worked (s : State) (o : Outcome) (t : State) : Prop where
  quiet : Quiet t
  same : t.locals = s.locals ∧ t.records = s.records ∧ t.pipeOpen = s.pipeOpen ∧
    t.clientOpen = s.clientOpen ∧ t.made = s.made ∧ t.removed = s.removed ∧
    t.memLimit = s.memLimit ∧ t.starttv = s.starttv
  outcome : (∃ e, Process.system.Reachable t.process ∧ t.process.ended = true ∧
      t.process.died = some e ∧ o = t.process.worker.finish t.memLimit t.starttv e) ∨
    t.process = {} ∧
      o.returnValue ∈ [exitDistccFailed, exitOutOfMemory, exitIoError, exitCompilerMissing]

theorem workLoop_meets (n : ℕ) (hquiet : Quiet s) (hprocess : Process.system.Reachable s.process) :
    (workLoop n).Meets act asks (Worked s) (fun _ _ => False) s := by
  induction n generalizing s with
  | zero => exact ⟨trivial, fun c r => nomatch r⟩
  | succ n ih =>
    unfold workLoop
    refine .step hquiet fun c r t hact => ?_
    cases c with
    | event e =>
      obtain ⟨p, hp, heq⟩ := Option.map_eq_some_iff.mp hact
      obtain ⟨rfl, rfl⟩ := Prod.mk.inj heq
      cases hend : outcome s p with
      | none =>
        refine .mono (ih ?_ ?_) (fun o t h => ⟨h.quiet, h.same, h.outcome⟩) fun _ _ h => h
        · exact ⟨hquiet.sent, hquiet.copied⟩
        · exact hprocess.step e trivial hp
      | some o =>
        rw [outcome, Option.ite_none_right_eq_some, Option.map_eq_some_iff] at hend
        obtain ⟨hended, e', hdied, rfl⟩ := hend
        exact .pure ⟨⟨hquiet.sent, hquiet.copied⟩, ⟨rfl, rfl, rfl, rfl, rfl, rfl, rfl, rfl⟩,
          .inl ⟨e', hprocess.step e trivial hp, hended, hdied, rfl⟩⟩
    | _ => cases hact

theorem workIt_meets (v : Place) (turns : ℕ) (job : CompileJob) (tmpRoot buildPath fileName : Str)
    (hquiet : Quiet s) (hidle : s.process = {}) :
    (workIt v turns job tmpRoot buildPath fileName).Meets act asks (Worked s) (fun _ _ => False) s := by
  have hnone : ∀ t ret rmsg, Texts s t →
      ret ∈ [exitDistccFailed, exitOutOfMemory, exitIoError, exitCompilerMissing] →
      Worked s ⟨ret, rmsg, noStat⟩ t := by
    rintro t ret rmsg ht hret
    refine ⟨ht.quiet hquiet, ?_, .inr ⟨?_, hret⟩⟩
    · obtain ⟨texts, -, rfl⟩ := ht
      exact ⟨rfl, rfl, rfl, rfl, rfl, rfl, rfl, rfl⟩
    · obtain ⟨texts, -, rfl⟩ := ht
      exact hidle
  unfold workIt
  refine meets_call fun ok => .ite (fun _ => ?_) fun _ =>
    .pure (hnone s _ {} (Texts.refl s) (by decide))
  have hroom := workArgv_length_le v job tmpRoot fileName
  refine .ite (fun h => absurd h (Nat.not_lt.mpr hroom)) fun _ => ?_
  refine .step hquiet fun c r t hact => ?_
  cases c with
  | forked texts =>
    cases texts with
    | none =>
      cases hact
      exact .pure (hnone s _ {} (Texts.refl s) (by decide))
    | some texts =>
      cases hact
      have hforked : Texts s { s with sent := s.sent ++ texts.map .statusText } :=
        ⟨texts.map .statusText, List.forall_mem_map.mpr fun _ _ => trivial, rfl⟩
      refine meets_call fun ran => .ite (fun _ => ?_) fun _ => ?_
      · exact .mono (workLoop_meets turns (hforked.quiet hquiet) (.init hidle))
          (fun o t h => ⟨h.quiet, h.same, h.outcome⟩) fun _ _ h => h
      · refine .andThen (errorClient_meets v 23 _) (fun _ t ht => ?_) fun _ _ h => h
        exact .pure (hnone t _ { status := 1 } (hforked.trans ht) (by decide))
  | _ => cases hact

/-! ## Files -/

section

variable {texts : List Msg} {m : CompileResultMsg} {done : List Copied} {cur : Copied}

/-- Files go on to the client, and nothing else is done. -/
def Sends (s t : State) : Prop := ∃ more copied, t = { s with sent := s.sent ++ more, copied := copied }

theorem Sends.refl (s : State) : Sends s s := ⟨[], s.copied, by rw [List.append_nil]⟩

theorem Sends.trans {u : State} (h : Sends s t) (h' : Sends t u) : Sends s u := by
  obtain ⟨more, copied, rfl⟩ := h
  obtain ⟨more', copied', rfl⟩ := h'
  exact ⟨more ++ more', copied', by rw [List.append_assoc]⟩

theorem Texts.sends (h : Texts s t) : Sends s t := by
  obtain ⟨texts, -, rfl⟩ := h
  exact ⟨_, _, rfl⟩

theorem onLast_sends (s : State) (f : Copied → Copied) : Sends s (s.onLast f) :=
  ⟨[], _, by rw [List.append_nil]; rfl⟩

theorem say_sends (s : State) (m : Msg) : Sends s (s.say m) := ⟨_, _, rfl⟩

theorem onLast_copied (hcopied : s.copied = done ++ [cur]) (f : Copied → Copied) :
    (s.onLast f).copied = done ++ [f cur] := by
  simp [State.onLast, hcopied]

theorem flatMap_last (done : List Copied) (cur : Copied) :
    (done ++ [cur]).flatMap Copied.messages = done.flatMap Copied.messages ++ cur.messages := by
  simp

/-- What has been read changes nothing of what has been sent. -/
theorem Replied.onLast (h : Replied s texts m) (hcopied : s.copied = done ++ [cur])
    {f : Copied → Copied} (hf : (f cur).messages = cur.messages) : Replied (s.onLast f) texts m := by
  refine ⟨h.quiet, ?_, h.answers⟩
  rw [onLast_copied hcopied, flatMap_last, hf, ← flatMap_last, ← hcopied]
  exact h.sent

theorem Replied.say (h : Replied s texts m) (hcopied : s.copied = done ++ [cur]) {x : Msg}
    (hnote : (cur.note x).messages = cur.messages ++ [x]) : Replied (s.say x) texts m := by
  refine ⟨h.quiet, ?_, h.answers⟩
  have hafter : (s.say x).copied = done ++ [cur.note x] := onLast_copied hcopied _
  rw [hafter, flatMap_last, hnote]
  show s.sent ++ [x] = _
  rw [h.sent, hcopied, flatMap_last]
  simp

theorem messages_chunk (hgoing : cur.closed = false) (c : FileChunkMsg) :
    (cur.note (.fileChunk c)).messages = cur.messages ++ [.fileChunk c] := by
  simp [Copied.messages, Copied.note, hgoing]

theorem messages_end (hgoing : cur.closed = false) :
    (cur.note .endMsg).messages = cur.messages ++ [.endMsg] := by
  simp [Copied.messages, Copied.note, hgoing]

/-- The files have gone to the client, one more of them than before. -/
structure Sent (s : State) (texts : List Msg) (m : CompileResultMsg) (file : Str) (t : State) :
    Prop where
  sends : Sends s t
  replied : Replied t texts m
  files : t.copied.map Copied.file = s.copied.map Copied.file ++ [file]
  closed : ∀ c ∈ t.copied, c.closed = true

theorem writeChunks_meets (n : ℕ) (hreplied : Replied s texts m) (hcopied : s.copied = done ++ [cur])
    (hgoing : cur.closed = false) (hcontents : contents cur.chunks = cur.bytes.map some) :
    (writeChunks n).Meets act asks
      (fun _ t => Sends s t ∧ Replied t texts m ∧
        ∃ cur', t.copied = done ++ [cur'] ∧ cur'.file = cur.file ∧ cur'.closed = true)
      (fun e t => e = .exception 100 ∧ Sends s t) s := by
  induction n generalizing s cur with
  | zero => exact ⟨trivial, fun c r => nomatch r⟩
  | succ n ih =>
    unfold writeChunks
    refine .step ⟨done, cur, ⟨⟨texts, m, hreplied⟩, hcopied, hgoing⟩, hcontents⟩ fun c r t hact => ?_
    cases c with
    | read result =>
      cases result with
      | interrupted =>
        cases hact
        exact ih hreplied hcopied hgoing hcontents
      | failed =>
        cases hact
        exact .raise ⟨rfl, Sends.refl s⟩
      | bytes bs =>
        obtain ⟨-, heq⟩ := Option.ite_none_right_eq_some.mp hact
        obtain ⟨rfl, rfl⟩ := Prod.mk.inj (Option.some.inj heq)
        let f : Copied → Copied := fun c => { c with bytes := c.bytes ++ bs, atEnd := decide (bs = []) }
        have hread : Replied (s.onLast f) texts m := hreplied.onLast hcopied rfl
        have hlast : (s.onLast f).copied = done ++ [f cur] := onLast_copied hcopied f
        have hcopying : Copying (s.onLast f) done (f cur) := ⟨⟨texts, m, hread⟩, hlast, hgoing⟩
        have hfailed : ∀ {α : Type} {Q : α → State → Prop}, (throw 100 : Serve α).Meets act asks Q
            (fun e t => e = .exception 100 ∧ Sends s t) (s.onLast f) :=
          .raise ⟨rfl, onLast_sends s f⟩
        refine .ite (fun hend => ?_) fun hmore => ?_
        · have hall : contents (f cur).chunks = (f cur).bytes.map some := by
            simp only [f, hend, List.append_nil]
            exact hcontents
          refine meets_send ⟨done, f cur, hcopying, decide_eq_true hend, hall⟩ (.pure ?_) hfailed
          refine ⟨(onLast_sends s f).trans (say_sends _ _), hread.say hlast (messages_end hgoing), ?_⟩
          exact ⟨(f cur).note .endMsg, onLast_copied hlast _, rfl, rfl⟩
        · have hnext : contents (f cur).chunks ++ (chunk bs).content = (f cur).bytes.map some := by
            rw [Comm.content_chunk]
            simp only [f, List.map_append]
            rw [hcontents]
          refine meets_send ⟨done, f cur, hcopying, hnext⟩ ?_ (.bind hfailed)
          refine .mono (ih (hread.say hlast (messages_chunk hgoing _)) (onLast_copied hlast _) hgoing ?_)
            (fun _ t h => ⟨?_, h.2.1, h.2.2⟩) fun e t h => ⟨h.1, ?_⟩
          · simpa [Copied.note] using hnext
          · exact ((onLast_sends s f).trans (say_sends _ _)).trans h.1
          · exact ((onLast_sends s f).trans (say_sends _ _)).trans h.2
    | _ => cases hact

theorem writeOutputFile_meets (v : Place) (turns : ℕ) {file : Str} (hreplied : Replied s texts m)
    (hclosed : ∀ c ∈ s.copied, c.closed = true)
    (hfile : s.copied.map Copied.file ++ [file] <+: [s.locals.objFile, s.locals.dwoFile]) :
    (writeOutputFile v turns file).Meets act asks (fun _ => Sent s texts m file)
      (fun e t => e = .exception 100 ∧ Sends s t) s := by
  unfold writeOutputFile
  refine .step ⟨⟨texts, m, hreplied⟩, hclosed, hfile⟩ fun c r t hact => ?_
  cases c <;> cases hact
  refine .ite (fun hopen => ?_) fun hfailed => ?_
  · subst hopen
    rw [if_pos rfl]
    have hmessages : (s.copied ++ [({ file := file } : Copied)]).flatMap Copied.messages =
        s.copied.flatMap Copied.messages := by
      simp [Copied.messages]
    refine .rescue (.mono (writeChunks_meets turns (s := { s with
      copied := s.copied ++ [{ file := file }] }) ⟨hreplied.quiet, ?_, hreplied.answers⟩ rfl rfl rfl)
      ?_ fun e t h => h) ?_
    · rw [hmessages]
      exact hreplied.sent
    · rintro - t ⟨⟨sent, copied, rfl⟩, hafter, cur, hcopied, hname, hend⟩
      refine ⟨⟨sent, copied, rfl⟩, hafter, ?_, ?_⟩
      · rw [hcopied, List.map_append]
        exact congrArg (fun name => s.copied.map Copied.file ++ [name]) hname
      · rw [hcopied]
        exact List.forall_mem_append.mpr ⟨hclosed, by simpa using hend⟩
    · rintro e t ⟨rfl, sent, copied, rfl⟩
      refine .step trivial fun c r t hact => ?_
      cases c <;> cases hact
      exact .raise ⟨rfl, sent, copied, rfl⟩
  · rw [if_neg hfailed]
    exact meets_error fun t ht => ⟨rfl, ht.sends⟩

end

/-! ## What is recorded -/

/-- The temporary files are known to those who remove them. -/
def Tracked (s : State) : Prop :=
  ∀ path ∈ s.made, path ≠ [] ∧ (path = s.locals.tmpPath ∨ path = s.locals.objFile)

def Unrecorded (s : State) : Prop := s.records = [] ∧ s.pipeOpen = true

/-- The daemon knows of the end, and the client before it. -/
def Recorded (s : State) : Prop :=
  (∃ r, s.records = [r]) ∧ s.pipeOpen = false ∧ ∃ m, .compileResult m ∈ s.sent

/-- An exception, before the record or behind it -/
def Fails (e : Thrown) (t : State) : Prop :=
  ∃ code : Int32, e = .exception code ∧ code ≠ 0 ∧ Tracked t ∧ (Unrecorded t ∨ Recorded t)

theorem finish_returned (w : Worker) (memLimit : UInt64) (starttv : Timeval) (e : End) :
    (w.finish memLimit starttv e).returnValue = exitOutOfMemory ∨
      (w.finish memLimit starttv e).returnValue = exitIoError ∨
      (w.finish memLimit starttv e).returnValue = w.returnValue := by
  unfold Worker.finish
  dsimp only
  by_cases hmemory : shellExitStatus e.status ≠ 0 ∧ outOfMemory memLimit e w.err.text = true
  · rw [if_pos hmemory]
    exact .inl rfl
  · by_cases hdisk : shellExitStatus e.status ≠ 0 ∧ outOfDisk e w.err.text = true
    · rw [if_neg hmemory, if_pos hdisk]
      exact .inr (.inl rfl)
    · rw [if_neg hmemory, if_neg hdisk]
      cases e.status <;> exact .inr (.inr rfl)

/-- What `work_it` returns for an error is one as an exit code, too. -/
theorem Worked.code {o : Outcome} (h : Worked s o t) (hret : o.returnValue ≠ 0) :
    Int32.ofNat o.returnValue ≠ 0 := by
  have hcodes : ∀ n ∈ [exitDistccFailed, exitOutOfMemory, exitIoError, exitCompilerMissing,
      Comm.exitClientKilled], Int32.ofNat n ≠ 0 := by decide
  rcases h.outcome with ⟨e, hprocess, -, -, rfl⟩ | ⟨-, hmem⟩
  · have hsound := (Process.reachable_sound hprocess).value
    rcases finish_returned t.process.worker t.memLimit t.starttv e with hret' | hret' | hret'
    · exact hcodes _ (by simp [hret'])
    · exact hcodes _ (by simp [hret'])
    · rw [hret'] at hret ⊢
      rcases hsound with hzero | hio | hkilled
      · exact absurd hzero hret
      · exact hcodes _ (by simp [hio])
      · exact hcodes _ (by simp [hkilled])
  · refine hcodes _ ?_
    simp only [List.mem_cons, List.not_mem_nil, or_false] at hmem ⊢
    tauto

/-- The result that is sent for what `work_it` has returned -/
theorem Worked.answers {o : Outcome} (h : Worked s o t)
    (hret : ¬ (o.returnValue ≠ 0 ∧ o.returnValue ≠ exitOutOfMemory ∧ o.returnValue ≠ exitIoError))
    (dwo : Bool) :
    Answers t { o.rmsg with
      wasOutOfMemory := o.returnValue ≠ 0 || o.rmsg.wasOutOfMemory, haveDwoFile := dwo } := by
  rcases h.outcome with ⟨e, -, hended, hdied, rfl⟩ | ⟨hidle, hmem⟩
  · refine .inl ⟨e, hended, hdied, rfl, fun hflag => ?_⟩
    have hzero := (Bool.or_eq_false_iff.mp hflag).1
    simpa using hzero
  · refine .inr ⟨hidle, ?_⟩
    have hne : o.returnValue ≠ 0 := by
      rintro hzero
      rw [hzero] at hmem
      exact absurd hmem (by decide)
    simp [hne]

theorem wake_meets (jobStat : JobStat) {E : Thrown → State → Prop} :
    (wake jobStat).Meets act asks (fun _ t => t = { s with
      records := if s.pipeOpen then s.records ++ [jobStat] else s.records, pipeOpen := false }) E s := by
  unfold wake
  refine .step trivial fun c r t hact => ?_
  cases c <;> cases hact
  refine .perform trivial fun c r t hact => ?_
  cases c <;> cases hact
  split <;> rfl

theorem Recorded.sends (h : Recorded s) (hsends : Sends s t) : Recorded t := by
  obtain ⟨more, copied, rfl⟩ := hsends
  obtain ⟨hrecord, hpipe, m, hm⟩ := h
  exact ⟨hrecord, hpipe, m, List.mem_append_left _ hm⟩

theorem Tracked.sends (h : Tracked s) (hsends : Sends s t) : Tracked t := by
  obtain ⟨more, copied, rfl⟩ := hsends
  exact h

theorem writeOutputFiles_meets (v : Place) (turns : ℕ) {l : Locals} {texts : List Msg}
    {m : CompileResultMsg} (hreplied : Replied s texts m) (hcopied : s.copied = [])
    (hrecorded : Recorded s) (htracked : Tracked s) (hobj : l.objFile = s.locals.objFile)
    (hdwo : l.dwoFile = s.locals.dwoFile) :
    (writeOutputFiles v turns l m).Meets act asks (fun _ t => Recorded t ∧ Tracked t) Fails s := by
  have hdone : ∀ t, Sends s t → Recorded t ∧ Tracked t := fun t h =>
    ⟨hrecorded.sends h, htracked.sends h⟩
  have hfails : ∀ e t, (e = .exception 100 ∧ Sends s t) → Fails e t := fun e t h =>
    ⟨100, h.1, by decide, htracked.sends h.2, .inr (hrecorded.sends h.2)⟩
  unfold writeOutputFiles
  refine .ite (fun _ => ?_) fun _ => .pure (hdone s (Sends.refl s))
  refine .andThen (writeOutputFile_meets v turns hreplied (by simp [hcopied])
    ⟨[s.locals.dwoFile], by simp [hcopied, hobj]⟩) (fun _ t ht => ?_) hfails
  refine .ite (fun _ => ?_) fun _ => .pure (hdone t ht.sends)
  have hlocals : t.locals = s.locals := by
    obtain ⟨more, copied, rfl⟩ := ht.sends
    rfl
  have hfiles : t.copied.map Copied.file ++ [l.dwoFile] <+: [t.locals.objFile, t.locals.dwoFile] := by
    rw [ht.files, hcopied, hlocals, hobj, hdwo]
    exact List.prefix_rfl
  refine .andThen (writeOutputFile_meets v turns ht.replied ht.closed hfiles)
    (fun _ u hu => .pure (hdone u (ht.sends.trans hu.sends)))
    fun e u hu => hfails e u ⟨hu.1, ht.sends.trans hu.2⟩

theorem answer_meets (v : Place) (turns : ℕ) {o : Outcome} (hworked : Worked s o t)
    (htracked : Tracked s) (hrecords : Unrecorded s) :
    (answer v turns o).Meets act asks (fun _ u => Recorded u ∧ Tracked u) Fails t := by
  obtain ⟨hlocals, hrecords', hpipe, -, hmade, -, -, -⟩ := hworked.same
  have htracked' : ∀ l : Locals, l.tmpPath = t.locals.tmpPath → l.objFile = t.locals.objFile →
      Tracked { t with locals := l } := by
    intro l htmp hobj path hpath
    rw [htmp, hobj, hlocals]
    exact htracked path (hmade ▸ hpath)
  have hunrecorded : ∀ l, Unrecorded { t with locals := l } := fun l =>
    ⟨hrecords'.trans hrecords.1, hpipe.trans hrecords.2⟩
  unfold answer
  refine meets_locals (meets_setLocals (fun h => absurd hworked.quiet.copied h) ?_)
  refine .ite (fun hret => ?_) fun hret => ?_
  · exact meets_throw ⟨_, rfl, hworked.code hret.1, htracked' _ rfl rfl, .inl (hunrecorded _)⟩
  refine .step trivial fun c obj u hact => ?_
  cases c <;> cases hact
  refine .step trivial fun c dwo u hact => ?_
  cases c <;> cases hact
  refine meets_setLocals (fun h => absurd hworked.quiet.copied h) ?_
  dsimp only
  have hcode : (100 : Int32) ≠ 0 := by decide
  refine meets_send ⟨⟨hworked.quiet.sent, hworked.quiet.copied⟩, hworked.answers hret _⟩ ?_
    (meets_throw ⟨100, rfl, hcode, htracked' _ rfl rfl, .inl (hunrecorded _)⟩)
  rw [say_result]
  refine .andThen (wake_meets _) ?_ fun _ _ h => h
  rintro - u rfl
  have hrecorded : (if t.pipeOpen then t.records ++ [{ o.jobStat with
      outUncompressed := o.jobStat.outUncompressed + Built.size ⟨obj, dwo⟩ }] else t.records) =
      [{ o.jobStat with outUncompressed := o.jobStat.outUncompressed + Built.size ⟨obj, dwo⟩ }] := by
    rw [if_pos (hpipe.trans hrecords.2), hrecords', hrecords.1, List.nil_append]
  refine writeOutputFiles_meets v turns ⟨hworked.quiet.sent, ?_, hworked.answers hret _⟩
    hworked.quiet.copied ⟨⟨_, hrecorded⟩, rfl, _, List.mem_append_right _ (List.mem_singleton_self _)⟩
    (htracked' _ rfl rfl) rfl rfl
  simp [hworked.quiet.copied]

/-! ## The whole -/

/-- Nothing has been done but sending texts. -/
structure Fresh (s : State) : Prop where
  quiet : Quiet s
  idle : s.process = {}
  unrecorded : Unrecorded s
  made : s.made = []

theorem Fresh.texts (h : Fresh s) (ht : Texts s t) : Fresh t := by
  have hquiet := ht.quiet h.quiet
  obtain ⟨texts, -, rfl⟩ := ht
  exact ⟨hquiet, h.idle, h.unrecorded, h.made⟩

theorem Fresh.tracked (h : Fresh s) : Tracked s := by
  intro path hpath
  rw [h.made] at hpath
  cases hpath

theorem build_meets (v : Place) (turns : ℕ) (job : CompileJob) (hfresh : Fresh s) :
    (build v turns job).Meets act asks
      (fun o t => ∃ s', Worked s' o t ∧ Tracked s' ∧ Unrecorded s') Fails s := by
  have hfailed : ∀ {ret : ℕ}, ret = exitOutOfMemory ∨ ret = exitIoError →
      Worked s ⟨ret, {}, noStat⟩ s := by
    intro ret hret
    refine ⟨hfresh.quiet, ⟨rfl, rfl, rfl, rfl, rfl, rfl, rfl, rfl⟩, .inr ⟨hfresh.idle, ?_⟩⟩
    rcases hret with rfl | rfl <;> decide
  have hmade : ∀ (path : Str) (l : Locals), path ≠ [] → path = l.tmpPath ∨ path = l.objFile →
      Tracked { s with made := s.made ++ [path], locals := l } := by
    intro path l hne hpath path' hmem
    rw [hfresh.made, List.nil_append, List.mem_singleton] at hmem
    subst hmem
    exact ⟨hne, hpath⟩
  have hnocopy : ∀ {p : Prop}, s.copied ≠ [] → p := fun h => absurd hfresh.quiet.copied h
  have hquiet : ∀ made locals, Quiet { s with made := made, locals := locals } :=
    fun _ _ => ⟨hfresh.quiet.sent, hfresh.quiet.copied⟩
  have hnotmade : ∀ {u t : State}, Tracked u → Unrecorded u → Texts u t → Fails (.exception 107) t := by
    intro u t htracked hunrecorded ht
    obtain ⟨texts, -, rfl⟩ := ht
    exact ⟨107, rfl, by decide, htracked, .inl hunrecorded⟩
  unfold build
  refine .ite (fun _ => ?_) fun _ => ?_
  · refine .step trivial fun c r t hact => ?_
    cases c with
    | made filled =>
      cases filled with
      | error ret =>
        obtain ⟨hret, heq⟩ := Option.ite_none_right_eq_some.mp hact
        obtain ⟨rfl, rfl⟩ := Prod.mk.inj (Option.some.inj heq)
        exact .pure ⟨s, hfailed hret, hfresh.tracked, hfresh.unrecorded⟩
      | ok filled =>
        cases hact
        refine meets_setLocals hnocopy ?_
        have htmp : Tracked { s with
            made := s.made ++ [dccMakeTmpdir filled]
            locals := { tmpPath := dccMakeTmpdir filled } } :=
          hmade _ _ (by simp [dccMakeTmpdir, str]) (.inl rfl)
        refine meets_demand (meets_demand ?_ fun t => hnotmade htmp hfresh.unrecorded)
          fun t => hnotmade htmp hfresh.unrecorded
        refine meets_setLocals hnocopy ?_
        refine .mono (workIt_meets v turns job _ _ _ (hquiet _ _) hfresh.idle) ?_ fun _ _ h => h.elim
        exact fun o t h => ⟨_, h, hmade _ _ (by simp [dccMakeTmpdir, str]) (.inl rfl), hfresh.unrecorded⟩
    | _ => cases hact
  · refine .step trivial fun c r t hact => ?_
    cases c with
    | made filled =>
      cases filled with
      | error ret =>
        obtain ⟨hret, heq⟩ := Option.ite_none_right_eq_some.mp hact
        obtain ⟨rfl, rfl⟩ := Prod.mk.inj (Option.some.inj heq)
        exact .pure ⟨s, hfailed hret, hfresh.tracked, hfresh.unrecorded⟩
      | ok filled =>
        cases hact
        refine meets_setLocals hnocopy ?_
        refine .mono (workIt_meets v turns job _ _ _ (hquiet _ _) hfresh.idle) ?_ fun _ _ h => h.elim
        exact fun o t h => ⟨_, h, hmade _ _ (by simp [dccMakeTmpnam, pathTmp, str]) (.inr rfl),
          hfresh.unrecorded⟩
    | _ => cases hact

/-- What leaves `handle_connection` early: an exception, or the process ends before anything is
made. -/
def Ends (e : Thrown) (t : State) : Prop :=
  Fails e t ∨ (∃ code, e = .exit code) ∧ t.records = [] ∧ t.made = []

theorem compileInside_meets (v : Place) (turns : ℕ) (job : CompileJob) (hfresh : Fresh s) :
    (compileInside v turns job).Meets act asks (fun _ t => Recorded t ∧ Tracked t) Fails s := by
  unfold compileInside
  refine meets_demand ?_ fun t ht => ?_
  · refine .andThen (build_meets v turns job hfresh) (fun o t ht => ?_) fun _ _ h => h
    obtain ⟨s', hworked, htracked, hunrecorded⟩ := ht
    exact answer_meets v turns hworked htracked hunrecorded
  · have hafter := hfresh.texts ht
    exact ⟨-1, rfl, by decide, hafter.tracked, .inl hafter.unrecorded⟩

theorem compile_meets (v : Place) (turns : ℕ) (job : CompileJob) (hfresh : Fresh s) :
    (compile v turns job).Meets act asks (fun _ t => Recorded t ∧ Tracked t) Ends s := by
  have hthrow : ∀ {u : State} {code : Int32}, Texts s u → code ≠ 0 → Ends (.exception code) u :=
    fun hu hcode => .inl ⟨_, rfl, hcode, (hfresh.texts hu).tracked, .inl (hfresh.texts hu).unrecorded⟩
  unfold compile
  refine .ite (fun _ => meets_demand ?_ fun u hu => hthrow hu (by decide)) fun _ => ?_
  · refine .andThen (chdirToEnvironment_meets v _) (fun _ u hu => ?_) fun e u hu => ?_
    · exact .mono (compileInside_meets v turns job (hfresh.texts hu)) (fun _ _ h => h) fun _ _ h => .inl h
    · exact .inr ⟨hu.1, (hfresh.texts hu.2).unrecorded.1, (hfresh.texts hu.2).made⟩
  · exact .andThen (errorClient_meets v 22 _) (fun _ u hu => .raise (hthrow hu (by decide)))
      fun _ _ h => h

/-- What the child leaves: one record for the daemon, which tells of an error where the client has
been told of nothing, and no temporary files. -/
structure Served (exitCode : Int32) (t : State) : Prop where
  record : ∃ r, t.records = [r] ∧
    ((∃ m, .compileResult m ∈ t.sent) ∨ exitCode ≠ 0 ∧ r.exitCode = exitCode.toUInt32)
  closed : t.pipeOpen = false ∧ t.clientOpen = false
  removed : ∀ path ∈ t.made, path ∈ t.removed

/-- The paths are removed, beside others. -/
def Removes (paths : List Str) (s t : State) : Prop :=
  ∃ more, t = { s with removed := s.removed ++ more } ∧ ∀ path ∈ paths, path ≠ [] → path ∈ more

theorem Removes.next {paths : List Str} {path : Str} (h : Removes paths s t) :
    Removes (path :: paths) s { t with removed := t.removed ++ [path] } := by
  obtain ⟨more, rfl, hmore⟩ := h
  refine ⟨more ++ [path], by simp, List.forall_mem_cons.mpr ⟨fun _ => by simp, ?_⟩⟩
  exact fun path' hpath hne => List.mem_append_left _ (hmore path' hpath hne)

theorem Removes.skip {paths : List Str} {path : Str} (h : Removes paths s t) (hpath : ¬ path ≠ []) :
    Removes (path :: paths) s t := by
  obtain ⟨more, rfl, hmore⟩ := h
  exact ⟨more, rfl, List.forall_mem_cons.mpr ⟨fun hne => absurd hne hpath, hmore⟩⟩

theorem cleanUp_meets {E : Thrown → State → Prop} :
    cleanUp.Meets act asks
      (fun _ => Removes [s.locals.tmpPath, s.locals.dwoFile, s.locals.objFile] s) E s := by
  unfold cleanUp
  have hstart : Removes [] s s := ⟨[], by simp, by simp⟩
  refine meets_locals ?_
  refine .optional (I := Removes [s.locals.objFile] s) (fun _ => ?_) hstart.skip fun t ht => ?_
  · refine .perform trivial fun c r t hact => ?_
    cases c <;> cases hact
    exact hstart.next
  refine .optional (I := Removes [s.locals.dwoFile, s.locals.objFile] s) (fun _ => ?_) ht.skip
    fun u hu => ?_
  · refine .perform trivial fun c r u hact => ?_
    cases c <;> cases hact
    exact ht.next
  refine .ite (fun _ => ?_) fun h => .pure (hu.skip h)
  refine .perform trivial fun c r w hact => ?_
  cases c <;> cases hact
  exact hu.next

theorem caught_meets {e : Thrown} (h : Ends e s) :
    (caught e).Meets act asks (fun code t => Tracked t ∧ t.pipeOpen = false ∧
      ∃ r, t.records = [r] ∧ ((∃ m, .compileResult m ∈ t.sent) ∨ code ≠ 0 ∧ r.exitCode = code.toUInt32))
      (fun e t => (∃ code, e = .exit code) ∧ t.records = [] ∧ t.made = []) s := by
  rcases h with ⟨code, rfl, hcode, htracked, hrecord⟩ | ⟨⟨code, rfl⟩, hrest⟩
  · unfold caught
    refine .ite (fun h => absurd h hcode) fun _ => meets_locals ?_
    refine .andThen (wake_meets _) ?_ fun _ _ h => h
    rintro - t rfl
    refine .pure ⟨htracked, rfl, ?_⟩
    rcases hrecord with ⟨hnone, hopen⟩ | ⟨⟨r, hr⟩, hclosed, hresult⟩
    · exact ⟨{ s.locals.jobStat with exitCode := code.toUInt32 }, by simp [hopen, hnone],
        .inr ⟨hcode, rfl⟩⟩
    · exact ⟨r, by simp [hclosed, hr], .inl hresult⟩
  · exact .raise ⟨⟨code, rfl⟩, hrest⟩

theorem handleConnection_meets (v : Place) (turns : ℕ) (job : CompileJob) (hfresh : Fresh s) :
    (handleConnection v turns job).Meets act asks Served
      (fun e t => (∃ code, e = .exit code) ∧ t.records = [] ∧ t.made = []) s := by
  unfold handleConnection
  refine .andThen (.rescue (.mono (compile_meets v turns job hfresh) (fun code t ht => ?_)
    fun _ _ h => h) fun e t ht => caught_meets ht) ?_ fun _ _ h => h
  · obtain ⟨⟨⟨r, hr⟩, hclosed, hresult⟩, htracked⟩ := ht
    exact ⟨htracked, hclosed, r, hr, .inl hresult⟩
  · rintro code t ⟨htracked, hclosed, hrecord⟩
    refine .step trivial fun c r t' hact => ?_
    cases c <;> cases hact
    refine .andThen cleanUp_meets ?_ fun _ _ h => h
    rintro - u ⟨more, rfl, hmore⟩
    refine .pure ⟨hrecord, ⟨hclosed, rfl⟩, fun path hpath => List.mem_append_right _ ?_⟩
    obtain ⟨hne, rfl | rfl⟩ := htracked path hpath
    · exact hmore _ (by simp) hne
    · exact hmore _ (by simp) hne

/-! ## What has been sent, in every state -/

/-- Texts, and behind them the result and the files; a text is the last word. -/
inductive Said (s : State) : Prop
  | before (h : Quiet s)
  | replied {texts after : List Msg} {m : CompileResultMsg} (hquiet : ∀ x ∈ texts, IsText x)
      (hsent : s.sent = texts ++ .compileResult m :: (s.copied.flatMap Copied.messages ++ after))
      (hafter : ∀ x ∈ after, IsText x) (hanswers : Answers s m)
      (hfiles : s.copied.map Copied.file <+: [s.locals.objFile, s.locals.dwoFile])
      (hsound : ∀ c ∈ s.copied, c.Sound)
      (hclosed : ∀ c ∈ s.copied.dropLast, c.closed = true)

theorem Said.of_replied {texts : List Msg} {m : CompileResultMsg} (h : Replied s texts m)
    (hfiles : s.copied.map Copied.file <+: [s.locals.objFile, s.locals.dwoFile])
    (hsound : ∀ c ∈ s.copied, c.Sound) (hclosed : ∀ c ∈ s.copied.dropLast, c.closed = true) : Said s := by
  have hsent : s.sent = texts ++ .compileResult m :: (s.copied.flatMap Copied.messages ++ []) := by
    rw [List.append_nil]
    exact h.sent
  exact .replied h.quiet hsent (by simp) h.answers hfiles hsound hclosed

/-- A file is on its way, so that the result has been sent. -/
theorem Said.copying (h : Said s) {done : List Copied} {cur : Copied} (hcopying : Copying s done cur) :
    s.copied.map Copied.file <+: [s.locals.objFile, s.locals.dwoFile] ∧
      (∀ c ∈ done, c.Sound ∧ c.closed = true) ∧ cur.Sound := by
  cases h with
  | before h =>
    have hcopied := hcopying.copied
    rw [h.copied] at hcopied
    simp at hcopied
  | replied _ _ _ _ hfiles hsound hclosed =>
    rw [hcopying.copied] at hsound hclosed
    rw [List.dropLast_concat] at hclosed
    rw [List.forall_mem_append] at hsound
    exact ⟨hfiles, fun c hc => ⟨hsound.1 c hc, hclosed c hc⟩, hsound.2 cur (List.mem_singleton_self _)⟩

/-- The file that is on its way has changed. -/
theorem Said.advance (h : Said s) {done : List Copied} {cur cur' : Copied}
    (hcopying : Copying s done cur) (hcopied : t.copied = done ++ [cur'])
    (hlocals : t.locals = s.locals) (hreplied : ∃ texts m, Replied t texts m)
    (hname : cur'.file = cur.file) (hsound : cur'.Sound) : Said t := by
  obtain ⟨hfiles, hdone, -⟩ := h.copying hcopying
  obtain ⟨texts, m, hreplied⟩ := hreplied
  refine .of_replied hreplied ?_ ?_ ?_
  · rw [hcopying.copied] at hfiles
    rw [hcopied, hlocals]
    simpa [hname] using hfiles
  · rw [hcopied, List.forall_mem_append]
    exact ⟨fun c hc => (hdone c hc).1, by simpa using hsound⟩
  · rw [hcopied, List.dropLast_concat]
    exact fun c hc => (hdone c hc).2

/-- Nothing of it has changed. -/
theorem Said.same (h : Said s) (hsent : t.sent = s.sent) (hcopied : t.copied = s.copied)
    (hlocals : t.locals = s.locals) (hanswers : ∀ m, Answers s m → Answers t m) : Said t := by
  cases h with
  | before h =>
    refine .before ⟨?_, hcopied.trans h.copied⟩
    rw [hsent]
    exact h.sent
  | replied hquiet hs hafter hans hfiles hsound hclosed =>
    rw [← hcopied] at hs hfiles hsound hclosed
    rw [← hlocals] at hfiles
    exact .replied hquiet (hsent.trans hs) hafter (hanswers _ hans) hfiles hsound hclosed

theorem Said.setLocals (h : Said s) {l : Locals}
    (hsame : s.copied ≠ [] → l.objFile = s.locals.objFile ∧ l.dwoFile = s.locals.dwoFile) :
    Said { s with locals := l } := by
  cases h with
  | before h => exact .before ⟨h.sent, h.copied⟩
  | replied hquiet hs hafter hans hfiles hsound hclosed =>
    refine .replied hquiet hs hafter hans ?_ hsound hclosed
    by_cases hcopied : s.copied = []
    · simp [hcopied]
    · obtain ⟨hobj, hdwo⟩ := hsame hcopied
      show s.copied.map Copied.file <+: [l.objFile, l.dwoFile]
      rwa [hobj, hdwo]

theorem Said.text (h : Said s) (text : Str) : Said (s.say (.statusText text)) := by
  rw [say_text]
  cases h with
  | before h => exact .before ⟨List.forall_mem_append.mpr ⟨h.sent, by simp [IsText]⟩, h.copied⟩
  | @replied texts after m hquiet hs hafter hans hfiles hsound hclosed =>
    have hmore : ∀ x ∈ after ++ [.statusText text], IsText x :=
      List.forall_mem_append.mpr ⟨hafter, by simp [IsText]⟩
    refine .replied hquiet ?_ hmore hans hfiles hsound hclosed
    show s.sent ++ [.statusText text] = _
    rw [hs]
    simp

theorem Said.opened (h : Said s) {texts : List Msg} {m : CompileResultMsg} {path : Str}
    (hreplied : Replied s texts m) (hclosed : ∀ c ∈ s.copied, c.closed = true)
    (hfiles : s.copied.map Copied.file ++ [path] <+: [s.locals.objFile, s.locals.dwoFile]) :
    Said { s with copied := s.copied ++ [{ file := path }] } := by
  have hold : ∀ c ∈ s.copied, c.Sound := by
    cases h with
    | before h => simp [h.copied]
    | replied _ _ _ _ _ hsound => exact hsound
  have hopened : Replied { s with copied := s.copied ++ [{ file := path }] } texts m := by
    refine ⟨hreplied.quiet, ?_, hreplied.answers⟩
    rw [flatMap_last]
    show s.sent = _
    rw [hreplied.sent]
    simp [Copied.messages]
  refine .of_replied hopened ?_ ?_ ?_
  · simpa using hfiles
  · rw [List.forall_mem_append]
    refine ⟨hold, fun c hc => ?_⟩
    rw [List.mem_singleton] at hc
    subst hc
    exact ⟨List.prefix_rfl, fun hclosed => Bool.noConfusion hclosed⟩
  · rw [List.dropLast_concat]
    exact hclosed

theorem act_said {o : Op} {c : Choice} {x : o.Res} (hact : act o c s = some (x, t)) (hasks : asks o s)
    (h : Said s) : Said t := by
  cases o with
  | send m =>
    cases c <;> cases hact
    cases x with
    | false => exact h
    | true =>
      cases m with
      | statusText text => exact h.text text
      | compileResult m =>
        obtain ⟨hquiet, hanswers⟩ := hasks
        rw [if_pos rfl, say_result]
        have hreplied : Replied { s with sent := s.sent ++ [.compileResult m] } s.sent m := by
          refine ⟨hquiet.sent, ?_, hanswers⟩
          simp [hquiet.copied]
        refine .of_replied hreplied ?_ ?_ ?_
        all_goals simp [hquiet.copied]
      | fileChunk m =>
        obtain ⟨done, cur, hcopying, hcontents⟩ := hasks
        obtain ⟨texts, result, hreplied⟩ := hcopying.replied
        refine h.advance hcopying (onLast_copied hcopying.copied _) rfl
          ⟨texts, result, hreplied.say hcopying.copied (messages_chunk hcopying.going m)⟩ rfl ?_
        have hall : contents (cur.chunks ++ [m]) = cur.bytes.map some := by simpa using hcontents
        exact ⟨hall ▸ List.prefix_rfl, fun hclosed => absurd hclosed (Bool.eq_false_iff.mp hcopying.going)⟩
      | endMsg =>
        obtain ⟨done, cur, hcopying, hend, hcontents⟩ := hasks
        obtain ⟨texts, result, hreplied⟩ := hcopying.replied
        refine h.advance hcopying (onLast_copied hcopying.copied _) rfl
          ⟨texts, result, hreplied.say hcopying.copied (messages_end hcopying.going)⟩ rfl ?_
        exact ⟨hcontents ▸ List.prefix_rfl, fun _ => ⟨hend, hcontents⟩⟩
      | _ => exact hasks.elim
  | setLocals l =>
    cases c <;> cases hact
    exact h.setLocals hasks
  | fork directory argv =>
    cases c with
    | forked texts =>
      cases texts with
      | none =>
        cases hact
        exact h
      | some texts =>
        cases hact
        refine .before ⟨List.forall_mem_append.mpr ⟨hasks.sent, ?_⟩, hasks.copied⟩
        exact List.forall_mem_map.mpr fun _ _ => trivial
    | _ => cases hact
  | work =>
    cases c with
    | event e =>
      obtain ⟨p, -, heq⟩ := Option.map_eq_some_iff.mp hact
      obtain ⟨rfl, rfl⟩ := Prod.mk.inj heq
      exact .before ⟨hasks.sent, hasks.copied⟩
    | _ => cases hact
  | openFile path =>
    cases c <;> cases hact
    cases x with
    | false => exact h
    | true =>
      obtain ⟨⟨texts, m, hreplied⟩, hclosed, hfiles⟩ := hasks
      exact h.opened hreplied hclosed hfiles
  | read =>
    cases c with
    | read result =>
      cases result with
      | bytes bs =>
        obtain ⟨-, heq⟩ := Option.ite_none_right_eq_some.mp hact
        obtain ⟨rfl, rfl⟩ := Prod.mk.inj (Option.some.inj heq)
        obtain ⟨done, cur, hcopying, hcontents⟩ := hasks
        obtain ⟨texts, result, hreplied⟩ := hcopying.replied
        refine h.advance hcopying (onLast_copied hcopying.copied _) rfl
          ⟨texts, result, hreplied.onLast hcopying.copied rfl⟩ rfl ⟨?_, fun hclosed => ?_⟩
        · show contents cur.chunks <+: (cur.bytes ++ bs).map some
          rw [hcontents, List.map_append]
          exact List.prefix_append _ _
        · exact absurd hclosed (Bool.eq_false_iff.mp hcopying.going)
      | _ =>
        cases hact
        exact h
    | _ => cases hact
  | fault | turns => exact x.elim
  | record r =>
    cases c <;> cases hact
    split
    · exact h.same rfl rfl rfl fun _ hm => hm
    · exact h
  | makeTmpdir | makeTmpnam =>
    cases c with
    | made filled =>
      cases filled with
      | error ret =>
        obtain ⟨-, heq⟩ := Option.ite_none_right_eq_some.mp hact
        cases heq
        exact h
      | ok filled =>
        cases hact
        exact h.same rfl rfl rfl fun _ hm => hm
    | _ => cases hact
  | _ =>
    cases c <;> cases hact
    all_goals exact h.same rfl rfl rfl fun _ hm => hm

/-! ## What has been taken, in every state -/

/-- The compiler has been given the chunks that were taken, in their order. No error tells that it
has been given all of them, and that their end was seen. -/
inductive Taken (w : Worker) : List Msg → Prop
  | reading {past : List FileChunkMsg} (hincomplete : w.inputComplete = false)
      (hfed : w.Fed past) : Taken w (past.map .fileChunk)
  | done {past : List FileChunkMsg} {rest : List Msg} (hcomplete : w.inputComplete = true)
      (hnone : w.fcmsg = none) (hfed : w.fed <+: contents past)
      (hall : w.returnValue = 0 → rest = [.endMsg] ∧ (w.lost = true ∨ w.fed = contents past)) :
      Taken w (past.map .fileChunk ++ rest)

section

variable {w : Worker} {taken : List Msg}

theorem Taken.abort {past : List FileChunkMsg} (hfed : w.fed <+: contents past) (rest : List Msg) :
    Taken w.abort (past.map .fileChunk ++ rest) :=
  .done rfl rfl hfed fun h => absurd h (by simp [Worker.abort, Worker.giveUp, exitIoError])

theorem fed_whole {past : List FileChunkMsg} (h : w.Fed past) (hnone : w.fcmsg = none) :
    w.lost = true ∨ w.fed = contents past := by
  cases hlost : w.lost with
  | true => exact .inl rfl
  | false =>
    have hfed := (h.going hlost).2
    rw [Worker.pending, hnone, List.append_nil] at hfed
    exact .inr hfed

theorem fed_isPrefix {past : List FileChunkMsg} (h : w.Fed past) : w.fed <+: contents past := by
  have hinitial : w.fed <+: contents (past ++ []) := h.initial
  rwa [List.append_nil] at hinitial

theorem Taken.fetch (h : Taken w taken) (got : Got) :
    Taken (w.fetch got) (taken ++ takesOf w got) := by
  have hfetches := w.fetch_fetches got
  generalize w.fetch got = v at hfetches
  cases hfetches with
  | same hnothing =>
    have hnone : takesOf w got = [] := by
      cases got with
      | msg m => exact if_neg fun hpolls => Got.noConfusion (hnothing hpolls)
      | _ => rfl
    rwa [hnone, List.append_nil]
  | abort hpolls hgot =>
    cases h with
    | @reading past hincomplete hfed => exact Taken.abort (fed_isPrefix hfed) _
    | @done past rest hcomplete hnone hfed hall =>
      rw [List.append_assoc]
      exact Taken.abort hfed _
  | cancelled hpolls hcomplete =>
    cases h with
    | reading hincomplete =>
      rw [hcomplete] at hincomplete
      cases hincomplete
    | done _ _ hfed hall =>
      rw [List.append_assoc]
      refine .done hcomplete rfl hfed fun h => absurd h ?_
      simp [Worker.giveUp, Comm.exitClientKilled]
  | ended hpolls hcomplete =>
    cases h with
    | @reading past _ hfed =>
      have hnone := Worker.polls_fcmsg hpolls
      rw [takesOf, if_pos hpolls]
      have hprefix : w.fed <+: contents past := fed_isPrefix hfed
      have hwhole : w.lost = true ∨ w.fed = contents past := fed_whole hfed hnone
      exact .done rfl hnone hprefix fun _ => ⟨rfl, hwhole⟩
    | done hdone =>
      rw [hcomplete] at hdone
      cases hdone
  | @chunk c hpolls hcomplete =>
    cases h with
    | @reading past _ hfed =>
      have htaken : past.map Msg.fileChunk ++ takesOf w (.msg (.fileChunk c)) =
          (past ++ [c]).map .fileChunk := by
        simp [takesOf, hpolls]
      rw [htaken]
      exact .reading hcomplete (Worker.receive_chunk hfed hpolls c)
    | done hdone =>
      rw [hcomplete] at hdone
      cases hdone

theorem Taken.discard (h : Taken w taken) : Taken w.discard taken := by
  rw [Worker.discard]
  split
  · exact h
  · next hstdin =>
    cases h with
    | reading hincomplete hfed =>
      exact .reading hincomplete ⟨fun hlost => absurd (hfed.going hlost).1 hstdin, hfed.lost⟩
    | done hcomplete _ hfed hall => exact .done hcomplete rfl hfed hall

theorem Taken.react {answer : Answer} (h : Taken w taken)
    (hstdin : w.stdinOpen = false → w.fcmsg = none) :
    Taken (w.react answer).1 taken := by
  have hreacts := w.react_reacts answer
  have hwrites : ∀ r, Taken (w.write r).1 taken := by
    intro r
    have hwrite := w.write_writes r
    cases h with
    | reading hincomplete hfed =>
      have hafter := hwrite.fed hfed hincomplete hstdin
      generalize w.write r = written at hwrite hafter
      cases hwrite <;> exact .reading hincomplete hafter
    | done hcomplete hnone hfed hall =>
      generalize w.write r = written at hwrite
      cases hwrite with
      | same => exact .done hcomplete hnone hfed hall
      | failed hm | whole hm | part hm =>
        rw [hnone] at hm
        cases hm
  generalize w.react answer = reacted at hreacts
  cases hreacts with
  | timeout =>
    cases h with
    | @reading past hincomplete hfed =>
      have habort := Taken.abort (fed_isPrefix hfed) []
      rwa [List.append_nil] at habort
    | done _ _ hfed => exact Taken.abort hfed _
  | interrupted => exact h
  | @again r v hwrite =>
    have hafter := hwrites r.stdin
    rwa [hwrite] at hafter
  | @collect r v hwrite =>
    have hafter := hwrites r.stdin
    rw [hwrite] at hafter
    cases hafter with
    | reading hincomplete hfed => exact .reading hincomplete ⟨hfed.going, hfed.lost⟩
    | done hcomplete hnone hfed hall => exact .done hcomplete hnone hfed hall

theorem Taken.onStream (h : Taken w taken) (f : Printed → Printed) (stream : Stream) :
    Taken (w.onStream f stream) taken := by
  cases h with
  | reading hincomplete hfed => cases stream <;> exact .reading hincomplete ⟨hfed.going, hfed.lost⟩
  | done hcomplete hnone hfed hall => cases stream <;> exact .done hcomplete hnone hfed hall

theorem Taken.next {p q : Process} {e : Event} (h : Taken p.worker taken) (hnext : p.next e = some q) :
    Taken q.worker (taken ++ takes p.worker e) := by
  have hsame : Taken p.worker (taken ++ []) := by rwa [List.append_nil]
  cases Process.next_leads hnext with
  | @print stream bytes => exact hsame.onStream (fun p => p.print bytes) stream
  | close stream => exact hsame.onStream (fun p => { p with finished := true }) stream
  | exit => exact hsame
  | @round got answer hgoing hpossible => exact (h.fetch got).discard.react (Worker.discard_closed _)

end

/-- The end of the compiler is dealt with once the input is complete. -/
theorem react_complete {w : Worker} {answer : Answer} (h : (w.react answer).2 = true) :
    (w.react answer).1.inputComplete = true := by
  have hreacts := w.react_reacts answer
  generalize w.react answer = reacted at h hreacts
  cases hreacts with
  | timeout | interrupted | again => cases h
  | @collect r v hwrite =>
    have hcomplete := (Bool.and_eq_true_iff.mp h).2
    have hwrites := w.write_writes r.stdin
    rw [hwrite] at hwrites
    cases hwrites <;> exact hcomplete

theorem next_complete {p q : Process} {e : Event} (hnext : p.next e = some q)
    (h : p.ended = true → p.worker.inputComplete = true) (hended : q.ended = true) :
    q.worker.inputComplete = true := by
  cases Process.next_leads hnext with
  | @print stream bytes => cases stream <;> exact h hended
  | close stream => cases stream <;> exact h hended
  | exit => exact h hended
  | round => exact react_complete hended

/-- What is sent is added to what has been sent, and only a turn of `work_it` takes messages. -/
theorem act_history {o : Op} {c : Choice} {x : o.Res} (hact : act o c s = some (x, t)) :
    s.sent <+: t.sent ∧
    (t.process = s.process ∧ t.taken = s.taken ∨
      ∃ e, s.process.next e = some t.process ∧ t.taken = s.taken ++ takes s.process.worker e) := by
  have hsame : s.sent <+: s.sent ∧
      (s.process = s.process ∧ s.taken = s.taken ∨
        ∃ e, s.process.next e = some s.process ∧ s.taken = s.taken ++ takes s.process.worker e) :=
    ⟨List.prefix_rfl, .inl ⟨rfl, rfl⟩⟩
  cases o with
  | work =>
    cases c with
    | event e =>
      obtain ⟨p, hp, heq⟩ := Option.map_eq_some_iff.mp hact
      obtain ⟨rfl, rfl⟩ := Prod.mk.inj heq
      exact ⟨List.prefix_rfl, .inr ⟨e, hp, rfl⟩⟩
    | _ => cases hact
  | send m =>
    cases c <;> cases hact
    cases x with
    | true => exact ⟨List.prefix_append _ _, .inl ⟨rfl, rfl⟩⟩
    | false => exact hsame
  | openFile path =>
    cases c <;> cases hact
    cases x <;> exact hsame
  | record r =>
    cases c <;> cases hact
    split <;> exact hsame
  | fork directory argv =>
    cases c with
    | forked texts =>
      cases texts with
      | none =>
        cases hact
        exact hsame
      | some texts =>
        cases hact
        exact ⟨List.prefix_append _ _, .inl ⟨rfl, rfl⟩⟩
    | _ => cases hact
  | makeTmpdir | makeTmpnam =>
    cases c with
    | made filled =>
      cases filled with
      | error ret =>
        obtain ⟨-, heq⟩ := Option.ite_none_right_eq_some.mp hact
        cases heq
        exact hsame
      | ok filled =>
        cases hact
        exact hsame
    | _ => cases hact
  | read =>
    cases c with
    | read result =>
      cases result with
      | bytes bs =>
        obtain ⟨-, heq⟩ := Option.ite_none_right_eq_some.mp hact
        cases heq
        exact hsame
      | _ =>
        cases hact
        exact hsame
    | _ => cases hact
  | fault | turns => exact x.elim
  | _ =>
    cases c <;> cases hact
    all_goals exact hsame

/-- What the loop has taken, and that it is complete when the loop has ended -/
structure Fed (s : State) : Prop where
  process : Process.system.Reachable s.process
  taken : Taken s.process.worker s.taken
  complete : s.process.ended = true → s.process.worker.inputComplete = true

theorem act_fed {o : Op} {c : Choice} {x : o.Res} (hact : act o c s = some (x, t)) (h : Fed s) :
    Fed t := by
  rcases (act_history hact).2 with ⟨hprocess, htaken⟩ | ⟨e, hnext, htaken⟩
  · refine ⟨hprocess ▸ h.process, ?_, hprocess ▸ h.complete⟩
    rw [hprocess, htaken]
    exact h.taken
  · exact ⟨h.process.step e trivial hnext, htaken ▸ h.taken.next hnext,
      next_complete hnext h.complete⟩

/-! ## Runs -/

/-- The child as it is forked -/
def start (v : Place) (starttv : Timeval) : State := { starttv, memLimit := v.memLimit.toUInt64 }

def runs (v : Place) (turns : ℕ) (job : CompileJob) (starttv : Timeval) :
    Transition.System (Running Op Op.Res State (Except Thrown Int32)) Choice :=
  Script.system act (handleConnection v turns job) fun t => t = start v starttv

section

variable {v : Place} {turns : ℕ} {job : CompileJob} {starttv : Timeval}
  {r : Running Op Op.Res State (Except Thrown Int32)} (hr : (runs v turns job starttv).Reachable r)

theorem start_fresh (v : Place) (starttv : Timeval) : Fresh (start v starttv) :=
  ⟨⟨by simp [start], rfl⟩, rfl, ⟨rfl, rfl⟩, rfl⟩

theorem runs_meets (v : Place) (turns : ℕ) (job : CompileJob) (starttv : Timeval) :
    ∀ t, t = start v starttv → (handleConnection v turns job).Meets act asks Served
      (fun e t => (∃ code, e = .exit code) ∧ t.records = [] ∧ t.made = []) t := by
  rintro t rfl
  exact handleConnection_meets v turns job (start_fresh v starttv)

include hr

theorem runs_said : Said r.state :=
  Script.reaches_keeps hr (runs_meets v turns job starttv)
    (by rintro t rfl; exact .before (start_fresh v starttv).quiet)
    fun _ _ _ _ _ hasks hact h => act_said hact hasks h

theorem runs_fed : Fed r.state := by
  refine Script.reaches_keeps (I := Fed) hr (runs_meets v turns job starttv) ?_
    fun _ _ _ _ _ _ hact h => act_fed hact h
  rintro t rfl
  have hfresh : (start v starttv).process.worker.Fed [] := ⟨fun _ => ⟨rfl, rfl⟩, fun hlost => Bool.noConfusion hlost⟩
  refine ⟨.init rfl, Taken.reading rfl hfresh, fun hended => ?_⟩
  · exact Bool.noConfusion hended

end

/-! ### A run -/

def smallJob : CompileJob := { language := 0, environmentVersion := str "e", compilerName := str "gcc" }

def smallPlace : Place := ⟨str "/b", 100, true, 44⟩

/-- The compiler gets nothing and succeeds, and leaves one byte. -/
def smallChoices : List Choice :=
  [.does true, .does true, .does true, .does true, .made (.ok (str "0")), .does true, .does true,
    .forked (some []), .does true, .event (.round (.msg .endMsg) (.ready {})),
    .event (.exit (.idle (.exited 0))), .event (.round .nothing (.ready { death := true })),
    .does true, .does true, .size (some 1), .size none, .does true, .does true, .does true,
    .does true, .does true, .read (.bytes [66]), .does true, .read (.bytes []), .does true,
    .does true, .does true, .does true]

abbrev smallRuns : Transition.System (Running Op Op.Res State (Except Thrown Int32)) Choice :=
  runs smallPlace 5 smallJob ⟨0, 0⟩

theorem smallRuns_end : ∃ r, smallRuns.Reachable r ∧ r.program = .done (.ok 0) ∧
    r.state.sent = [.compileResult {}, .fileChunk (chunk [66]), .endMsg] := by
  have hinit : smallRuns.Reachable ⟨handleConnection smallPlace 5 smallJob, start smallPlace ⟨0, 0⟩⟩ :=
    .init ⟨rfl, rfl⟩
  have hrun : ∃ r, smallRuns.exec ⟨handleConnection smallPlace 5 smallJob, start smallPlace ⟨0, 0⟩⟩
      smallChoices = some r ∧ r.program = .done (.ok 0) ∧
      r.state.sent = [.compileResult {}, .fileChunk (chunk [66]), .endMsg] := ⟨_, rfl, rfl, rfl⟩
  obtain ⟨r, hexec, hend, hsent⟩ := hrun
  exact ⟨r, hinit.exec (fun _ _ _ => trivial) hexec, hend, hsent⟩

end Icecream.Daemon.Serve
