import Icecream.Comm.Frame
import Icecream.Daemon.Reading
import Icecream.Daemon.Wire

/-!
# What a compile child inherits

From its CompileFile message on nothing is taken from a client's channel, and once the child
runs nothing is read from it.
-/

namespace Icecream.Iceccd

open Icecream.Comm

/-- The job has come, and the child is to be started or runs. -/
def Status.compiling (s : Status) : Bool := s = .toCompile ∨ s = .waitForChild

theorem Client.Transferring.idle {c c₁ : Client} (h : c.Transferring c₁) :
    c₁.status.compiling = false := by
  rcases h.status with hto | hto | hto <;> simp [Status.compiling, hto]

theorem Client.Creating.idle {c c₁ : Client} (h : c.Creating c₁) : c₁.status.compiling = false := by
  rcases h.status with hto | ⟨hto, -⟩ <;> simp [Status.compiling, hto]

/-- Who is compiling was so before, or has just sent its job. -/
def Queued (s : EventLoop) (e : Event) (d : Daemon) : Prop :=
  ∀ c' ∈ d.clients.list, c'.status.compiling →
    (∃ c ∈ s.daemon.clients.list, c.clientId = c'.clientId ∧ c.fd = c'.fd ∧ c.status.compiling) ∨
      (c'.status = .toCompile ∧ ∃ c job, s.handles e = some (c, .compileFile job) ∧ c.fd = c'.fd)

namespace Queued

variable {s t : EventLoop} {e : Event} {d d' : Daemon} {c c₁ : Client} {A : Obs → Prop}

theorem of_list (h : Queued s e d) (hl : d'.clients.list = d.clients.list) : Queued s e d' := by
  unfold Queued
  rw [hl]
  exact h

theorem frame (hf : Frame A d d') (h : Queued s e d) : Queued s e d' :=
  h.of_list (by rw [hf.clients])

theorem put (h : Queued s e d) (hput : c₁.status.compiling →
    (∃ c ∈ s.daemon.clients.list, c.clientId = c₁.clientId ∧ c.fd = c₁.fd ∧ c.status.compiling) ∨
      (c₁.status = .toCompile ∧ ∃ c job, s.handles e = some (c, .compileFile job) ∧ c.fd = c₁.fd)) :
    Queued s e (d.put c₁) := by
  intro x hx hcompiling
  rcases Records.mem_replace.mp hx with ⟨rfl, -⟩ | ⟨hx, -⟩
  · exact hput hcompiling
  · exact h x hx hcompiling

theorem put_idle (h : Queued s e d) (hidle : c₁.status.compiling = false) : Queued s e (d.put c₁) :=
  h.put fun hc => by simp [hidle] at hc

theorem put_kept (h : Queued s e d) (hc : c ∈ s.daemon.clients.list) (hid : c₁.clientId = c.clientId)
    (hfd : c₁.fd = c.fd) (hstatus : c.status.compiling) : Queued s e (d.put c₁) :=
  h.put fun _ => .inl ⟨c, hc, hid.symm, hfd.symm, hstatus⟩

theorem stable (s : EventLoop) (e : Event) : Stable (Queued s e) where
  aside hf h := h.frame hf
  ended {d c} x hwho hc h := by
    intro y hy
    rw [Daemon.handleEnd_list] at hy
    exact h y (Records.mem_remove.mp hy).1

theorem survives {m : Msg} (hm : s.handles e = some (c, m)) :
    Survives (Queued s e) s.daemon c m where
  transfer _ _ hR h := h.put_idle hR.idle
  create _ _ _ hR h := h.put_idle hR.idle
  environment _ _ h := h.of_list (by rw [Daemon.require_clients])
  compile {d job c₁} hjob _ hR h := by
    subst hjob
    rcases hR with ⟨hwork, rfl⟩ | ⟨-, rfl⟩
    · exact h.put_idle (by simp [Status.compiling, hwork])
    · exact h.put fun _ => .inr ⟨rfl, c, job, hm, rfl⟩
  ask _ _ _ _ hR h := by
    rcases hR.status with ⟨-, hto, -⟩ | ⟨-, hto⟩
    · exact h.put_idle (by simp [Status.compiling, hto])
    · exact h.put_idle (by simp [Status.compiling, hto])
  link _ _ _ h := h.put_idle rfl
  done {k r} _ _ _ _ h := by
    have hready : Still k ((if c.status = .clientWork then k.release (k.weight c) else k).require
        .jobDoneId (r.jobId = c.jobId)) := (Still.ite (.release _) .refl).trans (.require _ _ rfl)
    have hover : Queued s e (k.put { c with status := .jobDone, fulljob := false, jobId := 0 }) :=
      h.put_idle rfl
    exact hover.of_list ((hready.put _).trans (.sendScheduler _)).list

theorem steps (s : EventLoop) (e : Event) : Steps (Queued s e) s e where
  stable := stable s e
  stray _ hf h := h.frame hf
  reconnect _ h := h.of_list (Still.reconnect _).list
  link {c} _ hstart h := by
    have hput : Queued s e (s.daemon.put { c with status := .clientWork }) := h.put_idle rfl
    exact hput.of_list rfl
  pending {c} _ hstart h := by
    have hput : Queued s e (s.daemon.put { c with status := .clientWork }) := h.put_idle rfl
    exact hput.of_list rfl
  compile _ hstart h := h.put_kept hstart.mem.1 rfl rfl (by simp [Status.compiling, hstart.mem.2])
  message hm _ _ := survives hm
  heard _ h := h.of_list rfl
  assign {c c₁ jobId m} _ hc _ hR h := by
    rcases hR.status with ⟨-, hto | hto⟩ | ⟨-, hto⟩
    · exact h.put_idle (by simp [Status.compiling, hto])
    · exact h.put_idle (by simp [Status.compiling, hto])
    · exact h.put fun hcompiling => .inl ⟨c, hc, hR.clientId.symm, hR.fd.symm, hto ▸ hcompiling⟩
  returned _ hf h := h.frame hf
  fresh {d} hl h := by
    intro c' hc'
    have hnone : c' ∈ d.clients.list := hc'
    rw [hl] at hnone
    cases hnone
  accept place fd protocol _ _ hplace h := by
    intro x hx hcompiling
    rcases List.mem_cons.mp ((List.perm_insertIdx _ _ hplace).mem_iff.mp hx) with rfl | hx
    · simp [Status.compiling] at hcompiling
    · exact h x hx hcompiling
  compiled hc hwait h := h.put_kept hc rfl rfl (by simp [Status.compiling, hwait])
  installed _ _ hR h := h.put_idle hR.idle
  created _ _ _ _ _ _ hR h := h.put_idle hR.idle

theorem step (hv : Valid s.daemon) (hs : EventLoop.step s e = some t) : Queued s e t.daemon :=
  (steps s e).step hv hs fun c hc hcompiling => .inl ⟨c, hc, rfl, rfl, hcompiling⟩

end Queued

/-! ## The loop's side -/

namespace EventLoop

open Daemon

variable {s t : EventLoop} {e : Event} {c c' : Client}

/-- A compile child is forked in `handle_old_request` only. -/
theorem forks_oldRequest (h : Reading s) (hs : step s e = some t) (hc : c ∈ s.daemon.clients.list)
    (hstatus : c.status ≠ .waitForChild) (hc' : c' ∈ t.daemon.clients.list) (hfd : c'.fd = c.fd)
    (hfork : c'.status = .waitForChild) : e = .oldRequest := by
  by_contra he
  have hidle : Idle [c.fd] s.daemon := by
    refine ⟨h.2.nodup, fun x hx hmem => ?_⟩
    have hsame : x = c := List.inj_on_of_nodup_map h.2.nodup hx hc (List.mem_singleton.mp hmem)
    rwa [hsame]
  have hstep := (Idle.steps (fun hold => absurd hold he)).step h.1 hs ⟨h.1, hidle⟩
  exact hstep.2.idle c' hc' (by simp [hfd]) hfork

theorem afterActivity_unpaused {r : Daemon × Bool} {fd : ℕ} {stay leave : Phase} (hne : stay ≠ leave)
    (hstay : (afterActivity r fd stay leave).phase = stay) :
    ∃ c, (afterActivity r fd stay leave).daemon.clients.findByFd fd = some c ∧ ¬ c.status.paused := by
  unfold afterActivity at hstay ⊢
  split at hstay
  · exact absurd hstay.symm hne
  · rename_i hgoes
    rw [if_neg hgoes]
    split at hstay
    · exact absurd hstay.symm hne
    · rename_i c hc
      dsimp only at hstay ⊢
      split at hstay
      · exact absurd hstay.symm hne
      · rename_i hrun
        exact ⟨c, hc, hrun⟩

/-- While the messages of a client just accepted are read -/
theorem accepted_step {had : Bool} {fd : ℕ} (hs : step s e = some t)
    (hphase : t.phase = .accepted had fd) :
    (∃ place protocol, s.daemon.clients.findByFd fd = none ∧ place ≤ s.daemon.clients.list.length ∧
      t.daemon = s.daemon.addClient place fd protocol) ∨
    (∃ c, t.daemon.clients.findByFd fd = some c ∧ ¬ c.status.paused) ∨
    (s.phase = .accepted had fd ∧ t.daemon.clients = s.daemon.clients) := by
  cases step_leads hs with
  | accept _ hfd hid hplace =>
    simp only [Phase.accepted.injEq] at hphase
    obtain ⟨-, rfl⟩ := hphase
    exact .inl ⟨_, _, hfd, hplace, rfl⟩
  | @greeted m next had' fd' c haccepted =>
    have hstay : (afterActivity (s.daemon.handleActivity c m next) fd' (.accepted had' fd')
        (.natives had' false)).phase = .accepted had' fd' := by
      rcases afterActivity_phase (s.daemon.handleActivity c m next) fd' (.accepted had' fd')
        (.natives had' false) with ⟨h, -⟩ | h
      · exact h
      · rw [h] at hphase
        cases hphase
    obtain ⟨-, rfl⟩ : had' = had ∧ fd' = fd := by
      rw [hstay] at hphase
      simpa using hphase
    exact .inr (.inl (afterActivity_unpaused (by simp) hstay))
  | clientMsg =>
    rcases afterActivity_phase _ _ _ _ with ⟨h, -⟩ | h
    · rw [h] at hphase
      cases hphase
    · rw [h] at hphase
      cases hphase
  | unpack => exact .inr (.inr ⟨hphase, rfl⟩)
  | listed | handled =>
    obtain ⟨_, _, hcollecting⟩ := collected_phase _ _ _ _ _ _ _
    rw [hcollecting] at hphase
    cases hphase
  | installDone =>
    dsimp only at hphase
    split at hphase <;> cases hphase
  | _ => cases hphase

theorem accept_fresh {place fd protocol : ℕ} (hs : next s (.accept place fd protocol) = some t) :
    s.daemon.clients.findByFd fd = none := by
  cases step_leads (next_step hs) with
  | accept hphase hfd => exact hfd

/-- The client just accepted is not read from any more once its job has come. -/
def Attentive (s : EventLoop) : Prop :=
  ∀ had fd, s.phase = .accepted had fd → ∀ c ∈ s.daemon.clients.findByFd fd, c.status ≠ .toCompile

theorem attentive_step (h : Attentive s) (hs : step s e = some t) : Attentive t := by
  intro had fd hphase c hc
  rcases accepted_step hs hphase with ⟨place, protocol, hfd, hplace, hnew⟩ | ⟨c', hc', hrun⟩ |
    ⟨hsame, hclients⟩
  · rw [hnew] at hc
    have hmem := findByFd_mem hc
    obtain ⟨-, hcfd⟩ := findByFd_keeps hc
    rcases List.mem_cons.mp ((List.perm_insertIdx _ _ hplace).mem_iff.mp hmem) with rfl | hold
    · simp
    · have hnone := List.find?_eq_none.mp hfd c hold
      simp [hcfd] at hnone
  · obtain rfl := Option.some.inj (hc'.symm.trans hc)
    intro hto
    simp [Status.paused, hto] at hrun
  · rw [hclients] at hc
    exact h had fd hsame c hc

end EventLoop

/-! ## One channel -/

namespace Line

variable {p : Platform} {l : Line}

/-- The setup is over, and the buffer holds what has been read and not yet taken. -/
def Opened (l : Line) : Prop := l.channel.Ready ∧ l.channel.needProto = false

/-- What the child is to get: nothing is lost of what came behind the job, unless the channel
has failed. -/
structure Inherits (l : Line) : Prop where
  job : ∃ job, l.last = some (.compileFile job)
  whole : l.channel.ch.instate ≠ .error → l.channel.ch.ahead = l.behind

theorem Opened.leads (h : l.Opened) {c : Connection} (hc : Connection.Leads l.channel c)
    (last : Option Msg) (behind : Bytes) : Opened ⟨c, last, behind⟩ :=
  ⟨hc.ready, hc.setup h.2⟩

theorem Opened.readABit (h : l.Opened) (a : Arrival) (status : List Arrival) :
    (l.readABit p a status).1.Opened :=
  h.leads (Connection.readABit_leads (Connection.setError_ends status) h.1 a) _ _

theorem Inherits.readABit (h : l.Inherits) (hl : l.Opened) (a : Arrival) (status : List Arrival) :
    (l.readABit p a status).1.Inherits where
  job := h.job
  whole hstate := by
    obtain ⟨hcalm, hahead⟩ := Connection.readABit_ahead (Connection.setError_ends status) hl.1 hl.2 a
      hstate
    exact hahead.trans (congrArg (· ++ l.channel.arriving p a) (h.whole hcalm))

theorem Opened.getMsg (h : l.Opened) (eofAllowed : Bool) (as status : List Arrival) :
    (l.getMsg p eofAllowed as status).2.Opened := by
  have hends := Connection.setError_ends (p := p) status
  have hleads := Connection.getMsg_leads (p := p) hends h.1.loose eofAllowed as
  unfold Line.getMsg
  dsimp only
  split
  · exact h.leads hleads _ _
  · exact h.leads hleads _ _

theorem Opened.receive (h : l.Opened) (c : Client) (x : Taking) : (l.receive p c x).2.Opened := by
  unfold Line.receive
  dsimp only
  split
  · exact (h.getMsg true [] x.status).getMsg false x.next x.nextStatus
  · exact h.getMsg true [] x.status

theorem Opened.fail (h : l.Opened) (status : List Arrival) : (l.fail p status).Opened :=
  h.leads ((Connection.setError_ends status).leads _ h.1) _ _

theorem Inherits.fail (h : l.Inherits) (status : List Arrival) : (l.fail p status).Inherits where
  job := h.job
  whole hstate := absurd (Connection.setError_error status l.channel) hstate

/-- Once the job is taken, what is to be read is what has been read behind it. -/
theorem receive_inherits (h : l.Opened) {c : Client} {x : Taking} {job : CompileJob}
    (hjob : (l.receive p c x).1.1 = some (.compileFile job)) : (l.receive p c x).2.Inherits := by
  have hfirst : (l.getMsg p true [] x.status).1 = some (.compileFile job) := by
    unfold Line.receive at hjob
    dsimp only at hjob
    split at hjob
    · exact hjob
    · exact hjob
  have hlast : (l.receive p c x).2 = (l.getMsg p true [] x.status).2 := by
    unfold Line.receive
    dsimp only
    rw [hfirst]
    rfl
  rw [hlast]
  unfold Line.getMsg at hfirst ⊢
  dsimp only at hfirst ⊢
  split at hfirst
  · simp at hfirst
  · rename_i m hget
    obtain rfl := Option.some.inj hfirst
    have hbehind := Connection.getMsg_behind (Connection.setError_ends x.status) h.1
      (fun chunk => by simp) hget
    exact ⟨⟨job, rfl⟩, fun _ => hbehind.2⟩

theorem create_opened {sends : List SendEvent} {as status : List Arrival}
    (hl : Line.create p sends as status = some l) : l.Opened := by
  unfold Line.create at hl
  dsimp only at hl
  split at hl
  · rename_i hok
    obtain rfl := Option.some.inj hl
    exact Connection.waitForProtocol_ready (Connection.create_ready 45 21 sends status) as status hok
  · simp at hl

end Line

/-! ## One step -/

namespace Wire

variable {p : Platform} {w w' : Wire} {i : Input}

/-- What an input does to the channels: to one at most, and to none that a child has. -/
inductive Does (p : Platform) (w : Wire) (w' : Wire) : Prop
  | silent (e : Event) : w.loop.next e = some w'.loop → w'.line = w.line →
      (∀ c job, w.loop.handles e ≠ some (c, .compileFile job)) → Does p w w'
  | accepted (place fd protocol : ℕ) (l : Line) : w.loop.next (.accept place fd protocol) = some w'.loop →
      w.loop.daemon.clients.findByFd fd = none → l.Opened → w'.line = Function.update w.line fd (some l) →
      Does p w w'
  | read (fd : ℕ) (c : Client) (l : Line) (a : Arrival) (status : List Arrival) :
      w.loop.next .clientRead = some w'.loop → w.loop.daemon.clients.findByFd fd = some c →
      c.status ≠ .waitForChild → w.line fd = some l →
      w'.line = Function.update w.line fd (some (l.readABit p a status).1) → Does p w w'
  | handled (e : Event) (fd : ℕ) (c : Client) (l : Line) : w.loop.next e = some w'.loop →
      w.loop.daemon.clients.findByFd fd = some c → c.status.compiling = false → l.Opened →
      (∀ c' job, w.loop.handles e = some (c', .compileFile job) → c' = c ∧ l.Inherits) →
      w'.line = Function.update w.line fd (some l) → Does p w w'

/-- What holds between two steps -/
structure Kept (w : Wire) : Prop where
  reading : w.loop.Reading
  attentive : w.loop.Attentive
  opened : ∀ fd l, w.line fd = some l → l.Opened
  inherits : ∀ c ∈ w.loop.daemon.clients.list, c.status.compiling →
    ∃ l, w.line c.fd = some l ∧ l.Inherits

/-- Whatever `get_msg` gives, the event brings it to the client that the loop is at. -/
def Brings (w : Wire) (event : Option Msg → Option Msg → Event) (c : Client) : Prop :=
  ∀ m next c' m', w.loop.handles (event m next) = some (c', m') → c' = c ∧ m = some m'

theorem brings_collect {fd : ℕ} {todo fds pipes : List ℕ} {c : Client}
    (hphase : w.loop.phase = .collecting (fd :: todo) fds pipes)
    (hc : w.loop.daemon.clients.findByFd fd = some c) :
    w.Brings (fun m next => .collect (some m) next) c := by
  intro m next c' m' h
  cases m with
  | none => simp [EventLoop.handles] at h
  | some m =>
    simp only [EventLoop.handles, hphase, hc, Option.bind_some] at h
    split at h
    · simp at h
    · obtain ⟨rfl, rfl⟩ := Prod.mk.inj (Option.some.inj h)
      exact ⟨rfl, rfl⟩

theorem brings_accepted {had : Bool} {fd : ℕ} {c : Client} (hphase : w.loop.phase = .accepted had fd)
    (hc : w.loop.daemon.clients.findByFd fd = some c) : w.Brings .clientMsg c := by
  intro m next c' m' h
  cases m with
  | none => simp [EventLoop.handles] at h
  | some m =>
    simp only [EventLoop.handles, hphase, hc, Option.map_some] at h
    obtain ⟨rfl, rfl⟩ := Prod.mk.inj (Option.some.inj h)
    exact ⟨rfl, rfl⟩

theorem brings_visiting {had piped : Bool} {fd : ℕ} {todo fds pipes : List ℕ} {c : Client}
    (hphase : w.loop.phase = .visiting had piped (fd :: todo) fds pipes)
    (hc : w.loop.daemon.clients.findByFd fd = some c) : w.Brings .clientMsg c := by
  intro m next c' m' h
  cases m with
  | none => simp [EventLoop.handles] at h
  | some m =>
    simp only [EventLoop.handles, hphase, hc, Option.bind_some] at h
    split at h
    · obtain ⟨rfl, rfl⟩ := Prod.mk.inj (Option.some.inj h)
      exact ⟨rfl, rfl⟩
    · simp at h

theorem handle_does {fd : ℕ} {c : Client} {l : Line} {x : Taking}
    {event : Option Msg → Option Msg → Event} (hc : w.loop.daemon.clients.findByFd fd = some c)
    (hidle : c.status.compiling = false) (hl : l.Opened)
    (hevent : w.Brings event c) (hs : w.handle p fd c l x event = some w') : Does p w w' := by
  obtain ⟨t, hnext, rfl⟩ := Option.map_eq_some_iff.mp hs
  have hopened : ∀ failed : Bool, (if failed then (l.receive p c x).2.fail p x.sendStatus
      else (l.receive p c x).2).Opened := by
    intro failed
    cases failed with
    | false => exact hl.receive c x
    | true => exact (hl.receive c x).fail x.sendStatus
  refine .handled _ fd c _ hnext hc hidle (hopened _) (fun c' job hjob => ?_) rfl
  obtain ⟨rfl, hgot⟩ := hevent _ _ _ _ hjob
  have hinherits := Line.receive_inherits hl hgot
  refine ⟨rfl, ?_⟩
  split
  · exact hinherits.fail x.sendStatus
  · exact hinherits

theorem turn_does {fd : ℕ} {c : Client} {l : Line} {a : Arrival} {status : List Arrival} {x : Taking}
    (hc : w.loop.daemon.clients.findByFd fd = some c) (hidle : c.status.compiling = false)
    (hline : w.line fd = some l) (hl : l.Opened) (hevent : w.Brings .clientMsg c)
    (hs : w.turn p fd c l a status x = some w') : Does p w w' := by
  unfold turn at hs
  dsimp only at hs
  split at hs
  · exact handle_does hc hidle (hl.readABit a status) hevent hs
  · obtain ⟨t, hnext, rfl⟩ := Option.map_eq_some_iff.mp hs
    exact .read fd c l a status hnext hc (by simp_all [Status.compiling]) hline rfl

theorem client_some {fd : ℕ} {r : Client × Line} (h : w.client fd = some r) :
    w.loop.daemon.clients.findByFd fd = some r.1 ∧ w.line fd = some r.2 := by
  obtain ⟨c, hc, hmap⟩ := Option.bind_eq_some_iff.mp h
  obtain ⟨l, hl, rfl⟩ := Option.map_eq_some_iff.mp hmap
  exact ⟨hc, hl⟩

theorem silent_does {e : Event} (hjob : ∀ c job, w.loop.handles e ≠ some (c, .compileFile job))
    (hs : ((w.loop.next e).map fun t => ({ w with loop := t } : Wire)) = some w') : Does p w w' := by
  obtain ⟨t, hnext, rfl⟩ := Option.map_eq_some_iff.mp hs
  exact .silent e hnext rfl hjob

theorem next_does (h : Kept w) (hs : w.next p i = some w') : Does p w w' := by
  have hread : ∀ fd c, fd ∈ w.loop.phase.reads → w.loop.daemon.clients.findByFd fd = some c →
      c.status ≠ .waitForChild := by
    intro fd c hfd hc
    obtain ⟨-, hcfd⟩ := EventLoop.findByFd_keeps hc
    exact h.reading.2.idle c (EventLoop.findByFd_mem hc) (hcfd ▸ hfd)
  unfold next at hs
  cases i with
  | accept place fd sends as status =>
    dsimp only at hs
    split at hs
    · rename_i l hcreate
      obtain ⟨t, hnext, rfl⟩ := Option.map_eq_some_iff.mp hs
      exact .accepted place fd _ l hnext (EventLoop.accept_fresh hnext) (Line.create_opened hcreate) rfl
    · exact silent_does (fun _ _ => by simp [EventLoop.handles]) hs
  | collect x =>
    dsimp only at hs
    split at hs
    · exact silent_does (fun _ _ => by simp [EventLoop.handles]) hs
    · rename_i fd todo fds pipes hphase
      obtain ⟨⟨c, l⟩, hclient, hcollect⟩ := Option.bind_eq_some_iff.mp hs
      obtain ⟨hc, hl⟩ := client_some hclient
      unfold collect at hcollect
      split at hcollect
      · exact silent_does (fun _ _ => by simp [EventLoop.handles]) hcollect
      · rename_i hgoes
        have hidle : c.status.compiling = false := by
          by_contra hcompiling
          simp_all [Status.compiling, Status.paused]
        exact handle_does hc hidle (h.opened _ _ hl) (brings_collect hphase hc) hcollect
    · simp at hs
  | read a status x =>
    dsimp only at hs
    split at hs
    · rename_i had fd hphase
      obtain ⟨⟨c, l⟩, hclient, hturn⟩ := Option.bind_eq_some_iff.mp hs
      obtain ⟨hc, hl⟩ := client_some hclient
      have hto := h.attentive had fd hphase c hc
      have hwait := hread fd c (by simp [hphase, Phase.reads]) hc
      exact turn_does hc (by simp [Status.compiling, hto, hwait]) hl (h.opened _ _ hl)
        (brings_accepted hphase hc) hturn
    · rename_i had piped fd todo fds pipes hphase
      obtain ⟨⟨c, l⟩, hclient, hif⟩ := Option.bind_eq_some_iff.mp hs
      obtain ⟨hc, hl⟩ := client_some hclient
      split at hif
      · simp at hif
      · rename_i hfd
        have hwait := hread fd c (by simpa [hphase, Phase.reads] using hfd) hc
        split at hif
        · obtain ⟨t, hnext, rfl⟩ := Option.map_eq_some_iff.mp hif
          exact .read fd c l a status hnext hc hwait hl rfl
        · rename_i hto
          exact turn_does hc (by simp [Status.compiling, hto, hwait]) hl (h.opened _ _ hl)
            (brings_visiting hphase hc) hif
    · simp at hs
  | skip =>
    dsimp only at hs
    split at hs
    · exact silent_does (fun _ _ => by simp [EventLoop.handles]) hs
    · simp at hs
  | other e =>
    dsimp only at hs
    split at hs
    · simp at hs
    · rename_i hreads
      refine silent_does (fun c job => ?_) hs
      cases e <;> simp_all [EventLoop.handles, Event.reads]

theorem Does.next (h : Does p w w') : ∃ e, w.loop.next e = some w'.loop := by
  cases h with
  | silent e hnext => exact ⟨e, hnext⟩
  | accepted place fd protocol l hnext => exact ⟨_, hnext⟩
  | read fd c l a status hnext => exact ⟨_, hnext⟩
  | handled e fd c l hnext => exact ⟨e, hnext⟩

theorem opened_update {fd : ℕ} {l : Line} (h : ∀ fd l, w.line fd = some l → l.Opened) (hl : l.Opened)
    (hline : w'.line = Function.update w.line fd (some l)) :
    ∀ fd l, w'.line fd = some l → l.Opened := by
  intro fd' l' hl'
  rw [hline] at hl'
  by_cases hfd : fd' = fd
  · subst hfd
    rw [Function.update_self] at hl'
    exact Option.some.inj hl' ▸ hl
  · rw [Function.update_of_ne hfd] at hl'
    exact h fd' l' hl'

theorem Does.opened (h : Kept w) (hd : Does p w w') : ∀ fd l, w'.line fd = some l → l.Opened := by
  cases hd with
  | silent e _ hline =>
    rw [hline]
    exact h.opened
  | accepted place fd protocol l _ _ hl hline => exact opened_update h.opened hl hline
  | read fd c l a status _ _ _ hl hline =>
    exact opened_update h.opened ((h.opened fd l hl).readABit a status) hline
  | handled e fd c l _ _ _ hl _ hline => exact opened_update h.opened hl hline

/-- The client that the loop is at is the only one on its descriptor. -/
theorem Kept.same (h : Kept w) {fd : ℕ} {c x : Client} (hc : w.loop.daemon.clients.findByFd fd = some c)
    (hx : x ∈ w.loop.daemon.clients.list) (hfd : x.fd = fd) : x = c := by
  obtain ⟨-, hcfd⟩ := EventLoop.findByFd_keeps hc
  exact List.inj_on_of_nodup_map h.reading.2.nodup hx (EventLoop.findByFd_mem hc) (hfd.trans hcfd.symm)

/-- What a step leaves to the child of a client that has been compiling -/
theorem Does.inherits (h : Kept w) (hd : Does p w w') {c : Client}
    (hc : c ∈ w.loop.daemon.clients.list) (hcompiling : c.status.compiling) :
    ∃ l, w'.line c.fd = some l ∧ l.Inherits := by
  obtain ⟨l₀, hl₀, hinherits⟩ := h.inherits c hc hcompiling
  cases hd with
  | silent e _ hline => exact ⟨l₀, hline ▸ hl₀, hinherits⟩
  | accepted place fd protocol l _ hfd _ hline =>
    have hne : c.fd ≠ fd := by
      intro heq
      have hnone := List.find?_eq_none.mp hfd c hc
      simp [heq] at hnone
    exact ⟨l₀, by rw [hline, Function.update_of_ne hne, hl₀], hinherits⟩
  | read fd c' l a status _ hc' _ hl hline =>
    by_cases heq : c.fd = fd
    · subst heq
      obtain rfl := Option.some.inj (hl.symm.trans hl₀)
      refine ⟨(l.readABit p a status).1, ?_, hinherits.readABit (h.opened _ _ hl) a status⟩
      rw [hline, Function.update_self]
    · exact ⟨l₀, by rw [hline, Function.update_of_ne heq, hl₀], hinherits⟩
  | handled e fd c' l _ hc' hidle _ _ hline =>
    have hne : c.fd ≠ fd := by
      intro heq
      rw [h.same hc' hc heq, hidle] at hcompiling
      cases hcompiling
    exact ⟨l₀, by rw [hline, Function.update_of_ne hne, hl₀], hinherits⟩

/-- What a step leaves to the child of a client whose job it brings -/
theorem Does.brought (h : Kept w) (hd : Does p w w') {c' : Client}
    (hc' : c' ∈ w'.loop.daemon.clients.list) (hcompiling : c'.status.compiling) :
    ∃ l, w'.line c'.fd = some l ∧ l.Inherits := by
  have hqueued : ∀ e, w.loop.next e = some w'.loop →
      (∀ c job, w.loop.handles e = some (c, .compileFile job) → c.fd = c'.fd →
        ∃ l, w'.line c'.fd = some l ∧ l.Inherits) → ∃ l, w'.line c'.fd = some l ∧ l.Inherits := by
    intro e hnext hjob
    rcases Queued.step h.reading.1 (EventLoop.next_step hnext) c' hc' hcompiling with
      ⟨c, hc, -, hfd, hold⟩ | ⟨-, c, job, hhandles, hfd⟩
    · rw [← hfd]
      exact hd.inherits h hc hold
    · exact hjob c job hhandles hfd
  cases hd with
  | silent e hnext hline hnone => exact hqueued e hnext fun c job hjob => absurd hjob (hnone c job)
  | accepted place fd protocol l hnext =>
    exact hqueued _ hnext fun c job hjob => by simp [EventLoop.handles] at hjob
  | read fd c l a status hnext => exact hqueued _ hnext fun c job hjob => by simp [EventLoop.handles] at hjob
  | handled e fd c l hnext hc _ _ hjob hline =>
    refine hqueued e hnext fun x job hx hfd => ?_
    obtain ⟨rfl, hinherits⟩ := hjob x job hx
    obtain ⟨-, hxfd⟩ := EventLoop.findByFd_keeps hc
    refine ⟨l, ?_, hinherits⟩
    rw [hline, ← hfd, hxfd, Function.update_self]

theorem kept_step (h : Kept w) (hs : w.next p i = some w') : Kept w' := by
  have hdoes := next_does h hs
  obtain ⟨e, hnext⟩ := hdoes.next
  have hstep := EventLoop.next_step hnext
  exact ⟨EventLoop.reading_step h.reading hstep, EventLoop.attentive_step h.attentive hstep,
    hdoes.opened h, fun c hc hcompiling => hdoes.brought h hc hcompiling⟩

theorem kept_init (h : w.Init) : Kept w where
  reading := EventLoop.reading_init h.loop
  attentive had fd hphase := by
    rw [h.loop.phase] at hphase
    cases hphase
  opened fd l hl := by simp [h.line] at hl
  inherits c hc := by simp [h.loop.clients] at hc

theorem kept (hw : (system p).Reachable w) : Kept w :=
  hw.invariant (fun _ hinit => kept_init hinit) fun _ _ _ hkept _ hs => kept_step hkept hs

/-! ## From the fork on -/

/-- The record of the client on `fd` says that its compile child runs. -/
def Waits (id fd : ℕ) (w : Wire) : Prop :=
  ∃ c ∈ w.loop.daemon.clients.list, c.clientId = id ∧ c.fd = fd ∧ c.status = .waitForChild

instance (id fd : ℕ) (w : Wire) : Decidable (w.Waits id fd) :=
  inferInstanceAs (Decidable (∃ c ∈ _, _))

/-- Nothing is read from a client whose compile child runs. -/
theorem waits_step (h : Kept w) {id fd : ℕ} (hwaits : w.Waits id fd) (hs : w.next p i = some w') :
    w'.line fd = w.line fd := by
  obtain ⟨c, hc, -, rfl, hstatus⟩ := hwaits
  have hfds : ∀ fd c', w.loop.daemon.clients.findByFd fd = some c' → c'.status ≠ .waitForChild →
      c.fd ≠ fd := by
    intro fd c' hc' hne heq
    rw [← h.same hc' hc heq] at hne
    exact hne hstatus
  cases next_does h hs with
  | silent e _ hline => rw [hline]
  | accepted place fd protocol l _ hfd _ hline =>
    have hne : c.fd ≠ fd := by
      intro heq
      have hnone := List.find?_eq_none.mp hfd c hc
      simp [heq] at hnone
    rw [hline, Function.update_of_ne hne]
  | read fd c' l a status _ hc' hidle _ hline =>
    rw [hline, Function.update_of_ne (hfds fd c' hc' hidle)]
  | handled e fd c' l _ hc' hidle _ _ hline =>
    have hne : c'.status ≠ .waitForChild := by
      intro hwait
      simp [Status.compiling, hwait] at hidle
    rw [hline, Function.update_of_ne (hfds fd c' hc' hne)]

/-- The fork leaves the channel as it is. -/
theorem fork_step (h : Kept w) (hs : w.next p i = some w') {c c' : Client}
    (hc : c ∈ w.loop.daemon.clients.list) (hto : c.status = .toCompile)
    (hc' : c' ∈ w'.loop.daemon.clients.list) (hid : c'.clientId = c.clientId)
    (hfork : c'.status = .waitForChild) : c'.fd = c.fd ∧ w'.line c.fd = w.line c.fd := by
  have hdoes := next_does h hs
  have hfd : c'.fd = c.fd := by
    obtain ⟨e, hnext⟩ := hdoes.next
    rcases Queued.step h.reading.1 (EventLoop.next_step hnext) c' hc' (by simp [Status.compiling, hfork])
      with ⟨x, hx, hxid, hxfd, -⟩ | ⟨hto', -⟩
    · obtain rfl := List.inj_on_of_nodup_map h.reading.1.nodup hx hc (hxid.trans hid)
      exact hxfd.symm
    · rw [hfork] at hto'
      cases hto'
  refine ⟨hfd, ?_⟩
  cases hdoes with
  | silent e _ hline => rw [hline]
  | accepted place fd protocol l _ hnone hline' hline =>
    have hne : c.fd ≠ fd := by
      intro heq
      have hfound := List.find?_eq_none.mp hnone c hc
      simp [heq] at hfound
    rw [hline, Function.update_of_ne hne]
  | read fd x l a status hnext =>
    have hevent := EventLoop.forks_oldRequest h.reading (EventLoop.next_step hnext) hc (by simp [hto]) hc'
      hfd hfork
    cases hevent
  | handled e fd x l _ hx hidle _ _ hline =>
    have hne : c.fd ≠ fd := by
      intro heq
      rw [← h.same hx hc heq] at hidle
      simp [Status.compiling, hto] at hidle
    rw [hline, Function.update_of_ne hne]

/-- The child gets the channel with all that has been read behind the job, unless the channel
has failed meanwhile, and as long as the record waits for the child nothing more is read. -/
theorem forked_untouched (p : Platform) {w w' w'' : Wire} (hw : (system p).Reachable w) {i : Input}
    (hs : w.next p i = some w') {c c' : Client} (hc : c ∈ w.loop.daemon.clients.list)
    (hto : c.status = .toCompile) (hc' : c' ∈ w'.loop.daemon.clients.list)
    (hid : c'.clientId = c.clientId) (hfork : c'.status = .waitForChild)
    (hrun : (system p).Steps (fun v _ => v.Waits c.clientId c.fd) w' w'') :
    ∃ l, w.line c.fd = some l ∧ (∃ job, l.last = some (.compileFile job)) ∧
      (l.channel.ch.instate ≠ .error → l.channel.ch.ahead = l.behind) ∧
      w'.line c.fd = some l ∧ w''.line c.fd = some l := by
  have hkept := kept hw
  obtain ⟨l, hl, hinherits⟩ := hkept.inherits c hc (by simp [Status.compiling, hto])
  obtain ⟨-, hline⟩ := fork_step hkept hs hc hto hc' hid hfork
  have hafter : Kept w'' ∧ w''.line c.fd = some l := by
    apply hrun.invariant
    · exact ⟨kept_step hkept hs, hline.trans hl⟩
    · rintro v j v' ⟨hv, hvline⟩ hwaits hnext
      exact ⟨kept_step hv hnext, (waits_step hv hwaits hnext).trans hvline⟩
  exact ⟨l, hl, hinherits.job, hinherits.whole, hline.trans hl, hafter.2⟩

/-! ## Three runs -/

def started : Wire := ⟨EventLoop.started (fun _ => 1) 1, fun _ => none⟩

theorem started_init : started.Init := ⟨EventLoop.started_init _ 1, rfl⟩

/-- Up to the poll, with `clients` of them in the poll set and nothing to take -/
def polling (clients : ℕ) : List Input :=
  .other .oldRequest :: List.replicate (clients + 1) (.collect {}) ++ [.other (.poll .ready)]

def accepting (fd : ℕ) : Input :=
  .accept 0 fd [.sent 4] [⟨.data (versionWord 45 ++ versionWord 45), [.sent 4]⟩] []

def reading (r : Read) : Input := .read ⟨r, []⟩ [] {}

/-- What the client at hand sends arrives at once. -/
def sending (ms : List Msg) : Input :=
  reading (.data (ms.flatMap (frame Connection.plain.compression 45)))

def again : List Input := [.other .passDone, .other (.reconnect none)]

/-- A client has the only slot, and the job of another one waits with a chunk behind it. What
`read` gives then is `r`, and the slot becomes free. -/
def queued (r : Read) : List Input :=
  .other (.reconnect none) :: polling 0 ++
    [accepting 6, sending [.getCS { lang := 0 }], reading .nothing] ++ again ++
    .other .oldRequest :: polling 1 ++
    [accepting 7, sending [.compileFile { language := 0 }, .fileChunk ⟨[1], 1, 0⟩]] ++ again ++
    polling 2 ++ [.other .schedulerRead, .skip, reading r, .other .visit] ++ again ++
    polling 2 ++ [.other .schedulerRead, sending [.endMsg], .skip, .other .visit] ++ again

theorem forked_untouched_queued : ∃ w w' w'' : Wire, (system Connection.plain).Reachable w ∧
    w.next Connection.plain (.other .oldRequest) = some w' ∧
    (system Connection.plain).Steps (fun v _ => v.Waits 2 7) w' w'' ∧
    ∃ l, w.line 7 = some l ∧ (∃ job, l.last = some (.compileFile job)) ∧
      l.channel.ch.ahead = l.behind ∧ l.behind.length = 31 ∧ w'.line 7 = some l ∧
      w''.line 7 = some l := by
  -- one more byte arrives while the job waits
  have hrun : (((system Connection.plain).exec started (queued (.data [2]))).bind fun w =>
      (w.next Connection.plain (.other .oldRequest)).bind fun w' =>
        ((system Connection.plain).run (fun v _ => v.Waits 2 7) w' [.other .oldRequest]).map fun _ =>
          decide ((∃ c ∈ w.loop.daemon.clients.list, c.clientId = 2 ∧ c.fd = 7 ∧
            c.status = .toCompile) ∧ w'.Waits 2 7 ∧
              ∀ l ∈ w.line 7, l.channel.ch.instate ≠ .error ∧ l.behind.length = 31)) =
      some true := by
    decide +kernel
  obtain ⟨w, hw, hrest⟩ := Option.bind_eq_some_iff.mp hrun
  obtain ⟨w', hs, hlater⟩ := Option.bind_eq_some_iff.mp hrest
  obtain ⟨w'', hw'', heq⟩ := Option.map_eq_some_iff.mp hlater
  obtain ⟨⟨c, hc, hid, hfd, hto⟩, ⟨c', hc', hid', -, hfork⟩, hcalm⟩ := of_decide_eq_true heq
  have hreach : (system Connection.plain).Reachable w :=
    (Transition.System.Reaches.init started_init).exec (fun _ _ _ => trivial) hw
  have hsteps := Transition.System.Steps.run .refl hw''
  have hrunning : (system Connection.plain).Steps (fun v _ => v.Waits c.clientId c.fd) w' w'' := by
    rw [hid, hfd]
    exact hsteps
  obtain ⟨l, hl, hjob, hwhole, hl', hl''⟩ := forked_untouched Connection.plain hreach hs hc hto hc'
    (hid'.trans hid.symm) hfork hrunning
  rw [hfd] at hl hl' hl''
  have hline := hcalm l hl
  exact ⟨w, w', w'', hreach, hs, hsteps, l, hl, hjob, hwhole hline.1, hline.2, hl', hl''⟩

/-- The answer of the scheduler for a client whose job has come without waiting for it -/
def answered : List Input :=
  .other (.reconnect (some (45, str "h"))) :: polling 0 ++
    [accepting 7, sending [.getCS { lang := 0 }, .compileFile { language := 0 }], reading .nothing] ++
    again ++ [.other .oldRequest]

def overwritten : List Input :=
  polling 1 ++ [.other (.schedulerMsg (some (.noCS ⟨5, 1⟩))), .other .schedulerRead, .skip,
    .other .visit] ++ again ++ polling 1 ++ [.other .schedulerRead, reading (.data [1])]

/-- A failed read makes the daemon take the chunk behind the job from the channel that the child
then gets, and a late answer of the scheduler makes it read on while the child runs. -/
theorem child_deprived :
    (∃ w w' : Wire, (system Connection.plain).Reachable w ∧
      w.next Connection.plain (.other .oldRequest) = some w' ∧ ¬ w.Waits 2 7 ∧ w'.Waits 2 7 ∧
      ∃ l, w'.line 7 = some l ∧ l.behind.length = 30 ∧ l.channel.ch.ahead = []) ∧
    ∃ w w' : Wire, (system Connection.plain).Reachable w ∧ w.Waits 1 7 ∧
      (system Connection.plain).Steps (fun _ _ => True) w w' ∧
      (∃ c ∈ w'.loop.daemon.clients.list, c.clientId = 1 ∧ c.fd = 7 ∧ c.childPid) ∧
      (w.line 7).map Line.behind = some [] ∧ (w'.line 7).map Line.behind = some [1] := by
  have hreach : ∀ {es w}, (system Connection.plain).exec started es = some w →
      (system Connection.plain).Reachable w := fun h =>
    (Transition.System.Reaches.init started_init).exec (fun _ _ _ => trivial) h
  constructor
  · have hrun : (((system Connection.plain).exec started (queued .failure)).bind fun w =>
        (w.next Connection.plain (.other .oldRequest)).bind fun w' => (w'.line 7).map fun l =>
          decide (¬ w.Waits 2 7 ∧ w'.Waits 2 7 ∧ l.behind.length = 30 ∧ l.channel.ch.ahead = [])) =
        some true := by
      decide +kernel
    obtain ⟨w, hw, hrest⟩ := Option.bind_eq_some_iff.mp hrun
    obtain ⟨w', hs, hline⟩ := Option.bind_eq_some_iff.mp hrest
    obtain ⟨l, hl, heq⟩ := Option.map_eq_some_iff.mp hline
    obtain ⟨hbefore, hafter, hbehind, hahead⟩ := of_decide_eq_true heq
    exact ⟨w, w', hreach hw, hs, hbefore, hafter, l, hl, hbehind, hahead⟩
  · have hrun : (((system Connection.plain).exec started answered).bind fun w =>
        ((system Connection.plain).run (fun _ _ => True) w overwritten).map fun w' =>
          decide (w.Waits 1 7 ∧ (∃ c ∈ w'.loop.daemon.clients.list, c.clientId = 1 ∧ c.fd = 7 ∧
            c.childPid) ∧ (w.line 7).map Line.behind = some [] ∧
              (w'.line 7).map Line.behind = some [1])) = some true := by
      decide +kernel
    obtain ⟨w, hw, hrest⟩ := Option.bind_eq_some_iff.mp hrun
    obtain ⟨w', hw', heq⟩ := Option.map_eq_some_iff.mp hrest
    obtain ⟨hwaits, hchild, hbefore, hafter⟩ := of_decide_eq_true heq
    exact ⟨w, w', hreach hw, hwaits, Transition.System.Steps.run .refl hw', hchild, hbefore, hafter⟩

end Wire

end Icecream.Iceccd
