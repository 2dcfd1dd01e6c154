import Icecream.Daemon.Upkeep

/-!
# Whom the loop reads from

The loop does not read from a client whose compile child is running: such a client is
left out of the poll set, and a child is only forked before the set is filled.
-/

namespace Icecream.Iceccd

open Icecream.Comm

/-- The descriptors that messages may be read from -/
def Phase.reads : Phase → List ℕ
  | .collecting _ fds _ | .polling fds _ | .scheduled _ fds _ | .visiting _ _ _ fds _ => fds
  | .accepted _ fd => [fd]
  | .connecting | .requests | .natives _ _ => []

structure Idle (fds : List ℕ) (d : Daemon) : Prop where
  nodup : (d.clients.list.map Client.fd).Nodup
  idle : ∀ c ∈ d.clients.list, c.fd ∈ fds → c.status ≠ .waitForChild

namespace Idle

variable {fds fds' : List ℕ} {d d' : Daemon} {c c₁ : Client} {A : Obs → Prop}
  {s t : EventLoop} {e : Event}

theorem of_list (h : Idle fds d) (hl : d'.clients.list = d.clients.list) : Idle fds d' := by
  constructor
  · rw [hl]
    exact h.nodup
  · rw [hl]
    exact h.idle

theorem frame (hf : Frame A d d') (h : Idle fds d) : Idle fds d' :=
  h.of_list (by rw [hf.clients])

theorem mono (hsub : ∀ fd ∈ fds', fd ∈ fds) (h : Idle fds d) : Idle fds' d :=
  ⟨h.nodup, fun c hc hfd => h.idle c hc (hsub _ hfd)⟩

theorem found (h : Idle fds d) {fd : ℕ} (hc : d.clients.findByFd fd = some c)
    (hstatus : c.status ≠ .waitForChild) : Idle (fd :: fds) d := by
  constructor
  · exact h.nodup
  · intro x hx hfd
    rcases List.mem_cons.mp hfd with heq | hfd
    · obtain ⟨-, hcfd⟩ := EventLoop.findByFd_keeps hc
      have hsame : x = c := List.inj_on_of_nodup_map h.nodup hx (EventLoop.findByFd_mem hc)
        (heq.trans hcfd.symm)
      rwa [hsame]
    · exact h.idle x hx hfd

theorem put (h : Idle fds d) (hv : Valid d) (hc : c ∈ d.clients.list)
    (hid : c₁.clientId = c.clientId) (hfd : c₁.fd = c.fd)
    (hstatus : fds = [] ∨ (c₁.status = .waitForChild → c.status = .waitForChild)) :
    Idle fds (d.put c₁) := by
  constructor
  · have hfds : (Records.replace Client.clientId c₁ d.clients.list).map Client.fd =
        d.clients.list.map Client.fd := by
      apply Records.map_replace
      intro x hx hkey
      have hsame : x = c := List.inj_on_of_nodup_map hv.nodup hx hc (hkey.trans hid)
      rw [hsame, hfd]
    change ((Records.replace Client.clientId c₁ d.clients.list).map Client.fd).Nodup
    rw [hfds]
    exact h.nodup
  · intro x hx hmem hwait
    rcases Records.mem_replace.mp hx with ⟨rfl, -⟩ | ⟨hx, -⟩
    · rcases hstatus with rfl | hstatus
      · cases hmem
      · exact h.idle c hc (hfd ▸ hmem) (hstatus hwait)
    · exact h.idle x hx hmem hwait

theorem stable (fds : List ℕ) : Stable fun d => Valid d ∧ Idle fds d where
  aside hf h := ⟨h.1.frame hf, h.2.frame hf⟩
  ended {d c} x hwho hc h := by
    have hlist := Daemon.handleEnd_list (d := d) c x
    refine ⟨Valid.stable.ended x hwho hc h.1, ?_, ?_⟩
    · rw [hlist]
      exact h.2.nodup.sublist (List.filter_sublist.map _)
    · rw [hlist]
      exact fun y hy => h.2.idle y (Records.mem_remove.mp hy).1

theorem put_to {status : Status} (h : Valid d ∧ Idle fds d) (hc : c ∈ d.clients.list)
    (hid : c₁.clientId = c.clientId) (hfd : c₁.fd = c.fd) (hstatus : c₁.status = status)
    (hidle : status ≠ .waitForChild) : Valid (d.put c₁) ∧ Idle fds (d.put c₁) :=
  ⟨h.1.put c₁, h.2.put h.1 hc hid hfd (.inr fun hw => absurd (hstatus ▸ hw) hidle)⟩

theorem survives (fds : List ℕ) {m : Msg} (hc : c ∈ d.clients.list) :
    Survives (fun d => Valid d ∧ Idle fds d) d c m where
  transfer _ hsame hR h := by
    rw [← hsame] at hc
    rcases hR.status with hto | hto | hto
    · exact put_to h hc hR.clientId hR.fd hto (by simp)
    · exact put_to h hc hR.clientId hR.fd hto (by simp)
    · exact put_to h hc hR.clientId hR.fd hto (by simp)
  create _ _ hsame hR h := by
    rw [← hsame] at hc
    rcases hR.status with hto | ⟨hto, -⟩
    · exact put_to h hc hR.clientId hR.fd hto (by simp)
    · exact put_to h hc hR.clientId hR.fd hto (by simp)
  environment _ _ h := ⟨h.1.require _ _, h.2.of_list (by rw [Daemon.require_clients])⟩
  compile _ hsame hR h := by
    rw [← hsame] at hc
    rcases hR with ⟨hwork, rfl⟩ | ⟨-, rfl⟩
    · exact put_to h hc rfl rfl hwork (by simp)
    · exact put_to h hc rfl rfl rfl (by simp)
  ask _ _ hsame _ hR h := by
    rw [← hsame] at hc
    rcases hR.status with ⟨-, hto, -⟩ | ⟨-, hto⟩
    · exact put_to h hc hR.clientId hR.fd hto (by simp)
    · exact put_to h hc hR.clientId hR.fd hto (by simp)
  link _ _ hsame h := by
    rw [← hsame] at hc
    exact put_to h hc rfl rfl rfl (by simp)
  done {k r} _ _ hsame _ h := by
    rw [← hsame] at hc
    refine ⟨h.1.handleJobDone c _, ?_⟩
    have hready : Still k ((if c.status = .clientWork then k.release (k.weight c) else k).require
        .jobDoneId (r.jobId = c.jobId)) := (Still.ite (.release _) .refl).trans (.require _ _ rfl)
    have hover : _ ∧ Idle fds (k.put { c with status := .jobDone, fulljob := false, jobId := 0 }) :=
      put_to h hc rfl rfl rfl (by simp)
    exact hover.2.of_list ((hready.put _).trans (.sendScheduler _)).list

theorem steps (hfork : e = .oldRequest → fds = []) :
    Steps (fun d => Valid d ∧ Idle fds d) s e where
  stable := stable fds
  stray _ hf h := ⟨h.1.frame hf, h.2.frame hf⟩
  reconnect _ h := ⟨h.1.reconnect _, h.2.of_list (Still.reconnect _).list⟩
  link {c} _ hstart h := by
    have hput : _ ∧ Idle fds (s.daemon.put { c with status := .clientWork }) :=
      put_to h hstart.mem.1 rfl rfl rfl (by simp)
    exact ⟨h.1.working _ _, hput.2.of_list rfl⟩
  pending {c} _ hstart h := by
    have hput : _ ∧ Idle fds (s.daemon.put { c with status := .clientWork }) :=
      put_to h hstart.mem.1 rfl rfl rfl (by simp)
    exact ⟨h.1.working _ _, hput.2.of_list rfl⟩
  compile he hstart h := ⟨h.1.put _, h.2.put h.1 hstart.mem.1 rfl rfl (.inl (hfork he))⟩
  message _ hc _ := survives fds hc
  heard _ h := ⟨h.1.of_eq rfl rfl fun hk => hk, h.2.of_list rfl⟩
  assign _ hc _ hR h := by
    refine ⟨h.1.put _, h.2.put h.1 hc hR.clientId hR.fd (.inr fun hw => ?_)⟩
    rcases hR.status with ⟨-, hto | hto⟩ | ⟨-, hto⟩
    · simp [hto] at hw
    · simp [hto] at hw
    · rwa [← hto]
  returned _ hf h := ⟨h.1.frame hf, h.2.frame hf⟩
  fresh {d} hl h := by
    refine ⟨⟨h.1.nodup, by simp [hl], by simp, h.1.keyed⟩, h.2.of_list rfl⟩
  accept place fd protocol hfd hid hplace h := by
    refine ⟨h.1.accept place fd protocol hid hplace, ?_, ?_⟩
    · have hperm := (List.perm_insertIdx
        ({ clientId := s.daemon.newClientId + 1, fd := fd, protocol := protocol } : Client)
        s.daemon.clients.list hplace).map Client.fd
      apply hperm.nodup_iff.mpr
      rw [List.map_cons, List.nodup_cons]
      refine ⟨fun hmem => ?_, h.2.nodup⟩
      obtain ⟨x, hx, hxfd⟩ := List.mem_map.mp hmem
      have hnone := List.find?_eq_none.mp hfd x hx
      simp [hxfd] at hnone
    · intro x hx
      rcases List.mem_cons.mp ((List.perm_insertIdx _ _ hplace).mem_iff.mp hx) with rfl | hx
      · simp
      · exact h.2.idle x hx
  compiled hc hwait h := ⟨h.1.put _, h.2.put h.1 hc rfl rfl (.inr fun _ => hwait)⟩
  installed hc _ hR h := by
    rcases hR.status with hto | hto | hto
    · exact put_to h hc hR.clientId hR.fd hto (by simp)
    · exact put_to h hc hR.clientId hR.fd hto (by simp)
    · exact put_to h hc hR.clientId hR.fd hto (by simp)
  created _ _ _ _ hc _ hR h := by
    rcases hR.status with hto | ⟨hto, -⟩
    · exact put_to h hc hR.clientId hR.fd hto (by simp)
    · exact put_to h hc hR.clientId hR.fd hto (by simp)

end Idle

namespace EventLoop

open Daemon

variable {s t : EventLoop} {e : Event}

theorem collected_reads (d : Daemon) (fd : ℕ) (status : Status) (selected : Bool)
    (todo fds pipes : List ℕ) : (collected d fd status selected todo fds pipes).phase.reads =
      if selected then fd :: fds else fds := by
  unfold collected
  dsimp only
  split
  · rfl
  · rfl

theorem afterActivity_reads {r : Daemon × Bool} {fd : ℕ} {stay leave : Phase} {fds : List ℕ}
    (hstay : ∀ x ∈ stay.reads, x ∈ fds) (hleave : ∀ x ∈ leave.reads, x ∈ fds) :
    ∀ x ∈ (afterActivity r fd stay leave).phase.reads, x ∈ fds := by
  unfold afterActivity
  split
  · exact hleave
  · split
    · exact hleave
    · dsimp only
      split
      · exact hleave
      · exact hstay

/-- What an event adds to the descriptors that are read from: that of a client without a
compile child, or of one that is new -/
theorem reads_step (h : step s e = some t) : (∀ x ∈ t.phase.reads, x ∈ s.phase.reads) ∨
    (∃ fd c, s.daemon.clients.findByFd fd = some c ∧ c.status ≠ .waitForChild ∧
      ∀ x ∈ t.phase.reads, x ∈ fd :: s.phase.reads) ∨
    ∃ fd, s.daemon.clients.findByFd fd = none ∧ t.phase.reads = [fd] := by
  have hadds : ∀ {fd : ℕ} {c : Client} {todo fds pipes : List ℕ},
      s.phase = .collecting (fd :: todo) fds pipes → s.daemon.clients.findByFd fd = some c →
      c.status ≠ .waitForChild → (t.phase.reads = fd :: fds ∨ t.phase.reads = fds) →
      ∃ fd c, s.daemon.clients.findByFd fd = some c ∧ c.status ≠ .waitForChild ∧
        ∀ x ∈ t.phase.reads, x ∈ fd :: s.phase.reads := by
    intro fd c todo fds pipes hphase hc hstatus hreads
    refine ⟨fd, c, hc, hstatus, ?_⟩
    rw [hphase]
    rcases hreads with hreads | hreads
    · exact fun x hx => hreads ▸ hx
    · exact fun x hx => List.mem_cons_of_mem _ (hreads ▸ hx)
  cases step_leads h with
  | @listed buffered next fd todo fds pipes c selected hphase hc hselected =>
    cases selected with
    | true =>
      exact .inr (.inl (hadds hphase hc (hselected rfl).1 (.inl (collected_reads _ _ _ _ _ _ _))))
    | false =>
      left
      rw [collected_reads, hphase]
      simp [Phase.reads]
  | handled hphase hc hno =>
    refine .inr (.inl (hadds hphase hc (fun hw => hno (.inr (.inl hw))) ?_))
    rw [collected_reads]
    split
    · exact .inl rfl
    · exact .inr rfl
  | accept hphase hfd => exact .inr (.inr ⟨_, hfd, rfl⟩)
  | greeted hphase =>
    left
    rw [hphase]
    exact afterActivity_reads (fun x hx => hx) (by simp [Phase.reads])
  | clientMsg hphase =>
    left
    rw [hphase]
    exact afterActivity_reads (fun x hx => hx) (fun x hx => hx)
  | installDone hphase =>
    left
    dsimp only
    split
    · simp [hphase, Phase.reads]
    · simp [Phase.reads]
  | unpack => exact .inl fun x hx => hx
  | filled hphase | pollReady hphase | schedulerLost hphase | schedulerMsg hphase
  | schedulerRead hphase | clientRead hphase => exact .inl (by simp [hphase, Phase.reads])
  | _ =>
    -- the events after which there is nothing to read from
    exact .inl (by simp [Phase.reads])

theorem reads_oldRequest (h : step s .oldRequest = some t) : t.phase.reads = [] := by
  cases step_leads h with
  | oldRequest => rfl
  | answered => rfl

/-- Whom the loop may read from has no compile child. -/
def Reading (s : EventLoop) : Prop := Valid s.daemon ∧ Idle s.phase.reads s.daemon

theorem reading_step (h : Reading s) (hs : step s e = some t) : Reading t := by
  obtain ⟨hv, hidle⟩ := h
  by_cases he : e = .oldRequest
  · subst he
    have hnone := reads_oldRequest hs
    have hstep := (Idle.steps (fun _ => rfl)).step hv hs ⟨hv, hidle.mono (fun fd hfd => by cases hfd)⟩
    exact ⟨hstep.1, hnone ▸ hstep.2⟩
  · have hrun : ∀ fds, Idle fds s.daemon → (∀ fd ∈ t.phase.reads, fd ∈ fds) → Reading t := by
      intro fds hfds hsub
      have hstep := (Idle.steps (fun h => absurd h he)).step hv hs ⟨hv, hfds⟩
      exact ⟨hstep.1, hstep.2.mono hsub⟩
    rcases reads_step hs with hsub | ⟨fd, c, hc, hstatus, hsub⟩ | ⟨fd, hfd, hreads⟩
    · exact hrun _ hidle hsub
    · exact hrun _ (hidle.found hc hstatus) hsub
    · apply hrun [fd] _ (by simp [hreads])
      refine ⟨hidle.nodup, fun c hc hmem => ?_⟩
      have hno := List.find?_eq_none.mp hfd c hc
      simp [List.mem_singleton.mp hmem] at hno

theorem reading_init (h : s.Init) : Reading s := by
  refine ⟨valid_init h, ?_, ?_⟩
  · simp [h.clients]
  · simp [h.clients]

/-- A client that the loop attends to is not waiting for a compile child. -/
theorem Reading.attends (h : Reading s) : ∀ p ∈ s.attends e, p.1.status ≠ .waitForChild := by
  intro p hp
  have hread : ∀ fd c, fd ∈ s.phase.reads → s.daemon.clients.findByFd fd = some c →
      c.status ≠ .waitForChild := by
    intro fd c hfd hc
    obtain ⟨-, hcfd⟩ := findByFd_keeps hc
    exact h.2.idle c (findByFd_mem hc) (hcfd ▸ hfd)
  unfold EventLoop.attends at hp
  split at hp
  · rename_i hphase
    obtain ⟨c, hc, hif⟩ := Option.bind_eq_some_iff.mp hp
    split at hif
    · simp at hif
    · rename_i hno
      obtain rfl := Option.some.inj hif
      exact fun hw => hno (.inr (.inl hw))
  · rename_i hphase
    obtain ⟨c, hc, rfl⟩ := Option.map_eq_some_iff.mp hp
    exact hread _ c (by simp [hphase, Phase.reads]) hc
  · rename_i hphase
    obtain ⟨c, hc, hif⟩ := Option.bind_eq_some_iff.mp hp
    split at hif
    · rename_i hok
      obtain rfl := Option.some.inj hif
      exact hread _ c (by simpa [hphase, Phase.reads] using hok.1) hc
    · simp at hif
  · simp at hp

end EventLoop

end Icecream.Iceccd
