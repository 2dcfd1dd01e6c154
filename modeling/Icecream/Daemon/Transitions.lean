import Icecream.Daemon.Loop

/-!
# What a step of the loop leads to

One constructor for each way in which `step` comes to a state, with what it has tested before. The
invariants of the loop are proved by cases on them.
-/

namespace Icecream.Iceccd

open Icecream.Comm

namespace EventLoop

open Daemon

variable {s t : EventLoop}

inductive Leads (s : EventLoop) : Event → EventLoop → Prop
  | reconnect {found : Option (ℕ × Str)} (h : s.phase = .connecting) :
      Leads s (.reconnect found) ⟨s.daemon.reconnect found, .requests⟩
  | oldRequest (h : s.phase = .requests) (hmore : s.daemon.handleOldRequest.2 = true) :
      Leads s .oldRequest ⟨s.daemon.handleOldRequest.1, .requests⟩
  | answered {d : Daemon} (h : s.phase = .requests)
      (hd : d = if s.daemon.handleOldRequest.1.scheduler.isSome then
        (s.daemon.handleOldRequest.1.maybeStats false).1 else s.daemon.handleOldRequest.1) :
      Leads s .oldRequest ⟨d, .collecting (d.fd2client.map Prod.fst) [] []⟩
  | filled {buffered : Option (Option Msg)} {next : Option Msg} {fds pipes : List ℕ}
      (h : s.phase = .collecting [] fds pipes) :
      Leads s (.collect buffered next) ⟨s.daemon, .polling fds pipes⟩
  /-- Nothing of the client is dealt with. -/
  | listed {buffered : Option (Option Msg)} {next : Option Msg} {fd : ℕ} {todo fds pipes : List ℕ}
      {c : Client} {selected : Bool} (h : s.phase = .collecting (fd :: todo) fds pipes)
      (hc : s.daemon.clients.findByFd fd = some c)
      (hselected : selected = true → c.status ≠ .waitForChild ∧ c.status ≠ .waitInstall) :
      Leads s (.collect buffered next)
        (collected s.daemon fd c.status selected todo fds pipes)
  | handled {m next : Option Msg} {fd : ℕ} {todo fds pipes : List ℕ} {c : Client}
      (h : s.phase = .collecting (fd :: todo) fds pipes)
      (hc : s.daemon.clients.findByFd fd = some c)
      (hno : ¬ (c.status = .toCompile ∨ c.status = .waitForChild ∨ c.status = .waitInstall)) :
      Leads s (.collect (some m) next) (collected (s.daemon.handleActivity c m next).1 fd c.status
        (s.daemon.handleActivity c m next).2 todo fds pipes)
  | pollError {fds pipes : List ℕ} (h : s.phase = .polling fds pipes) :
      Leads s (.poll .error) ⟨s.daemon.closeScheduler, .connecting⟩
  | pollNothing {fds pipes : List ℕ} (h : s.phase = .polling fds pipes) :
      Leads s (.poll .nothing) ⟨s.daemon, .connecting⟩
  | pollReady {fds pipes : List ℕ} (h : s.phase = .polling fds pipes) :
      Leads s (.poll .ready) ⟨s.daemon, .scheduled s.daemon.scheduler.isSome fds pipes⟩
  | schedulerGone {fds pipes : List ℕ} (h : s.phase = .scheduled true fds pipes) :
      Leads s (.schedulerMsg none) ⟨s.daemon.closeScheduler.clearChildren, .connecting⟩
  | schedulerRefused {m : Msg} {fds pipes : List ℕ} (h : s.phase = .scheduled true fds pipes)
      (hrefused : (s.daemon.handleScheduler m).2 = false) :
      Leads s (.schedulerMsg (some m))
        ⟨(s.daemon.handleScheduler m).1.closeScheduler, .connecting⟩
  | schedulerLost {m : Msg} {fds pipes : List ℕ} (h : s.phase = .scheduled true fds pipes)
      (hheeded : (s.daemon.handleScheduler m).2 = true)
      (hlost : (s.daemon.handleScheduler m).1.scheduler.isNone = true) :
      Leads s (.schedulerMsg (some m))
        ⟨(s.daemon.handleScheduler m).1.crash, .scheduled true fds pipes⟩
  | schedulerMsg {m : Msg} {fds pipes : List ℕ} (h : s.phase = .scheduled true fds pipes)
      (hheeded : (s.daemon.handleScheduler m).2 = true) :
      Leads s (.schedulerMsg (some m))
        ⟨(s.daemon.handleScheduler m).1, .scheduled true fds pipes⟩
  | schedulerRead {had : Bool} {fds pipes : List ℕ} (h : s.phase = .scheduled had fds pipes) :
      Leads s .schedulerRead
        ⟨s.daemon, .visiting had false (s.daemon.fd2client.map Prod.fst) fds pipes⟩
  | accept {place fd protocol : ℕ} {had : Bool} {fds pipes : List ℕ}
      (h : s.phase = .scheduled had fds pipes) (hfd : s.daemon.clients.findByFd fd = none)
      (hid : s.daemon.newClientId + 1 < 2 ^ 31) (hplace : place ≤ s.daemon.clients.list.length) :
      Leads s (.accept place fd protocol) ⟨s.daemon.addClient place fd protocol, .accepted had fd⟩
  | acceptFailed {had : Bool} {fds pipes : List ℕ} (h : s.phase = .scheduled had fds pipes) :
      Leads s .acceptFailed ⟨s.daemon, .connecting⟩
  /-- A message of a client just accepted -/
  | greeted {m next : Option Msg} {had : Bool} {fd : ℕ} {c : Client}
      (h : s.phase = .accepted had fd) (hc : s.daemon.clients.findByFd fd = some c) :
      Leads s (.clientMsg m next)
        (afterActivity (s.daemon.handleActivity c m next) fd (.accepted had fd) (.natives had false))
  | clientMsg {m next : Option Msg} {had piped : Bool} {fd : ℕ} {todo fds pipes : List ℕ}
      {c : Client} (h : s.phase = .visiting had piped (fd :: todo) fds pipes)
      (hc : s.daemon.clients.findByFd fd = some c) (hok : fd ∈ fds ∧ c.status ≠ .toCompile) :
      Leads s (.clientMsg m next) (afterActivity (s.daemon.handleActivity c m next) fd
        (.visiting had true (fd :: todo) fds pipes) (.visiting had false todo fds pipes))
  | acceptedRead {had : Bool} {fd : ℕ} (h : s.phase = .accepted had fd) :
      Leads s .clientRead ⟨s.daemon, .natives had false⟩
  | clientRead {had piped : Bool} {fd : ℕ} {todo fds pipes : List ℕ}
      (h : s.phase = .visiting had piped (fd :: todo) fds pipes) :
      Leads s .clientRead ⟨s.daemon, .visiting had false todo fds pipes⟩
  | compileDone {stat : Option JobStat} {had : Bool} {fd : ℕ} {todo fds pipes : List ℕ} {c : Client}
      (h : s.phase = .visiting had false (fd :: todo) fds pipes)
      (hc : s.daemon.clients.findByFd fd = some c)
      (hok : c.status = .waitForChild ∧ c.pipeFromChild ∧ fd ∈ pipes) :
      Leads s (.compileDone stat) ⟨(s.daemon.handleCompileDone c stat).1, .connecting⟩
  | installDone {success had : Bool} {fd : ℕ} {todo fds pipes : List ℕ} {c : Client}
      (h : s.phase = .visiting had false (fd :: todo) fds pipes)
      (hc : s.daemon.clients.findByFd fd = some c)
      (hok : (c.status = .toInstall ∨ c.status = .waitInstall) ∧ c.pipeFromChild ∧ fd ∈ pipes) :
      Leads s (.installDone success) ⟨(s.daemon.handleEnvInstallChildDone c success).1,
        if (s.daemon.handleEnvInstallChildDone c success).2 then
          .visiting had true (fd :: todo) fds pipes else .connecting⟩
  | visit {had piped : Bool} {fds pipes : List ℕ} (h : s.phase = .visiting had piped [] fds pipes) :
      Leads s .visit ⟨s.daemon, .natives had true⟩
  | createEnvDone {key output : Str} {had : Bool} (h : s.phase = .natives had true)
      (hpipe : (s.daemon.native key).createEnvPipe = true) :
      Leads s (.createEnvDone key output) ⟨if (s.daemon.createEnvFinished key output).2 then
          (s.daemon.createEnvFinished key output).1
        else { (s.daemon.createEnvFinished key output).1 with nativeEnvironments :=
          (s.daemon.createEnvFinished key output).1.nativeEnvironments.erase key },
        .natives had true⟩
  | passDone {had visited : Bool} (h : s.phase = .natives had visited) :
      Leads s .passDone ⟨if had ∧ s.daemon.scheduler.isNone then s.daemon.clearChildren
        else s.daemon, .connecting⟩
  | unpack {fd : ℕ} {entry : Str} {size : ℕ} {executable : Bool} {c : Client}
      (hc : s.daemon.clients.findByFd fd = some c)
      (hok : c.childPid ∧ (c.status = .toInstall ∨ c.status = .waitInstall)) :
      Leads s (.unpack fd entry size executable) { s with daemon :=
        { s.daemon.note (.path .extract
            (targetDir s.daemon.envbasedir c.outfile ++ Path.slash :: entry)) with
          disk := s.daemon.disk.write (Path.normalise
            (targetDir s.daemon.envbasedir c.outfile ++ Path.slash :: entry)) size executable } }

theorem collect_leads {buffered : Option (Option Msg)} {next : Option Msg} {fd : ℕ}
    {todo fds pipes : List ℕ} (hphase : s.phase = .collecting (fd :: todo) fds pipes)
    (h : collect s.daemon buffered next fd todo fds pipes = some t) :
    Leads s (.collect buffered next) t := by
  unfold collect at h
  split at h
  · simp at h
  · rename_i c hc
    split at h
    · rename_i hto
      obtain rfl := Option.some.inj h
      exact .listed hphase hc fun _ => by simp [hto]
    · rename_i hto
      split at h
      · obtain rfl := Option.some.inj h
        exact .listed hphase hc fun hselected => by simp at hselected
      · rename_i hwait
        split at h
        · obtain rfl := Option.some.inj h
          exact .listed hphase hc fun _ => not_or.mp hwait
        · obtain rfl := Option.some.inj h
          exact .handled hphase hc (not_or.mpr ⟨hto, hwait⟩)

theorem schedulerMsg_leads {m : Msg} {fds pipes : List ℕ}
    (hphase : s.phase = .scheduled true fds pipes) (h : step s (.schedulerMsg (some m)) = some t) :
    Leads s (.schedulerMsg (some m)) t := by
  simp only [step, hphase] at h
  split at h
  · rename_i hrefused
    obtain rfl := Option.some.inj h
    exact .schedulerRefused hphase hrefused
  · rename_i hheeded
    rw [Bool.not_eq_false] at hheeded
    split at h
    · rename_i hlost
      obtain rfl := Option.some.inj h
      exact .schedulerLost hphase hheeded hlost
    · obtain rfl := Option.some.inj h
      exact .schedulerMsg hphase hheeded

theorem step_leads {e : Event} (h : step s e = some t) : Leads s e t := by
  cases e with
  | reconnect found =>
    simp only [step, Option.ite_none_right_eq_some, Option.some.injEq] at h
    obtain ⟨hphase, rfl⟩ := h
    exact .reconnect hphase
  | oldRequest =>
    simp only [step, Option.ite_none_right_eq_some] at h
    obtain ⟨hphase, h⟩ := h
    split at h
    · rename_i hmore
      obtain rfl := Option.some.inj h
      exact .oldRequest hphase hmore
    · obtain rfl := Option.some.inj h
      exact .answered hphase rfl
  | collect buffered next =>
    simp only [step] at h
    split at h
    · rename_i hphase
      obtain rfl := Option.some.inj h
      exact .filled hphase
    · rename_i hphase
      exact collect_leads hphase h
    · cases h
  | poll result =>
    simp only [step] at h
    split at h
    · rename_i hphase
      cases result with
      | error =>
        obtain rfl := Option.some.inj h
        exact .pollError hphase
      | nothing =>
        obtain rfl := Option.some.inj h
        exact .pollNothing hphase
      | ready =>
        obtain rfl := Option.some.inj h
        exact .pollReady hphase
    · cases h
  | schedulerMsg m =>
    cases m with
    | none =>
      simp only [step] at h
      split at h
      · rename_i hphase
        obtain rfl := Option.some.inj h
        exact .schedulerGone hphase
      · cases h
    | some m =>
      have hphase : ∃ fds pipes, s.phase = .scheduled true fds pipes := by
        simp only [step] at h
        split at h
        · rename_i hphase
          exact ⟨_, _, hphase⟩
        · cases h
      obtain ⟨fds, pipes, hphase⟩ := hphase
      exact schedulerMsg_leads hphase h
  | schedulerRead =>
    simp only [step] at h
    split at h
    · rename_i hphase
      obtain rfl := Option.some.inj h
      exact .schedulerRead hphase
    · cases h
  | accept place fd protocol =>
    simp only [step] at h
    split at h
    · rename_i hphase
      simp only [Option.ite_none_right_eq_some, Option.some.injEq] at h
      obtain ⟨⟨hfd, hid, hplace⟩, rfl⟩ := h
      exact .accept hphase hfd hid hplace
    · cases h
  | acceptFailed =>
    simp only [step] at h
    split at h
    · rename_i hphase
      obtain rfl := Option.some.inj h
      exact .acceptFailed hphase
    · cases h
  | visit =>
    simp only [step] at h
    split at h
    · rename_i hphase
      obtain rfl := Option.some.inj h
      exact .visit hphase
    · cases h
  | clientMsg m next =>
    simp only [step] at h
    split at h
    · rename_i hphase
      obtain ⟨c, hc, rfl⟩ := Option.map_eq_some_iff.mp h
      rw [hphase]
      exact .greeted hphase hc
    · rename_i hphase
      obtain ⟨c, hc, hif⟩ := Option.bind_eq_some_iff.mp h
      simp only [Option.ite_none_right_eq_some, Option.some.injEq] at hif
      obtain ⟨hok, rfl⟩ := hif
      exact .clientMsg hphase hc hok
    · cases h
  | clientRead =>
    simp only [step] at h
    split at h
    · rename_i hphase
      obtain rfl := Option.some.inj h
      exact .acceptedRead hphase
    · rename_i hphase
      obtain rfl := Option.some.inj h
      exact .clientRead hphase
    · cases h
  | compileDone stat =>
    simp only [step] at h
    split at h
    · rename_i hphase
      obtain ⟨c, hc, hif⟩ := Option.bind_eq_some_iff.mp h
      simp only [Option.ite_none_right_eq_some, Option.some.injEq] at hif
      obtain ⟨hok, rfl⟩ := hif
      exact .compileDone hphase hc hok
    · cases h
  | installDone success =>
    simp only [step] at h
    split at h
    · rename_i hphase
      obtain ⟨c, hc, hif⟩ := Option.bind_eq_some_iff.mp h
      simp only [Option.ite_none_right_eq_some, Option.some.injEq] at hif
      obtain ⟨hok, rfl⟩ := hif
      exact .installDone hphase hc hok
    · cases h
  | createEnvDone key output =>
    simp only [step] at h
    split at h
    · rename_i hphase
      simp only [Option.ite_none_right_eq_some, Option.some.injEq] at h
      obtain ⟨hpipe, rfl⟩ := h
      exact .createEnvDone hphase hpipe
    · cases h
  | passDone =>
    simp only [step] at h
    split at h
    · rename_i hphase
      obtain rfl := Option.some.inj h
      exact .passDone hphase
    · cases h
  | unpack fd entry size executable =>
    simp only [step] at h
    obtain ⟨c, hc, hif⟩ := Option.bind_eq_some_iff.mp h
    simp only [Option.ite_none_right_eq_some, Option.some.injEq] at hif
    obtain ⟨hok, rfl⟩ := hif
    exact .unpack hc hok

end EventLoop

end Icecream.Iceccd
