import Icecream.Daemon.Steps

/-!
# Clients the loop looks at

The loops of `answer_client_requests` hold descriptors and records across calls of
handlers, nearly all of which may end a client. What they look at next is there, unless a
transfer's client ends while the poll set is filled or one that waits for a native
environment cannot be told of it.
-/

namespace Icecream.Iceccd

open Icecream.Comm

def Client.entry (c : Client) : ℕ × ℕ := (c.fd, c.clientId)

/-- `fd2client` lists the clients, with `keep` among them, and nothing has been read after
it was freed. -/
structure Listed (keep : List (ℕ × ℕ)) (d : Daemon) : Prop where
  valid : Valid d
  same : ∀ e, e ∈ d.fd2client ↔ e ∈ d.clients.list.map Client.entry
  fds : (d.clients.list.map Client.fd).Nodup
  keys : (d.fd2client.map Prod.fst).Nodup
  unread : .readAfterFree ∉ d.log
  kept : ∀ e ∈ keep, e ∈ d.fd2client

namespace Listed

variable {keep : List (ℕ × ℕ)} {d d' : Daemon} {c x : Client} {A : Obs → Prop}

theorem eq_of_fd (h : Listed keep d) (hc : c ∈ d.clients.list) (hx : x ∈ d.clients.list)
    (hfd : x.fd = c.fd) : x = c :=
  List.inj_on_of_nodup_map h.fds hx hc hfd

theorem eq_of_id (h : Listed keep d) (hc : c ∈ d.clients.list) (hx : x ∈ d.clients.list)
    (hid : x.clientId = c.clientId) : x = c :=
  List.inj_on_of_nodup_map h.valid.nodup hx hc hid

theorem frame (hf : Frame A d d') (hA : ∀ o, A o → o ≠ .readAfterFree) (h : Listed keep d) :
    Listed keep d' where
  valid := h.valid.frame hf
  same := by rw [hf.fd2client, hf.clients]; exact h.same
  fds := by rw [hf.clients]; exact h.fds
  keys := by rw [hf.fd2client]; exact h.keys
  unread := by
    obtain ⟨l, hl, hnew⟩ := hf.log
    rw [hl, List.mem_append]
    rintro (hin | hin)
    · exact hA _ (hnew _ hin) rfl
    · exact h.unread hin
  kept := by rw [hf.fd2client]; exact h.kept

theorem aside (hf : Aside d d') (h : Listed keep d) : Listed keep d' := by
  apply h.frame hf
  rintro o ho rfl
  cases ho

theorem put (hc : c ∈ d.clients.list) (hid : x.clientId = c.clientId) (hfd : x.fd = c.fd)
    (h : Listed keep d) : Listed keep (d.put x) := by
  have hx : ∀ y ∈ d.clients.list, y.clientId = x.clientId → x.fd = y.fd ∧ x.entry = y.entry := by
    intro y hy hsame
    obtain rfl := h.eq_of_id hc hy (hsame.trans hid)
    exact ⟨hfd, Prod.ext hfd hid⟩
  have hentries : (d.put x).clients.list.map Client.entry = d.clients.list.map Client.entry :=
    Records.map_replace _ fun y hy hsame => (hx y hy hsame).2
  have hfds : (d.put x).clients.list.map Client.fd = d.clients.list.map Client.fd :=
    Records.map_replace _ fun y hy hsame => (hx y hy hsame).1
  exact
    { valid := h.valid.put x
      same := by rw [hentries]; exact h.same
      fds := by rw [hfds]; exact h.fds
      keys := h.keys
      unread := h.unread
      kept := h.kept }

theorem leave (hc : c ∈ d.clients.list) (hwho : ∀ e ∈ keep, e.2 ≠ c.clientId)
    (h : Listed keep d) : Listed keep (d.leave c) := by
  have htable : (d.leave c).fd2client = d.fd2client.filter fun e => e.1 ≠ c.fd := by
    unfold Daemon.leave
    dsimp only
    split <;> rfl
  have hmem : ∀ e, e ∈ (d.leave c).fd2client ↔ e ∈ d.fd2client ∧ e.1 ≠ c.fd := by
    intro e
    rw [htable, List.mem_filter, decide_eq_true_eq]
  have hlist : ∀ x, x ∈ (d.leave c).clients.list ↔
      x ∈ d.clients.list ∧ x.clientId ≠ c.clientId := by
    intro x
    rw [Daemon.leave_list]
    exact Records.mem_remove
  constructor
  · exact h.valid.leave c
  · intro e
    rw [hmem, h.same, List.mem_map, List.mem_map]
    constructor
    · rintro ⟨⟨x, hx, rfl⟩, hfd⟩
      refine ⟨x, (hlist x).mpr ⟨hx, fun hid => hfd ?_⟩, rfl⟩
      rw [h.eq_of_id hc hx hid]
      rfl
    · rintro ⟨x, hx, rfl⟩
      obtain ⟨hx, hid⟩ := (hlist x).mp hx
      refine ⟨⟨x, hx, rfl⟩, fun hfd => hid ?_⟩
      rw [h.eq_of_fd hc hx hfd]
  · rw [Daemon.leave_list]
    exact h.fds.sublist (List.filter_sublist.map _)
  · rw [htable]
    exact h.keys.sublist (List.filter_sublist.map _)
  · obtain ⟨l, hl, hnew⟩ := Daemon.leave_log (d := d) c
    rw [hl, List.mem_append]
    rintro (hin | hin)
    · rcases hnew _ hin with hbad | hbad
      · cases hbad
      · cases hbad
    · exact h.unread hin
  · intro e he
    rw [hmem]
    refine ⟨h.kept e he, fun hfd => hwho e he ?_⟩
    obtain ⟨x, hx, rfl⟩ := List.mem_map.mp ((h.same e).mp (h.kept e he))
    rw [← h.eq_of_fd hc hx hfd]
    rfl

theorem stable (keep : List (ℕ × ℕ)) :
    Stable (Listed keep) fun id => ∀ e ∈ keep, e.2 ≠ id where
  aside hf h := h.aside hf
  ended x hwho hc h := by
    apply (h.leave hc hwho).frame (Daemon.handleEnd_frame _ x)
    rintro o (ho | ⟨rfl, -⟩ | ⟨rfl, -⟩ | ⟨-, m, ok, rfl, -⟩)
    · rintro rfl
      cases ho
    · simp
    · simp
    · simp

theorem stable_nil : Stable (Listed []) where
  aside hf h := h.aside hf
  ended x _ hc h := (stable []).ended x (by simp) hc h

theorem note {o : Obs} (ho : o ≠ .readAfterFree) (h : Listed keep d) : Listed keep (d.note o) :=
  h.frame (A := fun o => o ≠ .readAfterFree) (.note ho) fun _ ho => ho

theorem require (a : Assertion) (b : Bool) (h : Listed keep d) : Listed keep (d.require a b) :=
  h.frame (A := fun o => o ≠ .readAfterFree) (.require fun _ => by simp) fun _ ho => ho

theorem handleJobDone (m : JobDoneMsg) (hc : c ∈ d.clients.list) (h : Listed keep d) :
    Listed keep (d.handleJobDone c m).1 := by
  have hreleased : Listed keep
      (if c.status = .clientWork then d.release (d.weight c) else d) := by
    split
    · constructor
      · exact h.valid.of_eq rfl rfl fun hk => hk
      · exact h.same
      · exact h.fds
      · exact h.keys
      · obtain ⟨l, hl, hnew⟩ := Daemon.release_log (d := d) (d.weight c)
        rw [hl, List.mem_append]
        rintro (hin | hin)
        · cases hnew _ hin
        · exact h.unread hin
      · exact h.kept
    · exact h
  have hmem : c ∈ ((if c.status = .clientWork then d.release (d.weight c) else d).require
      .jobDoneId (m.jobId = c.jobId)).clients.list := by
    unfold Daemon.require
    split <;> split <;> exact hc
  apply Listed.frame (Daemon.handleJobDone_frame m)
  · rintro o (ho | ⟨-, n, ok, rfl⟩)
    · rintro rfl
      cases ho
    · simp
  · exact (hreleased.require _ _).put hmem rfl rfl

theorem survives (m : Msg) (hc : c ∈ d.clients.list) : Survives (Listed keep) d c m where
  transfer _ hsame hR h := h.put (by rwa [hsame]) hR.clientId hR.fd
  create _ _ hsame hR h := h.put (by rwa [hsame]) hR.clientId hR.fd
  environment _ _ h := h.require _ _
  compile {e _ _} _ hsame hR h := by
    have hmem : c ∈ e.clients.list := by rwa [hsame]
    rcases hR with ⟨-, rfl⟩ | ⟨-, rfl⟩
    · exact h.put hmem rfl rfl
    · exact h.put hmem rfl rfl
  ask _ _ hsame _ hR h := h.put (by rwa [hsame]) hR.clientId hR.fd
  link {e _} _ _ hsame h := by
    have hmem : c ∈ e.clients.list := by rwa [hsame]
    exact h.put hmem rfl rfl
  done _ _ hsame _ h := h.handleJobDone _ (by rwa [hsame])

theorem handleActivity (m next : Option Msg) (hc : c ∈ d.clients.list)
    (hwho : ∀ e ∈ keep, e.2 ≠ c.clientId) (h : Listed keep d) :
    Listed keep (d.handleActivity c m next).1 := by
  cases m with
  | none =>
    have hreq := Aside.require (d := d) (a := .activityStatus)
      (b := (c.status ≠ .toCompile ∧ c.status ≠ .waitInstall)) rfl
    apply (stable keep).ended 118 hwho _ (h.aside hreq)
    rwa [hreq.clients]
  | some m => exact (stable keep).message (survives m hc) next hwho hc h

theorem working (n : UInt32) (hc : c ∈ d.clients.list) (h : Listed keep d) :
    Listed keep (d.working c n) := by
  have hput : Listed keep (d.put { c with status := .clientWork }) := h.put hc rfl rfl
  exact ⟨hput.valid.of_eq rfl rfl fun hk => hk, hput.same, hput.fds, hput.keys, hput.unread,
    hput.kept⟩

theorem addClient {fd : ℕ} (place protocol : ℕ) (hfd : d.clients.findByFd fd = none)
    (hid : d.newClientId + 1 < 2 ^ 31) (hplace : place ≤ d.clients.list.length)
    (h : Listed keep d) : Listed keep (d.addClient place fd protocol) := by
  have hperm := List.perm_insertIdx
    ({ clientId := d.newClientId + 1, fd := fd, protocol := protocol } : Client)
    d.clients.list hplace
  have hother : ∀ x ∈ d.clients.list, x.fd ≠ fd := by
    intro x hx
    simpa using List.find?_eq_none.mp hfd x hx
  have hfree : ∀ e ∈ d.fd2client, e.1 ≠ fd := by
    intro e he
    obtain ⟨x, hx, rfl⟩ := List.mem_map.mp ((h.same e).mp he)
    exact hother x hx
  have hmem : ∀ e, e ∈ (d.addClient place fd protocol).fd2client ↔
      e = (fd, d.newClientId + 1) ∨ e ∈ d.fd2client := by
    intro e
    simp only [Daemon.addClient, List.mem_append, List.mem_cons, List.mem_filter,
      decide_eq_true_eq]
    constructor
    · rintro (⟨he, -⟩ | he | ⟨he, -⟩)
      · exact .inr he
      · exact .inl he
      · exact .inr he
    · rintro (he | he)
      · exact .inr (.inl he)
      · rcases lt_or_gt_of_ne (hfree e he) with hlt | hlt
        · exact .inl ⟨he, hlt⟩
        · exact .inr (.inr ⟨he, hlt⟩)
  constructor
  · exact h.valid.accept place fd protocol hid hplace
  · intro e
    rw [hmem, h.same]
    exact ((hperm.map Client.entry).mem_iff.trans List.mem_cons).symm
  · apply (hperm.map Client.fd).nodup_iff.mpr
    rw [List.map_cons, List.nodup_cons]
    refine ⟨fun hin => ?_, h.fds⟩
    obtain ⟨x, hx, hsame⟩ := List.mem_map.mp hin
    exact hother x hx hsame
  · have hbelow : ((d.fd2client.filter fun e => e.1 < fd).map Prod.fst).Nodup :=
      h.keys.sublist (List.filter_sublist.map _)
    have habove : ((d.fd2client.filter fun e => fd < e.1).map Prod.fst).Nodup :=
      h.keys.sublist (List.filter_sublist.map _)
    simp only [Daemon.addClient, List.map_append, List.map_cons]
    refine List.nodup_append.mpr ⟨hbelow, List.nodup_cons.mpr ⟨?_, habove⟩, ?_⟩
    · simp
    · intro k hk k' hk'
      obtain ⟨e, he, rfl⟩ := List.mem_map.mp hk
      have hlt : e.1 < fd := by simpa using (List.mem_filter.mp he).2
      rcases List.mem_cons.mp hk' with rfl | hk'
      · exact hlt.ne
      · obtain ⟨e', he', rfl⟩ := List.mem_map.mp hk'
        have hgt : fd < e'.1 := by simpa using (List.mem_filter.mp he').2
        exact (hlt.trans hgt).ne
  · exact h.unread
  · exact fun e he => (hmem e).mpr (.inr (h.kept e he))

theorem steps {s : EventLoop} {e : Event} (hcareful : s.Careful e) : Steps (Listed []) s e where
  stable := stable_nil
  stray hnot := absurd hcareful hnot
  reconnect {found} _ h := by
    rcases Daemon.reconnect_cases (d := s.daemon) found with heq | ⟨-, protocol, name, -, hf⟩
    · rwa [heq]
    · apply Listed.aside hf
      have hnoted := h.note (o := .connected) (by simp)
      exact ⟨hnoted.valid.of_eq rfl rfl fun hk => hk, hnoted.same, hnoted.fds, hnoted.keys,
        hnoted.unread, hnoted.kept⟩
  link _ hstart h := h.working _ hstart.mem.1
  pending _ hstart h := h.working _ hstart.mem.1
  compile _ hstart h := h.put hstart.mem.1 rfl rfl
  message _ hc _ := survives _ hc
  heard _ h := h.note (by simp)
  assign _ hc _ hR h := h.put hc hR.clientId hR.fd
  returned _ hf h := by
    apply h.frame hf
    rintro o ⟨ok, rfl⟩
    simp
  fresh hl h := by
    have hfresh := (Valid.steps s e).fresh hl h.valid
    exact ⟨hfresh, by simp [hl], h.fds, by simp, h.unread, by simp⟩
  accept place fd protocol hfd hid hplace h := h.addClient place protocol hfd hid hplace
  compiled hc _ h := h.put hc rfl rfl
  installed hc _ hR h := h.put hc hR.clientId hR.fd
  created _ _ _ _ hc _ hR h := h.put hc hR.clientId hR.fd

end Listed

/-! ## The positions of the loops -/

namespace Daemon

/-- `fd` is a key of `fd2client`, and its client one of `clients`. -/
def Present (d : Daemon) (fd : ℕ) : Prop :=
  ∃ c ∈ d.clients.list, c.fd = fd ∧ (fd, c.clientId) ∈ d.fd2client

instance (d : Daemon) (fd : ℕ) : Decidable (d.Present fd) :=
  inferInstanceAs (Decidable (∃ c ∈ d.clients.list, _))

end Daemon

namespace Listed

variable {keep : List (ℕ × ℕ)} {d : Daemon} {c : Client} {fd : ℕ}

theorem present (h : Listed keep d) : d.Present fd ↔ fd ∈ d.fd2client.map Prod.fst := by
  constructor
  · rintro ⟨c, -, -, hin⟩
    exact List.mem_map.mpr ⟨_, hin, rfl⟩
  · intro hin
    obtain ⟨e, he, rfl⟩ := List.mem_map.mp hin
    obtain ⟨c, hc, rfl⟩ := List.mem_map.mp ((h.same e).mp he)
    exact ⟨c, hc, rfl, he⟩

theorem present_found (h : Listed keep d) (hc : d.clients.findByFd fd = some c) :
    d.Present fd := by
  obtain ⟨-, rfl⟩ := EventLoop.findByFd_keeps hc
  have hmem := EventLoop.findByFd_mem hc
  exact ⟨c, hmem, rfl, (h.same _).mpr (List.mem_map.mpr ⟨c, hmem, rfl⟩)⟩

theorem mem_of_found (h : Listed keep d) (hc : d.clients.findByFd fd = some c) :
    fd ∈ d.fd2client.map Prod.fst :=
  h.present.mp (h.present_found hc)

/-- The entries of all clients but one -/
def others (d : Daemon) (c : Client) : List (ℕ × ℕ) :=
  d.fd2client.filter fun e => e.2 ≠ c.clientId

theorem keep_others (h : Listed keep d) (c : Client) : Listed (others d c) d :=
  ⟨h.valid, h.same, h.fds, h.keys, h.unread, fun _ he => (List.mem_filter.mp he).1⟩

theorem others_ne (d : Daemon) (c : Client) : ∀ e ∈ others d c, e.2 ≠ c.clientId := by
  intro e he
  simpa using (List.mem_filter.mp he).2

/-- A descriptor other than that of `c` -/
theorem mem_of_others {d' : Daemon} (h : Listed keep d) (h' : Listed (others d c) d')
    (hc : c ∈ d.clients.list) (hne : fd ≠ c.fd) (hfd : fd ∈ d.fd2client.map Prod.fst) :
    fd ∈ d'.fd2client.map Prod.fst := by
  obtain ⟨e, he, rfl⟩ := List.mem_map.mp hfd
  refine List.mem_map.mpr ⟨e, h'.kept e ?_, rfl⟩
  rw [others, List.mem_filter, decide_eq_true_eq]
  refine ⟨he, fun hid => hne ?_⟩
  obtain ⟨x, hx, rfl⟩ := List.mem_map.mp ((h.same e).mp he)
  obtain rfl := h.eq_of_id hc hx hid
  rfl

end Listed

namespace EventLoop

open Daemon

variable {s t : EventLoop} {e : Event}

/-- The descriptors whose clients the loop goes on to look at -/
def positions : Phase → List ℕ
  | .collecting todo _ _ => todo
  | .accepted _ fd => [fd]
  | .visiting _ _ todo _ _ => todo
  | _ => []

/-- What the loop holds on to is there, and nothing has been read after it was freed. -/
structure Sound (s : EventLoop) : Prop where
  present : ∀ fd ∈ positions s.phase, s.daemon.Present fd
  unread : .readAfterFree ∉ s.daemon.log

instance (s : EventLoop) : Decidable s.Sound :=
  decidable_of_iff ((∀ fd ∈ positions s.phase, s.daemon.Present fd) ∧
    .readAfterFree ∉ s.daemon.log) ⟨fun ⟨h₁, h₂⟩ => ⟨h₁, h₂⟩, fun ⟨h₁, h₂⟩ => ⟨h₁, h₂⟩⟩

/-- What makes this inductive -/
structure Placed (s : EventLoop) : Prop where
  listed : Listed [] s.daemon
  nodup : (positions s.phase).Nodup
  found : ∀ fd ∈ positions s.phase, fd ∈ s.daemon.fd2client.map Prod.fst

theorem Placed.sound (h : Placed s) : s.Sound :=
  ⟨fun fd hfd => h.listed.present.mpr (h.found fd hfd), h.listed.unread⟩

/-- The positions of a pass that has come to its end -/
theorem Placed.none (h : Listed [] t.daemon) (hpositions : positions t.phase = []) : Placed t :=
  ⟨h, by simp [hpositions], by simp [hpositions]⟩

/-- A loop that begins with all of `fd2client` -/
theorem Placed.all (h : Listed [] t.daemon)
    (hpositions : positions t.phase = t.daemon.fd2client.map Prod.fst) : Placed t :=
  ⟨h, by rw [hpositions]; exact h.keys, by simp [hpositions]⟩

/-- The loop goes on behind the client that it has dealt with. -/
theorem Placed.rest {todo : List ℕ} {d : Daemon} {c : Client} (h : Listed [] d)
    (h' : Listed [] t.daemon) (hothers : Listed (Listed.others d c) t.daemon)
    (hc : c ∈ d.clients.list) (hnd : (c.fd :: todo).Nodup)
    (hfound : ∀ fd ∈ todo, fd ∈ d.fd2client.map Prod.fst)
    (hpositions : positions t.phase = todo ∨
      (positions t.phase = c.fd :: todo ∧ c.fd ∈ t.daemon.fd2client.map Prod.fst)) :
    Placed t := by
  obtain ⟨hhead, htail⟩ := List.nodup_cons.mp hnd
  have hrest : ∀ fd ∈ todo, fd ∈ t.daemon.fd2client.map Prod.fst := by
    intro fd hfd
    apply h.mem_of_others hothers hc _ (hfound fd hfd)
    rintro rfl
    exact hhead hfd
  rcases hpositions with hpositions | ⟨hpositions, hin⟩
  · exact ⟨h', by rwa [hpositions], by rwa [hpositions]⟩
  · refine ⟨h', by rwa [hpositions], ?_⟩
    rw [hpositions]
    intro fd hfd
    rcases List.mem_cons.mp hfd with rfl | hfd
    · exact hin
    · exact hrest fd hfd

theorem Placed.step (h : Placed s) (hcareful : s.Careful e) (hs : step s e = some t) :
    Placed t := by
  have hlisted := (Listed.steps hcareful).step h.listed.valid hs h.listed
  have hothers : ∀ (m next : Option Msg), ∀ c ∈ s.daemon.clients.list,
      Listed (Listed.others s.daemon c) (s.daemon.handleActivity c m next).1 := fun m next c hmem =>
    (h.listed.keep_others c).handleActivity m next hmem (Listed.others_ne _ c)
  have hnodup : ∀ {p : Phase}, s.phase = p → (positions p).Nodup := fun hphase => hphase ▸ h.nodup
  have hfound : ∀ {p : Phase}, s.phase = p →
      ∀ fd ∈ positions p, fd ∈ s.daemon.fd2client.map Prod.fst := fun hphase => hphase ▸ h.found
  cases step_leads hs with
  | answered | schedulerRead => exact .all hlisted rfl
  | @listed buffered next fd todo fds pipes c selected hphase hc =>
    obtain ⟨-, rfl⟩ := findByFd_keeps hc
    obtain ⟨_, _, hcollecting⟩ := collected_phase s.daemon c.fd c.status selected todo fds pipes
    apply Placed.rest h.listed hlisted _ (findByFd_mem hc) (hnodup hphase)
    · exact fun fd hfd => hfound hphase fd (List.mem_cons_of_mem _ hfd)
    · rw [hcollecting]
      exact .inl rfl
    · rw [collected_daemon hc]
      exact h.listed.keep_others c
  | @handled m next fd todo fds pipes c hphase hc hno =>
    obtain ⟨-, rfl⟩ := findByFd_keeps hc
    have hmem := findByFd_mem hc
    have hm : c.status = .toInstall → s.daemon.Continues m := by
      simp only [Careful, hphase] at hcareful
      exact hcareful c hc
    obtain ⟨_, _, hcollecting⟩ := collected_phase (s.daemon.handleActivity c m next).1 c.fd c.status
      (s.daemon.handleActivity c m next).2 todo fds pipes
    apply Placed.rest h.listed hlisted _ hmem (hnodup hphase)
    · exact fun fd hfd => hfound hphase fd (List.mem_cons_of_mem _ hfd)
    · rw [hcollecting]
      exact .inl rfl
    · rw [collected_handled hc hno hm]
      exact hothers m next c hmem
  | accept =>
    refine ⟨hlisted, by simp [positions], ?_⟩
    intro fd' hfd'
    rw [List.mem_singleton.mp hfd']
    simp [addClient]
  | @greeted m next had fd c hphase hc =>
    have hdaemon := afterActivity_daemon hc m next (.accepted had fd) (.natives had false)
    rcases afterActivity_phase (s.daemon.handleActivity c m next) fd (.accepted had fd)
      (.natives had false) with ⟨hstay, c', hc'⟩ | hleave
    · rw [← hdaemon] at hc'
      refine ⟨hlisted, by rw [hstay]; exact hnodup hphase, ?_⟩
      intro fd' hfd'
      rw [hstay] at hfd'
      rw [List.mem_singleton.mp hfd']
      exact hlisted.mem_of_found hc'
    · exact .none hlisted (by rw [hleave]; rfl)
  | @clientMsg m next had piped fd todo fds pipes c hphase hc =>
    obtain ⟨-, rfl⟩ := findByFd_keeps hc
    have hmem := findByFd_mem hc
    have hdaemon := afterActivity_daemon hc m next (.visiting had true (c.fd :: todo) fds pipes)
      (.visiting had false todo fds pipes)
    apply Placed.rest h.listed hlisted (by rw [hdaemon]; exact hothers m next c hmem) hmem
      (hnodup hphase)
    · exact fun fd hfd => hfound hphase fd (List.mem_cons_of_mem _ hfd)
    · rcases afterActivity_phase (s.daemon.handleActivity c m next) c.fd
        (.visiting had true (c.fd :: todo) fds pipes) (.visiting had false todo fds pipes)
        with ⟨hstay, c', hc'⟩ | hleave
      · rw [← hdaemon] at hc'
        exact .inr ⟨by rw [hstay]; rfl, hlisted.mem_of_found hc'⟩
      · exact .inl (by rw [hleave]; rfl)
  | clientRead hphase =>
    refine ⟨hlisted, (List.nodup_cons.mp (hnodup hphase)).2, ?_⟩
    exact fun fd hfd => hfound hphase fd (List.mem_cons_of_mem _ hfd)
  | @installDone success had fd todo fds pipes c hphase hc hok =>
    obtain ⟨hkeeps, rfl⟩ := findByFd_keeps hc
    have hmem := findByFd_mem hc
    have hothers : Listed (Listed.others s.daemon c)
        (s.daemon.handleEnvInstallChildDone c success).1 :=
      (Listed.stable _).outcome (fun _ hR => hR.clientId)
        (fun _ hR hd => hd.put hmem hR.clientId hR.fd) (Listed.others_ne _ c) hmem
        (handleEnvInstallChildDone_outcome success hok.1) (h.listed.keep_others c)
    by_cases htrue : (s.daemon.handleEnvInstallChildDone c success).2 = true
    · apply Placed.rest h.listed hlisted hothers hmem (hnodup hphase)
      · exact fun fd hfd => hfound hphase fd (List.mem_cons_of_mem _ hfd)
      · obtain ⟨c', hc'⟩ := Keeps.findByFd (handleEnvInstallChildDone_keeps success hkeeps)
        refine .inr ⟨?_, hlisted.mem_of_found hc'⟩
        simp only [htrue, if_true]
        rfl
    · exact .none hlisted (by simp only [htrue]; rfl)
  | unpack => exact ⟨hlisted, h.nodup, h.found⟩
  | _ => exact .none hlisted rfl

theorem placed_init (h : s.Init) : Placed s := by
  refine .none ⟨valid_init h, ?_, ?_, ?_, ?_, by simp⟩ (congrArg positions h.phase)
  · simp [h.fd2client, h.clients]
  · simp [h.clients]
  · simp [h.fd2client]
  · simp [h.log]

/-- In a run whose events are all careful the loop looks at clients that are there, and so it
does after one more such event. -/
theorem clients_present (h : system.Reaches Careful s) (hcareful : s.Careful e)
    (hs : step s e = some t) : s.Sound ∧ t.Sound := by
  have hplaced : Placed s := h.invariant (fun _ => placed_init)
    fun _ _ _ hs hok hn => hs.step hok (next_step hn)
  exact ⟨hplaced.sound, (hplaced.step hcareful hs).sound⟩

end EventLoop

end Icecream.Iceccd
