import Icecream.Scheduler.Turns

/-!
# Where jobs belong

The submitter and the server of a job are daemons that are connected, as long as only
daemons ask for servers. `handle_activity` does not look at what a connection is: a
monitor whose login and request come in one read gets a job.
-/

namespace Icecream.IceccScheduler

open Icecream.Comm

namespace Scheduler

instance (s : Scheduler) (cid : ℕ) (m : Msg) : Decidable (s.Domestic cid m) := by
  cases m with
  | getCS m => exact inferInstanceAs (Decidable (_ → _ → _))
  | _ => exact isTrue trivial

structure Housed (s : Scheduler) : Prop where
  entries : ∀ e ∈ s.jobs, s.liveJob e.2 = true
  submitter : ∀ e ∈ s.jobs, (s.job e.2).submitter ∈ s.css
  server : ∀ e ∈ s.jobs, ∀ x, (s.job e.2).server = some x → x ∈ s.css
  requests : ∀ g ∈ s.jobRequests, g.submitter ∈ s.css
  servers : s.jobRequests ≠ [] → s.css ≠ []
  daemons : ∀ x ∈ s.css, s.live x = true ∧ (s.conn x).type = .daemon
  ended : ∀ x, s.live x = false → ∀ e ∈ s.jobs,
    (s.job e.2).submitter ≠ x ∧ (s.job e.2).server ≠ some x

theorem Facts.housed {mode : Mode} {s : Scheduler} (h : Facts mode [] s) (htame : mode.tame) :
    Housed s := by
  have hhome : ∀ x, Home [] s x → x ∈ s.css := fun x hx => hx.resolve_right List.not_mem_nil
  have hties : ∀ e ∈ s.jobs, (s.job e.2).submitter ∈ s.css ∧
      ∀ x, (s.job e.2).server = some x → x ∈ s.css := by
    intro e he
    obtain ⟨-, -, -, hties⟩ := (h.tasks.jobs e he).job h.tasks.ptrs
    exact ⟨hhome _ (hties htame).1, fun x hx => hhome _ ((hties htame).2 x hx)⟩
  have hrequests : ∀ g ∈ s.jobRequests, g.submitter ∈ s.css := fun g hg =>
    hhome _ (h.tasks.requests htame g hg)
  constructor
  · intro e he
    obtain ⟨j, hj, hptr, -⟩ := h.tasks.jobs e he
    exact liveJob_iff.mpr (List.mem_map.mpr ⟨j, hj, hptr⟩)
  · exact fun e he => (hties e he).1
  · exact fun e he => (hties e he).2
  · exact hrequests
  · intro hsome hnone
    obtain ⟨g, hg⟩ := List.exists_mem_of_ne_nil _ hsome
    simpa [hnone] using hrequests g hg
  · exact fun x hx => ⟨(h.peers.css x hx).live, conn_type h.peers.cids (h.peers.css x hx)⟩
  · intro x hx e he
    have hgone : x ∉ s.css := by
      intro hmem
      simp [(h.peers.css x hmem).live] at hx
    constructor
    · rintro rfl
      exact hgone (hties e he).1
    · exact fun hserver => hgone ((hties e he).2 x hserver)

end Scheduler

namespace Loop

open Scheduler

variable {l : Loop}

/-- No monitor asks for servers. -/
def OnlyDaemonsAsk (l : Loop) (e : Event) : Prop :=
  ∀ r ∈ l.handled e, l.scheduler.Domestic r.1 r.2

instance (l : Loop) (e : Event) : Decidable (OnlyDaemonsAsk l e) :=
  inferInstanceAs (Decidable (∀ r ∈ l.handled e, _))

/-- What is known of jobs when only daemons ask for servers -/
def tameMode : Mode := ⟨True, False, False, fun h => h.elim, id⟩

/-- In a run in which no monitor asks for servers, every job belongs to daemons that are
connected. -/
theorem jobs_housed (h : system.Reaches OnlyDaemonsAsk l) : Housed l.scheduler := by
  have hpermitted : ∀ l e, OnlyDaemonsAsk l e → Permitted tameMode l e := by
    intro l e hok
    refine ⟨fun r hr => ⟨fun _ => hok r hr, ?_, ?_⟩, ?_⟩
    · exact fun hf => hf.elim
    · exact fun hf => hf.elim
    · exact fun hf => hf.elim
  exact (reaches_between hpermitted h).facts.housed trivial

/-- The main loop up to `poll` when none of `n` connections has buffered messages -/
def polling (n : ℕ) : List Event :=
  [.prune, .emptyQueue] ++ (List.replicate n [.advance, .idle]).flatten ++ [.advance, .poll]

def newcomer (fd address : ℕ) (name : String) : Event := .accept fd address (str name) 45 45

/-- From `accepting` on to the next turn, when nobody has anything to say -/
def quietTurn : List Event :=
  [.idle, .accepted, .controlled, .noDatagram, .visited, .tested true]

/-- A daemon with four slots -/
def daemonLogin (nodename : String) (envs : Environments := []) : Msg :=
  .login { port := 10245, maxKids := 4, nodename := str nodename, hostPlatform := str "x86_64",
           chrootPossible := true, envs := envs }

theorem jobs_housed_getCS : ∃ l, system.Reaches OnlyDaemonsAsk l ∧
    l.scheduler.jobs = [(1, 0)] ∧ Housed l.scheduler := by
  have hrun : (system.run OnlyDaemonsAsk (started fun _ => 1) (polling 0 ++
      [newcomer 7 1 "n", .activity (some (daemonLogin "n")),
        .activity (some (.getCS { lang := 0 }))])).map (fun l => l.scheduler.jobs) =
      some [(1, 0)] := by decide +kernel
  obtain ⟨l, hl, hjobs⟩ := Option.map_eq_some_iff.mp hrun
  have hreach := (Transition.System.Reaches.init (started_init _)).run hl
  exact ⟨l, hreach, hjobs, jobs_housed hreach⟩

/-- A monitor's first read holds its login and a request: its job is queued though there
is no server. -/
theorem jobs_unhoused : ∃ l, system.Reachable l ∧ l.scheduler.jobs = [(1, 0)] ∧
    (l.scheduler.job 0).submitter ∉ l.scheduler.css ∧ l.scheduler.jobRequests ≠ [] ∧
    l.scheduler.css = [] := by
  have hrun : (system.exec (started fun _ => 1) (polling 0 ++
      [newcomer 7 1 "m", .activity (some .monLogin), .activity (some (.getCS { lang := 0 }))])).map
      (fun l => (l.scheduler.jobs, l.scheduler.jobRequests.length, l.scheduler.css)) =
      some ([(1, 0)], 1, []) := by decide +kernel
  obtain ⟨l, hl, hstate⟩ := Option.map_eq_some_iff.mp hrun
  obtain ⟨hjobs, hlength, hcss⟩ : _ ∧ _ ∧ _ := by simpa only [Prod.mk.injEq] using hstate
  refine ⟨l, ?_, hjobs, by simp [hcss], ?_, hcss⟩
  · exact (Transition.System.Reaches.init (started_init _)).exec (fun _ _ _ => trivial) hl
  · rintro hnone
    simp [hnone] at hlength

end Loop

end Icecream.IceccScheduler
