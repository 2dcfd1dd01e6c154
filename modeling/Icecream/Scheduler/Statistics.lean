import Icecream.Scheduler.Refreshing

/-!
# The sums of the statistics

Every connection keeps the figures of the last 200 jobs that it has compiled and of the last 200
that it has asked for, the scheduler those of the last 2000, and the sums of each. A sum is
corrected as a job comes into its window and as one falls out of it.
-/

namespace Icecream.IceccScheduler

open Icecream.Comm
open Icecream.Fault

/-- The counters that are added up -/
def JobStat.counters : List (JobStat → UInt64) :=
  [JobStat.outputSize, JobStat.compileTimeReal, JobStat.compileTimeUser, JobStat.compileTimeSys]

theorem JobStat.counter_add {f : JobStat → UInt64} (hf : f ∈ counters) (l r : JobStat) :
    f (l.add r) = f l + f r := by
  simp only [counters, List.mem_cons, List.not_mem_nil, or_false] at hf
  rcases hf with rfl | rfl | rfl | rfl <;> rfl

theorem JobStat.counter_sub {f : JobStat → UInt64} (hf : f ∈ counters) (l r : JobStat) :
    f (l.sub r) = f l - f r := by
  simp only [counters, List.mem_cons, List.not_mem_nil, or_false] at hf
  rcases hf with rfl | rfl | rfl | rfl <;> rfl

/-- At most `size` values, and their sums modulo 2^64 -/
structure Window (size : ℕ) (l : List JobStat) (cum : JobStat) : Prop where
  bounded : l.length ≤ size
  sums : ∀ f ∈ JobStat.counters, (f cum).toNat = (l.map fun st => (f st).toNat).sum % 2 ^ 64
  unnamed : cum.jobId = 0

theorem Window.empty (size : ℕ) : Window size [] {} := by
  refine ⟨Nat.zero_le size, fun f hf => ?_, rfl⟩
  simp only [JobStat.counters, List.mem_cons, List.not_mem_nil, or_false] at hf
  rcases hf with rfl | rfl | rfl | rfl <;> rfl

/-- Both sums of a connection are those of their windows. -/
structure CompileServer.Tallied (c : CompileServer) : Prop where
  compiled : Window 200 c.lastCompiledJobs c.cumCompiled
  requested : Window 200 c.lastRequestedJobs c.cumRequested

theorem CompileServer.tallied_of_tallies {c d : CompileServer} (h : c.Tallied)
    (htallies : d.tallies = c.tallies) : d.Tallied := by
  simp only [tallies, Prod.mk.injEq] at htallies
  obtain ⟨-, ⟨hjobs, hcum⟩, hjobs', hcum'⟩ := htallies
  constructor
  · rw [hjobs, hcum]
    exact h.compiled
  · rw [hjobs', hcum']
    exact h.requested

namespace Scheduler

variable {size : ℕ} {l : List JobStat} {cum : JobStat}

/-- One more value, and the oldest one falls out if there is no room. -/
theorem pushStat_window (h : Window size l cum) (st : JobStat) :
    Window size (pushStat size st (l, cum)).1 (pushStat size st (l, cum)).2 := by
  have hsums : ∀ f ∈ JobStat.counters,
      (f (cum.add st)).toNat = ((l ++ [st]).map fun st => (f st).toNat).sum % 2 ^ 64 := by
    intro f hf
    rw [JobStat.counter_add hf, UInt64.toNat_add, h.sums f hf]
    simp
  simp only [pushStat]
  by_cases hfull : size < (l ++ [st]).length
  · rw [if_pos hfull]
    obtain ⟨oldest, rest, hsplit⟩ := List.exists_cons_of_ne_nil (List.append_ne_nil_of_right_ne_nil l
      (List.cons_ne_nil st []))
    have hlength : rest.length = l.length := by simpa using (congrArg List.length hsplit).symm
    rw [hsplit] at hsums ⊢
    refine ⟨hlength ▸ h.bounded, fun f hf => ?_, rfl⟩
    have hsum := hsums f hf
    have hlt := (f oldest).toNat_lt
    simp only [List.map_cons, List.sum_cons] at hsum
    rw [JobStat.counter_sub hf, UInt64.toNat_sub, hsum]
    simp only [List.headD_cons, List.tail_cons]
    omega
  · rw [if_neg hfull]
    exact ⟨not_lt.mp hfull, hsums, rfl⟩

variable {s t : Scheduler}

/-- Every sum is that of its window. -/
structure Tallied (s : Scheduler) : Prop where
  conns : ∀ c ∈ s.conns, c.Tallied
  all : Window 2000 s.allJobStats s.cumJobStats

namespace Tallied

theorem of_eq (h : s.Tallied) (hconns : t.conns = s.conns) (hstatistics : t.statistics = s.statistics) :
    t.Tallied := by
  simp only [statistics, Prod.mk.injEq] at hstatistics
  refine ⟨hconns ▸ h.conns, ?_⟩
  rw [hstatistics.1, hstatistics.2]
  exact h.all

theorem conn (h : s.Tallied) {cid : ℕ} (hlive : s.live cid = true) : (s.conn cid).Tallied :=
  h.conns _ (conn_mem hlive).1

/-- A connection is rewritten, unless it is gone. -/
theorem put (h : s.Tallied) (c : CompileServer) (hc : s.live c.cid = true → c.Tallied) :
    (s.put c).Tallied := by
  refine ⟨fun d hd => ?_, h.all⟩
  rcases Records.mem_replace.mp hd with ⟨rfl, hlive⟩ | ⟨hd, -⟩
  · exact hc (by simpa [live] using hlive)
  · exact h.conns d hd

theorem keep (h : s.Tallied) (c : CompileServer) (htallies : c.tallies = (s.conn c.cid).tallies) :
    (s.put c).Tallied :=
  h.put c fun hlive => CompileServer.tallied_of_tallies (h.conn hlive) htallies

theorem count (h : s.Tallied) {cid : ℕ} (hlive : s.live cid = true) (n : ℤ) :
    (s.put { s.conn cid with submittedJobsCount := n }).Tallied :=
  h.put _ fun _ => ⟨(h.conn hlive).compiled, (h.conn hlive).requested⟩

theorem countCompiled (h : s.Tallied) (cid : ℕ) (st : JobStat) :
    Ends (fun _ => True) Tallied (s.countCompiled cid st) := by
  unfold Scheduler.countCompiled
  refine (touch_any s cid).bind fun _ hlive => .pure (h.put _ fun _ => ?_)
  exact ⟨pushStat_window (h.conn hlive).compiled st, (h.conn hlive).requested⟩

theorem countRequested (h : s.Tallied) (cid : ℕ) (st : JobStat) :
    Ends (fun _ => True) Tallied (s.countRequested cid st) := by
  unfold Scheduler.countRequested
  refine (touch_any s cid).bind fun _ hlive => .pure (h.put _ fun _ => ?_)
  exact ⟨(h.conn hlive).compiled, pushStat_window (h.conn hlive).requested st⟩

theorem addJobStats (h : s.Tallied) (j : Job) (m : JobDoneMsg) :
    Ends (fun _ => True) Tallied (s.addJobStats j m) :=
  addJobStats_rule (fun cid st hs => hs.countCompiled cid st) (fun cid st hs => hs.countRequested cid st)
    (fun st hs => ⟨hs.conns, pushStat_window hs.all st⟩) h j m

theorem calls (h : s.Tallied) (calls : List (Job × JobDoneMsg)) :
    Ends (fun _ => True) Tallied (calls.foldlM (fun s call => s.addJobStats call.1 call.2) s) :=
  Ends.foldlM (fun _ => Tallied) h fun call _ _ ht => ht.addJobStats call.1 call.2

end Tallied

theorem tallied_abiding : Abiding Tallied where
  aside h hconns _ _ _ _ hstatistics _ := h.of_eq hconns hstatistics
  update c h _ htallies := h.keep c htallies
  free _ h := ⟨fun d hd => h.conns d (Records.mem_remove.mp hd).1, h.all⟩
  join c h _ _ htallies := by
    have hnew : c.Tallied := CompileServer.tallied_of_tallies
      (c := { cid := 0, fd := 0, name := [], address := 0, protocol := 0, maximumRemoteProtocol := 0 })
      ⟨.empty 200, .empty 200⟩ htallies
    exact ⟨List.forall_mem_cons.mpr ⟨hnew, h.conns⟩, h.all⟩
  relabel _ h _ _ := h.of_eq rfl rfl
  create _ h _ _ hlive hconns _ _ _ _ hstatistics _ := (h.count hlive _).of_eq hconns hstatistics
  remove _ h _ hlive := (h.count hlive _).of_eq rfl rfl
  stats j m h := h.addJobStats j m

end Scheduler

namespace Loop

open Scheduler

variable {l l' : Loop} {e : Event}

theorem Init.tallied (h : l.Init) : l.scheduler.Tallied := by
  refine ⟨fun c hc => ?_, ?_⟩
  · rw [h.conns] at hc
    exact absurd hc List.not_mem_nil
  · rw [h.allJobStats, h.cumJobStats]
    exact .empty 2000

theorem next_tallied (h : l.scheduler.Tallied) (hnext : l.next e = some l') :
    l'.scheduler.Tallied :=
  next_endures tallied_abiding (fun c h htallies => h.keep c htallies)
    (fun _ _ h _ => h.of_eq rfl rfl) h hnext

/-- In every state that is reached, and after any calls of `add_job_stats` in such a state, every
sum is that of its window, and no window is too long. -/
theorem statistics_tallied (h : system.Reachable l) : l.scheduler.Tallied ∧
    ∀ (calls : List (Job × JobDoneMsg)) (s : Scheduler),
      calls.foldlM (fun s call => s.addJobStats call.1 call.2) l.scheduler = .ok s → s.Tallied := by
  have htallied : l.scheduler.Tallied :=
    h.invariant (fun _ hinit => hinit.tallied) fun _ _ _ hl _ hnext => next_tallied hl hnext
  exact ⟨htallied, fun calls s hs => (htallied.calls calls).of_ok hs⟩

/-- A job that is done is in the windows of its server and of its submitter. -/
theorem statistics_tallied_done : ∃ l, system.Reachable l ∧
    (l.scheduler.conn 1).lastCompiledJobs.length = 1 ∧
    (l.scheduler.conn 0).lastRequestedJobs.length = 1 ∧ l.scheduler.Tallied := by
  have hrun : (system.exec (started fun _ => 1) Placements.overtaken).map (fun l =>
      ((l.scheduler.conn 1).lastCompiledJobs.length, (l.scheduler.conn 0).lastRequestedJobs.length)) =
      some (1, 1) := by decide +kernel
  obtain ⟨l, hl, hlengths⟩ := Option.map_eq_some_iff.mp hrun
  have hreach := (Transition.System.Reaches.init (started_init _)).exec (fun _ _ _ => trivial) hl
  obtain ⟨hcompiled, hrequested⟩ := Prod.mk.inj hlengths
  exact ⟨l, hreach, hcompiled, hrequested, (statistics_tallied hreach).1⟩

end Loop

end Icecream.IceccScheduler
