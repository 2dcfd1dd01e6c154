import Icecream.Library.Oldest
import Icecream.Scheduler.Ranking
import Icecream.Scheduler.Recorded

/-!
# The jobs that servers have been given

The main loop with the history of its placements. Whatever happens in between, what a server
keeps as `lastPickedId` is the id of the job that it has been given last.
-/

namespace Icecream.IceccScheduler

open Icecream.Comm
open Icecream.Fault

/-- A submitter has been told where its job is compiled. -/
def Obs.answers : Obs → Bool
  | .sent _ m ok => ok && !IceccScheduler.plain m
  | _ => false

theorem Obs.answers_of_plain {o : Obs} (h : o.plain = true) : o.answers = false := by
  cases o with
  | sent cid m ok =>
    have hplain : IceccScheduler.plain m = true := h
    simp [Obs.answers, hplain]
  | _ => rfl

/-- A job that has been given to a server, and what round robin chose the server from -/
structure Placement where
  server : ℕ
  jobId : UInt32
  choice : Option (Finset ℕ)

namespace Scheduler

variable {s t u : Scheduler} {ptr useCs : ℕ} {last : ℕ → UInt32}

def answered (s t : Scheduler) : Bool :=
  (t.log.take (t.log.length - s.log.length)).any Obs.answers

/-- The servers that round robin chooses from for the job -/
def rotation (s : Scheduler) (job : Job) : Option (Finset ℕ) :=
  if job.preferredHost = [] ∧ s.settings.algorithm = .roundRobin then
    some ((s.filterIneligibleServers job).map CompileServer.cid).toFinset
  else none

theorem answered_of_log (new old : List Obs) {o : Obs} (h : t.log = new ++ o :: (old ++ s.log))
    (hplain : ∀ o ∈ new ++ old, o.plain = true) : answered s t = o.answers := by
  have hlog : t.log = (new ++ o :: old) ++ s.log := by
    rw [h, List.append_assoc, List.cons_append]
  have hnone : ∀ l : List Obs, (∀ o ∈ l, o ∈ new ++ old) → l.any Obs.answers = false := by
    intro l hl
    rw [List.any_eq_false]
    intro p hp
    rw [Obs.answers_of_plain (hplain p (hl p hp))]
    exact Bool.false_ne_true
  rw [answered, hlog, List.length_append, Nat.add_sub_cancel, List.take_left, List.any_append,
    List.any_cons, hnone new (fun o ho => List.mem_append_left _ ho),
    hnone old (fun o ho => List.mem_append_right _ ho), Bool.false_or, Bool.or_false]

theorem answered_of_quiet (h : Quiet s t) : answered s t = false := by
  obtain ⟨new, hlog, hplain⟩ := h
  rw [answered, hlog, List.length_append, Nat.add_sub_cancel, List.take_left, List.any_eq_false]
  intro o ho
  rw [Obs.answers_of_plain (hplain o ho)]
  exact Bool.false_ne_true

theorem plain_of_named {m : Msg} {id : UInt32} (h : named m = some id) : plain m = false := by
  cases m with
  | useCS m | noCS m => rfl
  | _ => cases h

theorem Serves.answered {ok : Bool} (h : Serves s ptr useCs ok t) : s.answered t = ok := by
  obtain ⟨m, new, old, hnamed, hlog, hplain⟩ := h.told
  rw [answered_of_log new old hlog hplain, Obs.answers, plain_of_named hnamed]
  exact Bool.and_true ok

/-! ## The last job of each server -/

/-- Every server keeps the id that `last` says, 0 before it is there. -/
def Latest (last : ℕ → UInt32) (s : Scheduler) : Prop :=
  ∀ x, Recorded (fun g => g.2.2) x (last x) s

theorem Latest.put (h : Latest last s) (c : CompileServer)
    (hsame : c.lastPickedId = (s.conn c.cid).lastPickedId) : Latest last (s.put c) :=
  fun x => (h x).put hsame

theorem latest_lasting (last : ℕ → UInt32) : Lasting (Latest last) where
  aside h hconns hheap hnewCid hnewPtr hhost hqueue x :=
    (recorded_lasting _ x _).aside (h x) hconns hheap hnewCid hnewPtr hhost hqueue
  update c h hgauges x := (recorded_lasting _ x _).update c (h x) hgauges
  free cid h x := (recorded_lasting _ x _).free cid (h x)
  join c h hcid hgauges x := (recorded_lasting _ x _).join c (h x) hcid hgauges
  relabel j h hlive hties x := (recorded_lasting _ x _).relabel j (h x) hlive hties
  create j h hptr hserver hlive hconns hheap hnewCid hnewPtr hhost hqueue x :=
    (recorded_lasting _ x _).create j (h x) hptr hserver hlive hconns hheap hnewCid hnewPtr hhost hqueue
  remove ptr h x := (recorded_lasting _ x _).remove ptr (h x)

theorem Latest.handleEnd (h : Latest last s) (cid : ℕ) :
    Ends (fun _ => True) (Latest last) (s.handleEnd cid) :=
  (latest_lasting last).abiding.handleEndBusy (fun c hs hsame _ => hs.put c (congrArg Prod.snd hsame))
    cid h

/-- The server that is given the job -/
theorem Latest.give (h : Latest last s) {j : Job} (hlive : s.live useCs = true) :
    Latest (Function.update last useCs j.id) (s.put { s.conn useCs with
      lastPickedId := j.id, jobList := (s.conn useCs).jobList ++ [j.ptr] }) := by
  intro x
  have hset := (h x).set (c := { s.conn useCs with
    lastPickedId := j.id, jobList := (s.conn useCs).jobList ++ [j.ptr] }) (by rwa [conn_cid])
  rw [Function.update_apply]
  rwa [conn_cid] at hset

theorem settle_latest (h : Latest last s) (j : Job) (useCs : ℕ) (gotit : Bool) :
    Ends (fun _ => True) (fun t => Latest (Function.update last useCs j.id) t ∧ Settles s t)
      (s.settle j useCs gotit) := by
  refine Ends.and ?_ (settle_settles s j useCs gotit)
  by_cases hlive : s.live useCs = true
  · refine (latest_lasting _).abiding.settle (h.give hlive) gotit fun ht _ => ?_
    exact ((latest_lasting _).abiding.asked ht).put _ (by simp only [conn_cid]; rfl)
  · unfold settle appendJob
    rw [bind_assoc]
    exact (touch_any s useCs).bind fun _ hthere => absurd hthere hlive

/-- The submitter has been written to, and the connections are as they were. -/
structure Writes (s : Scheduler) (ptr : ℕ) (ok : Bool) (t : Scheduler) : Prop where
  conns : t.conns = s.conns
  newCid : t.newCid = s.newCid
  log : ∃ m, named m = some (s.job ptr).id ∧
    t.log = .sent (s.job ptr).submitter m ok :: s.log

theorem Writes.latest {ok : Bool} (hwrites : Writes s ptr ok t) (h : Latest last s) :
    Latest last t := fun x => (h x).of_conns (fun hx => by simpa only [live, hwrites.conns] using hx)
  (fun _ => by simp only [conn, hwrites.conns]) hwrites.newCid

theorem Writes.answered {ok : Bool} (hwrites : Writes s ptr ok t) (h : Quiet t u) :
    s.answered u = ok := by
  obtain ⟨m, hnamed, hlog⟩ := hwrites.log
  obtain ⟨new, hnew, hplain⟩ := h
  rw [hlog] at hnew
  rw [answered_of_log new [] hnew (by simpa using hplain), Obs.answers, plain_of_named hnamed]
  exact Bool.and_true ok

theorem assign_writes {P : Scheduler → Prop} (pos : JobRequestPosition)
    (hsettle : ∀ t j gotit, Writes s ptr true t → j.id = (s.job ptr).id →
      Ends (fun _ => True) P (t.settle j useCs gotit))
    (hend : ∀ t, Writes s ptr false t → Ends (fun _ => True) P (t.handleEnd (s.job ptr).submitter)) :
    Ends (fun _ => True) P (s.assign ptr useCs pos) := by
  refine assign_ends pos (touchJob_any s ptr) (touch_any s useCs) (fun _ => touch_any s _)
    (fun _ hok gotit => ?_) fun _ hfailed => ?_
  · refine hsettle _ _ gotit ⟨rfl, rfl, _, told_named s ptr useCs, ?_⟩ rfl
    rw [← decide_eq_true hok]
    rfl
  · refine hend _ ⟨rfl, rfl, _, told_named s ptr useCs, ?_⟩
    rw [← decide_eq_false (not_not.mpr hfailed)]
    rfl

/-- The id of the job is noted if the submitter has been told. -/
theorem assign_latest (h : Latest last s) (pos : JobRequestPosition) : Ends (fun _ => True)
    (fun t => Latest (if s.answered t then Function.update last useCs (s.job ptr).id else last) t)
    (s.assign ptr useCs pos) := by
  refine assign_writes pos (fun t j gotit ht hid => ?_) fun t ht => ?_
  · refine (settle_latest (ht.latest h) j useCs gotit).mono fun u hu => ?_
    rw [ht.answered ⟨[], hu.2.log, by simp⟩, if_pos rfl, ← hid]
    exact hu.1
  · refine (((ht.latest h).handleEnd _).and (handleEnd_fades t _)).mono fun u hu => ?_
    rw [ht.answered hu.2.quiet, if_neg Bool.false_ne_true]
    exact hu.1

/-- How a call of `empty_queue` ends: no submitter has been told anything, or the first request
has its server, the one that has been picked if there is one. -/
structure Gives (last : ℕ → UInt32) (s : Scheduler) (ptr useCs : ℕ) (t : Scheduler) : Prop where
  first : s.firstRequest = some ptr
  answered : s.answered t = true
  server : (t.job ptr).server = some useCs
  picked : ∀ c, s.pickServer (s.job ptr) = some c → useCs = c.cid
  latest : Latest (Function.update last useCs (s.job ptr).id) t

theorem emptyQueue_latest (h : Latest last s) : Ends (fun _ => True)
    (fun r => (s.answered r.1 = false ∧ Latest last r.1) ∨ ∃ ptr useCs, Gives last s ptr useCs r.1)
    s.emptyQueue := by
  have hsearched : ∀ t, Searched s t → Latest last t := fun t ht x =>
    (h x).of_conns (fun hx => by simpa only [live, ht.conns] using hx)
      (fun _ => by rw [ht.conn]) ht.newCid
  refine emptyQueue_picked (fun t ht => .inl ⟨answered_of_quiet ht.quiet, hsearched t ht⟩)
    fun t pos useCs ht hpos hpick => ?_
  have hhead : (jobRequestPositions t.jobRequests).head? = some pos := by rw [ht.jobRequests, hpos]
  refine ((assign_serves useCs hhead).and (assign_latest (hsearched t ht) pos)).mono fun u hu => ?_
  obtain ⟨⟨ok, hserves⟩, hlatest⟩ := hu
  have hanswered := (hserves.searched ht).answered
  rw [hserves.answered] at hlatest
  cases ok with
  | false => exact .inl ⟨hanswered, hlatest⟩
  | true =>
    rw [if_pos rfl, ht.job] at hlatest
    obtain ⟨hmem, hptr⟩ := job_mem (hserves.live rfl)
    refine .inr ⟨pos.2, useCs, ?_, hanswered, (hserves.given _ hmem hptr).1, hpick, hlatest⟩
    rw [firstRequest, hpos, Option.map_some]

end Scheduler

namespace Loop

open Scheduler

variable {l l' : Loop} {e : Event} {last : ℕ → UInt32}

/-- What is given away in the step from `l` to `l'` -/
def placement (l l' : Loop) : Option Placement :=
  if l.scheduler.answered l'.scheduler then
    l.scheduler.firstRequest.bind fun ptr => (l'.scheduler.job ptr).server.map fun server =>
      { server := server, jobId := (l.scheduler.job ptr).id
        choice := l.scheduler.rotation (l.scheduler.job ptr) }
  else none

theorem next_latest (h : Latest last l.scheduler) (hqueue : e ≠ .emptyQueue)
    (hnext : l.next e = some l') : Latest last l'.scheduler := by
  have habiding := (latest_lasting last).abiding
  refine next_abiding habiding (fun cid hs => Latest.handleEnd hs cid) h hqueue
    (fun cid m _ _ _ => ?_) hnext
  have hnote := habiding.note h (.received cid (some m))
  cases m with
  | login m => exact habiding.handleRelogin cid m (hnote.put _ (by simp only [conn_cid]))
  | _ =>
    exact habiding.dispatchCounting (fun cid hs => Latest.handleEnd hs cid)
      (fun c hs _ hsame _ => hs.put c hsame) hnote cid nofun

/-- What one step does with the ids that are noted -/
theorem next_gives (hl : Between anyMode l) (h : Latest last l.scheduler)
    (hnext : l.next e = some l') :
    (l.placement l' = none ∧ Latest last l'.scheduler) ∨ ∃ ptr useCs, e = .emptyQueue ∧
      Gives last l.scheduler ptr useCs l'.scheduler ∧
      l.placement l' = some ⟨useCs, (l.scheduler.job ptr).id, l.scheduler.rotation (l.scheduler.job ptr)⟩ := by
  by_cases hqueue : e = .emptyQueue
  · subst hqueue
    obtain ⟨again, hr⟩ := next_emptyQueue hnext
    rcases (emptyQueue_latest h).of_ok hr with ⟨hanswered, hlatest⟩ | ⟨ptr, useCs, hgives⟩
    · exact .inl ⟨if_neg (by rw [hanswered]; exact Bool.false_ne_true), hlatest⟩
    · refine .inr ⟨ptr, useCs, rfl, hgives, ?_⟩
      rw [placement, if_pos hgives.answered, hgives.first, Option.bind_some, hgives.server]
      rfl
  · have hquiet := (next_stepped hl (permitted_any l e) hnext).quiet hqueue
    refine .inl ⟨if_neg ?_, next_latest h hqueue hnext⟩
    rw [answered_of_quiet hquiet]
    exact Bool.false_ne_true

end Loop

/-- The main loop and what servers have been given, the last one first -/
structure Placements where
  loop : Loop
  placed : List Placement

namespace Placements

open Scheduler

variable {p p' : Placements} {e : Event}

def next (p : Placements) (e : Event) : Option Placements :=
  (p.loop.next e).map fun l => ⟨l, (p.loop.placement l).toList ++ p.placed⟩

structure Init (p : Placements) : Prop where
  loop : p.loop.Init
  placed : p.placed = []

def system : Transition.System Placements Event where
  init := Init
  next := next

/-- The id of the job that each server has been given last, 0 if none -/
def latest (placed : List Placement) : ℕ → UInt32 :=
  Oldest.marks (fun _ => 0) (placed.map fun q => (q.server, q.jobId))

/-- What every state of a run has in common -/
structure Sound (p : Placements) : Prop where
  between : Loop.Between Loop.anyMode p.loop
  latest : Latest (latest p.placed) p.loop.scheduler

theorem Init.sound (h : p.Init) : p.Sound where
  between := h.loop.between
  latest x := by
    have hdead : ¬ p.loop.scheduler.live x = true := by simp [Scheduler.live, h.loop.conns]
    refine ⟨fun hx => absurd hx hdead, fun hx => absurd hx hdead, fun _ => ?_⟩
    rw [h.placed]
    rfl

theorem Sound.next (h : p.Sound) (hnext : p.next e = some p') : p'.Sound ∧
    (p'.placed = p.placed ∨ ∃ ptr useCs, e = .emptyQueue ∧
      Gives (Placements.latest p.placed) p.loop.scheduler ptr useCs p'.loop.scheduler ∧
      p'.placed = ⟨useCs, (p.loop.scheduler.job ptr).id,
        p.loop.scheduler.rotation (p.loop.scheduler.job ptr)⟩ :: p.placed) := by
  obtain ⟨l, hl, rfl⟩ := Option.map_eq_some_iff.mp hnext
  have hbetween := (Loop.next_stepped h.between (Loop.permitted_any p.loop e) hl).between
  rcases Loop.next_gives h.between h.latest hl with ⟨hnone, hlatest⟩ | ⟨ptr, useCs, hqueue, hgives, hsome⟩
  · rw [hnone]
    exact ⟨⟨hbetween, hlatest⟩, .inl rfl⟩
  · rw [hsome]
    exact ⟨⟨hbetween, hgives.latest⟩, .inr ⟨ptr, useCs, hqueue, hgives, rfl⟩⟩

theorem reaches_sound {ok : Placements → Event → Prop} (h : system.Reaches ok p) : p.Sound :=
  h.invariant (fun _ hinit => hinit.sound) fun _ _ _ hp _ hnext => (hp.next hnext).1

/-- In every state of every run, a server that is there keeps the id of the job it was given last. -/
theorem lastPickedId_latest {ok : Placements → Event → Prop} (h : system.Reaches ok p) {x : ℕ}
    (hlive : p.loop.scheduler.live x = true) :
    (p.loop.scheduler.conn x).lastPickedId = latest p.placed x :=
  ((reaches_sound h).latest x).value hlive

end Placements

end Icecream.IceccScheduler
