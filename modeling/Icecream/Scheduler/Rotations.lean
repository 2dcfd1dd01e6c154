import Icecream.Scheduler.Installs
import Icecream.Scheduler.Placements

/-!
# Round robin

The server that round robin picks is the one whose last job has the smallest id. This takes the
servers in turn as long as jobs leave the queue in the order of their ids. A job that leaves
the queue after a later one brings its server back too early.
-/

namespace Icecream.IceccScheduler

open Icecream.Comm

/-- The server of a placement with its new mark -/
def Placement.entry (q : Placement) : ℕ × ℕ := (q.server, q.jobId.toNat)

namespace Scheduler

variable {s : Scheduler} {job : Job} {members : Finset ℕ} {x : ℕ}

theorem mem_rotation (h : s.rotation job = some members) :
    x ∈ members ↔ ∃ c ∈ s.filterIneligibleServers job, c.cid = x := by
  obtain ⟨-, hmembers⟩ := Option.ite_none_right_eq_some.mp h
  rw [← Option.some.inj hmembers, List.mem_toFinset, List.mem_map]

theorem filterIneligibleServers_conn {c : CompileServer} (h : c ∈ s.filterIneligibleServers job) :
    c.cid ∈ s.css ∧ s.conn c.cid = c := by
  obtain ⟨x, hx, rfl, -⟩ := filterIneligibleServers_mem h
  rw [conn_cid]
  exact ⟨hx, rfl⟩

theorem pickServer_rotation (h : s.rotation job = some members) (hsome : members.Nonempty) :
    ∃ c, s.pickServer job = some c ∧ c.cid ∈ members ∧
      ∀ y ∈ members, (s.conn c.cid).lastPickedId ≤ (s.conn y).lastPickedId := by
  obtain ⟨⟨hpreferred, halgorithm⟩, -⟩ := Option.ite_none_right_eq_some.mp h
  have hpick : s.pickServer job = pickServerRoundRobin (s.filterIneligibleServers job) := by
    rw [pickServer, if_neg (not_not.mpr hpreferred), halgorithm]
    rcases s.filterIneligibleServers job with _ | ⟨c, _ | ⟨d, rest⟩⟩
    · rfl
    · rfl
    · rfl
  rw [hpick, pickServerRoundRobin_argmin]
  obtain ⟨x, hx⟩ := hsome
  obtain ⟨d, hd, -⟩ := (mem_rotation h).mp hx
  cases hleast : (s.filterIneligibleServers job).argmin fun c => c.lastPickedId.toNat with
  | none =>
    rw [List.argmin_eq_none] at hleast
    rw [hleast] at hd
    exact absurd hd List.not_mem_nil
  | some c =>
    have hc : c ∈ s.filterIneligibleServers job := List.argmin_mem hleast
    refine ⟨c, rfl, (mem_rotation h).mpr ⟨c, hc, rfl⟩, fun y hy => ?_⟩
    obtain ⟨d, hd, rfl⟩ := (mem_rotation h).mp hy
    rw [(filterIneligibleServers_conn hc).2, (filterIneligibleServers_conn hd).2]
    have hle : c.lastPickedId.toNat ≤ d.lastPickedId.toNat :=
      List.le_of_mem_argmin (f := fun c : CompileServer => c.lastPickedId.toNat) hd hleast
    exact UInt32.le_iff_toNat_le.mpr hle

/-- The first job of the queue comes after those that the servers in its rotation had last. -/
def InTurn (s : Scheduler) : Prop :=
  ∀ ptr ∈ s.firstRequest, ∀ members ∈ s.rotation (s.job ptr), 1 < members.card →
    ∀ x ∈ members, (s.conn x).lastPickedId < (s.job ptr).id

instance (s : Scheduler) : Decidable s.InTurn :=
  inferInstanceAs (Decidable (∀ ptr ∈ s.firstRequest, ∀ members ∈ s.rotation (s.job ptr), _))

end Scheduler

namespace Placements

open Scheduler

variable {p : Placements} {q : Placement} {after w : List Placement} {members : Finset ℕ}

def InTurn (p : Placements) (e : Event) : Prop := e = .emptyQueue → p.loop.scheduler.InTurn

instance (p : Placements) (e : Event) : Decidable (p.InTurn e) :=
  inferInstanceAs (Decidable (e = .emptyQueue → p.loop.scheduler.InTurn))

/-- The server was one of those whose last jobs were the oldest. -/
def Waited (q : Placement) (after : List Placement) : Prop :=
  ∀ members ∈ q.choice, members.Nonempty → q.server ∈ members ∧
    ∀ y ∈ members, latest after q.server ≤ latest after y

/-- The job came after those that the servers had last. -/
def Later (q : Placement) (after : List Placement) : Prop :=
  ∀ members ∈ q.choice, 1 < members.card → ∀ y ∈ members, latest after y < q.jobId

/-- What holds of every placement when it is made holds of all in the history. -/
theorem reaches_placed {ok : Placements → Event → Prop} {P : Placement → List Placement → Prop}
    (h : system.Reaches ok p)
    (hgive : ∀ (p : Placements) ptr useCs t, p.Sound → ok p .emptyQueue →
      Gives (latest p.placed) p.loop.scheduler ptr useCs t →
      P ⟨useCs, (p.loop.scheduler.job ptr).id, p.loop.scheduler.rotation (p.loop.scheduler.job ptr)⟩
        p.placed) :
    ∀ q after, q :: after <:+ p.placed → P q after := by
  induction h with
  | init hinit =>
    intro q after hq
    rw [hinit.placed] at hq
    exact absurd (List.suffix_nil.mp hq) (List.cons_ne_nil q after)
  | @step p p' e hreach hok hnext ih =>
    intro q after hq
    have hsound := reaches_sound hreach
    rcases (hsound.next hnext).2 with hsame | ⟨ptr, useCs, rfl, hgives, hcons⟩
    · exact ih q after (hsame ▸ hq)
    · rw [hcons] at hq
      rcases List.suffix_cons_iff.mp hq with heq | hold
      · obtain ⟨rfl, rfl⟩ := List.cons.inj heq
        exact hgive p ptr useCs _ hsound hok hgives
      · exact ih q after hold

theorem Sound.latest_rotation (h : p.Sound) {job : Job} {x : ℕ}
    (hmembers : p.loop.scheduler.rotation job = some members) (hx : x ∈ members) :
    (p.loop.scheduler.conn x).lastPickedId = Placements.latest p.placed x := by
  obtain ⟨c, hc, rfl⟩ := (mem_rotation hmembers).mp hx
  have hdaemon := h.between.facts.peers.css c.cid (filterIneligibleServers_conn hc).1
  exact (h.latest c.cid).value hdaemon.live

theorem reaches_waited {ok : Placements → Event → Prop} (h : system.Reaches ok p) :
    ∀ q after, q :: after <:+ p.placed → Waited q after := by
  refine reaches_placed h fun p ptr useCs t hsound _ hgives members hmembers hsome => ?_
  obtain ⟨c, hpick, hc, hleast⟩ := pickServer_rotation hmembers hsome
  obtain rfl := hgives.picked c hpick
  refine ⟨hc, fun y hy => ?_⟩
  have hle := hleast y hy
  rwa [hsound.latest_rotation hmembers hc, hsound.latest_rotation hmembers hy] at hle

theorem reaches_later (h : system.Reaches InTurn p) :
    ∀ q after, q :: after <:+ p.placed → Later q after := by
  refine reaches_placed h fun p ptr useCs t hsound hok hgives members hmembers hcard y hy => ?_
  have hlt := hok rfl ptr hgives.first members hmembers hcard y hy
  rwa [hsound.latest_rotation hmembers hy] at hlt

/-- The marks of the servers -/
def ages (after : List Placement) (x : ℕ) : ℕ := (latest after x).toNat

theorem marks_ages (w after : List Placement) :
    Oldest.marks (ages after) (w.map Placement.entry) = ages (w ++ after) := by
  have hmap := Oldest.marks_map UInt32.toNat (latest after) (w.map fun q => (q.server, q.jobId))
  rw [latest, ← Oldest.marks_append, ← List.map_append, List.map_map] at hmap
  exact hmap

theorem takes_of_waited (hwaited : ∀ q rest, q :: rest <:+ w ++ after → Waited q rest)
    (hw : ∀ q ∈ w, q.choice = some members) (hsome : members.Nonempty) :
    Oldest.Takes members (ages after) (w.map Placement.entry) := by
  induction w with
  | nil => exact .nil
  | cons q w ih =>
    obtain ⟨hserver, hleast⟩ := hwaited q (w ++ after) (List.suffix_refl _) members
      (hw q List.mem_cons_self) hsome
    refine .cons q.jobId.toNat hserver ?_ (ih ?_ fun r hr => hw r (List.mem_cons_of_mem q hr))
    · rw [marks_ages]
      exact fun y hy => UInt32.le_iff_toNat_le.mp (hleast y hy)
    · exact fun r rest hr => hwaited r rest (hr.trans (List.suffix_cons q _))

theorem rising_of_later (hlater : ∀ q rest, q :: rest <:+ w ++ after → Later q rest)
    (hw : ∀ q ∈ w, q.choice = some members) (hcard : 1 < members.card) :
    Oldest.Rising members (ages after) (w.map Placement.entry) := by
  induction w with
  | nil => exact .nil
  | cons q w ih =>
    have hrises := hlater q (w ++ after) (List.suffix_refl _) members
      (hw q List.mem_cons_self) hcard
    refine .cons q.server ?_ (ih ?_ fun r hr => hw r (List.mem_cons_of_mem q hr))
    · rw [marks_ages]
      exact fun y hy => UInt32.lt_iff_toNat_lt.mp (hrises y hy)
    · exact fun r rest hr => hlater r rest (hr.trans (List.suffix_cons q _))

theorem suffix_of_placed {before rest : List Placement} (hplaced : p.placed = before ++ w ++ after)
    (h : rest <:+ w ++ after) : rest <:+ p.placed := by
  rw [hplaced, List.append_assoc]
  exact h.trans (List.suffix_append before _)

theorem servers_map (w : List Placement) :
    w.map Placement.server = (w.map Placement.entry).map Prod.fst := by
  rw [List.map_map]
  rfl

/-- In a run in which jobs come in turn, any `n` placements in a row that round robin makes among
the same `n` servers go to `n` different ones. -/
theorem rotation_nodup (h : system.Reaches InTurn p) (before : List Placement)
    (hplaced : p.placed = before ++ w ++ after) (hw : ∀ q ∈ w, q.choice = some members)
    (hlength : w.length = members.card) : (w.map Placement.server).Nodup := by
  by_cases hcard : 1 < members.card
  · have htakes : Oldest.Takes members (ages after) (w.map Placement.entry) :=
      takes_of_waited (fun q rest hq => reaches_waited h q rest (suffix_of_placed hplaced hq)) hw
        (Finset.card_pos.mp (by omega))
    have hrising : Oldest.Rising members (ages after) (w.map Placement.entry) :=
      rising_of_later (fun q rest hq => reaches_later h q rest (suffix_of_placed hplaced hq)) hw hcard
    rw [servers_map]
    exact (htakes.lately hrising (by rw [List.length_map, hlength])).nodup
  · rcases w with _ | ⟨q, _ | ⟨r, w⟩⟩
    · exact List.nodup_nil
    · exact List.nodup_singleton q.server
    · rw [List.length_cons, List.length_cons] at hlength
      omega

/-- In any run, when a job is given away out of turn, somebody gets two of the `n` jobs that begin
with it. -/
theorem rotation_repeats {ok : Placements → Event → Prop} (h : system.Reaches ok p)
    {before : List Placement} {q : Placement} {y : ℕ}
    (hplaced : p.placed = before ++ (w ++ [q]) ++ after)
    (hw : ∀ r ∈ w ++ [q], r.choice = some members) (hlength : (w ++ [q]).length = members.card)
    (hcard : 1 < members.card) (hy : y ∈ members) (hlt : q.jobId < latest after y) :
    ¬ ((w ++ [q]).map Placement.server).Nodup := by
  have htakes : Oldest.Takes members (ages after) ((w ++ [q]).map Placement.entry) :=
    takes_of_waited (fun q rest hq => reaches_waited h q rest (suffix_of_placed hplaced hq)) hw
      (Finset.card_pos.mp (by omega))
  rw [List.map_append] at htakes
  rw [servers_map, List.map_append]
  rw [List.length_append, List.length_singleton] at hlength
  refine htakes.repeats hy (UInt32.lt_iff_toNat_lt.mp hlt) hcard ?_
  rw [List.length_map, hlength]

/-! ## Runs -/

/-- A scheduler that has been told to use round robin -/
def rotating : Placements where
  loop :=
    { scheduler :=
        { settings := { Loop.plainSettings with algorithm := .roundRobin }
          host := Loop.plainHost fun _ => 1 }
      phase := .pruning }
  placed := []

theorem rotating_init : rotating.Init :=
  ⟨⟨rfl, rfl, rfl, rfl, rfl, rfl, rfl, rfl, rfl, rfl, rfl, rfl, rfl, rfl, rfl⟩, rfl⟩

def wants (count niceness : UInt32) : Event :=
  .activity (some (.getCS
    { lang := 0, target := str "x86_64", versions := Loop.listed, count := count, niceness := niceness }))

/-- Two idle daemons, of which the first makes its requests in one turn. The next turn serves three
of them. -/
def threeServed (requests : List Event) : List Event :=
  Loop.twoDaemons Loop.listed ++
    .activity (some (.stats { loadAvg1 := 0, loadAvg5 := 0, loadAvg10 := 0, freeMem := 0 })) ::
    requests ++ [.idle, .advance, .idle, .visited, .tested true, .prune, .emptyQueue, .emptyQueue,
      .emptyQueue]

theorem rotation_nodup_two : ∃ p w after, system.Reaches InTurn p ∧ p.placed = w ++ after ∧
    w.length = 2 ∧ (w.map Placement.server).Nodup := by
  have hrun : (system.run InTurn rotating (threeServed [wants 3 0])).map (fun p =>
      decide (p.placed.length = 3 ∧ ∀ q ∈ p.placed, q.choice = some {0, 1})) = some true := by
    decide +kernel
  obtain ⟨p, hp, hstate⟩ := Option.map_eq_some_iff.mp hrun
  obtain ⟨hlength, hchoice⟩ := of_decide_eq_true hstate
  have hreach := (Transition.System.Reaches.init rotating_init).run hp
  have hsplit := (List.take_append_drop 2 p.placed).symm
  have htwo : (p.placed.take 2).length = 2 := by rw [List.length_take, hlength]; rfl
  refine ⟨p, _, _, hreach, hsplit, htwo, ?_⟩
  exact rotation_nodup hreach [] hsplit (fun q hq => hchoice q (List.mem_of_mem_take hq)) htwo

/-- The first daemon's nice jobs have the ids 1 and 2. The one it does not want to wait for has the
id 3 and goes first, so that 1 and 2 go to the same server. -/
theorem rotation_stuck : ∃ (p : Placements) (w after : List Placement) (members : Finset ℕ),
    system.Reachable p ∧ p.placed = w ++ after ∧ (∀ q ∈ w, q.choice = some members) ∧
    w.length = members.card ∧ ¬ (w.map Placement.server).Nodup := by
  have hrun : (system.exec rotating (threeServed [wants 2 5, wants 1 0])).map (fun p =>
      decide ((p.placed.take 2).map Placement.server = [1, 1] ∧
        ∀ q ∈ p.placed, q.choice = some {0, 1})) = some true := by
    decide +kernel
  obtain ⟨p, hp, hstate⟩ := Option.map_eq_some_iff.mp hrun
  obtain ⟨hservers, hchoice⟩ := of_decide_eq_true hstate
  have hreach := (Transition.System.Reaches.init rotating_init).exec (fun _ _ _ => trivial) hp
  refine ⟨p, p.placed.take 2, p.placed.drop 2, {0, 1}, hreach,
    (List.take_append_drop 2 p.placed).symm, fun q hq => hchoice q (List.mem_of_mem_take hq), ?_, ?_⟩
  · rw [← List.length_map (f := Placement.server), hservers]
    rfl
  · rw [hservers]
    decide

end Placements

end Icecream.IceccScheduler
