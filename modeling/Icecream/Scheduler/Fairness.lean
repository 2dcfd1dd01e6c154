import Icecream.Library.Rotation
import Icecream.Scheduler.Shape

/-!
# Fairness of the queue

When requests only come in and are served, the groups of one niceness are a line that is
served in rotation, those of lower niceness come first, and a group is served in the order
in which its requests came.
-/

namespace Icecream.IceccScheduler

/-! ## Groups by a property -/

section Groups

variable {groups : List JobRequestsGroup} {group : JobRequestsGroup} {k : ℕ × ℤ}

/-- Among groups of one niceness the new one is the last. -/
theorem filter_enqueueJobRequestsGroup {P : JobRequestsGroup → Bool} {n : ℤ}
    (hP : ∀ g, P g = true → g.niceness = n) (h : Grouped groups) :
    (enqueueJobRequestsGroup group groups).filter P = groups.filter P ++ [group].filter P := by
  rw [enqueueJobRequestsGroup_eq group h, List.filter_append, List.filter_cons, List.filter_filter,
    List.filter_filter, List.filter_singleton]
  by_cases hle : n ≤ group.niceness
  · have hfirst : (groups.filter fun g => P g && decide (g.niceness ≤ group.niceness)) =
        groups.filter P := by
      refine List.filter_congr fun g _ => ?_
      cases hg : P g with
      | false => rfl
      | true => simpa [hP g hg] using hle
    have hlast : (groups.filter fun g => P g && decide (group.niceness < g.niceness)) = [] := by
      refine List.filter_eq_nil_iff.mpr fun g _ hg => ?_
      rw [Bool.and_eq_true, decide_eq_true_eq] at hg
      have hniceness := hP g hg.1
      omega
    rw [hfirst, hlast]
    cases P group <;> rfl
  · have hgroup : P group ≠ true := fun hg => hle (hP group hg).ge
    have hfirst : (groups.filter fun g => P g && decide (g.niceness ≤ group.niceness)) = [] := by
      refine List.filter_eq_nil_iff.mpr fun g _ hg => ?_
      rw [Bool.and_eq_true, decide_eq_true_eq] at hg
      have hniceness := hP g hg.1
      omega
    have hlast : (groups.filter fun g => P g && decide (group.niceness < g.niceness)) =
        groups.filter P := by
      refine List.filter_congr fun g _ => ?_
      cases hg : P g with
      | false => rfl
      | true => simpa [hP g hg] using hle
    rw [hfirst, hlast, if_neg hgroup]
    simp [hgroup]

/-- There is one group for the submitter and the niceness. -/
theorem filter_key (h : Grouped groups) (hk : k ∈ groups.map JobRequestsGroup.key) :
    ∃ g, (groups.filter fun g => g.key = k) = [g] ∧ g.key = k := by
  induction groups with
  | nil => cases hk
  | cons g rest ih =>
    have hdistinct := List.nodup_cons.mp h.distinct
    by_cases hg : g.key = k
    · have hnone : (rest.filter fun g => g.key = k) = [] := by
        refine List.filter_eq_nil_iff.mpr fun x hx hxk => ?_
        refine hdistinct.1 (List.mem_map.mpr ⟨x, hx, ?_⟩)
        rw [hg]
        exact of_decide_eq_true hxk
      exact ⟨g, by simp [hg, hnone], hg⟩
    · have hrest := (List.mem_cons.mp hk).resolve_left (Ne.symm hg)
      obtain ⟨x, hx, hxk⟩ := ih h.tail hrest
      exact ⟨x, by simp [hg, hx], hxk⟩

end Groups

/-! ## The queue as a machine -/

inductive QueueEvent
  /-- `enqueue_job_request` -/
  | enqueue (ptr submitter : ℕ) (niceness : ℤ)
  /-- `remove_job_request` of `get_first_job_request` -/
  | serve

namespace QueueEvent

def next (groups : List JobRequestsGroup) : QueueEvent → List JobRequestsGroup
  | .enqueue ptr submitter niceness => enqueueJobRequest ptr submitter niceness groups
  | .serve =>
    match (jobRequestPositions groups).head? with
    | none => groups
    | some pos => removeJobRequest groups pos

/-- The job that is served, with the submitter and the niceness of its group -/
def serves (groups : List JobRequestsGroup) : QueueEvent → Option (ℕ × ℕ × ℤ)
  | .enqueue _ _ _ => none
  | .serve => (jobRequestPositions groups).head?.bind fun pos =>
    groups[pos.1]?.map fun g => (pos.2, g.key)

def arrives : QueueEvent → Option (ℕ × ℕ × ℤ)
  | .enqueue ptr submitter niceness => some (ptr, submitter, niceness)
  | .serve => none

/-- The queue after some events -/
def run (groups : List JobRequestsGroup) (es : List QueueEvent) : List JobRequestsGroup :=
  es.foldl next groups

def servings (groups : List JobRequestsGroup) (es : List QueueEvent) : List (ℕ × ℕ × ℤ) :=
  Rotation.served next serves groups es

def arrivals (es : List QueueEvent) : List (ℕ × ℕ × ℤ) := es.filterMap arrives

variable {groups rest : List JobRequestsGroup} {g : JobRequestsGroup} {ptr : ℕ} {l : List ℕ}

theorem first_position (h : g.l = ptr :: l) :
    (jobRequestPositions (g :: rest)).head? = some (0, ptr) := by
  simp [jobRequestPositions, List.zipIdx_cons, h]

theorem serves_cons (h : g.l = ptr :: l) : serves (g :: rest) .serve = some (ptr, g.key) := by
  simp [serves, first_position h]

theorem next_serve (h : g.l = ptr :: l) : next (g :: rest) .serve =
    if l = [] then rest else enqueueJobRequestsGroup { g with l := l } rest := by
  simp only [next, first_position h, removeJobRequest, List.getElem?_cons_zero, List.eraseIdx_cons_zero,
    h, List.erase_cons_head]

theorem next_grouped (e : QueueEvent) (h : Grouped groups) : Grouped (next groups e) := by
  cases e with
  | enqueue ptr submitter niceness => exact h.enqueueJobRequest ptr submitter niceness
  | serve =>
    simp only [next]
    split
    · exact h
    · exact h.removeJobRequest _

theorem run_grouped (es : List QueueEvent) (h : Grouped groups) : Grouped (run groups es) := by
  induction es generalizing groups with
  | nil => exact h
  | cons e es ih => exact ih (next_grouped e h)

/-! ## The line of a niceness -/

/-- The groups of a niceness, by their keys -/
def line (n : ℤ) (groups : List JobRequestsGroup) : List (ℕ × ℤ) :=
  (groups.filter fun g => g.niceness = n).map JobRequestsGroup.key

/-- Whose turn it is, as far as the niceness goes -/
def turn (n : ℤ) (groups : List JobRequestsGroup) (e : QueueEvent) : Option (ℕ × ℤ) :=
  ((serves groups e).map Prod.snd).filter fun k => k.2 = n

theorem mem_line {k : ℕ × ℤ} : k ∈ line k.2 groups ↔ k ∈ groups.map JobRequestsGroup.key := by
  simp only [line, List.mem_map, List.mem_filter, decide_eq_true_eq]
  constructor
  · rintro ⟨g, ⟨hg, -⟩, rfl⟩
    exact ⟨g, hg, rfl⟩
  · rintro ⟨g, hg, rfl⟩
    exact ⟨g, ⟨hg, rfl⟩, rfl⟩

theorem line_nodup (n : ℤ) (h : Grouped groups) : (line n groups).Nodup :=
  h.distinct.sublist (List.filter_sublist.map _)

theorem line_joinGroup (n : ℤ) (ptr submitter : ℕ) (niceness : ℤ)
    (groups : List JobRequestsGroup) :
    line n (groups.map (joinGroup ptr submitter niceness)) = line n groups := by
  have hniceness : ∀ g, (joinGroup ptr submitter niceness g).niceness = g.niceness := fun g =>
    congrArg Prod.snd (joinGroup_key ptr submitter niceness g)
  simp only [line, List.filter_map, List.map_map, Function.comp_def, hniceness, joinGroup_key]

theorem line_enqueue (n : ℤ) (group : JobRequestsGroup) (h : Grouped groups) :
    line n (enqueueJobRequestsGroup group groups) =
      line n groups ++ if group.niceness = n then [group.key] else [] := by
  have hniceness : ∀ g : JobRequestsGroup, decide (g.niceness = n) = true → g.niceness = n :=
    fun g hg => of_decide_eq_true hg
  rw [line, filter_enqueueJobRequestsGroup hniceness h, List.map_append, List.filter_singleton]
  by_cases hn : group.niceness = n
  · simp [line, hn]
  · simp [line, hn]

/-- The groups of a niceness are served in rotation. -/
theorem line_step (n : ℤ) (e : QueueEvent) (h : Grouped groups) :
    Rotation.Step (line n groups) (turn n groups e) (line n (next groups e)) := by
  cases e with
  | enqueue ptr submitter niceness =>
    simp only [turn, serves, next, Option.map_none, Option.filter_none]
    rw [enqueueJobRequest_eq ptr submitter niceness h]
    split
    · rw [line_joinGroup]
      exact .wait _
    · rename_i hnew
      rw [line_enqueue n _ h]
      by_cases hn : niceness = n
      · subst hn
        rw [if_pos rfl]
        exact .join fun hmem => hnew (mem_line.mp hmem)
      · rw [if_neg hn, List.append_nil]
        exact .wait _
  | serve =>
    cases groups with
    | nil => exact .wait _
    | cons g rest =>
      obtain ⟨ptr, l, hl⟩ := List.exists_cons_of_ne_nil (h.nonempty g List.mem_cons_self)
      rw [next_serve hl, turn, serves_cons hl, Option.map_some]
      have hrest : line n (if l = [] then rest else enqueueJobRequestsGroup { g with l := l } rest) =
          line n rest ++ if l ≠ [] ∧ g.niceness = n then [g.key] else [] := by
        by_cases hempty : l = []
        · simp [hempty]
        · rw [if_neg hempty, line_enqueue n _ h.tail]
          simp [hempty, JobRequestsGroup.key]
      rw [hrest]
      by_cases hn : g.niceness = n
      · have hline : line n (g :: rest) = g.key :: line n rest := by simp [line, hn]
        have hturn : (some g.key).filter (fun k => k.2 = n) = some g.key := by
          simp [JobRequestsGroup.key, hn]
        rw [hline, hturn]
        by_cases hempty : l = []
        · rw [if_neg (by simp [hempty]), List.append_nil]
          exact .leave _ _
        · rw [if_pos ⟨hempty, hn⟩]
          exact .again _ _
      · have hline : line n (g :: rest) = line n rest := by simp [line, hn]
        have hturn : (some g.key).filter (fun k => k.2 = n) = none := by
          simp [JobRequestsGroup.key, hn]
        rw [hline, hturn, if_neg fun hand => hn hand.2, List.append_nil]
        exact .wait _

theorem served_turn (n : ℤ) (es : List QueueEvent) :
    Rotation.served next (turn n) groups es =
      ((servings groups es).map Prod.snd).filter fun k => k.2 = n := by
  induction es generalizing groups with
  | nil => rfl
  | cons e es ih =>
    simp only [servings, Rotation.served, List.map_append, List.filter_append] at ih ⊢
    rw [ih, turn]
    cases serves groups e with
    | none => rfl
    | some r =>
      by_cases hn : r.2.2 = n
      · simp [Option.filter, hn]
      · simp [hn]

/-- Between two servings of one submitter at a niceness everybody else there is served once. -/
theorem served_once {a b : ℕ} {n : ℤ} {es : List QueueEvent} (h : Grouped groups) (hne : b ≠ a)
    (hfirst : (serves groups .serve).map Prod.snd = some (a, n))
    (hlast : (serves (run (next groups .serve) es) .serve).map Prod.snd = some (a, n))
    (hno : (a, n) ∉ (servings (next groups .serve) es).map Prod.snd)
    (hstay : ∀ pre, pre <+: es → ∀ k ∈ [(a, n), (b, n)],
      k ∈ (run (next groups .serve) pre).map JobRequestsGroup.key) :
    ((servings (next groups .serve) es).map Prod.snd).count (b, n) = 1 := by
  have hturn : turn n groups .serve = some (a, n) := by simp [turn, hfirst]
  have hstep := line_step n .serve h
  rw [hturn] at hstep
  have hgrouped := next_grouped .serve h
  have hlines : ∀ pre, pre <+: es → (a, n) ∈ line n (run (next groups .serve) pre) ∧
      (b, n) ∈ line n (run (next groups .serve) pre) := fun pre hpre =>
    ⟨mem_line.mpr (hstay pre hpre _ (by simp)), mem_line.mpr (hstay pre hpre _ (by simp))⟩
  obtain ⟨ha, hb⟩ := hlines [] (List.nil_prefix)
  have hkeys : (b, n) ≠ (a, n) := fun heq => hne (congrArg Prod.fst heq)
  have hahead := hstep.passes (line_nodup n h) (hstep.subset hb) hkeys ha
  have hhead : (line n (run (next groups .serve) es)).head? = some (a, n) := by
    have hnext := line_step n .serve (run_grouped es hgrouped)
    rw [turn, hlast] at hnext
    simp only [Option.filter, decide_true] at hnext
    exact hnext.head
  have hturns : (Rotation.Ahead (b, n) (a, n) (line n (next groups .serve)) →
      (Rotation.served next (turn n) (next groups .serve) es).count (b, n) = 1) ∧ _ :=
    Rotation.count_served (fun groups e hgroups =>
      ⟨next_grouped e hgroups, line_step n e hgroups⟩) hgrouped (line_nodup n hgrouped) hlines hkeys
      (by simpa [served_turn] using hno) hhead
  have hcount := hturns.1 hahead
  rwa [served_turn, List.count_filter (by simp)] at hcount

/-! ## The order within a group -/

/-- The jobs of a submitter and a niceness -/
def picked (k : ℕ × ℤ) (l : List (ℕ × ℕ × ℤ)) : List ℕ := (l.filter fun r => r.2 = k).map Prod.fst

def pending (k : ℕ × ℤ) (groups : List JobRequestsGroup) : List ℕ :=
  (groups.filter fun g => g.key = k).flatMap JobRequestsGroup.l

theorem picked_append (k : ℕ × ℤ) (l l' : List (ℕ × ℕ × ℤ)) :
    picked k (l ++ l') = picked k l ++ picked k l' := by
  simp [picked, List.filter_append]

theorem pending_of_notMem {k : ℕ × ℤ} (h : k ∉ groups.map JobRequestsGroup.key) :
    pending k groups = [] := by
  have hnone : (groups.filter fun g => g.key = k) = [] := by
    refine List.filter_eq_nil_iff.mpr fun g hg hk => ?_
    exact h (List.mem_map.mpr ⟨g, hg, of_decide_eq_true hk⟩)
  simp [pending, hnone]

theorem pending_enqueue (k : ℕ × ℤ) (group : JobRequestsGroup) (h : Grouped groups) :
    pending k (enqueueJobRequestsGroup group groups) =
      pending k groups ++ if group.key = k then group.l else [] := by
  have hniceness : ∀ g : JobRequestsGroup, decide (g.key = k) = true → g.niceness = k.2 :=
    fun g hg => congrArg Prod.snd (of_decide_eq_true hg)
  rw [pending, filter_enqueueJobRequestsGroup hniceness h, List.flatMap_append,
    List.filter_singleton]
  by_cases hk : group.key = k
  · simp [pending, hk]
  · simp [pending, hk]

theorem pending_joinGroup (k : ℕ × ℤ) (ptr submitter : ℕ) (niceness : ℤ) (h : Grouped groups)
    (hmem : (submitter, niceness) ∈ groups.map JobRequestsGroup.key) :
    pending k (groups.map (joinGroup ptr submitter niceness)) =
      pending k groups ++ if (submitter, niceness) = k then [ptr] else [] := by
  have hfilter : ((groups.map (joinGroup ptr submitter niceness)).filter fun g => g.key = k) =
      (groups.filter fun g => g.key = k).map (joinGroup ptr submitter niceness) := by
    simp only [List.filter_map, Function.comp_def, joinGroup_key]
  rw [pending, hfilter, pending]
  by_cases hk : (submitter, niceness) = k
  · subst hk
    obtain ⟨g, hg, hkey⟩ := filter_key h hmem
    simp [hg, joinGroup, hkey]
  · have hsame : (groups.filter fun g => g.key = k).map (joinGroup ptr submitter niceness) =
        groups.filter fun g => g.key = k := by
      refine (List.map_congr_left fun g hg => ?_).trans (List.map_id _)
      have hgk := of_decide_eq_true (List.mem_filter.mp hg).2
      exact if_neg fun heq => hk (heq.symm.trans hgk)
    rw [hsame, if_neg hk, List.append_nil]

/-- Who came first is served first. -/
theorem pending_step (k : ℕ × ℤ) (e : QueueEvent) (h : Grouped groups) :
    picked k (serves groups e).toList ++ pending k (next groups e) =
      pending k groups ++ picked k (arrives e).toList := by
  cases e with
  | enqueue ptr submitter niceness =>
    have harrives : picked k (arrives (.enqueue ptr submitter niceness)).toList =
        if (submitter, niceness) = k then [ptr] else [] := by
      by_cases hk : (submitter, niceness) = k
      · simp [arrives, picked, hk]
      · simp [arrives, picked, hk]
    rw [harrives]
    change pending k (enqueueJobRequest ptr submitter niceness groups) = _
    rw [enqueueJobRequest_eq ptr submitter niceness h]
    split
    · rename_i hmem
      exact pending_joinGroup k ptr submitter niceness h hmem
    · exact pending_enqueue k ⟨[ptr], submitter, niceness⟩ h
  | serve =>
    cases groups with
    | nil => rfl
    | cons g rest =>
      obtain ⟨ptr, l, hl⟩ := List.exists_cons_of_ne_nil (h.nonempty g List.mem_cons_self)
      have hserves : picked k (serves (g :: rest) .serve).toList = if g.key = k then [ptr] else [] := by
        rw [serves_cons hl]
        by_cases hk : g.key = k
        · simp [picked, hk]
        · simp [picked, hk]
      have hnext : pending k (next (g :: rest) .serve) =
          pending k rest ++ if g.key = k then l else [] := by
        rw [next_serve hl]
        by_cases hempty : l = []
        · simp [hempty]
        · rw [if_neg hempty, pending_enqueue k _ h.tail]
          rfl
      rw [hserves, hnext]
      by_cases hk : g.key = k
      · have hnone : pending k rest = [] :=
          pending_of_notMem fun hmem => (List.nodup_cons.mp h.distinct).1 (hk ▸ hmem)
        have hall : pending k (g :: rest) = g.l ++ pending k rest := by simp [pending, hk]
        rw [hall, hnone, hl]
        simp [hk, arrives, picked]
      · have hall : pending k (g :: rest) = pending k rest := by simp [pending, hk]
        simp [hall, hk, arrives, picked]

theorem served_in_order (k : ℕ × ℤ) (es : List QueueEvent) (h : Grouped groups) :
    picked k (servings groups es) ++ pending k (run groups es) =
      pending k groups ++ picked k (arrivals es) := by
  induction es generalizing groups with
  | nil => simp [servings, Rotation.served, run, arrivals, picked]
  | cons e es ih =>
    have harrivals : arrivals (e :: es) = (arrives e).toList ++ arrivals es := by
      simp only [arrivals, List.filterMap_cons]
      cases arrives e <;> rfl
    have hservings : servings groups (e :: es) =
        (serves groups e).toList ++ servings (next groups e) es := rfl
    have hrest := ih (next_grouped e h)
    have hfirst := pending_step k e h
    calc picked k (servings groups (e :: es)) ++ pending k (run groups (e :: es))
        = picked k (serves groups e).toList ++
            (picked k (servings (next groups e) es) ++ pending k (run (next groups e) es)) := by
          rw [hservings, picked_append, List.append_assoc]
          rfl
      _ = (picked k (serves groups e).toList ++ pending k (next groups e)) ++
            picked k (arrivals es) := by rw [hrest, List.append_assoc]
      _ = pending k groups ++ picked k (arrivals (e :: es)) := by
          rw [hfirst, harrivals, picked_append, List.append_assoc]

/-- The first group has the lowest niceness. -/
theorem serves_lowest (h : Grouped groups) {r : ℕ × ℕ × ℤ} (hr : serves groups .serve = some r) :
    ∀ g ∈ groups, r.2.2 ≤ g.niceness := by
  cases groups with
  | nil => exact nofun
  | cons g rest =>
    obtain ⟨ptr, l, hl⟩ := List.exists_cons_of_ne_nil (h.nonempty g List.mem_cons_self)
    rw [serves_cons hl, Option.some.injEq] at hr
    subst hr
    intro x hx
    rcases List.mem_cons.mp hx with rfl | hx
    · exact le_rfl
    · exact h.le_of_mem hx

/-- Whatever comes in and however often the queue is served: between two servings of a
submitter at a niceness everybody else who stays there is served once, nobody is served
before those of lower niceness, and what a submitter asks for is served in that order. -/
theorem queue_fair (h : Grouped groups) (es : List QueueEvent) :
    (∀ a b n, b ≠ a → (serves groups .serve).map Prod.snd = some (a, n) →
      (serves (run (next groups .serve) es) .serve).map Prod.snd = some (a, n) →
      (a, n) ∉ (servings (next groups .serve) es).map Prod.snd →
      (∀ pre, pre <+: es → ∀ k ∈ [(a, n), (b, n)],
        k ∈ (run (next groups .serve) pre).map JobRequestsGroup.key) →
      ((servings (next groups .serve) es).map Prod.snd).count (b, n) = 1) ∧
    (∀ pre, pre <+: es → ∀ r ∈ serves (run groups pre) .serve, ∀ g ∈ run groups pre,
      r.2.2 ≤ g.niceness) ∧
    ∀ k, picked k (servings groups es) ++ pending k (run groups es) =
      pending k groups ++ picked k (arrivals es) := by
  refine ⟨fun a b n hne hfirst hlast hno hstay => ?_, fun pre _ r hr => ?_, fun k => ?_⟩
  · exact served_once h hne hfirst hlast hno hstay
  · exact serves_lowest (run_grouped pre h) hr
  · exact served_in_order k es h

/-- The second submitter gets its turn although a third one comes in. -/
theorem queue_fair_two : ((servings (next [⟨[0, 1], 0, 0⟩, ⟨[2, 4], 1, 0⟩] .serve)
    [.enqueue 3 2 0, .serve]).map Prod.snd).count (1, 0) = 1 := by
  have hgrouped : Grouped [⟨[0, 1], 0, 0⟩, ⟨[2, 4], 1, 0⟩] := by decide
  refine (queue_fair hgrouped [.enqueue 3 2 0, .serve]).1 0 1 0 (by decide) (by decide) (by decide)
    (by decide) fun pre hpre => ?_
  have hcases : pre = [] ∨ ∃ t, pre = .enqueue 3 2 0 :: t ∧ (t = [] ∨ t = [.serve]) := by
    simpa [List.prefix_cons_iff] using hpre
  rcases hcases with rfl | ⟨t, rfl, rfl | rfl⟩ <;> decide

end QueueEvent

namespace Scheduler

variable {s t : Scheduler} {ptr useCs : ℕ}

/-- Serving the queue takes out its head. -/
theorem Assigns.serves (h : Assigns s ptr useCs t) :
    t.jobRequests = QueueEvent.next s.jobRequests .serve ∧
      (QueueEvent.serves s.jobRequests .serve).map Prod.fst = some ptr := by
  obtain ⟨pos, hpos, rfl, hqueue⟩ := h.jobRequests
  obtain ⟨g, hg, -⟩ : ∃ g, s.jobRequests[pos.1]? = some g ∧ pos.2 ∈ g.l := by
    have hmem := List.mem_of_mem_head? hpos
    simp only [jobRequestPositions, List.mem_flatMap, List.mem_map] at hmem
    obtain ⟨e, he, p, hp, rfl⟩ := hmem
    exact ⟨e.1, List.mem_zipIdx_iff_getElem?.mp he, hp⟩
  refine ⟨?_, ?_⟩
  · simp only [QueueEvent.next, hpos, hqueue]
  · simp only [QueueEvent.serves, hpos, hg, Option.bind_some, Option.map_some]

end Scheduler

end Icecream.IceccScheduler
