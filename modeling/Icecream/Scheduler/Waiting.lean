import Mathlib.Data.List.Perm.Lattice
import Icecream.Scheduler.Handlers

/-!
# Who is waiting

The request groups as one list of submitters and jobs. Each operation on the groups
adds one entry, takes one away, or only turns the groups around.
-/

namespace Icecream.IceccScheduler

/-- Submitter and job of every request in the queue -/
def waiting (groups : List JobRequestsGroup) : List (ℕ × ℕ) :=
  groups.flatMap fun g => g.l.map fun ptr => (g.submitter, ptr)

@[simp] theorem waiting_nil : waiting [] = [] := rfl

@[simp] theorem waiting_cons (g : JobRequestsGroup) (groups : List JobRequestsGroup) :
    waiting (g :: groups) = (g.l.map fun ptr => (g.submitter, ptr)) ++ waiting groups := rfl

theorem mem_waiting {groups : List JobRequestsGroup} {e : ℕ × ℕ} :
    e ∈ waiting groups ↔ ∃ g ∈ groups, g.submitter = e.1 ∧ e.2 ∈ g.l := by
  obtain ⟨submitter, ptr⟩ := e
  simp only [waiting, List.mem_flatMap, List.mem_map, Prod.mk.injEq]
  constructor
  · rintro ⟨g, hg, p, hp, hs, rfl⟩
    exact ⟨g, hg, hs, hp⟩
  · rintro ⟨g, hg, hs, hp⟩
    exact ⟨g, hg, ptr, hp, hs, rfl⟩

/-! ## Enqueueing -/

theorem enqueueJobRequest_waiting (ptr submitter : ℕ) (niceness : ℤ)
    (groups : List JobRequestsGroup) :
    (waiting (enqueueJobRequest ptr submitter niceness groups)).Perm
      ((submitter, ptr) :: waiting groups) := by
  induction groups with
  | nil => simp [enqueueJobRequest]
  | cons g rest ih =>
    simp only [enqueueJobRequest]
    by_cases hsame : g.submitter = submitter ∧ g.niceness = niceness
    · rw [if_pos hsame]
      simp only [waiting_cons, List.map_append, List.map_cons, List.map_nil, hsame.1]
      rw [List.append_assoc]
      exact List.perm_middle
    · rw [if_neg hsame]
      by_cases hlower : niceness < g.niceness
      · rw [if_pos hlower]
        simp
      · rw [if_neg hlower]
        simp only [waiting_cons]
        exact (ih.append_left _).trans List.perm_middle

theorem enqueueJobRequest_submitter {ptr submitter : ℕ} {niceness : ℤ}
    {groups : List JobRequestsGroup} {g : JobRequestsGroup}
    (h : g ∈ enqueueJobRequest ptr submitter niceness groups) :
    g.submitter = submitter ∨ ∃ g' ∈ groups, g'.submitter = g.submitter := by
  induction groups with
  | nil =>
    simp only [enqueueJobRequest, List.mem_singleton] at h
    left
    rw [h]
  | cons a rest ih =>
    simp only [enqueueJobRequest] at h
    split at h
    · rename_i hsame
      rcases List.mem_cons.mp h with rfl | hmem
      · exact .inl hsame.1
      · exact .inr ⟨g, List.mem_cons_of_mem _ hmem, rfl⟩
    · split at h
      · rcases List.mem_cons.mp h with rfl | hmem
        · exact .inl rfl
        · exact .inr ⟨g, hmem, rfl⟩
      · rcases List.mem_cons.mp h with rfl | hmem
        · exact .inr ⟨g, List.mem_cons_self, rfl⟩
        · rcases ih hmem with hs | ⟨g', hg', hs⟩
          · exact .inl hs
          · exact .inr ⟨g', List.mem_cons_of_mem _ hg', hs⟩

theorem enqueueJobRequestsGroup_perm (group : JobRequestsGroup) (groups : List JobRequestsGroup) :
    (enqueueJobRequestsGroup group groups).Perm (group :: groups) := by
  induction groups with
  | nil => simp [enqueueJobRequestsGroup]
  | cons g rest ih =>
    simp only [enqueueJobRequestsGroup]
    split
    · exact .refl _
    · exact (ih.cons g).trans (.swap group g rest)

/-! ## Taking out -/

theorem mem_positions {groups : List JobRequestsGroup} {pos : JobRequestPosition}
    (h : pos ∈ jobRequestPositions groups) :
    ∃ g, groups[pos.1]? = some g ∧ pos.2 ∈ g.l := by
  obtain ⟨index, ptr⟩ := pos
  simp only [jobRequestPositions, List.mem_flatMap, List.mem_map, Prod.mk.injEq] at h
  obtain ⟨⟨g, i⟩, hg, p, hp, hi, rfl⟩ := h
  simp only at hi hp
  subst hi
  exact ⟨g, (List.mem_zipIdx_iff_getElem? ..).mp hg, hp⟩

theorem position_waiting {groups : List JobRequestsGroup} {pos : JobRequestPosition}
    (h : pos ∈ jobRequestPositions groups) : ∃ submitter, (submitter, pos.2) ∈ waiting groups := by
  obtain ⟨g, hg, hp⟩ := mem_positions h
  exact ⟨g.submitter, mem_waiting.mpr ⟨g, List.mem_of_getElem? hg, rfl, hp⟩⟩

theorem waiting_perm {a b : List JobRequestsGroup} (h : a.Perm b) :
    (waiting a).Perm (waiting b) := h.flatMap_right _

/-- What is taken out is the job at the position, from the group it was in. -/
theorem removeJobRequest_waiting {groups : List JobRequestsGroup} {pos : JobRequestPosition}
    {g : JobRequestsGroup} (hg : groups[pos.1]? = some g) (hp : pos.2 ∈ g.l) :
    (waiting groups).Perm ((g.submitter, pos.2) :: waiting (removeJobRequest groups pos)) := by
  have hsplit : (waiting groups).Perm
      ((g.l.map fun ptr => (g.submitter, ptr)) ++ waiting (groups.eraseIdx pos.1)) := by
    rw [← waiting_cons]
    apply waiting_perm
    obtain ⟨hlt, hget⟩ := List.getElem?_eq_some_iff.mp hg
    rw [← hget]
    exact (List.getElem_cons_eraseIdx_perm hlt).symm
  have hgroup : (g.l.map fun ptr => (g.submitter, ptr)).Perm
      ((g.submitter, pos.2) :: (g.l.erase pos.2).map fun ptr => (g.submitter, ptr)) :=
    (List.perm_cons_erase hp).map fun ptr => (g.submitter, ptr)
  apply (hsplit.trans (hgroup.append_right _)).trans
  rw [List.cons_append]
  apply List.Perm.cons
  simp only [removeJobRequest, hg]
  by_cases hempty : g.l.erase pos.2 = []
  · rw [if_pos hempty, hempty]
    exact .refl _
  · rw [if_neg hempty]
    have hturned := waiting_perm (enqueueJobRequestsGroup_perm { g with l := g.l.erase pos.2 }
      (groups.eraseIdx pos.1))
    simpa using hturned.symm

theorem removeJobRequest_submitter {groups : List JobRequestsGroup} {pos : JobRequestPosition}
    {g : JobRequestsGroup} (h : g ∈ removeJobRequest groups pos) :
    ∃ g' ∈ groups, g'.submitter = g.submitter := by
  simp only [removeJobRequest] at h
  split at h
  · exact ⟨g, h, rfl⟩
  · rename_i group hgroup
    have hrest : ∀ x ∈ groups.eraseIdx pos.1, x ∈ groups := fun x => List.mem_of_mem_eraseIdx
    split at h
    · exact ⟨g, hrest g h, rfl⟩
    · rcases List.mem_cons.mp ((enqueueJobRequestsGroup_perm _ _).mem_iff.mp h) with rfl | hmem
      · exact ⟨group, List.mem_of_getElem? hgroup, rfl⟩
      · exact ⟨g, hrest g hmem, rfl⟩

theorem waiting_ptrs (groups : List JobRequestsGroup) :
    (waiting groups).map Prod.snd = groups.flatMap JobRequestsGroup.l := by
  simp [waiting, List.map_flatMap, Function.comp_def]

theorem waiting_filter (cid : ℕ) (groups : List JobRequestsGroup) :
    waiting (groups.filter fun g => g.submitter ≠ cid) =
      (waiting groups).filter fun e => e.1 ≠ cid := by
  induction groups with
  | nil => rfl
  | cons g rest ih =>
    simp only [ne_eq, decide_not] at ih
    by_cases hg : g.submitter = cid
    · simp [hg, ih, List.filter_map, Function.comp_def]
    · simp [hg, ih, List.filter_map, Function.comp_def]

theorem dequeue_sublist (cid ptr : ℕ) (groups : List JobRequestsGroup) :
    (waiting (Scheduler.dequeue cid ptr groups)).Sublist (waiting groups) := by
  induction groups with
  | nil => exact .refl _
  | cons g rest ih =>
    simp only [Scheduler.dequeue]
    split
    · split
      · exact List.sublist_append_right _ _
      · exact (List.erase_sublist.map _).append ih
    · exact (List.Sublist.refl _).append ih

theorem dequeue_submitter {cid ptr : ℕ} {groups : List JobRequestsGroup} {g : JobRequestsGroup}
    (h : g ∈ Scheduler.dequeue cid ptr groups) : ∃ g' ∈ groups, g'.submitter = g.submitter := by
  induction groups with
  | nil => simp [Scheduler.dequeue] at h
  | cons a rest ih =>
    have htail : g ∈ Scheduler.dequeue cid ptr rest → ∃ g' ∈ a :: rest, g'.submitter = g.submitter := by
      intro hg
      obtain ⟨g', hg', hs⟩ := ih hg
      exact ⟨g', List.mem_cons_of_mem _ hg', hs⟩
    simp only [Scheduler.dequeue] at h
    split at h
    · split at h
      · exact ⟨g, List.mem_cons_of_mem _ h, rfl⟩
      · rcases List.mem_cons.mp h with rfl | hg
        · exact ⟨a, List.mem_cons_self, rfl⟩
        · exact htail hg
    · rcases List.mem_cons.mp h with rfl | hg
      · exact ⟨g, List.mem_cons_self, rfl⟩
      · exact htail hg

end Icecream.IceccScheduler
