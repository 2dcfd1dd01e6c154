import Icecream.Scheduler.Waiting

/-!
# The shape of the queue

The groups stand by niceness, each submitter has one group for a niceness, and no group is
empty. Five pieces of code edit the list: a new request looks for its group, a group that
has been served goes behind those of its niceness, and the others only take away.
-/

namespace Icecream.IceccScheduler

def JobRequestsGroup.key (g : JobRequestsGroup) : ℕ × ℤ := (g.submitter, g.niceness)

structure Grouped (groups : List JobRequestsGroup) : Prop where
  sorted : (groups.map JobRequestsGroup.niceness).Pairwise (· ≤ ·)
  distinct : (groups.map JobRequestsGroup.key).Nodup
  nonempty : ∀ g ∈ groups, g.l ≠ []

instance (groups : List JobRequestsGroup) : Decidable (Grouped groups) :=
  decidable_of_iff ((groups.map JobRequestsGroup.niceness).Pairwise (· ≤ ·) ∧
      (groups.map JobRequestsGroup.key).Nodup ∧ ∀ g ∈ groups, g.l ≠ [])
    ⟨fun ⟨h₁, h₂, h₃⟩ => ⟨h₁, h₂, h₃⟩, fun ⟨h₁, h₂, h₃⟩ => ⟨h₁, h₂, h₃⟩⟩

/-- What holds of the jobs of each group, by its submitter and its niceness -/
def Filed (P : ℕ → ℤ → ℕ → Prop) (groups : List JobRequestsGroup) : Prop :=
  ∀ g ∈ groups, ∀ ptr ∈ g.l, P g.submitter g.niceness ptr

variable {groups groups' : List JobRequestsGroup} {P : ℕ → ℤ → ℕ → Prop}

theorem Grouped.nil : Grouped [] := ⟨.nil, .nil, nofun⟩

/-- Groups and jobs may be taken away. -/
theorem Grouped.of_keys (h : Grouped groups)
    (hkeys : (groups'.map JobRequestsGroup.key).Sublist (groups.map JobRequestsGroup.key))
    (hnonempty : ∀ g ∈ groups', g.l ≠ []) : Grouped groups' := by
  have hniceness : (groups'.map JobRequestsGroup.niceness).Sublist
      (groups.map JobRequestsGroup.niceness) := by
    simpa [JobRequestsGroup.key, Function.comp_def] using hkeys.map Prod.snd
  exact ⟨h.sorted.sublist hniceness, h.distinct.sublist hkeys, hnonempty⟩

theorem Grouped.sublist (h : Grouped groups) (hsub : groups'.Sublist groups) : Grouped groups' :=
  h.of_keys (hsub.map _) fun g hg => h.nonempty g (hsub.subset hg)

theorem Filed.mono {Q : ℕ → ℤ → ℕ → Prop} (h : Filed P groups)
    (himp : ∀ g ∈ groups, ∀ ptr ∈ g.l, P g.submitter g.niceness ptr →
      Q g.submitter g.niceness ptr) : Filed Q groups :=
  fun g hg ptr hptr => himp g hg ptr hptr (h g hg ptr hptr)

theorem Filed.subset (h : Filed P groups) (hsub : groups' ⊆ groups) : Filed P groups' :=
  fun g hg => h g (hsub hg)

theorem Grouped.tail {g : JobRequestsGroup} (h : Grouped (g :: groups)) : Grouped groups :=
  h.sublist (List.sublist_cons_self g groups)

theorem Grouped.le_of_mem {g g' : JobRequestsGroup} (h : Grouped (g :: groups))
    (hg' : g' ∈ groups) : g.niceness ≤ g'.niceness :=
  (List.pairwise_cons.mp h.sorted).1 _ (List.mem_map_of_mem hg')

/-! ## A group comes in -/

/-- The group stands behind the last one that is not nicer. -/
theorem enqueueJobRequestsGroup_eq (group : JobRequestsGroup) (h : Grouped groups) :
    enqueueJobRequestsGroup group groups =
      (groups.filter fun g => g.niceness ≤ group.niceness) ++
        group :: groups.filter fun g => group.niceness < g.niceness := by
  induction groups with
  | nil => rfl
  | cons g rest ih =>
    simp only [enqueueJobRequestsGroup]
    by_cases hlt : group.niceness < g.niceness
    · have hlater : ∀ x ∈ rest, group.niceness < x.niceness := fun x hx =>
        hlt.trans_le (h.le_of_mem hx)
      have hnone : rest.filter (fun x => x.niceness ≤ group.niceness) = [] := by
        refine List.filter_eq_nil_iff.mpr fun x hx => ?_
        have hx := hlater x hx
        simp only [decide_eq_true_eq, not_le]
        omega
      have hall : rest.filter (fun x => group.niceness < x.niceness) = rest :=
        List.filter_eq_self.mpr fun x hx => decide_eq_true (hlater x hx)
      rw [if_pos hlt, List.filter_cons_of_neg (by simpa using hlt),
        List.filter_cons_of_pos (by simpa using hlt), hnone, hall]
      rfl
    · rw [if_neg hlt, ih h.tail, List.filter_cons_of_pos (by simpa using not_lt.mp hlt),
        List.filter_cons_of_neg (by simpa using hlt)]
      rfl

theorem Grouped.enqueueJobRequestsGroup {group : JobRequestsGroup} (h : Grouped groups)
    (hnew : group.key ∉ groups.map JobRequestsGroup.key) (hgroup : group.l ≠ []) :
    Grouped (enqueueJobRequestsGroup group groups) := by
  have hperm := enqueueJobRequestsGroup_perm group groups
  refine ⟨?_, ?_, fun g hg => ?_⟩
  · rw [enqueueJobRequestsGroup_eq group h, List.map_append, List.map_cons, List.pairwise_append,
      List.pairwise_cons]
    refine ⟨h.sorted.sublist (List.filter_sublist.map _), ⟨?_,
      h.sorted.sublist (List.filter_sublist.map _)⟩, ?_⟩
    · simp only [List.mem_map, List.mem_filter, decide_eq_true_eq, forall_exists_index, and_imp]
      rintro _ g - hlt rfl
      exact hlt.le
    · simp only [List.mem_cons, List.mem_map, List.mem_filter, decide_eq_true_eq,
        forall_exists_index, and_imp]
      rintro _ g - hle rfl _ (rfl | ⟨g', ⟨-, hlt⟩, rfl⟩)
      · exact hle
      · exact (hle.trans_lt hlt).le
  · rw [(hperm.map _).nodup_iff, List.map_cons, List.nodup_cons]
    exact ⟨hnew, h.distinct⟩
  · rcases List.mem_cons.mp (hperm.mem_iff.mp hg) with rfl | hold
    · exact hgroup
    · exact h.nonempty g hold

theorem Filed.enqueueJobRequestsGroup {group : JobRequestsGroup} (h : Filed P groups)
    (hgroup : ∀ ptr ∈ group.l, P group.submitter group.niceness ptr) :
    Filed P (enqueueJobRequestsGroup group groups) := by
  intro g hg
  rcases List.mem_cons.mp ((enqueueJobRequestsGroup_perm group groups).mem_iff.mp hg) with rfl | hold
  · exact hgroup
  · exact h g hold

/-! ## A request comes in -/

/-- The job joins its group. -/
def joinGroup (ptr submitter : ℕ) (niceness : ℤ) (g : JobRequestsGroup) : JobRequestsGroup :=
  if g.key = (submitter, niceness) then { g with l := g.l ++ [ptr] } else g

theorem joinGroup_key (ptr submitter : ℕ) (niceness : ℤ) (g : JobRequestsGroup) :
    (joinGroup ptr submitter niceness g).key = g.key := by
  unfold joinGroup
  split <;> rfl

theorem map_joinGroup_of_notMem {ptr submitter : ℕ} {niceness : ℤ}
    (h : (submitter, niceness) ∉ groups.map JobRequestsGroup.key) :
    groups.map (joinGroup ptr submitter niceness) = groups := by
  refine (List.map_congr_left fun g hg => ?_).trans (List.map_id groups)
  exact if_neg fun heq => h (List.mem_map.mpr ⟨g, hg, heq⟩)

/-- The scan for the group finds it, or the place where a served group would go. -/
theorem enqueueJobRequest_eq (ptr submitter : ℕ) (niceness : ℤ) (h : Grouped groups) :
    enqueueJobRequest ptr submitter niceness groups =
      if (submitter, niceness) ∈ groups.map JobRequestsGroup.key then
        groups.map (joinGroup ptr submitter niceness)
      else enqueueJobRequestsGroup ⟨[ptr], submitter, niceness⟩ groups := by
  induction groups with
  | nil => rfl
  | cons g rest ih =>
    have hdistinct := List.nodup_cons.mp h.distinct
    simp only [enqueueJobRequest, List.map_cons, List.mem_cons]
    by_cases hsame : g.submitter = submitter ∧ g.niceness = niceness
    · have hkey : g.key = (submitter, niceness) := Prod.ext hsame.1 hsame.2
      rw [if_pos hsame, if_pos (.inl hkey.symm), joinGroup, if_pos hkey,
        map_joinGroup_of_notMem (hkey ▸ hdistinct.1)]
    · have hkey : g.key ≠ (submitter, niceness) := fun heq =>
        hsame ⟨congrArg Prod.fst heq, congrArg Prod.snd heq⟩
      have hhead : joinGroup ptr submitter niceness g = g := if_neg hkey
      rw [if_neg hsame, hhead]
      by_cases hlower : niceness < g.niceness
      · have hrest : (submitter, niceness) ∉ rest.map JobRequestsGroup.key := by
          intro hmem
          obtain ⟨g', hg', heq⟩ := List.mem_map.mp hmem
          have hle := h.le_of_mem hg'
          have hniceness : g'.niceness = niceness := congrArg Prod.snd heq
          omega
        rw [if_pos hlower, if_neg (by simpa [hkey.symm] using hrest), enqueueJobRequestsGroup,
          if_pos hlower]
      · rw [if_neg hlower, ih h.tail, enqueueJobRequestsGroup, if_neg hlower]
        simp only [hkey.symm, false_or]
        split <;> rfl

theorem Grouped.enqueueJobRequest (ptr submitter : ℕ) (niceness : ℤ) (h : Grouped groups) :
    Grouped (enqueueJobRequest ptr submitter niceness groups) := by
  rw [enqueueJobRequest_eq ptr submitter niceness h]
  split
  · refine h.of_keys ?_ fun g hg => ?_
    · have hkeys : (groups.map (joinGroup ptr submitter niceness)).map JobRequestsGroup.key =
          groups.map JobRequestsGroup.key := by
        rw [List.map_map]
        exact List.map_congr_left fun g _ => joinGroup_key _ _ _ g
      rw [hkeys]
    · obtain ⟨g', hg', rfl⟩ := List.mem_map.mp hg
      unfold joinGroup
      split
      · simp
      · exact h.nonempty g' hg'
  · rename_i hnew
    exact h.enqueueJobRequestsGroup hnew (by simp)

theorem Filed.enqueueJobRequest {ptr submitter : ℕ} {niceness : ℤ} (h : Filed P groups)
    (hgroups : Grouped groups) (hptr : P submitter niceness ptr) :
    Filed P (enqueueJobRequest ptr submitter niceness groups) := by
  rw [enqueueJobRequest_eq ptr submitter niceness hgroups]
  split
  · intro g hg p hp
    obtain ⟨g', hg', rfl⟩ := List.mem_map.mp hg
    unfold joinGroup at hp ⊢
    split at hp
    · rename_i hkey
      rw [if_pos hkey]
      rcases List.mem_append.mp hp with hp | hp
      · exact h g' hg' p hp
      · rw [List.mem_singleton.mp hp]
        cases hkey
        exact hptr
    · rename_i hkey
      rw [if_neg hkey]
      exact h g' hg' p hp
  · exact h.enqueueJobRequestsGroup fun p hp => List.mem_singleton.mp hp ▸ hptr

/-! ## Requests go -/

theorem Grouped.removeJobRequest (pos : JobRequestPosition) (h : Grouped groups) :
    Grouped (removeJobRequest groups pos) := by
  simp only [IceccScheduler.removeJobRequest]
  split
  · exact h
  · rename_i g hg
    have hrest : Grouped (groups.eraseIdx pos.1) := h.sublist (List.eraseIdx_sublist _ _)
    split
    · exact hrest
    · rename_i hleft
      refine hrest.enqueueJobRequestsGroup ?_ hleft
      obtain ⟨hlt, hget⟩ := List.getElem?_eq_some_iff.mp hg
      have hperm := (List.getElem_cons_eraseIdx_perm hlt).map JobRequestsGroup.key
      rw [hget, List.map_cons] at hperm
      exact (List.nodup_cons.mp (hperm.nodup_iff.mpr h.distinct)).1

theorem Filed.removeJobRequest (pos : JobRequestPosition) (h : Filed P groups) :
    Filed P (removeJobRequest groups pos) := by
  simp only [IceccScheduler.removeJobRequest]
  split
  · exact h
  · rename_i g hg
    have hrest : Filed P (groups.eraseIdx pos.1) := h.subset (List.eraseIdx_sublist _ _).subset
    split
    · exact hrest
    · exact hrest.enqueueJobRequestsGroup fun p hp =>
        h g (List.mem_of_getElem? hg) p (List.mem_of_mem_erase hp)

namespace Scheduler

theorem dequeue_keys (cid ptr : ℕ) (groups : List JobRequestsGroup) :
    ((dequeue cid ptr groups).map JobRequestsGroup.key).Sublist
      (groups.map JobRequestsGroup.key) := by
  induction groups with
  | nil => exact .refl _
  | cons g rest ih =>
    simp only [dequeue]
    split
    · split
      · exact List.sublist_cons_self _ _
      · exact ih.cons_cons _
    · exact ih.cons_cons _

theorem mem_dequeue {cid ptr : ℕ} {g : JobRequestsGroup} (h : g ∈ dequeue cid ptr groups) :
    g ∈ groups ∨ ∃ g' ∈ groups, g = { g' with l := g'.l.erase ptr } ∧ g.l ≠ [] := by
  induction groups with
  | nil => exact .inl h
  | cons a rest ih =>
    have htail : g ∈ dequeue cid ptr rest → g ∈ a :: rest ∨
        ∃ g' ∈ a :: rest, g = { g' with l := g'.l.erase ptr } ∧ g.l ≠ [] := by
      intro hg
      refine (ih hg).imp (List.mem_cons_of_mem a) fun hg => ?_
      obtain ⟨g', hg', hrest⟩ := hg
      exact ⟨g', List.mem_cons_of_mem a hg', hrest⟩
    simp only [dequeue] at h
    split at h
    · split at h
      · exact .inl (List.mem_cons_of_mem a h)
      · rename_i hleft
        rcases List.mem_cons.mp h with rfl | hg
        · exact .inr ⟨a, List.mem_cons_self, rfl, hleft⟩
        · exact htail hg
    · rcases List.mem_cons.mp h with rfl | hg
      · exact .inl List.mem_cons_self
      · exact htail hg

theorem dequeue_grouped (cid ptr : ℕ) (h : Grouped groups) : Grouped (dequeue cid ptr groups) := by
  refine h.of_keys (dequeue_keys cid ptr groups) fun g hg => ?_
  rcases mem_dequeue hg with hold | ⟨-, -, -, hleft⟩
  · exact h.nonempty g hold
  · exact hleft

theorem dequeue_filed (cid ptr : ℕ) (h : Filed P groups) : Filed P (dequeue cid ptr groups) := by
  intro g hg p hp
  rcases mem_dequeue hg with hold | ⟨g', hg', rfl, -⟩
  · exact h g hold p hp
  · exact h g' hg' p (List.mem_of_mem_erase hp)

/-- The job is out of the queue: the loop stops early only behind the group that it was in. -/
theorem dequeue_gone {cid ptr : ℕ} (hnonempty : ∀ g ∈ groups, g.l ≠ [])
    (hnodup : ((waiting groups).map Prod.snd).Nodup)
    (hcid : ∀ g ∈ groups, ptr ∈ g.l → g.submitter = cid) :
    ∀ g ∈ dequeue cid ptr groups, ptr ∉ g.l := by
  induction groups with
  | nil => exact nofun
  | cons a rest ih =>
    rw [waiting_cons, List.map_append, List.map_map, List.nodup_append] at hnodup
    obtain ⟨hfirst, hrest, hdisjoint⟩ := hnodup
    have hl : a.l.Nodup := by simpa [Function.comp_def] using hfirst
    have hlater : ptr ∈ a.l → ∀ g ∈ rest, ptr ∉ g.l := by
      intro hptr g hg hmem
      refine hdisjoint ptr (List.mem_map.mpr ⟨ptr, hptr, rfl⟩) ptr ?_ rfl
      exact List.mem_map.mpr ⟨(g.submitter, ptr), mem_waiting.mpr ⟨g, hg, rfl, hmem⟩, rfl⟩
    have hnext := ih (fun g hg => hnonempty g (List.mem_cons_of_mem a hg)) hrest
      fun g hg => hcid g (List.mem_cons_of_mem a hg)
    simp only [dequeue]
    by_cases hmine : a.submitter = cid
    · rw [if_pos hmine]
      by_cases hempty : a.l.erase ptr = []
      · rw [if_pos hempty]
        refine hlater ?_
        by_contra hnot
        rw [List.erase_of_not_mem hnot] at hempty
        exact hnonempty a List.mem_cons_self hempty
      · rw [if_neg hempty]
        intro g hg
        rcases List.mem_cons.mp hg with rfl | hg
        · exact hl.not_mem_erase
        · exact hnext g hg
    · rw [if_neg hmine]
      intro g hg
      rcases List.mem_cons.mp hg with rfl | hg
      · exact fun hptr => hmine (hcid g List.mem_cons_self hptr)
      · exact hnext g hg

end Scheduler

end Icecream.IceccScheduler
