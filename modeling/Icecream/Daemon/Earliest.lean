import Icecream.Daemon.Steps
import Icecream.Library.Selection

/-!
# The client that waits longest

`get_earliest_client` scans the clients in the order of their addresses. It is meant to
find the client of a status with the smallest niceness, and among those the smallest id.
-/

namespace Icecream.Iceccd

open Icecream.Selection

def Client.Before (a b : Client) : Prop :=
  a.niceness < b.niceness ∨ (a.niceness = b.niceness ∧ a.clientId < b.clientId)

theorem Client.Before.asymm {a b : Client} (h : a.Before b) : ¬ b.Before a := by
  rintro (hba | ⟨heq, hid⟩)
  · rcases h with hab | ⟨heq, -⟩
    · exact UInt32.lt_asymm hab hba
    · rw [heq] at hba
      exact UInt32.lt_irrefl _ hba
  · rcases h with hab | ⟨-, hid'⟩
    · rw [heq] at hab
      exact UInt32.lt_irrefl _ hab
    · omega

/-- What the scan is to return -/
def Earliest (s : Status) (l : List Client) : Option Client → Prop
  | none => ∀ c ∈ l, c.status ≠ s
  | some m => m ∈ l ∧ m.status = s ∧ ∀ c ∈ l, c.status = s → c ≠ m → m.Before c

theorem Earliest.unique {s : Status} {l l' : List Client} {m : Client} {found : Option Client}
    (h : Earliest s l (some m)) (h' : Earliest s l' found) (hl : l'.Perm l) :
    found = some m := by
  obtain ⟨hm, hs, hmin⟩ := h
  cases found with
  | none => exact absurd hs (h' m (hl.mem_iff.mpr hm))
  | some m' =>
    obtain ⟨hm', hs', hmin'⟩ := h'
    by_cases hne : m' = m
    · rw [hne]
    · have hmm' := hmin m' (hl.mem_iff.mp hm') hs' hne
      have hm'm := hmin' m (hl.mem_iff.mpr hm) hs (Ne.symm hne)
      exact absurd hm'm hmm'.asymm

namespace Clients

/-- The joint condition of the scan -/
def Beats (c b : Client) : Prop := c.clientId < b.clientId ∧ c.niceness < b.niceness

instance : DecidableRel Beats := fun c b =>
  inferInstanceAs (Decidable (c.clientId < b.clientId ∧ c.niceness < b.niceness))

theorem beats_asymm (c b : Client) (h : Beats c b) : ¬ Beats b c :=
  fun h' => Nat.lt_asymm h.1 h'.1

/-- The scan starts from the largest niceness, and takes only what is below it. -/
def Candidate (s : Status) (c : Client) : Prop := c.status = s ∧ c.niceness < 4294967295

instance (s : Status) : DecidablePred (Candidate s) := fun c =>
  inferInstanceAs (Decidable (c.status = s ∧ c.niceness < 4294967295))

def mark : Option Client → Option Client × ℕ × UInt32
  | none => (none, 0, 4294967295)
  | some b => (some b, b.clientId, b.niceness)

theorem earlier_none (s : Status) (c : Client) :
    earlier s (mark none) c = mark (if Candidate s c then some c else none) := by
  by_cases hc : Candidate s c
  · rw [if_pos hc]
    exact if_pos ⟨hc.1, .inl rfl, hc.2⟩
  · rw [if_neg hc]
    exact if_neg fun h => hc ⟨h.1, h.2.2⟩

theorem earlier_some (s : Status) {b c : Client} (hb : 0 < b.clientId) :
    earlier s (mark (some b)) c = mark (if Candidate s c ∧ Beats c b then some c else some b) := by
  have hlast : b.niceness ≤ 4294967295 := UInt32.le_iff_toNat_le.mpr
    (Nat.le_of_lt_succ b.niceness.toNat_lt)
  by_cases hc : Candidate s c ∧ Beats c b
  · rw [if_pos hc]
    exact if_pos ⟨hc.1.1, .inr hc.2.1, hc.2.2⟩
  · rw [if_neg hc]
    apply if_neg
    rintro ⟨hs, hid, hnice⟩
    have hlt : c.clientId < b.clientId := hid.resolve_left (Nat.ne_of_gt hb)
    exact hc ⟨⟨hs, UInt32.lt_of_lt_of_le hnice hlast⟩, hlt, hnice⟩

variable {s : Status} {l : List Client}

theorem foldl_earlier (best : Option Client) (hbest : ∀ b ∈ best, 0 < b.clientId)
    (hl : ∀ c ∈ l, 0 < c.clientId) :
    l.foldl (earlier s) (mark best) =
      mark ((l.filter fun c => Candidate s c).foldl (keep Beats) best) := by
  induction l generalizing best with
  | nil => rfl
  | cons c l ih =>
    have hc : 0 < c.clientId := hl c List.mem_cons_self
    have htail : ∀ x ∈ l, 0 < x.clientId := fun x hx => hl x (List.mem_cons_of_mem c hx)
    have hturn : earlier s (mark best) c =
        mark (if Candidate s c then keep Beats best c else best) := by
      cases best with
      | none => exact earlier_none s c
      | some b =>
        rw [earlier_some s (hbest b rfl)]
        by_cases hcand : Candidate s c <;> by_cases hbeats : Beats c b <;>
          simp [hcand, hbeats, keep]
    rw [List.foldl_cons, hturn, List.filter_cons]
    by_cases hcand : Candidate s c
    · simp only [hcand, if_true, decide_true, List.foldl_cons]
      apply ih _ _ htail
      intro b hb
      cases best with
      | none =>
        cases hb
        exact hc
      | some b₀ =>
        by_cases hbeats : Beats c b₀
        · rw [keep, if_pos hbeats] at hb
          cases hb
          exact hc
        · rw [keep, if_neg hbeats] at hb
          exact hbest b hb
    · simp only [hcand, if_false, decide_false, Bool.false_eq_true]
      exact ih best hbest htail

theorem getEarliestClient_winner (hl : ∀ c ∈ l, 0 < c.clientId) :
    Clients.getEarliestClient { list := l } s =
      winner Beats (l.filter fun c => Candidate s c) := by
  have hnone : ∀ b ∈ (none : Option Client), 0 < b.clientId := by simp
  have hfold := foldl_earlier (s := s) none hnone hl
  change (l.foldl (earlier s) (mark none)).1 = _
  rw [hfold]
  cases hw : winner Beats (l.filter fun c => Candidate s c) with
  | none => exact congrArg (fun o => (mark o).1) hw
  | some b => exact congrArg (fun o => (mark o).1) hw

/-- Nobody waits, or somebody is below all others the scan takes in both respects. -/
def Clear (s : Status) (l : List Client) : Prop :=
  (∀ c ∈ l, c.status ≠ s) ∨
    ∃ m ∈ l, Candidate s m ∧ ∀ c ∈ l, Candidate s c → c ≠ m →
      m.clientId < c.clientId ∧ m.niceness < c.niceness

theorem Clear.earliest (h : Clear s l) (hl : ∀ c ∈ l, 0 < c.clientId) :
    Earliest s l (getEarliestClient { list := l } s) := by
  rw [getEarliestClient_winner hl]
  rcases h with hnone | ⟨m, hm, hcand, hmin⟩
  · have hempty : (l.filter fun c => Candidate s c) = [] := by
      simp only [List.filter_eq_nil_iff, decide_eq_true_eq]
      exact fun c hc hcand => hnone c hc hcand.1
    rw [hempty]
    exact hnone
  · have hwin : winner Beats (l.filter fun c => Candidate s c) = some m := by
      apply winner_of_beats beats_asymm (by simp [hm, hcand])
      intro c hc hne
      simp only [List.mem_filter, decide_eq_true_eq] at hc
      exact hmin c hc.1 hc.2 hne
    rw [hwin]
    refine ⟨hm, hcand.1, fun c hc hs hne => .inl ?_⟩
    by_cases hcc : Candidate s c
    · exact (hmin c hc hcc hne).2
    · -- what the scan does not take has the largest niceness there is
      have hlarge : ¬ c.niceness < 4294967295 := fun hlt => hcc ⟨hs, hlt⟩
      exact UInt32.lt_of_lt_of_le hcand.2 (UInt32.not_lt.mp hlarge)

theorem Clear.perm {l' : List Client} (h : Clear s l) (hl : l'.Perm l) : Clear s l' := by
  rcases h with hnone | ⟨m, hm, hcand, hmin⟩
  · exact .inl fun c hc => hnone c (hl.mem_iff.mp hc)
  · exact .inr ⟨m, hl.mem_iff.mpr hm, hcand, fun c hc => hmin c (hl.mem_iff.mp hc)⟩

/-- The scan finds the earliest client in every order of the clients just when no second
client is earlier in one respect and later in the other. -/
theorem getEarliestClient_iff (hnd : (l.map Client.clientId).Nodup)
    (hl : ∀ c ∈ l, 0 < c.clientId) (s : Status) :
    (∀ l' : List Client, l'.Perm l → Earliest s l' (getEarliestClient { list := l' } s)) ↔
      Clear s l := by
  constructor
  · intro h
    have hfirst := h l (.refl l)
    cases hget : getEarliestClient { list := l } s with
    | none =>
      rw [hget] at hfirst
      exact .inl hfirst
    | some m =>
      rw [hget] at hfirst
      -- an order of the candidates is an order of the clients
      have hwin : ∀ q : List Client, q.Perm (l.filter fun c => Candidate s c) →
          winner Beats q = some m := by
        intro q hq
        have hperm : (q ++ l.filter fun c => ¬ Candidate s c).Perm l :=
          (hq.append_right _).trans (by simpa using List.filter_append_perm _ l)
        have hfilter : ((q ++ l.filter fun c => ¬ Candidate s c).filter
            fun c => Candidate s c) = q := by
          have hall : ∀ c ∈ q, decide (Candidate s c) = true := by
            intro c hc
            have hin := hq.mem_iff.mp hc
            simp only [List.mem_filter] at hin
            exact hin.2
          rw [List.filter_append, List.filter_eq_self.mpr hall]
          simp [List.filter_filter]
        have hget' := hfirst.unique (h _ hperm) hperm
        rw [getEarliestClient_winner fun c hc => hl c (hperm.mem_iff.mp hc), hfilter] at hget'
        exact hget'
      have hnodup : (l.filter fun c => Candidate s c).Nodup := hnd.of_map.filter _
      obtain ⟨hm, hmin⟩ := (winner_perm_iff beats_asymm hnodup).mp hwin
      simp only [List.mem_filter, decide_eq_true_eq] at hm hmin
      exact .inr ⟨m, hm.1, hm.2, fun c hc hcand hne => hmin c ⟨hc, hcand⟩ hne⟩
  · intro h l' hl'
    exact (h.perm hl').earliest fun c hc => hl c (hl'.mem_iff.mp hc)

/-- A client that waits for a slot. -/
def waiting (id : ℕ) (niceness : UInt32) : Client :=
  { clientId := id, fd := id, protocol := 44, status := .toCompile, niceness }

theorem getEarliestClient_iff_two :
    ([waiting 1 0, waiting 2 5].map Client.clientId).Nodup ∧
    ∀ l' : List Client, l'.Perm [waiting 1 0, waiting 2 5] →
      Earliest .toCompile l' (getEarliestClient { list := l' } .toCompile) := by
  refine ⟨by decide, ?_⟩
  apply (getEarliestClient_iff (by decide) (by decide) .toCompile).mpr
  exact .inr ⟨waiting 1 0, by decide, by decide, by decide⟩

/-- Of two equally nice clients the one at the lower address is taken. -/
theorem getEarliestClient_by_address :
    getEarliestClient { list := [waiting 1 0, waiting 2 0] } .toCompile = some (waiting 1 0) ∧
    getEarliestClient { list := [waiting 2 0, waiting 1 0] } .toCompile = some (waiting 2 0) ∧
    ¬ Earliest .toCompile [waiting 2 0, waiting 1 0]
      (getEarliestClient { list := [waiting 2 0, waiting 1 0] } .toCompile) := by
  have hsecond : getEarliestClient { list := [waiting 2 0, waiting 1 0] } .toCompile =
      some (waiting 2 0) := by decide
  refine ⟨by decide, hsecond, ?_⟩
  rw [hsecond]
  rintro ⟨-, -, hmin⟩
  have hbefore := hmin (waiting 1 0) (by decide) rfl (by decide)
  rcases hbefore with hnice | ⟨-, hid⟩
  · exact absurd hnice (by decide)
  · exact absurd hid (by decide)

end Clients

end Icecream.Iceccd
