import Mathlib.Data.List.DropRight
import Mathlib.Data.List.Infix

/-!
# Lexical path normalisation

Paths are byte strings with `/` between components. A normal form is the list of
real components from the root; `.` and empty components are skipped, and `..` takes
the last component back (nothing at the root).
-/

namespace Icecream.Path

abbrev Name := List UInt8

def slash : UInt8 := 47
def dot : Name := [46]
def dotDot : Name := [46, 46]

def components (s : Name) : List Name := s.splitOn slash

/-- One component read in the directory `p`. -/
def step (p : List Name) (c : Name) : List Name :=
  if c = [] ∨ c = dot then p
  else if c = dotDot then p.dropLast
  else p ++ [c]

def resolve (p : List Name) (cs : List Name) : List Name := cs.foldl step p

def normalise (s : Name) : List Name := resolve [] (components s)

/-! ## Absolute paths -/

/-- The path with a slash before each component -/
def joined (cs : List Name) : Name := cs.flatMap (slash :: ·)

/-- How a normal form is written -/
def render (p : List Name) : Name := if p = [] then [slash] else joined p

variable {cs ds : List Name} {c : Name}

@[simp] theorem joined_cons : joined (c :: cs) = slash :: (c ++ joined cs) := rfl

theorem joined_append : joined (cs ++ ds) = joined cs ++ joined ds := List.flatMap_append

/-- A path is what is before its first slash, and its components. -/
theorem exists_joined (s : Name) :
    ∃ w cs, s = w ++ joined cs ∧ slash ∉ w ∧ ∀ c ∈ cs, slash ∉ c := by
  induction s with
  | nil => exact ⟨[], [], rfl, List.not_mem_nil, List.forall_mem_nil _⟩
  | cons x s ih =>
    obtain ⟨w, cs, rfl, hw, hcs⟩ := ih
    by_cases hx : x = slash
    · subst hx
      exact ⟨[], w :: cs, rfl, List.not_mem_nil, List.forall_mem_cons.mpr ⟨hw, hcs⟩⟩
    · exact ⟨x :: w, cs, rfl, by simp [Ne.symm hx, hw], hcs⟩

/-- An absolute path -/
theorem exists_joined_concat {s : Name} (h : s.head? = some slash) :
    ∃ cs c, s = joined (cs ++ [c]) ∧ ∀ d ∈ cs ++ [c], slash ∉ d := by
  obtain ⟨w, cs, rfl, hw, hcs⟩ := exists_joined s
  cases w with
  | cons x w =>
    obtain rfl : x = slash := Option.some.inj h
    exact absurd List.mem_cons_self hw
  | nil =>
    have hne : cs ≠ [] := by
      rintro rfl
      cases h
    refine ⟨cs.dropLast, cs.getLast hne, ?_, ?_⟩
    · rw [List.dropLast_append_getLast]
      rfl
    · rwa [List.dropLast_append_getLast]

theorem components_append (hc : slash ∉ c) (hcs : ∀ d ∈ cs, slash ∉ d) :
    components (c ++ joined cs) = c :: cs := by
  induction cs generalizing c with
  | nil =>
    rw [joined, List.flatMap_nil, List.append_nil]
    exact List.splitOn_eq_singleton hc
  | cons d cs ih =>
    rw [List.forall_mem_cons] at hcs
    rw [joined_cons, components, List.splitOn_append_cons_self_of_not_mem hc]
    exact congrArg (c :: ·) (ih hcs.1 hcs.2)

/-! ## What `..` takes back -/

def isName (c : Name) : Bool := c ≠ [] ∧ c ≠ dot ∧ c ≠ dotDot

/-- Whatever is not `..`, be it a directory or not -/
def isOther (c : Name) : Bool := c ≠ dotDot

/-- The components lead up past where they begin, if the `names` are directories. -/
def Climbs (names : Name → Bool) (cs : List Name) : Prop :=
  ∃ n, (cs.take n).countP names < (cs.take n).count dotDot

section Climbing

variable {names : Name → Bool} {p : List Name}

/-- One component read, where each of `names` is a directory -/
def descend (names : Name → Bool) (p : List Name) (c : Name) : List Name :=
  if c = dotDot then p.dropLast else if names c then p ++ [c] else p

/-- How far the components lead up past where they begin -/
def climb (names : Name → Bool) : List Name → ℕ
  | [] => 0
  | c :: cs => if c = dotDot then climb names cs + 1
      else if names c then climb names cs - 1 else climb names cs

/-- The names that are not taken back -/
def kept (names : Name → Bool) : List Name → List Name
  | [] => []
  | c :: cs => if c ≠ dotDot ∧ names c = true ∧ climb names cs = 0 then c :: kept names cs
      else kept names cs

theorem rdrop_succ (p : List Name) (n : ℕ) : p.rdrop (n + 1) = p.dropLast.rdrop n := by
  rcases List.eq_nil_or_concat p with rfl | ⟨p, c, rfl⟩
  · simp
  · rw [List.concat_eq_append, List.rdrop_concat_succ, List.dropLast_concat]

theorem foldl_descend (p cs : List Name) :
    cs.foldl (descend names) p = p.rdrop (climb names cs) ++ kept names cs := by
  induction cs generalizing p with
  | nil => simp [climb, kept]
  | cons c cs ih =>
    rw [List.foldl_cons, ih]
    by_cases hc : c = dotDot
    · simp [descend, climb, kept, hc, rdrop_succ]
    · cases hname : names c with
      | false => simp [descend, climb, kept, hc, hname]
      | true =>
        cases hclimb : climb names cs with
        | zero => simp [descend, climb, kept, hc, hname, hclimb]
        | succ n => simp [descend, climb, kept, hc, hname, hclimb]

/-- The first component is there if a beginning leads up at all. -/
theorem exists_take_cons (c : Name) (cs : List Name) (k : ℕ) :
    (∃ n, ((c :: cs).take n).countP names + k < ((c :: cs).take n).count dotDot) ↔
      ∃ n, (c :: cs.take n).countP names + k < (c :: cs.take n).count dotDot := by
  constructor
  · rintro ⟨n, hn⟩
    cases n with
    | zero => simp at hn
    | succ n => exact ⟨n, hn⟩
  · rintro ⟨n, hn⟩
    exact ⟨n + 1, hn⟩

theorem kept_eq_foldl (cs : List Name) : kept names cs = cs.foldl (descend names) [] := by
  rw [foldl_descend, List.rdrop_nil, List.nil_append]

theorem lt_climb (hnames : names dotDot = false) (k : ℕ) : k < climb names cs ↔
    ∃ n, (cs.take n).countP names + k < (cs.take n).count dotDot := by
  induction cs generalizing k with
  | nil => simp [climb]
  | cons c cs ih =>
    rw [exists_take_cons]
    by_cases hc : c = dotDot
    · subst hc
      simp only [climb, if_true, List.countP_cons, hnames, Bool.false_eq_true, if_false, Nat.add_zero,
        List.count_cons_self]
      cases k with
      | zero => exact ⟨fun _ => ⟨0, by simp⟩, fun _ => Nat.succ_pos _⟩
      | succ k => simpa [← Nat.add_assoc] using ih k
    · have hcount : ∀ n, (c :: cs.take n).count dotDot = (cs.take n).count dotDot := fun n =>
        List.count_cons_of_ne hc
      cases hname : names c with
      | false => simpa [climb, hc, hname, hcount] using ih k
      | true =>
        simp only [climb, hc, hname, if_false, if_true, List.countP_cons, hcount]
        rw [Nat.lt_sub_iff_add_lt, ih (k + 1)]
        simp only [Nat.add_assoc, Nat.add_comm 1]

theorem climbs_iff (hnames : names dotDot = false) : Climbs names cs ↔ 0 < climb names cs := by
  rw [lt_climb hnames]
  rfl

theorem isName_of_mem_kept (hc : c ∈ kept names cs) : c ∈ cs ∧ names c = true ∧ c ≠ dotDot := by
  induction cs with
  | nil => cases hc
  | cons d cs ih =>
    rw [kept] at hc
    split at hc
    · rename_i hd
      rcases List.mem_cons.mp hc with rfl | hc
      · exact ⟨List.mem_cons_self, hd.2.1, hd.1⟩
      · exact ⟨List.mem_cons_of_mem d (ih hc).1, (ih hc).2⟩
    · exact ⟨List.mem_cons_of_mem d (ih hc).1, (ih hc).2⟩

end Climbing

theorem step_eq : step = descend isName := by
  funext p c
  by_cases hskip : c = [] ∨ c = dot
  · have hc : c ≠ dotDot := by
      rcases hskip with rfl | rfl
      · decide
      · decide
    have hname : isName c = false := by
      simp only [isName, decide_eq_false_iff_not]
      tauto
    rw [step, if_pos hskip, descend, if_neg hc, hname]
    rfl
  · rw [step, if_neg hskip, descend]
    by_cases hc : c = dotDot
    · rw [if_pos hc, if_pos hc]
    · have hname : isName c = true := by
        simp only [isName, decide_eq_true_eq]
        tauto
      rw [if_neg hc, if_neg hc, if_pos hname]

theorem resolve_eq (cs : List Name) : resolve [] cs = kept isName cs := by
  rw [resolve, step_eq, kept_eq_foldl]

/-! ## Taking everything for a directory -/

theorem kept_eq_self (h : dotDot ∉ cs) : climb isOther cs = 0 ∧ kept isOther cs = cs := by
  induction cs with
  | nil => exact ⟨rfl, rfl⟩
  | cons c cs ih =>
    rw [List.mem_cons, not_or] at h
    obtain ⟨hclimb, hkept⟩ := ih h.2
    have hc : c ≠ dotDot := Ne.symm h.1
    have hother : isOther c = true := by simp [isOther, hc]
    constructor
    · rw [climb, if_neg hc, if_pos hother, hclimb]
    · rw [kept, if_pos ⟨hc, hother, hclimb⟩, hkept]

/-- `..` takes back what is before it. -/
theorem kept_dotDot {before after : List Name} (hc : c ≠ dotDot) :
    kept isOther (before ++ c :: dotDot :: after) = kept isOther (before ++ after) := by
  have hother : isOther c = true := by simp [isOther, hc]
  simp only [kept_eq_foldl, List.foldl_append, List.foldl_cons]
  congr 1
  rw [descend, if_pos rfl, descend, if_neg hc, if_pos hother, List.dropLast_concat]

theorem climb_le (cs : List Name) : climb isOther cs ≤ climb isName cs := by
  induction cs with
  | nil => exact le_rfl
  | cons c cs ih =>
    simp only [climb]
    by_cases hc : c = dotDot
    · simpa [hc] using ih
    · have hother : isOther c = true := by simp [isOther, hc]
      rw [if_neg hc, if_neg hc, if_pos hother]
      split
      · exact Nat.sub_le_sub_right ih 1
      · exact (Nat.sub_le _ _).trans ih

/-- What is kept of one component more -/
theorem kept_cons (c : Name) (cs : List Name) :
    (kept isOther (c :: cs)).filter isName =
      (if isName c = true ∧ climb isOther cs = 0 then [c] else []) ++ (kept isOther cs).filter isName ∧
    kept isName (c :: cs) =
      (if isName c = true ∧ climb isName cs = 0 then [c] else []) ++ kept isName cs := by
  have hother : isName c = true → c ≠ dotDot ∧ isOther c = true := by
    simp only [isName, isOther, decide_eq_true_eq]
    tauto
  simp only [kept]
  cases hname : isName c with
  | false =>
    constructor
    · split
      · simp [hname]
      · simp
    · simp
  | true =>
    obtain ⟨hc, ho⟩ := hother hname
    by_cases hclimb : climb isOther cs = 0
    · by_cases hclimb' : climb isName cs = 0
      · simp [hc, ho, hname, hclimb, hclimb']
      · simp [hc, ho, hname, hclimb, hclimb']
    · by_cases hclimb' : climb isName cs = 0
      · simp [hc, ho, hclimb, hclimb']
      · simp [hc, ho, hclimb, hclimb']

theorem kept_sublist (cs : List Name) :
    (kept isName cs).Sublist ((kept isOther cs).filter isName) := by
  induction cs with
  | nil => exact List.Sublist.slnil
  | cons c cs ih =>
    rw [(kept_cons c cs).1, (kept_cons c cs).2]
    refine List.Sublist.append ?_ ih
    have hle := climb_le cs
    split
    · rename_i hkept
      rw [if_pos ⟨hkept.1, by omega⟩]
    · exact List.nil_sublist _

theorem forall_suffix_cons {P : Name → List Name → Prop} {d : Name} :
    (∀ c rest, c :: rest <:+ d :: cs → P c rest) ↔ P d cs ∧ ∀ c rest, c :: rest <:+ cs → P c rest := by
  simp only [List.suffix_cons_iff, List.cons.injEq]
  constructor
  · exact fun h => ⟨h d cs (.inl ⟨rfl, rfl⟩), fun c rest hc => h c rest (.inr hc)⟩
  · rintro ⟨hfirst, hrest⟩ c rest (⟨rfl, rfl⟩ | hc)
    · exact hfirst
    · exact hrest c rest hc

/-- Each name that is left is left even if `.` and empty components are directories. -/
theorem kept_eq_iff (cs : List Name) : (kept isOther cs).filter isName = kept isName cs ↔
    ∀ c rest, c :: rest <:+ cs → isName c = true → Climbs isName rest → Climbs isOther rest := by
  induction cs with
  | nil => simp [kept]
  | cons d cs ih =>
    have hle := climb_le cs
    rw [(kept_cons d cs).1, (kept_cons d cs).2, forall_suffix_cons, ← ih, climbs_iff rfl,
      climbs_iff rfl]
    by_cases hlost : isName d = true ∧ climb isOther cs = 0 ∧ climb isName cs ≠ 0
    · obtain ⟨hname, hother, hclimb⟩ := hlost
      have hlength := (kept_sublist cs).length_le
      simp only [hname, hother, hclimb, true_and, and_false, if_true, if_false, List.nil_append]
      constructor
      · intro heq
        have hlonger := congrArg List.length heq
        rw [List.length_append, List.length_singleton] at hlonger
        omega
      · intro h
        exact absurd (h.1 trivial (Nat.pos_of_ne_zero hclimb)) (Nat.lt_irrefl 0)
    · have hsame : (isName d = true ∧ climb isOther cs = 0) ↔ isName d = true ∧ climb isName cs = 0 := by
        constructor
        · exact fun h => ⟨h.1, by_contra fun hne => hlost ⟨h.1, h.2, hne⟩⟩
        · exact fun h => ⟨h.1, by omega⟩
      have hfirst : isName d = true → 0 < climb isName cs → 0 < climb isOther cs := by
        intro hname hpos
        refine Nat.pos_of_ne_zero fun hzero => ?_
        have := (hsame.mp ⟨hname, hzero⟩).2
        omega
      rw [if_congr hsame rfl rfl, List.append_cancel_left_eq]
      exact ⟨fun h => ⟨hfirst, h⟩, fun h => h.2⟩

theorem kept_nil_iff (cs : List Name) : (kept isOther cs).filter isName = [] ↔
    ∀ c rest, c :: rest <:+ cs → isName c = true → Climbs isOther rest := by
  induction cs with
  | nil => simp [kept]
  | cons d cs ih =>
    rw [(kept_cons d cs).1, forall_suffix_cons, ← ih, climbs_iff rfl, List.append_eq_nil_iff]
    refine and_congr_left fun _ => ?_
    cases hname : isName d with
    | false => simp
    | true => simp [Nat.pos_iff_ne_zero]

/-! ## Reading on from a directory -/

theorem components_append_cons (s t : Name) :
    components (s ++ slash :: t) = components s ++ components t :=
  List.splitOn_append_cons_self s t

theorem slash_not_mem_components {s : Name} (hc : c ∈ components s) : slash ∉ c := by
  obtain ⟨w, cs, rfl, hw, hcs⟩ := exists_joined s
  rw [components_append hw hcs, List.mem_cons] at hc
  rcases hc with rfl | hc
  · exact hw
  · exact hcs c hc

theorem normalise_append (s t : Name) :
    normalise (s ++ slash :: t) = resolve (normalise s) (components t) := by
  rw [normalise, components_append_cons, resolve, List.foldl_append]
  rfl

theorem resolve_append (p cs ds : List Name) : resolve p (cs ++ ds) = resolve (resolve p cs) ds :=
  List.foldl_append

/-- The names of a normal form are real ones. -/
theorem mem_normalise {s : Name} (hc : c ∈ normalise s) : slash ∉ c ∧ isName c = true := by
  rw [normalise, resolve_eq] at hc
  obtain ⟨hmem, hname, -⟩ := isName_of_mem_kept hc
  exact ⟨slash_not_mem_components hmem, hname⟩

theorem step_isName (p : List Name) (hc : isName c = true) : step p c = p ++ [c] := by
  simp only [isName, decide_eq_true_eq] at hc
  rw [step, if_neg (not_or.mpr ⟨hc.1, hc.2.1⟩), if_neg hc.2.2]

theorem resolve_names (p : List Name) (h : ∀ c ∈ cs, isName c = true) : resolve p cs = p ++ cs := by
  induction cs generalizing p with
  | nil => exact (List.append_nil p).symm
  | cons c cs ih =>
    rw [List.forall_mem_cons] at h
    rw [resolve, List.foldl_cons, step_isName p h.1]
    exact (ih (p ++ [c]) h.2).trans (List.append_cons p c cs).symm

theorem resolve_replicate (p : List Name) (n : ℕ) :
    resolve p (List.replicate n dotDot) = p.rdrop n := by
  induction n generalizing p with
  | zero => simp [resolve]
  | succ n ih =>
    have hstep : step p dotDot = p.dropLast := rfl
    rw [List.replicate_succ, resolve, List.foldl_cons, hstep, rdrop_succ]
    exact ih p.dropLast

/-- Empty components make no difference. -/
theorem resolve_filter (p cs : List Name) : resolve p (cs.filter (· ≠ [])) = resolve p cs := by
  induction cs generalizing p with
  | nil => rfl
  | cons c cs ih =>
    by_cases hc : c = []
    · subst hc
      exact ih p
    · rw [List.filter_cons_of_pos (by simpa using hc)]
      exact ih (step p c)

variable {p : List Name}

theorem components_render (h : ∀ c ∈ p, slash ∉ c) :
    components (render p) = [] :: if p = [] then [[]] else p := by
  cases p with
  | nil => rfl
  | cons c p => exact components_append List.not_mem_nil h

theorem normalise_render (h : ∀ c ∈ p, slash ∉ c ∧ isName c = true) : normalise (render p) = p := by
  rw [normalise, components_render fun c hc => (h c hc).1]
  split
  · rename_i hp
    rw [hp]
    rfl
  · exact resolve_names [] fun c hc => (h c hc).2

theorem head?_render (p : List Name) : (render p).head? = some slash := by
  cases p with
  | nil => rfl
  | cons c p => rfl

end Icecream.Path
