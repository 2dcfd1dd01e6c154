import Mathlib.Data.List.Nodup
import Icecream.Library.Path

/-!
# A file system with symbolic links

A finite list of nodes, each under its path from the root, in the order in which directories
are read. A path is followed component by component; a link on the way is replaced by its
target, forty times at most.
-/

namespace Icecream.FileSystem

open Icecream.Path (Name dot dotDot slash components)

abbrev Place := List Name

inductive Kind where
  | file | dir
  | link (target : Name)
  deriving DecidableEq

abbrev Fs := List (Place × Kind)

def Proper (c : Name) : Prop := c ≠ [] ∧ c ≠ dot ∧ c ≠ dotDot

instance (c : Name) : Decidable (Proper c) := inferInstanceAs (Decidable (_ ∧ _))

/-- What may be read and removed -/
structure Rights where
  reads : Place → Bool
  removes : Place → Bool

def Rights.Permits (rights : Rights) (p : Place) : Prop :=
  rights.reads p = true ∧ rights.removes p = true

namespace Fs

def kind (fs : Fs) (p : Place) : Option Kind := if p = [] then some .dir else fs.lookup p

/-- The names in a directory -/
def names (fs : Fs) (p : Place) : List Name :=
  fs.filterMap fun node => if node.1.dropLast = p then node.1.getLast? else none

/-- The nodes that are not in `places` -/
def without (fs : Fs) (places : List Place) : Fs := fs.filter fun node => node.1 ∉ places

/-! ## Following a path -/

/-- How far a path leads without a link -/
inductive Reach where
  | found (p : Place)
  | missing
  | link (p : Place) (target : Name) (rest : List Name)

def scan (fs : Fs) : Place → List Name → Reach
  | p, [] => .found p
  | p, c :: cs =>
    if fs.kind p ≠ some .dir then .missing
    else if c = [] ∨ c = dot then scan fs p cs
    else if c = dotDot then scan fs p.dropLast cs
    else
      match fs.kind (p ++ [c]) with
      | none => .missing
      | some (.link target) => .link p target cs
      | some _ => scan fs (p ++ [c]) cs

/-- Where a link leads on from `p` -/
def base (p : Place) (target : Name) : Place := if target.head? = some slash then [] else p

def follow (fs : Fs) : ℕ → Place → List Name → Option Place
  | 0, p, cs =>
    match fs.scan p cs with
    | .found q => some q
    | _ => none
  | links + 1, p, cs =>
    match fs.scan p cs with
    | .found q => some q
    | .missing => none
    | .link q target rest => follow fs links (base q target) (components target ++ rest)

def maxLinks : ℕ := 40

/-- The place of the last component, which is not followed -/
def locate (fs : Fs) (path : Place) : Option Place :=
  match path.getLast? with
  | none => none
  | some c =>
    (fs.follow maxLinks [] path.dropLast).bind fun p =>
      if fs.kind p = some .dir then some (p ++ [c]) else none

def stat (fs : Fs) (path : Place) : Option Kind := (fs.follow maxLinks [] path).bind fs.kind

/-! ## The calls -/

def opendir (fs : Fs) (rights : Rights) (path : Place) : Option (List Name) :=
  (fs.follow maxLinks [] path).bind fun p =>
    if fs.kind p = some .dir ∧ rights.reads p = true then some (fs.names p) else none

/-- True where the call succeeds -/
def unlink (fs : Fs) (rights : Rights) (path : Place) : Fs × Bool :=
  match fs.locate path with
  | none => (fs, false)
  | some p =>
    match fs.kind p with
    | none | some .dir => (fs, false)
    | some _ => if rights.removes p then (fs.without [p], true) else (fs, false)

def rmdir (fs : Fs) (rights : Rights) (path : Place) : Fs × Bool :=
  match fs.locate path with
  | none => (fs, false)
  | some p =>
    if fs.kind p = some .dir ∧ fs.names p = [] ∧ rights.removes p = true then (fs.without [p], true)
    else (fs, false)

/-- Every node is in a directory, under one name. -/
structure Formed (fs : Fs) : Prop where
  nodup : (fs.map Prod.fst).Nodup
  parent : ∀ {p : Place} {c : Name}, fs.kind (p ++ [c]) ≠ none → fs.kind p = some .dir
  proper : ∀ {p : Place} {c : Name}, fs.kind (p ++ [c]) ≠ none → Proper c

/-! ## Nodes and names -/

variable {fs gs : Fs} {p q : Place} {c : Name} {ps qs : List Place}

theorem without_without : (fs.without ps).without qs = fs.without (ps ++ qs) := by
  rw [without, without, without, List.filter_filter]
  congr 1
  funext node
  simp [List.mem_append, Bool.and_comm]

@[simp] theorem without_nil : fs.without [] = fs := by simp [without]

theorem lookup_without : (fs.without ps).lookup p = if p ∈ ps then none else fs.lookup p := by
  induction fs with
  | nil => simp [without]
  | cons node fs ih =>
    obtain ⟨place, k⟩ := node
    rw [without] at ih ⊢
    by_cases hmem : place ∈ ps
    · rw [List.filter_cons_of_neg (by simpa using hmem), ih]
      split
      · rfl
      · next hp =>
        have hne : p ≠ place := by
          rintro rfl
          exact hp hmem
        rw [List.lookup_cons, beq_eq_false_iff_ne.mpr hne]
    · rw [List.filter_cons_of_pos (by simpa using hmem), List.lookup_cons, List.lookup_cons]
      cases hp : p == place with
      | true =>
        obtain rfl := beq_iff_eq.mp hp
        rw [if_neg hmem]
      | false => exact ih

theorem kind_without (h : p ∉ ps) : (fs.without ps).kind p = fs.kind p := by
  rw [kind, kind, lookup_without, if_neg h]

theorem kind_without_mem (h : p ∈ ps) (hp : p ≠ []) : (fs.without ps).kind p = none := by
  rw [kind, if_neg hp, lookup_without, if_pos h]

/-- Nothing is there that was not there before. -/
def Within (gs fs : Fs) : Prop := ∀ {p : Place} {k : Kind}, gs.kind p = some k → fs.kind p = some k

theorem without_within (fs : Fs) (ps : List Place) : (fs.without ps).Within fs := by
  intro p k h
  by_cases hp : p = []
  · rw [kind, if_pos hp] at h ⊢
    exact h
  · rw [kind, if_neg hp, lookup_without] at h
    split at h
    · cases h
    · rwa [kind, if_neg hp]

theorem kind_ne_none (hp : p ≠ []) : fs.kind p ≠ none ↔ ∃ node ∈ fs, node.1 = p := by
  rw [kind, if_neg hp, ne_eq, List.lookup_eq_none_iff]
  push Not
  refine exists_congr fun node => and_congr_right fun _ => ?_
  rw [ne_eq, bne_iff_ne, not_not]
  exact eq_comm

theorem concat_ne_nil (p : Place) (c : Name) : p ++ [c] ≠ [] :=
  List.append_ne_nil_of_right_ne_nil p (List.cons_ne_nil c [])

theorem mem_names : c ∈ fs.names p ↔ fs.kind (p ++ [c]) ≠ none := by
  rw [kind_ne_none (concat_ne_nil p c), names, List.mem_filterMap]
  refine exists_congr fun node => and_congr_right fun _ => ?_
  constructor
  · intro h
    split at h
    · next hlast =>
      rw [← hlast]
      exact (List.dropLast_append_getLast? c h).symm
    · cases h
  · intro h
    rw [h, List.dropLast_concat, if_pos rfl, List.getLast?_concat]

/-- It is enough to look at the nodes. -/
theorem formed_of_nodes (hnodup : (fs.map Prod.fst).Nodup)
    (h : ∀ node ∈ fs, fs.kind node.1.dropLast = some .dir ∧ ∀ c ∈ node.1.getLast?, Proper c) :
    fs.Formed := by
  have hnode : ∀ {p : Place} {c : Name}, fs.kind (p ++ [c]) ≠ none →
      fs.kind p = some .dir ∧ Proper c := by
    intro p c hsome
    obtain ⟨node, hmem, hplace⟩ := (kind_ne_none (concat_ne_nil p c)).mp hsome
    obtain ⟨hdir, hproper⟩ := h node hmem
    rw [hplace, List.dropLast_concat] at hdir
    rw [hplace, List.getLast?_concat] at hproper
    exact ⟨hdir, hproper c rfl⟩
  exact ⟨hnodup, fun hsome => (hnode hsome).1, fun hsome => (hnode hsome).2⟩

theorem names_without (h : ∀ c, p ++ [c] ∉ ps) : (fs.without ps).names p = fs.names p := by
  rw [names, names, without, List.filterMap_filter]
  congr 1
  funext node
  by_cases hmem : node.1 ∈ ps
  · have hnone : (if node.1.dropLast = p then node.1.getLast? else none) = none := by
      by_contra hsome
      obtain ⟨c, hc⟩ := Option.ne_none_iff_exists'.mp hsome
      split at hc
      · next hlast =>
        refine h c ?_
        rw [← hlast, List.dropLast_append_getLast? c hc]
        exact hmem
      · cases hc
    simp [hmem, hnone]
  · simp [hmem]

/-! ## Paths in two parts -/

def Reach.andThen (fs : Fs) (r : Reach) (ds : List Name) : Reach :=
  match r with
  | .found q => fs.scan q ds
  | .missing => .missing
  | .link q target rest => .link q target (rest ++ ds)

theorem scan_append (fs : Fs) (p : Place) (cs ds : List Name) :
    fs.scan p (cs ++ ds) = (fs.scan p cs).andThen fs ds := by
  induction cs generalizing p with
  | nil => rfl
  | cons c cs ih =>
    rw [List.cons_append, scan, scan]
    split
    · rfl
    · split
      · exact ih _
      · split
        · exact ih _
        · split
          · rfl
          · rfl
          · exact ih _

theorem follow_scan {links : ℕ} {cs ds : List Name} (h : fs.scan p cs = fs.scan q ds) :
    fs.follow links p cs = fs.follow links q ds := by
  cases links <;> rw [follow, follow, h]

theorem follow_found {links : ℕ} {cs : List Name} (h : fs.scan p cs = .found q) :
    fs.follow links p cs = some q := by
  cases links <;> rw [follow, h]

theorem follow_missing {links : ℕ} {cs : List Name} (h : fs.scan p cs = .missing) :
    fs.follow links p cs = none := by
  cases links <;> rw [follow, h]

/-- What is followed past a place is followed from there, with the links that are left. -/
theorem follow_append {links : ℕ} {cs ds : List Name} {y : Place}
    (h : fs.follow links p (cs ++ ds) = some y) (hq : fs.follow links p cs = some q) :
    ∃ left ≤ links, fs.follow left q ds = some y := by
  induction links generalizing p cs with
  | zero =>
    rw [follow] at hq
    split at hq
    · next r hscan =>
      cases hq
      have hall := scan_append fs p cs ds
      rw [hscan] at hall
      exact ⟨0, le_rfl, (follow_scan hall).symm.trans h⟩
    · cases hq
  | succ links ih =>
    rw [follow] at hq
    have hall := scan_append fs p cs ds
    split at hq
    · next r hscan =>
      cases hq
      rw [hscan] at hall
      exact ⟨links + 1, le_rfl, (follow_scan hall).symm.trans h⟩
    · cases hq
    · next r target rest hscan =>
      rw [hscan] at hall
      rw [follow, hall] at h
      have hrest : fs.follow links (base r target) (components target ++ rest ++ ds) = some y := by
        rw [List.append_assoc]
        exact h
      obtain ⟨left, hleft, hy⟩ := ih hrest hq
      exact ⟨left, Nat.le_succ_of_le hleft, hy⟩

theorem follow_mono {links more : ℕ} {cs : List Name} {y : Place} (hle : links ≤ more)
    (h : fs.follow links p cs = some y) : fs.follow more p cs = some y := by
  induction links generalizing p cs more with
  | zero =>
    rw [follow] at h
    split at h
    · next r hscan => cases more <;> rw [follow, hscan] <;> exact h
    · cases h
  | succ links ih =>
    obtain ⟨more, rfl⟩ := Nat.exists_eq_add_of_lt hle
    rw [follow] at h ⊢
    split at h
    · exact h
    · cases h
    · exact ih (by omega) h

/-! ## Fewer nodes -/

theorem scan_within (h : gs.Within fs) (p : Place) (cs : List Name) :
    gs.scan p cs = .missing ∨ fs.scan p cs = gs.scan p cs := by
  induction cs generalizing p with
  | nil => exact .inr rfl
  | cons c cs ih =>
    by_cases hdir : gs.kind p = some .dir
    · rw [scan, scan, if_neg (not_not.mpr hdir), if_neg (not_not.mpr (h hdir))]
      split
      · exact ih _
      · split
        · exact ih _
        · cases hkind : gs.kind (p ++ [c]) with
          | none => exact .inl rfl
          | some k =>
            rw [h hkind]
            cases k with
            | link target => exact .inr rfl
            | file => exact ih _
            | dir => exact ih _
    · left
      rw [scan, if_pos hdir]

theorem follow_within (h : gs.Within fs) {links : ℕ} {cs : List Name} {y : Place}
    (hy : gs.follow links p cs = some y) : fs.follow links p cs = some y := by
  induction links generalizing p cs with
  | zero =>
    rw [follow] at hy ⊢
    rcases scan_within h p cs with hmissing | hsame
    · rw [hmissing] at hy
      cases hy
    · rwa [hsame]
  | succ links ih =>
    rw [follow] at hy ⊢
    rcases scan_within h p cs with hmissing | hsame
    · rw [hmissing] at hy
      cases hy
    · rw [hsame]
      split at hy
      · exact hy
      · cases hy
      · exact ih hy

/-! ## Directories that are named without links -/

/-- The path is the place of a directory. -/
structure Straight (fs : Fs) (p : Place) : Prop where
  scan : fs.scan [] p = .found p
  dir : fs.kind p = some .dir

theorem scan_one (hp : fs.kind p = some .dir) (hc : Proper c) (cs : List Name) :
    fs.scan p (c :: cs) =
      match fs.kind (p ++ [c]) with
      | none => .missing
      | some (.link target) => .link p target cs
      | some _ => fs.scan (p ++ [c]) cs := by
  obtain ⟨hne, hdot, hdotDot⟩ := hc
  rw [Fs.scan, if_neg (not_not.mpr hp), if_neg (by simp [hne, hdot]), if_neg hdotDot]

namespace Straight

variable (h : fs.Straight p)
include h

theorem follow : fs.follow maxLinks [] p = some p := follow_found h.scan

theorem locate (c : Name) : fs.locate (p ++ [c]) = some (p ++ [c]) := by
  rw [Fs.locate, List.getLast?_concat, List.dropLast_concat, h.follow]
  simp [h.dir]

theorem opendir (rights : Rights) :
    fs.opendir rights p = if rights.reads p = true then some (fs.names p) else none := by
  rw [Fs.opendir, h.follow]
  simp [h.dir]

theorem scan_concat (c : Name) : fs.scan [] (p ++ [c]) = fs.scan p [c] := by
  rw [scan_append, h.scan]
  rfl

theorem concat (hc : Proper c) (hdir : fs.kind (p ++ [c]) = some .dir) :
    fs.Straight (p ++ [c]) := by
  refine ⟨?_, hdir⟩
  rw [h.scan_concat c, scan_one h.dir hc, hdir]
  rfl

/-- What is not a link is what `stat` says it is. -/
theorem stat (hc : Proper c) (hlink : ∀ target, fs.kind (p ++ [c]) ≠ some (.link target)) :
    fs.stat (p ++ [c]) = fs.kind (p ++ [c]) := by
  have hscan := h.scan_concat c
  rw [scan_one h.dir hc] at hscan
  cases hkind : fs.kind (p ++ [c]) with
  | none =>
    rw [hkind] at hscan
    rw [Fs.stat, follow_missing hscan]
    rfl
  | some k =>
    have hfound : fs.scan [] (p ++ [c]) = .found (p ++ [c]) := by
      rw [hscan, hkind]
      cases k with
      | link target => exact absurd hkind (hlink target)
      | file => rfl
      | dir => rfl
    rw [Fs.stat, follow_found hfound, ← hkind]
    rfl

theorem stat_eq (c : Name) : fs.stat (p ++ [c]) = (fs.follow maxLinks p [c]).bind fs.kind := by
  rw [Fs.stat, follow_scan (h.scan_concat c)]

theorem unlink (rights : Rights) {k : Kind} (hkind : fs.kind (p ++ [c]) = some k) (hk : k ≠ .dir) :
    fs.unlink rights (p ++ [c]) =
      if rights.removes (p ++ [c]) then (fs.without [p ++ [c]], true) else (fs, false) := by
  rw [Fs.unlink, h.locate]
  dsimp only
  rw [hkind]
  cases k with
  | dir => exact absurd rfl hk
  | file => rfl
  | link target => rfl

theorem rmdir (rights : Rights) (hkind : fs.kind (p ++ [c]) = some .dir)
    (hnames : fs.names (p ++ [c]) = []) :
    fs.rmdir rights (p ++ [c]) =
      if rights.removes (p ++ [c]) then (fs.without [p ++ [c]], true) else (fs, false) := by
  rw [Fs.rmdir, h.locate]
  simp [hkind, hnames]

end Straight

namespace Formed

variable (h : fs.Formed)
include h

theorem straight (hp : fs.kind p = some .dir) : fs.Straight p := by
  induction p using List.reverseRecOn with
  | nil => exact ⟨rfl, hp⟩
  | append_singleton p c ih =>
    have hsome : fs.kind (p ++ [c]) ≠ none := by simp [hp]
    exact (ih (h.parent hsome)).concat (h.proper hsome) hp

/-- The path of a directory is the same as long as nothing on it is removed. -/
theorem straight_without (hp : fs.kind p = some .dir) (hps : ∀ q, q <+: p → q ∉ ps) :
    (fs.without ps).Straight p := by
  induction p using List.reverseRecOn with
  | nil => exact ⟨rfl, if_pos rfl⟩
  | append_singleton p c ih =>
    have hsome : fs.kind (p ++ [c]) ≠ none := by simp [hp]
    have hbefore := ih (h.parent hsome) fun q hq => hps q (hq.trans (List.prefix_append p [c]))
    refine hbefore.concat (h.proper hsome) ?_
    rw [kind_without (hps _ (List.prefix_refl _))]
    exact hp

end Formed

/-! ## Links that do not lead to a file -/

/-- The link `c` in `p` leads to a directory or nowhere. -/
structure Blocks (fs : Fs) (p : Place) (c : Name) : Prop where
  link : ∃ target, fs.kind (p ++ [c]) = some (.link target)
  leads : ∀ {y : Place} {k : Kind}, fs.follow maxLinks p [c] = some y →
    fs.kind y = some k → k = .dir

variable {rights : Rights} {path : Place}

theorem Blocks.without (h : fs.Blocks p c) (hps : p ++ [c] ∉ ps) : (fs.without ps).Blocks p c := by
  refine ⟨?_, fun hy hk => ?_⟩
  · rw [kind_without hps]
    exact h.link
  · exact h.leads (follow_within (without_within fs ps) hy) (without_within fs ps hk)

theorem locate_eq_some (h : fs.locate path = some q) :
    ∃ p c, path.dropLast ++ [c] = path ∧ fs.follow maxLinks [] path.dropLast = some p ∧
      q = p ++ [c] := by
  rw [locate] at h
  split at h
  · cases h
  · next c hlast =>
    obtain ⟨p, hp, hsome⟩ := Option.bind_eq_some_iff.mp h
    split at hsome
    · cases hsome
      exact ⟨p, c, List.dropLast_append_getLast? c hlast, hp, rfl⟩
    · cases hsome

/-- Such a link is not taken for a file under any path. -/
theorem Blocks.stat (h : fs.Blocks p c) (hlocate : fs.locate path = some (p ++ [c])) {k : Kind}
    (hstat : fs.stat path = some k) : k = .dir := by
  obtain ⟨p', c', hpath, hfollow, heq⟩ := locate_eq_some hlocate
  obtain ⟨rfl, hc⟩ := List.append_inj' heq rfl
  obtain rfl : c = c' := by simpa using hc
  obtain ⟨y, hy, hk⟩ := Option.bind_eq_some_iff.mp hstat
  rw [← hpath] at hy
  obtain ⟨left, hleft, hrest⟩ := follow_append hy hfollow
  exact h.leads (follow_mono hleft hrest) hk

theorem Blocks.unlink (h : fs.Blocks p c) {k : Kind} (hstat : fs.stat path = some k)
    (hk : k ≠ .dir) :
    (fs.unlink rights path).1.Blocks p c := by
  rw [Fs.unlink]
  split
  · exact h
  · next q hlocate =>
    have hother : p ++ [c] ∉ [q] := by
      intro hmem
      obtain rfl := List.mem_singleton.mp hmem
      exact hk (h.stat hlocate hstat)
    split
    · exact h
    · exact h
    · split
      · exact h.without hother
      · exact h

theorem Blocks.rmdir (h : fs.Blocks p c) : (fs.rmdir rights path).1.Blocks p c := by
  rw [Fs.rmdir]
  split
  · exact h
  · next q hlocate =>
    split
    · next hdir =>
      refine h.without fun hmem => ?_
      obtain rfl := List.mem_singleton.mp hmem
      obtain ⟨target, hlink⟩ := h.link
      rw [hlink] at hdir
      cases hdir.1
    · exact h

/-! ## What is under a directory -/

theorem Formed.kind_of_prefix (h : fs.Formed) (hpq : p <+: q) (hq : fs.kind q ≠ none) :
    fs.kind p ≠ none := by
  induction q using List.reverseRecOn with
  | nil =>
    rw [List.prefix_nil.mp hpq]
    exact hq
  | append_singleton q c ih =>
    rcases List.prefix_concat_iff.mp hpq with rfl | hpq
    · exact hq
    · refine ih hpq ?_
      rw [h.parent hq]
      exact Option.some_ne_none _

theorem Formed.nodup_names (h : fs.Formed) (p : Place) : (fs.names p).Nodup := by
  have hmap : fs.names p =
      (fs.map Prod.fst).filterMap fun q => if q.dropLast = p then q.getLast? else none := by
    rw [List.filterMap_map]
    rfl
  rw [hmap]
  refine List.Nodup.filterMap (fun q q' c hq hq' => ?_) h.nodup
  rw [Option.mem_def, Option.ite_none_right_eq_some] at hq hq'
  rw [← List.dropLast_append_getLast? c hq.2, ← List.dropLast_append_getLast? c hq'.2, hq.1, hq'.1]

/-- The length of the longest path -/
def depth : Fs → ℕ
  | [] => 0
  | node :: fs => max node.1.length (depth fs)

theorem length_le_depth (h : fs.kind p ≠ none) : p.length ≤ fs.depth := by
  by_cases hp : p = []
  · simp [hp]
  · obtain ⟨node, hmem, rfl⟩ := (kind_ne_none hp).mp h
    clear h
    induction fs with
    | nil => cases hmem
    | cons other fs ih =>
      rcases List.mem_cons.mp hmem with rfl | hmem
      · exact le_max_left _ _
      · exact (ih hmem).trans (le_max_right _ _)

/-- What is under a directory, in the order in which it can be removed -/
def order (fs : Fs) : ℕ → Place → List Place
  | 0, _ => []
  | n + 1, p =>
    (fs.names p).flatMap (fun c =>
      if fs.kind (p ++ [c]) = some .dir then order fs n (p ++ [c]) else [p ++ [c]]) ++ [p]

theorem under_of_mem_order {n : ℕ} (h : q ∈ fs.order n p) : p <+: q := by
  induction n generalizing p with
  | zero => cases h
  | succ n ih =>
    rw [order, List.mem_append, List.mem_flatMap] at h
    rcases h with ⟨c, -, hq⟩ | hq
    · split at hq
      · exact (List.prefix_append p [c]).trans (ih hq)
      · rw [List.mem_singleton.mp hq]
        exact List.prefix_append p [c]
    · rw [List.mem_singleton.mp hq]

theorem Formed.mem_order (h : fs.Formed) {n : ℕ} (ds : List Name)
    (hkind : fs.kind (p ++ ds) ≠ none) (hn : ds.length < n) : p ++ ds ∈ fs.order n p := by
  induction n generalizing p ds with
  | zero => exact absurd hn (Nat.not_lt_zero _)
  | succ n ih =>
    rw [order, List.mem_append, List.mem_flatMap]
    cases ds with
    | nil =>
      rw [List.append_nil]
      exact .inr List.mem_cons_self
    | cons c ds =>
      have hsplit : p ++ c :: ds = p ++ [c] ++ ds := by simp
      rw [hsplit] at hkind ⊢
      refine .inl ⟨c, mem_names.mpr (h.kind_of_prefix (List.prefix_append _ _) hkind), ?_⟩
      split
      · exact ih ds hkind (Nat.lt_of_succ_lt_succ hn)
      · next hdir =>
        cases ds with
        | nil => simp
        | cons d ds =>
          have hsome : fs.kind (p ++ [c] ++ [d]) ≠ none := by
            refine h.kind_of_prefix ⟨ds, ?_⟩ hkind
            simp
          exact absurd (h.parent hsome) hdir

end Fs

end Icecream.FileSystem
