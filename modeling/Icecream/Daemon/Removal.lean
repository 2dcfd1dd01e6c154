import Icecream.Library.FileSystem

/-!
# Removing a directory tree

`rmpath` of `daemon/file_util.cpp`. Its result is that of the last call, a zero where it has
succeeded, made a truth value.
-/

namespace Icecream.Daemon

open Icecream.FileSystem
open Icecream.Path (Name)

/-! ## `rmpath` -/

section Source

variable (rights : Rights)

/-- One entry, which `stat` tells what to do with -/
def removeEntry (rm : Fs → Place → Fs × Bool) (fs : Fs) (buf : Place) : Fs × ℤ :=
  match fs.stat buf with
  | none => (fs, -1)
  | some .dir => ((rm fs buf).1, if (rm fs buf).2 then 1 else 0)
  | some _ => ((fs.unlink rights buf).1, if (fs.unlink rights buf).2 then 0 else -1)

/-- The entries, as long as the result is zero -/
def removeEntries (rm : Fs → Place → Fs × Bool) (path : Place) : Fs → List Name → Fs × ℤ
  | fs, [] => (fs, 0)
  | fs, c :: cs =>
    let r2 := removeEntry rights rm fs (path ++ [c])
    if r2.2 = 0 then removeEntries rm path r2.1 cs else r2

def removeContents (rm : Fs → Place → Fs × Bool) (fs : Fs) (path : Place) : Fs × ℤ :=
  match fs.opendir rights path with
  | none => (fs, -1)
  | some names => removeEntries rights rm path fs names

/-- What is left, and whether something has failed; the recursion has a bound here. -/
def rmpath : ℕ → Fs → Place → Fs × Bool
  | 0, fs, _ => (fs, true)
  | n + 1, fs, path =>
    let r := removeContents rights (rmpath n) fs path
    if r.2 = 0 then ((r.1.rmdir rights path).1, !(r.1.rmdir rights path).2) else (r.1, true)

end Source

/-- Nothing outside of the tree at `top` is removed, and nothing of the tree is left if all of
it may be. -/
def Removed (fs : Fs) (top : Place) : Prop :=
  ∀ rights n, fs.depth < n →
    (∀ p, ¬ top <+: p → (rmpath rights n fs top).1.kind p = fs.kind p) ∧
      ((∀ p, top <+: p → rights.Permits p) →
        ∀ p, top <+: p → (rmpath rights n fs top).1.kind p = none)

/-- A link is fit for `rmpath` if it leads to something that is no directory. -/
def Fit (fs : Fs) (l : Place) : Prop :=
  ∀ target, fs.kind l = some (.link target) → ∃ k, fs.stat l = some k ∧ k ≠ .dir

/-! ## Links in the way -/

variable {rights : Rights} {fs : Fs} {p : Place} {c : Name}

theorem removeEntry_blocks (rights : Rights) {rm : Fs → Place → Fs × Bool} (buf : Place)
    (hrm : ∀ path, (rm fs path).1.Blocks p c) (h : fs.Blocks p c) :
    (removeEntry rights rm fs buf).1.Blocks p c := by
  rw [removeEntry]
  cases hstat : fs.stat buf with
  | none => exact h
  | some k =>
    cases k with
    | dir => exact hrm buf
    | file => exact h.unlink hstat (by simp)
    | link target => exact h.unlink hstat (by simp)

theorem removeEntries_blocks {rm : Fs → Place → Fs × Bool} {path : Place}
    (hrm : ∀ gs : Fs, gs.Blocks p c → ∀ path, (rm gs path).1.Blocks p c) (cs : List Name)
    (h : fs.Blocks p c) : (removeEntries rights rm path fs cs).1.Blocks p c := by
  induction cs generalizing fs with
  | nil => exact h
  | cons d cs ih =>
    have hentry := removeEntry_blocks rights (path ++ [d]) (hrm fs h) h
    rw [removeEntries]
    split
    · exact ih hentry
    · exact hentry

/-- A link that leads to no file is never removed. -/
theorem rmpath_blocks (n : ℕ) (h : fs.Blocks p c) (path : Place) :
    (rmpath rights n fs path).1.Blocks p c := by
  induction n generalizing fs path with
  | zero => exact h
  | succ n ih =>
    have hcontents : (removeContents rights (rmpath rights n) fs path).1.Blocks p c := by
      rw [removeContents]
      split
      · exact h
      · exact removeEntries_blocks (fun gs hgs path => ih hgs path) _ h
    rw [rmpath]
    split
    · exact hcontents.rmdir
    · exact hcontents

/-! ## What becomes of the tree -/

/-- The places of `seg` are removed in their order, after those of `before`: all of them, or up to
one that is refused, or a link that is not fit is in the way. -/
inductive Clearing (rights : Rights) (fs : Fs) (before seg : List Place) : Fs → Bool → Prop where
  | finished (hfit : ∀ s l t, seg = s ++ l :: t → Fit (fs.without (before ++ s)) l) :
      Clearing rights fs before seg (fs.without (before ++ seg)) true
  | refused {done : List Place} {p : Place} (hdone : done <+: seg) (hp : p ∈ seg)
      (hno : ¬ rights.Permits p) : Clearing rights fs before seg (fs.without (before ++ done)) false
  | blocked {s t : List Place} {p : Place} {c : Name} {gs : Fs} {ok : Bool}
      (hseg : seg = s ++ (p ++ [c]) :: t) (hfit : ¬ Fit (fs.without (before ++ s)) (p ++ [c]))
      (hblocks : gs.Blocks p c) : Clearing rights fs before seg gs ok

/-- The outcome of a call whose result is zero where it succeeds -/
def After (rights : Rights) (fs : Fs) (before seg : List Place) (r : Fs × ℤ) : Prop :=
  Clearing rights fs before seg r.1 (decide (r.2 = 0))

namespace Clearing

variable {before seg more : List Place} {gs hs : Fs} {ok : Bool}

/-- What fails ends the loop. -/
theorem extend (h : Clearing rights fs before seg gs false) (more : List Place) :
    Clearing rights fs before (seg ++ more) gs false := by
  cases h with
  | refused hdone hp hno =>
    exact .refused (hdone.trans (List.prefix_append seg more)) (List.mem_append_left more hp) hno
  | @blocked s t _ _ _ _ hseg hfit hblocks =>
    refine .blocked (s := s) (t := t ++ more) ?_ hfit hblocks
    rw [hseg, List.append_assoc, List.cons_append]

theorem append (h : Clearing rights fs (before ++ seg) more gs ok)
    (hfit : ∀ s l t, seg = s ++ l :: t → Fit (fs.without (before ++ s)) l) :
    Clearing rights fs before (seg ++ more) gs ok := by
  cases h with
  | finished hmore =>
    rw [List.append_assoc]
    refine .finished fun s l t hsplit => ?_
    rcases List.append_eq_append_iff.mp hsplit with ⟨r, hs, hrest⟩ | ⟨r, hs, hrest⟩
    · rw [hs, ← List.append_assoc]
      exact hmore r l t hrest
    · cases r with
      | nil =>
        rw [List.append_nil] at hs
        subst hs
        have hnil := hmore [] l t (by simpa using hrest.symm)
        rwa [List.append_nil] at hnil
      | cons d r =>
        obtain ⟨rfl, -⟩ := List.cons_eq_cons.mp hrest
        exact hfit s _ r hs
  | refused hdone hp hno =>
    rw [List.append_assoc]
    exact .refused ((List.prefix_append_right_inj seg).mpr hdone) (List.mem_append_right seg hp) hno
  | @blocked s t _ _ _ _ hseg hmore hblocks =>
    rw [List.append_assoc] at hmore
    refine .blocked (t := t) ?_ hmore hblocks
    rw [hseg, List.append_assoc]

theorem single {l : Place} (h : Fit (fs.without before) l) :
    Clearing rights fs before [l] (fs.without (before ++ [l])) true := by
  refine .finished fun s l' t hsplit => ?_
  cases s with
  | nil =>
    obtain ⟨rfl, -⟩ := List.cons_eq_cons.mp hsplit
    rwa [List.append_nil]
  | cons d s => simp at hsplit

theorem refuse {l : Place} (hl : l ∈ seg) (hno : ¬ rights.Permits l) :
    Clearing rights fs before seg (fs.without before) false := by
  have hrefused : Clearing rights fs before seg (fs.without (before ++ [])) false :=
    .refused List.nil_prefix hl hno
  rwa [List.append_nil] at hrefused

end Clearing

/-! ### One entry -/

variable {before : List Place} {k : Kind} {q : Place} {rm : Fs → Place → Fs × Bool}

/-- What is removed of the entry `c` of `p` -/
def entryOrder (fs : Fs) (n : ℕ) (p : Place) (c : Name) : List Place :=
  if fs.kind (p ++ [c]) = some .dir then fs.order n (p ++ [c]) else [p ++ [c]]

theorem unlink_clearing (rights : Rights) (hstraight : (fs.without before).Straight p)
    (hkind : (fs.without before).kind (p ++ [c]) = some k) (hk : k ≠ .dir)
    (hfit : Fit (fs.without before) (p ++ [c])) :
    Clearing rights fs before [p ++ [c]] ((fs.without before).unlink rights (p ++ [c])).1
      ((fs.without before).unlink rights (p ++ [c])).2 := by
  rw [hstraight.unlink rights hkind hk]
  split
  · rw [Fs.without_without]
    exact .single hfit
  · next hremoves => exact .refuse List.mem_cons_self fun hpermits => hremoves hpermits.2

theorem Fit.of_not_link {fs : Fs} {l : Place} (h : ∀ target, fs.kind l ≠ some (.link target)) :
    Fit fs l :=
  fun target hlink => absurd hlink (h target)

theorem blocks_of_not_fit {fs : Fs} (hstraight : fs.Straight p) (h : ¬ Fit fs (p ++ [c])) :
    fs.Blocks p c := by
  rw [Fit] at h
  push Not at h
  obtain ⟨target, hlink, hdir⟩ := h
  refine ⟨⟨target, hlink⟩, fun hy hk => ?_⟩
  refine hdir _ ?_
  rw [hstraight.stat_eq c, hy]
  exact hk

theorem unlinkEntry_after {k' : Kind} (hstraight : (fs.without before).Straight p)
    (hkind : (fs.without before).kind (p ++ [c]) = some k) (hk : k ≠ .dir)
    (hfit : Fit (fs.without before) (p ++ [c]))
    (hstat : (fs.without before).stat (p ++ [c]) = some k') (hk' : k' ≠ .dir) :
    After rights fs before [p ++ [c]] (removeEntry rights rm (fs.without before) (p ++ [c])) := by
  have hentry : removeEntry rights rm (fs.without before) (p ++ [c]) =
      (((fs.without before).unlink rights (p ++ [c])).1,
        if ((fs.without before).unlink rights (p ++ [c])).2 then 0 else -1) := by
    rw [removeEntry, hstat]
    cases k' with
    | dir => exact absurd rfl hk'
    | file => rfl
    | link target => rfl
  have hout := unlink_clearing rights hstraight hkind hk hfit
  rw [hentry, After]
  cases hok : ((fs.without before).unlink rights (p ++ [c])).2 with
  | true =>
    rw [hok] at hout
    exact hout
  | false =>
    rw [hok] at hout
    exact hout

theorem removeEntry_after {m : ℕ} (hstraight : (fs.without before).Straight p) (hc : Proper c)
    (hkind : fs.kind (p ++ [c]) ≠ none) (hbefore : p ++ [c] ∉ before)
    (hrm : fs.kind (p ++ [c]) = some .dir → Clearing rights fs before (fs.order m (p ++ [c]))
      (rm (fs.without before) (p ++ [c])).1 (!(rm (fs.without before) (p ++ [c])).2))
    (hblocks : ∀ gs : Fs, gs.Blocks p c → ∀ path, (rm gs path).1.Blocks p c) :
    After rights fs before (entryOrder fs m p c)
      (removeEntry rights rm (fs.without before) (p ++ [c])) := by
  obtain ⟨k, hk⟩ := Option.ne_none_iff_exists'.mp hkind
  have hsame : (fs.without before).kind (p ++ [c]) = some k := (Fs.kind_without hbefore).trans hk
  rw [entryOrder, hk]
  cases k with
  | dir =>
    have hstat : (fs.without before).stat (p ++ [c]) = some .dir := by
      rw [hstraight.stat hc (by simp [hsame]), hsame]
    have hout := hrm hk
    rw [if_pos rfl, removeEntry, hstat, After]
    dsimp only
    cases hfailed : (rm (fs.without before) (p ++ [c])).2 with
    | true =>
      rw [hfailed] at hout
      exact hout
    | false =>
      rw [hfailed] at hout
      exact hout
  | file =>
    have hlink : ∀ target, (fs.without before).kind (p ++ [c]) ≠ some (.link target) := by
      simp [hsame]
    have hstat : (fs.without before).stat (p ++ [c]) = some .file := by
      rw [hstraight.stat hc hlink, hsame]
    rw [if_neg (by simp)]
    exact unlinkEntry_after hstraight hsame (by simp) (.of_not_link hlink) hstat (by simp)
  | link target =>
    rw [if_neg (by simp)]
    by_cases hfit : Fit (fs.without before) (p ++ [c])
    · obtain ⟨k', hstat, hk'⟩ := hfit target hsame
      exact unlinkEntry_after hstraight hsame (by simp) hfit hstat hk'
    · have hnow := blocks_of_not_fit hstraight hfit
      have hlater := removeEntry_blocks rights (p ++ [c]) (hblocks _ hnow) hnow
      refine .blocked (s := []) (t := []) rfl ?_ hlater
      rwa [List.append_nil]

/-! ### All entries -/

theorem under_of_mem_entryOrder {m : ℕ} (h : q ∈ entryOrder fs m p c) : p ++ [c] <+: q := by
  rw [entryOrder] at h
  split at h
  · exact Fs.under_of_mem_order h
  · rw [List.mem_singleton.mp h]

theorem eq_of_common_prefix {d : Name} (hc : p ++ [c] <+: q) (hd : p ++ [d] <+: q) : c = d := by
  have hle : (p ++ [c]).length ≤ (p ++ [d]).length := by simp
  have heq := (List.prefix_of_prefix_length_le hc hd hle).eq_of_length (by simp)
  simpa using heq

theorem not_prefix_of_under (hc : p ++ [c] <+: q) : ¬ q <+: p := by
  intro h
  have hlength := (hc.trans h).length_le
  rw [List.length_append, List.length_singleton] at hlength
  omega

/-- Nothing on the way to `p` and nothing under it has been removed. -/
def Untouched (before : List Place) (p : Place) : Prop :=
  (∀ q, q <+: p → q ∉ before) ∧ ∀ q, p <+: q → q ∉ before

theorem removeEntries_after {m : ℕ} (hfs : fs.Formed) (hdir : fs.kind p = some .dir)
    (hrm : ∀ c before, fs.kind (p ++ [c]) = some .dir → Untouched before (p ++ [c]) →
      Clearing rights fs before (fs.order m (p ++ [c]))
        (rm (fs.without before) (p ++ [c])).1 (!(rm (fs.without before) (p ++ [c])).2))
    (hblocks : ∀ (gs : Fs) q d, gs.Blocks q d → ∀ path, (rm gs path).1.Blocks q d)
    {cs : List Name} (hcs : ∀ c ∈ cs, fs.kind (p ++ [c]) ≠ none) (hnodup : cs.Nodup)
    (hup : ∀ q, q <+: p → q ∉ before) (hdown : ∀ c ∈ cs, ∀ q, p ++ [c] <+: q → q ∉ before) :
    After rights fs before (cs.flatMap (entryOrder fs m p))
      (removeEntries rights rm p (fs.without before) cs) := by
  induction cs generalizing before with
  | nil =>
    have hnone : Clearing rights fs before [] (fs.without (before ++ [])) true :=
      .finished fun s l t h => by simp at h
    rw [List.append_nil] at hnone
    exact hnone
  | cons c cs ih =>
    obtain ⟨hc, hrest⟩ := List.forall_mem_cons.mp hcs
    obtain ⟨hfresh, hnodup⟩ := List.nodup_cons.mp hnodup
    obtain ⟨hbelow, hbelows⟩ := List.forall_mem_cons.mp hdown
    have hself : p ++ [c] ∉ before := hbelow _ (List.prefix_refl _)
    have huntouched : Untouched before (p ++ [c]) := by
      refine ⟨fun q hq => ?_, hbelow⟩
      rcases List.prefix_concat_iff.mp hq with rfl | hq
      · exact hself
      · exact hup q hq
    have hentry := removeEntry_after (hfs.straight_without hdir hup) (hfs.proper hc) hc hself
      (fun hkind => hrm c before hkind huntouched) (fun gs hgs path => hblocks gs p c hgs path)
    rw [List.flatMap_cons, removeEntries]
    generalize removeEntry rights rm (fs.without before) (p ++ [c]) = r at hentry
    obtain ⟨gs, r2⟩ := r
    rw [After] at hentry
    by_cases hzero : r2 = 0
    · rw [if_pos hzero]
      simp only [hzero, decide_true] at hentry
      cases hentry with
      | finished hfit =>
        refine (ih hrest hnodup (fun q hq => ?_) fun d hd q hq => ?_).append hfit
        · rw [List.mem_append, not_or]
          exact ⟨hup q hq, fun hmem => not_prefix_of_under (under_of_mem_entryOrder hmem) hq⟩
        · rw [List.mem_append, not_or]
          refine ⟨hbelows d hd q hq, fun hmem => ?_⟩
          rw [← eq_of_common_prefix (under_of_mem_entryOrder hmem) hq] at hd
          exact hfresh hd
      | @blocked s t q d _ _ hseg hfit hgs =>
        refine .blocked (s := s) (t := t ++ cs.flatMap (entryOrder fs m p)) ?_ hfit
          (removeEntries_blocks (fun hs h path => hblocks hs q d h path) cs hgs)
        rw [hseg, List.append_assoc, List.cons_append]
    · rw [if_neg hzero]
      simp only [hzero, decide_false] at hentry
      rw [After]
      simp only [hzero, decide_false]
      exact hentry.extend _

/-! ### The directory -/

theorem removeContents_eq (hstraight : fs.Straight p) :
    removeContents rights rm fs p =
      if rights.reads p = true then removeEntries rights rm p fs (fs.names p) else (fs, -1) := by
  rw [removeContents, hstraight.opendir]
  split
  · next hnone =>
    split at hnone
    · cases hnone
    · next hreads => rw [if_neg hreads]
  · next names hnames =>
    split at hnames
    · next hreads =>
      cases hnames
      rw [if_pos hreads]
    · cases hnames

section Directory

variable {seg : List Place} (hfs : fs.Formed) (hkind : fs.kind (p ++ [c]) = some .dir)
  (hup : ∀ q, q <+: p ++ [c] → q ∉ before ++ seg)
  (hdown : ∀ d, fs.kind (p ++ [c] ++ [d]) ≠ none → p ++ [c] ++ [d] ∈ seg)
include hfs hkind hup hdown

theorem rmdir_clearing (rights : Rights) :
    Clearing rights fs (before ++ seg) [p ++ [c]]
      ((fs.without (before ++ seg)).rmdir rights (p ++ [c])).1
      ((fs.without (before ++ seg)).rmdir rights (p ++ [c])).2 := by
  have hparent : fs.kind p = some .dir := by
    refine hfs.parent (c := c) ?_
    rw [hkind]
    exact Option.some_ne_none _
  have hstraight : (fs.without (before ++ seg)).Straight p :=
    hfs.straight_without hparent fun q hq => hup q (hq.trans (List.prefix_append p [c]))
  have hsame : (fs.without (before ++ seg)).kind (p ++ [c]) = some .dir :=
    (Fs.kind_without (hup _ (List.prefix_refl _))).trans hkind
  have hnames : (fs.without (before ++ seg)).names (p ++ [c]) = [] := by
    rw [List.eq_nil_iff_forall_not_mem]
    intro d hd
    obtain ⟨k, hk⟩ := Option.ne_none_iff_exists'.mp (Fs.mem_names.mp hd)
    have hsome : fs.kind (p ++ [c] ++ [d]) ≠ none := by
      rw [Fs.without_within fs _ hk]
      exact Option.some_ne_none k
    have hmem := hdown d hsome
    rw [Fs.kind_without_mem (List.mem_append_right _ hmem) (by simp)] at hk
    cases hk
  rw [hstraight.rmdir rights hsame hnames]
  split
  · rw [Fs.without_without]
    exact .single (.of_not_link (by simp [hsame]))
  · next hremoves => exact .refuse List.mem_cons_self fun hpermits => hremoves hpermits.2

/-- The directory itself, once its entries are dealt with -/
theorem After.rmdir {r : Fs × ℤ} (h : After rights fs before seg r) :
    Clearing rights fs before (seg ++ [p ++ [c]])
      (if r.2 = 0 then ((r.1.rmdir rights (p ++ [c])).1, !(r.1.rmdir rights (p ++ [c])).2)
        else (r.1, true)).1
      (!(if r.2 = 0 then ((r.1.rmdir rights (p ++ [c])).1, !(r.1.rmdir rights (p ++ [c])).2)
        else (r.1, true)).2) := by
  obtain ⟨gs, z⟩ := r
  rw [After] at h
  by_cases hzero : z = 0
  · simp only [hzero, decide_true] at h
    simp only [hzero, if_true, Bool.not_not]
    cases h with
    | finished hfit => exact (rmdir_clearing hfs hkind hup hdown rights).append hfit
    | @blocked s t q d _ _ hseg hfit hgs =>
      refine .blocked (s := s) (t := t ++ [p ++ [c]]) ?_ hfit hgs.rmdir
      rw [hseg, List.append_assoc, List.cons_append]
  · simp only [hzero, decide_false] at h
    simp only [hzero, if_false, Bool.not_true]
    exact h.extend _

end Directory

theorem mem_entries_order (hfs : fs.Formed) {m : ℕ} {d : Name} (hd : fs.kind (p ++ [d]) ≠ none)
    (hm : 0 < m) : p ++ [d] ∈ (fs.names p).flatMap (entryOrder fs m p) := by
  refine List.mem_flatMap.mpr ⟨d, Fs.mem_names.mpr hd, ?_⟩
  rw [entryOrder]
  split
  · have hself := hfs.mem_order (p := p ++ [d]) [] (by rwa [List.append_nil]) hm
    rwa [List.append_nil] at hself
  · exact List.mem_cons_self

theorem rmpath_clearing (rights : Rights) (hfs : fs.Formed) {m n : ℕ} (hle : m ≤ n)
    (hkind : fs.kind (p ++ [c]) = some .dir)
    (hdeep : ∀ q, p ++ [c] <+: q → fs.kind q ≠ none → q.length < (p ++ [c]).length + m)
    (huntouched : Untouched before (p ++ [c])) :
    Clearing rights fs before (fs.order m (p ++ [c]))
      (rmpath rights n (fs.without before) (p ++ [c])).1
      (!(rmpath rights n (fs.without before) (p ++ [c])).2) := by
  induction m generalizing n p c before with
  | zero =>
    have hself := hdeep _ (List.prefix_refl _) (by simp [hkind])
    exact absurd hself (lt_irrefl _)
  | succ m ih =>
    obtain ⟨n, rfl⟩ := Nat.exists_eq_add_of_lt hle
    have hentries : ∀ d, fs.kind (p ++ [c] ++ [d]) ≠ none →
        p ++ [c] ++ [d] ∈ (fs.names (p ++ [c])).flatMap (entryOrder fs m (p ++ [c])) := by
      intro d hd
      refine mem_entries_order hfs hd ?_
      have hlength := hdeep _ (List.prefix_append _ [d]) hd
      rw [List.length_append, List.length_singleton] at hlength
      omega
    have hup : ∀ q, q <+: p ++ [c] →
        q ∉ before ++ (fs.names (p ++ [c])).flatMap (entryOrder fs m (p ++ [c])) := by
      intro q hq hmem
      rcases List.mem_append.mp hmem with hmem | hmem
      · exact huntouched.1 q hq hmem
      · obtain ⟨d, -, hd⟩ := List.mem_flatMap.mp hmem
        exact not_prefix_of_under (under_of_mem_entryOrder hd) hq
    have hstraight := hfs.straight_without hkind huntouched.1
    rw [show m + n + 1 = (m + n) + 1 from rfl, rmpath, removeContents_eq hstraight]
    by_cases hreads : rights.reads (p ++ [c]) = true
    · rw [if_pos hreads, Fs.names_without fun d => huntouched.2 _ (List.prefix_append _ _)]
      refine After.rmdir hfs hkind hup hentries (removeEntries_after hfs hkind ?_ ?_ ?_ ?_ ?_ ?_)
      · intro d before hdir huntouched
        refine ih (Nat.le_add_right m n) hdir (fun q hq hsome => ?_) huntouched
        have hlength := hdeep q ((List.prefix_append _ _).trans hq) hsome
        rw [List.length_append, List.length_singleton]
        omega
      · exact fun gs q d h path => rmpath_blocks (m + n) h path
      · exact fun d hd => Fs.mem_names.mp hd
      · exact hfs.nodup_names _
      · exact huntouched.1
      · exact fun d _ q hq => huntouched.2 q ((List.prefix_append _ _).trans hq)
    · rw [if_neg hreads]
      have hmem : p ++ [c] ∈ fs.order (m + 1) (p ++ [c]) :=
        List.mem_append_right _ List.mem_cons_self
      exact .refuse hmem fun hpermits => hreads hpermits.1

/-! ## Exactly the tree -/

def allRights : Rights := ⟨fun _ => true, fun _ => true⟩

theorem allRights_permits (p : Place) : allRights.Permits p := ⟨rfl, rfl⟩

/-- `rmpath` removes what is at `top` if it is allowed to. -/
theorem Removed.gone {top : Place} (h : Removed fs top) (hq : top <+: q) :
    (rmpath allRights (fs.depth + 1) fs top).1.kind q = none :=
  (h allRights (fs.depth + 1) (Nat.lt_succ_self _)).2 (fun p _ => allRights_permits p) q hq

theorem rmpath_no_dir {n : ℕ} (h : fs.opendir rights q = none) : (rmpath rights n fs q).1 = fs := by
  cases n with
  | zero => rfl
  | succ n =>
    rw [rmpath, removeContents, h]
    rfl

theorem removed_of_none (hfs : fs.Formed) (hq : fs.Straight p) (hc : Proper c)
    (hnone : fs.kind (p ++ [c]) = none) : Removed fs (p ++ [c]) := by
  intro rights n _
  have hscan : fs.scan [] (p ++ [c]) = .missing := by
    rw [hq.scan_concat, Fs.scan_one hq.dir hc, hnone]
  have hopendir : fs.opendir rights (p ++ [c]) = none := by
    rw [Fs.opendir, Fs.follow_missing hscan]
    rfl
  rw [rmpath_no_dir hopendir]
  refine ⟨fun _ _ => rfl, fun _ q hq => ?_⟩
  by_contra hsome
  exact hfs.kind_of_prefix hq hsome hnone

/-- Neither a file nor a link is removed by `rmpath`. -/
theorem not_removed (hp : fs.Straight p) (hc : Proper c) {k : Kind}
    (hkind : fs.kind (p ++ [c]) = some k) (hk : k ≠ .dir) : ¬ Removed fs (p ++ [c]) := by
  intro h
  have hgone := h.gone (List.prefix_refl _)
  have hstays : fs.opendir allRights (p ++ [c]) ≠ none := by
    intro hnone
    rw [rmpath_no_dir hnone, hkind] at hgone
    cases hgone
  cases k with
  | dir => exact hk rfl
  | file =>
    have hscan : fs.scan [] (p ++ [c]) = .found (p ++ [c]) := by
      rw [hp.scan_concat, Fs.scan_one hp.dir hc, hkind]
      rfl
    refine hstays ?_
    rw [Fs.opendir, Fs.follow_found hscan]
    simp [hkind]
  | link target =>
    by_cases hfit : Fit fs (p ++ [c])
    · obtain ⟨k', hstat, hk'⟩ := hfit target hkind
      rw [Fs.stat] at hstat
      obtain ⟨y, hy, hk''⟩ := Option.bind_eq_some_iff.mp hstat
      refine hstays ?_
      rw [Fs.opendir, hy]
      simp [hk'', hk']
    · obtain ⟨target', hlink⟩ :=
        (rmpath_blocks (fs.depth + 1) (blocks_of_not_fit hp hfit) (p ++ [c])).link
      rw [hgone] at hlink
      cases hlink

theorem rmpath_top (hfs : fs.Formed) (hkind : fs.kind (p ++ [c]) = some .dir) (rights : Rights)
    {n : ℕ} (hn : fs.depth < n) :
    Clearing rights fs [] (fs.order (fs.depth + 1) (p ++ [c])) (rmpath rights n fs (p ++ [c])).1
      (!(rmpath rights n fs (p ++ [c])).2) := by
  have hdeep : ∀ q, p ++ [c] <+: q → fs.kind q ≠ none →
      q.length < (p ++ [c]).length + (fs.depth + 1) := by
    intro q _ hq
    have hlength := Fs.length_le_depth hq
    omega
  have huntouched : Untouched [] (p ++ [c]) :=
    ⟨fun _ _ => List.not_mem_nil, fun _ _ => List.not_mem_nil⟩
  have hout := rmpath_clearing rights hfs hn hkind hdeep huntouched
  rwa [Fs.without_nil] at hout

/-- What is removed with the tree -/
theorem kind_order (hfs : fs.Formed) (top : Place) :
    (∀ q, ¬ top <+: q → ∀ seg, seg <+: fs.order (fs.depth + 1) top →
      (fs.without seg).kind q = fs.kind q) ∧
      ∀ q, top <+: q → q ≠ [] → (fs.without (fs.order (fs.depth + 1) top)).kind q = none := by
  refine ⟨fun q hq seg hseg => ?_, ?_⟩
  · exact Fs.kind_without fun hmem => hq (Fs.under_of_mem_order (hseg.subset hmem))
  · rintro q ⟨ds, rfl⟩ hne
    by_cases hnone : fs.kind (top ++ ds) = none
    · by_contra hsome
      obtain ⟨k, hk⟩ := Option.ne_none_iff_exists'.mp hsome
      rw [Fs.without_within _ _ hk] at hnone
      cases hnone
    · have hlength := Fs.length_le_depth hnone
      rw [List.length_append] at hlength
      exact Fs.kind_without_mem (hfs.mem_order ds hnone (by omega)) hne

/-- `rmpath` removes exactly the tree if every link of it, at its turn, leads to something that is
no directory. -/
theorem rmpath_removes_iff {fs : Fs} (hfs : fs.Formed) {p : Place} {c : Name}
    (hp : fs.kind p = some .dir) (hc : Proper c) :
    Removed fs (p ++ [c]) ↔
      fs.kind (p ++ [c]) = none ∨
      fs.kind (p ++ [c]) = some .dir ∧
        ∀ s l t, fs.order (fs.depth + 1) (p ++ [c]) = s ++ l :: t → Fit (fs.without s) l := by
  have hstraight := hfs.straight hp
  constructor
  · intro h
    cases hkind : fs.kind (p ++ [c]) with
    | none => exact .inl rfl
    | some k =>
      by_cases hdir : k = .dir
      · subst hdir
        refine .inr ⟨rfl, ?_⟩
        have hgone := fun q hq => h.gone (q := q) hq
        have hout := rmpath_top hfs hkind allRights (Nat.lt_succ_self fs.depth)
        generalize (rmpath allRights (fs.depth + 1) fs (p ++ [c])).1 = gs at hout hgone
        generalize (!(rmpath allRights (fs.depth + 1) fs (p ++ [c])).2) = ok at hout
        cases hout with
        | finished hfit => exact hfit
        | refused _ _ hno => exact absurd (allRights_permits _) hno
        | @blocked s t q d _ _ hseg _ hblocks =>
          have hmem : q ++ [d] ∈ fs.order (fs.depth + 1) (p ++ [c]) := by simp [hseg]
          obtain ⟨target, hlink⟩ := hblocks.link
          rw [hgone _ (Fs.under_of_mem_order hmem)] at hlink
          cases hlink
      · exact absurd h (not_removed hstraight hc hkind hdir)
  · rintro (hnone | ⟨hkind, hfit⟩)
    · exact removed_of_none hfs hstraight hc hnone
    · intro rights n hn
      have hout := rmpath_top hfs hkind rights hn
      obtain ⟨houtside, hinside⟩ := kind_order hfs (p ++ [c])
      generalize (rmpath rights n fs (p ++ [c])).1 = gs at hout
      generalize (!(rmpath rights n fs (p ++ [c])).2) = ok at hout
      cases hout with
      | finished =>
        refine ⟨fun q hq => houtside q hq _ (List.prefix_refl _), fun _ q hq => hinside q hq ?_⟩
        rintro rfl
        exact Fs.concat_ne_nil p c (List.prefix_nil.mp hq)
      | refused hdone hmem hno =>
        refine ⟨fun q hq => houtside q hq _ hdone, fun hpermits => ?_⟩
        exact absurd (hpermits _ (Fs.under_of_mem_order hmem)) hno
      | blocked hseg hnot => exact absurd (hfit _ _ _ hseg) hnot

/-- A directory with a link to a file outside -/
def linkedFile : Fs := [([[116]], .dir), ([[116], [108]], .link [47, 111]), ([[111]], .file)]

theorem rmpath_removes_linkedFile : Removed linkedFile [[116]] := by
  have hformed : linkedFile.Formed := Fs.formed_of_nodes (by decide) (by decide)
  have horder : linkedFile.order (linkedFile.depth + 1) [[116]] = [[[116], [108]], [[116]]] := by
    decide +kernel
  have hfirst : Fit (linkedFile.without []) [[116], [108]] :=
    fun _ _ => ⟨.file, by decide +kernel, by decide⟩
  have hdir : (linkedFile.without [[[116], [108]]]).kind [[116]] = some .dir := by decide +kernel
  have hsecond : Fit (linkedFile.without [[[116], [108]]]) [[116]] := .of_not_link (by simp [hdir])
  refine (rmpath_removes_iff (p := []) hformed rfl (by decide)).mpr
    (.inr ⟨rfl, fun s l t hsplit => ?_⟩)
  rw [List.nil_append, horder] at hsplit
  rcases List.cons_eq_append_iff.mp hsplit with ⟨rfl, hl⟩ | ⟨s', rfl, hrest⟩
  · obtain ⟨rfl, -⟩ := List.cons_eq_cons.mp hl
    exact hfirst
  · rcases List.cons_eq_append_iff.mp hrest with ⟨rfl, hl⟩ | ⟨s'', rfl, hnone⟩
    · obtain ⟨rfl, -⟩ := List.cons_eq_cons.mp hl
      exact hsecond
    · simp at hnone

/-- A link to a directory outside: the file that is there is removed. -/
def linkedDir : Fs :=
  [([[116]], .dir), ([[116], [108]], .link [47, 111]), ([[111]], .dir), ([[111], [102]], .file)]

theorem link_followed : linkedDir.kind [[111], [102]] = some .file ∧
    (rmpath allRights 4 linkedDir [[116]]).1.kind [[111], [102]] = none ∧
    ¬ Removed linkedDir [[116]] := by
  have hgone : (rmpath allRights 4 linkedDir [[116]]).1.kind [[111], [102]] = none := by
    decide +kernel
  refine ⟨rfl, hgone, fun h => ?_⟩
  have hkept := (h allRights 4 (by decide)).1 [[111], [102]] (by decide)
  rw [hgone] at hkept
  cases hkept

end Icecream.Daemon
