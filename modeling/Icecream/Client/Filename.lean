import Icecream.Comm.Codec
import Icecream.Library.Path

/-!
# Absolute file names

`get_absfilename` of the client. It rewrites the text of a path: first `..` with the component
before it, then `.` and then empty components, but none of them at the end of the path.
-/

namespace Icecream.Client

open Icecream.Comm (Str str rfind)
open Icecream.Path

/-- `find`: the first place where `needle` stands -/
def find (needle : Str) : Str → Option ℕ
  | [] => if needle = [] then some 0 else none
  | x :: s => if needle <+: x :: s then some 0 else (find needle s).map (· + 1)

/-- `replace(pos, len, text)` -/
def replace (s : Str) (pos len : ℕ) (text : Str) : Str := s.take pos ++ text ++ s.drop (pos + len)

variable {s needle : Str} {i : ℕ}

theorem find_le (h : find needle s = some i) : i + needle.length ≤ s.length := by
  induction s generalizing i with
  | nil =>
    simp only [find, Option.ite_none_right_eq_some, Option.some.injEq] at h
    obtain ⟨rfl, rfl⟩ := h
    exact le_rfl
  | cons x s ih =>
    simp only [find] at h
    split at h
    · rename_i hprefix
      cases h
      simpa using hprefix.length_le
    · obtain ⟨j, hj, rfl⟩ := Option.map_eq_some_iff.mp h
      have hle := ih hj
      rw [List.length_cons]
      omega

/-- The slash before what has none -/
theorem rfind_last {w e : Str} (he : slash ∉ e) (t : Str) :
    rfind (w ++ slash :: (e ++ t)) slash (some (w.length + e.length)) = some w.length := by
  have hlength : (w ++ slash :: (e ++ t)).length = w.length + ((e ++ t).length + 1) := by simp
  have hlater : ((List.range (e ++ t).length).map fun j => w.length + (j + 1)).filter (fun i =>
      (w ++ slash :: (e ++ t))[i]? = some slash ∧
        (some (w.length + e.length)).all (i ≤ ·)) = [] := by
    refine List.filter_eq_nil_iff.mpr fun i hi hplace => ?_
    obtain ⟨j, -, rfl⟩ := List.mem_map.mp hi
    obtain ⟨hslash, hle⟩ := of_decide_eq_true hplace
    have hle : w.length + (j + 1) ≤ w.length + e.length := of_decide_eq_true hle
    have hj : j < e.length := by omega
    have hget : (w ++ slash :: (e ++ t))[w.length + (j + 1)]? = e[j]? := by
      rw [List.getElem?_append_right (by omega), Nat.add_sub_cancel_left, List.getElem?_cons_succ,
        List.getElem?_append_left hj]
    exact he (List.mem_of_getElem? (hget ▸ hslash))
  have hsplit : List.range (w.length + ((e ++ t).length + 1)) =
      List.range w.length ++ w.length ::
        (List.range (e ++ t).length).map fun j => w.length + (j + 1) := by
    rw [List.range_add, List.range_succ_eq_map, List.map_cons, List.map_map]
    rfl
  rw [rfind, hlength, hsplit, List.filter_append, List.filter_cons, hlater]
  simp

theorem replace_length {pos len : ℕ} (h : pos + len ≤ s.length) (text : Str) :
    (replace s pos len text).length + len = s.length + text.length := by
  simp only [replace, List.length_append, List.length_take, List.length_drop]
  omega

theorem rfind_le {c : UInt8} {n : ℕ} (h : rfind s c (some n) = some i) : i ≤ n := by
  have hmem := List.mem_of_getLast? h
  simpa using (of_decide_eq_true (List.mem_filter.mp hmem).2).2

/-- The first loop of `get_absfilename`; `none` if `replace` throws -/
def collapseDots (file : Str) : Option Str :=
  match _ : find (str "/../") file with
  | none => some file
  | some 0 => collapseDots (replace file 0 4 (str "/"))
  | some (idx + 1) =>
    match _ : rfind file slash (some idx) with
    | none => none
    | some slash => collapseDots (replace file slash (idx + 1 - slash + 4) (str "/"))
termination_by file.length
decreasing_by
  · have hlength : (replace file 0 4 (str "/")).length + 4 = file.length + 1 :=
      replace_length (find_le ‹_›) (str "/")
    omega
  · have hle : idx + 1 + 4 ≤ file.length := find_le ‹_›
    have hslash : slash ≤ idx := rfind_le ‹_›
    have hlength : (replace file slash (idx + 1 - slash + 4) (str "/")).length +
        (idx + 1 - slash + 4) = file.length + 1 := replace_length (by omega) (str "/")
    omega

/-- The other two loops, for `c` between two slashes -/
def collapse (c file : Str) : Str :=
  match _ : find (str "/" ++ c ++ str "/") file with
  | none => file
  | some idx => collapse c (replace file idx (c.length + 2) (str "/"))
termination_by file.length
decreasing_by
  have hle : idx + (c.length + 2) ≤ file.length := by
    have hle := find_le ‹_›
    rwa [List.length_append, List.length_append, Nat.add_comm (str "/").length c.length] at hle
  have hlength : (replace file idx (c.length + 2) (str "/")).length + (c.length + 2) =
      file.length + 1 := replace_length hle (str "/")
  omega

def getAbsfilename (cwd file : Str) : Option Str :=
  if file = [] then some file
  else
    let file := if file.head? = some slash then file else cwd ++ str "/" ++ file
    (collapseDots file).map fun file => collapse [] (collapse (str ".") file)

/-! ## Loops on components -/

variable {c d : Name} {cs : List Name}

theorem find_append {y : UInt8} {w : Str} (hw : y ∉ w) :
    find (y :: needle) (w ++ s) = (find (y :: needle) s).map (· + w.length) := by
  induction w with
  | nil => simp
  | cons x w ih =>
    rw [List.mem_cons, not_or] at hw
    have hnot : ¬ y :: needle <+: x :: (w ++ s) := by
      rw [List.cons_prefix_cons]
      exact fun h => hw.1 h.1
    rw [List.cons_append, find, if_neg hnot, ih hw.2, Option.map_map]
    rfl

/-- A component stands before a slash. -/
theorem prefix_joined (hd : slash ∉ d) (hc : slash ∉ c) :
    d ++ [slash] <+: c ++ joined cs ↔ c = d ∧ cs ≠ [] := by
  constructor
  · rintro ⟨t, ht⟩
    cases cs with
    | nil =>
      have hmem : slash ∈ c ++ joined [] := by simp [← ht]
      exact absurd (by simpa [joined] using hmem) hc
    | cons e cs =>
      refine ⟨?_, List.cons_ne_nil e cs⟩
      have hsame := congrArg (List.takeWhile (· ≠ slash)) ht
      have htake : ∀ {w : Name}, slash ∉ w → ∀ s, (w ++ slash :: s).takeWhile (· ≠ slash) = w := by
        intro w hw s
        rw [List.takeWhile_append_of_pos]
        · simp
        · intro x hx
          have hne : x ≠ slash := by
            rintro rfl
            exact hw hx
          simpa using hne
      rw [List.append_assoc, List.singleton_append, htake hd, joined_cons, htake hc] at hsame
      exact hsame.symm
  · rintro ⟨rfl, hne⟩
    cases cs with
    | nil => exact absurd rfl hne
    | cons e cs => exact ⟨e ++ joined cs, by simp⟩

theorem find_joined_cons (hd : slash ∉ d) (hc : slash ∉ c) :
    find (slash :: (d ++ [slash])) (joined (c :: cs)) = if c = d ∧ cs ≠ [] then some 0
      else (find (slash :: (d ++ [slash])) (joined cs)).map (· + (c.length + 1)) := by
  rw [joined_cons, find]
  refine if_congr ?_ rfl ?_
  · rw [List.cons_prefix_cons, prefix_joined hd hc]
    simp
  · rw [find_append hc, Option.map_map]
    rfl

theorem find_none (hd : slash ∉ d) (hcs : ∀ e ∈ cs ++ [c], slash ∉ e) (hnone : d ∉ cs) :
    find (slash :: (d ++ [slash])) (joined (cs ++ [c])) = none := by
  induction cs with
  | nil =>
    rw [List.nil_append, List.forall_mem_singleton] at hcs
    rw [List.nil_append, find_joined_cons hd hcs]
    simp [joined, find]
  | cons e cs ih =>
    rw [List.cons_append, List.forall_mem_cons] at hcs
    rw [List.mem_cons, not_or] at hnone
    rw [List.cons_append, find_joined_cons hd hcs.1, if_neg fun h => hnone.1 h.1.symm,
      ih hcs.2 hnone.2, Option.map_none]

/-- The first `d` that is not the last component -/
theorem find_first (hd : slash ∉ d) {before after : List Name} (hne : after ≠ [])
    (hcs : ∀ c ∈ before, slash ∉ c) (hnone : d ∉ before) :
    find (slash :: (d ++ [slash])) (joined (before ++ d :: after)) =
      some (joined before).length := by
  induction before with
  | nil =>
    rw [List.nil_append, find_joined_cons hd hd, if_pos ⟨rfl, hne⟩]
    rfl
  | cons e before ih =>
    rw [List.forall_mem_cons] at hcs
    rw [List.mem_cons, not_or] at hnone
    rw [List.cons_append, find_joined_cons hd hcs.1, if_neg fun h => hnone.1 h.1.symm,
      ih hcs.2 hnone.2, Option.map_some, joined_cons, List.length_cons, List.length_append]
    congr 1
    omega

theorem collapse_none {file : Str} (h : find (slash :: (d ++ [slash])) file = none) :
    collapse d file = file := by
  have h' : find (str "/" ++ d ++ str "/") file = none := h
  rw [collapse]
  split
  · rfl
  · rename_i idx hidx
    cases h'.symm.trans hidx

theorem collapse_some {file : Str} {idx : ℕ}
    (h : find (slash :: (d ++ [slash])) file = some idx) :
    collapse d file = collapse d (replace file idx (d.length + 2) [slash]) := by
  have h' : find (str "/" ++ d ++ str "/") file = some idx := h
  rw [collapse]
  split
  · rename_i hidx
    cases h'.symm.trans hidx
  · rename_i idx' hidx
    cases h'.symm.trans hidx
    rfl

/-- What is before a slash is taken out. -/
theorem replace_middle (u m t : Str) :
    replace (u ++ (m ++ slash :: t)) u.length (m.length + 1) [slash] = u ++ slash :: t := by
  have hsplit : u ++ (m ++ slash :: t) = (u ++ (m ++ [slash])) ++ t := by simp
  have hlength : u.length + (m.length + 1) = (u ++ (m ++ [slash])).length := by simp
  rw [replace, List.take_left, hsplit, hlength, List.drop_left, List.append_assoc,
    List.singleton_append]

theorem exists_joined_cons (h : cs ≠ []) : ∃ t, joined cs = slash :: t := by
  cases cs with
  | nil => exact absurd rfl h
  | cons e cs => exact ⟨e ++ joined cs, rfl⟩

theorem collapse_joined (hd : slash ∉ d) (hcs : ∀ e ∈ cs ++ [c], slash ∉ e) :
    collapse d (joined (cs ++ [c])) = joined (cs.filter (· ≠ d) ++ [c]) := by
  induction hn : cs.length using Nat.strong_induction_on generalizing cs with
  | h n ih =>
    by_cases hmem : d ∈ cs
    · obtain ⟨before, after, rfl, hbefore⟩ := List.eq_append_cons_of_mem hmem
      have hne : after ++ [c] ≠ [] := by simp
      have hfirst := find_first hd hne (fun e he => hcs e (by simp [he])) hbefore
      obtain ⟨t, ht⟩ := exists_joined_cons hne
      have hreplace := replace_middle (joined before) (slash :: d) t
      have hjoined : joined (before ++ d :: after ++ [c]) =
          joined before ++ (slash :: d ++ slash :: t) := by
        rw [List.append_assoc, List.cons_append, joined_append, joined_cons, ht, List.cons_append]
      have hshorter : joined before ++ slash :: t = joined (before ++ after ++ [c]) := by
        rw [List.append_assoc, joined_append, ht]
      rw [List.append_assoc, List.cons_append, collapse_some hfirst, ← List.cons_append,
        ← List.append_assoc, hjoined]
      rw [List.length_cons] at hreplace
      rw [hreplace, hshorter,
        ih (before ++ after).length (by rw [← hn]; simp) (fun e he => hcs e ?_) rfl]
      · rw [List.filter_append, List.filter_append, List.filter_cons]
        simp
      · simp only [List.mem_append, List.mem_cons] at he ⊢
        tauto
    · rw [collapse_none (find_none hd hcs hmem), List.filter_eq_self.mpr]
      intro e he
      have hne : e ≠ d := by
        rintro rfl
        exact hmem he
      simpa using hne

theorem collapseDots_none {file : Str} (h : find (slash :: (dotDot ++ [slash])) file = none) :
    collapseDots file = some file := by
  have h' : find (str "/../") file = none := h
  rw [collapseDots]
  split
  · rfl
  · rename_i hidx
    cases h'.symm.trans hidx
  · rename_i idx hidx
    cases h'.symm.trans hidx

theorem collapseDots_zero {file : Str} (h : find (slash :: (dotDot ++ [slash])) file = some 0) :
    collapseDots file = collapseDots (replace file 0 4 [slash]) := by
  have h' : find (str "/../") file = some 0 := h
  rw [collapseDots]
  split
  · rename_i hidx
    cases h'.symm.trans hidx
  · rfl
  · rename_i idx hidx
    cases h'.symm.trans hidx

theorem collapseDots_succ {file : Str} {idx i : ℕ}
    (h : find (slash :: (dotDot ++ [slash])) file = some (idx + 1))
    (hslash : rfind file slash (some idx) = some i) :
    collapseDots file = collapseDots (replace file i (idx + 1 - i + 4) [slash]) := by
  have h' : find (str "/../") file = some (idx + 1) := h
  rw [collapseDots]
  split
  · rename_i hidx
    cases h'.symm.trans hidx
  · rename_i hidx
    cases h'.symm.trans hidx
  · rename_i idx' hidx
    cases h'.symm.trans hidx
    split
    · rename_i hnone
      cases hslash.symm.trans hnone
    · rename_i i' hi
      cases hslash.symm.trans hi
      rfl

theorem collapseDots_joined (hcs : ∀ e ∈ cs ++ [c], slash ∉ e) :
    collapseDots (joined (cs ++ [c])) = some (joined (kept isOther cs ++ [c])) := by
  induction hn : cs.length using Nat.strong_induction_on generalizing cs with
  | h n ih =>
    by_cases hmem : dotDot ∈ cs
    · obtain ⟨before, after, rfl, hbefore⟩ := List.eq_append_cons_of_mem hmem
      have hne : after ++ [c] ≠ [] := by simp
      have hfirst := find_first (d := dotDot) (by decide) hne (fun e he => hcs e (by simp [he]))
        hbefore
      obtain ⟨t, ht⟩ := exists_joined_cons hne
      rw [List.append_assoc, List.cons_append]
      rcases List.eq_nil_or_concat before with rfl | ⟨b, e, rfl⟩
      · have hreplace : replace (joined (dotDot :: (after ++ [c]))) 0 4 [slash] =
            joined (after ++ [c]) := by
          rw [joined_cons, ht]
          exact replace_middle [] (slash :: dotDot) t
        rw [List.nil_append] at hfirst ⊢
        rw [collapseDots_zero hfirst, hreplace,
          ih after.length (by simp [← hn]) (fun e he => hcs e (by simp [he])) rfl]
        rfl
      · rw [List.concat_eq_append] at hfirst hbefore hcs hn ⊢
        have he : slash ∉ e := hcs e (by simp)
        have hne : e ≠ dotDot := fun h => hbefore (by simp [h])
        have hidx : (joined (b ++ [e])).length = (joined b).length + e.length + 1 := by
          simp [joined, Nat.add_assoc]
        have hjoined : joined (b ++ [e] ++ dotDot :: (after ++ [c])) =
            joined b ++ slash :: (e ++ (slash :: dotDot ++ slash :: t)) := by
          rw [List.append_assoc, joined_append, List.singleton_append, joined_cons, joined_cons, ht]
          rfl
        have hlast := rfind_last (w := joined b) he (slash :: dotDot ++ slash :: t)
        have hlength : (joined b).length + e.length + 1 - (joined b).length + 4 =
            (slash :: (e ++ slash :: dotDot)).length + 1 := by
          rw [List.length_cons, List.length_append]
          change _ = e.length + 3 + 1 + 1
          omega
        have hshorter : joined b ++ slash :: t = joined (b ++ after ++ [c]) := by
          rw [List.append_assoc, joined_append, ht]
        have hreplace : replace (joined (b ++ [e] ++ dotDot :: (after ++ [c]))) (joined b).length
            ((joined b).length + e.length + 1 - (joined b).length + 4) [slash] =
            joined (b ++ after ++ [c]) := by
          have hmiddle := replace_middle (joined b) (slash :: (e ++ slash :: dotDot)) t
          rw [hlength, hjoined, ← hshorter, ← hmiddle]
          simp
        rw [hidx] at hfirst
        rw [← hjoined] at hlast
        rw [collapseDots_succ hfirst hlast, hreplace, ih (b ++ after).length _ _ rfl,
          List.append_assoc, List.singleton_append, kept_dotDot hne]
        · rw [← hn]
          simp only [List.length_append, List.length_cons, List.length_nil]
          omega
        · intro e' he'
          refine hcs e' ?_
          simp only [List.mem_append, List.mem_cons] at he' ⊢
          tauto
    · rw [collapseDots_none (find_none (by decide) hcs hmem), (kept_eq_self hmem).2]

/-! ## Normal forms -/

/-- What comes out for an absolute path -/
theorem getAbsfilename_joined (cwd : Str) (hcs : ∀ e ∈ cs ++ [c], slash ∉ e) :
    getAbsfilename cwd (joined (cs ++ [c])) =
      some (joined ((kept isOther cs).filter isName ++ [c])) := by
  have hne : cs ++ [c] ≠ [] := by simp
  obtain ⟨t, ht⟩ := exists_joined_cons hne
  have hkept : ∀ e ∈ kept isOther cs ++ [c], slash ∉ e := by
    intro e he
    rw [List.mem_append] at he
    exact he.elim (fun he => hcs e (List.mem_append_left _ (isName_of_mem_kept he).1))
      fun he => hcs e (List.mem_append_right _ he)
  have hfilter : ((kept isOther cs).filter (· ≠ str ".")).filter (· ≠ []) =
      (kept isOther cs).filter isName := by
    rw [List.filter_filter]
    refine List.filter_congr fun e he => ?_
    have hne := (isName_of_mem_kept he).2.2
    simp only [isName, ne_eq, hne, not_false_eq_true, and_true, Bool.decide_and]
    rfl
  have hne : joined (cs ++ [c]) ≠ [] := by simp [ht]
  have hhead : (joined (cs ++ [c])).head? = some slash := by simp [ht]
  have hrest : ∀ e ∈ (kept isOther cs).filter (· ≠ str ".") ++ [c], slash ∉ e := by
    intro e he
    rw [List.mem_append, List.mem_filter] at he
    exact hkept e (List.mem_append.mpr (he.imp_left And.left))
  rw [getAbsfilename, if_neg hne]
  simp only [hhead, if_true]
  rw [collapseDots_joined hcs, Option.map_some, collapse_joined (by decide) hkept,
    collapse_joined List.not_mem_nil hrest, hfilter]

/-- The first loop always finds a slash before `..`. -/
theorem getAbsfilename_isSome {cwd : Str} (h : cwd = [] ∨ cwd.head? = some slash) (file : Str) :
    (getAbsfilename cwd file).isSome := by
  by_cases hnil : file = []
  · rw [getAbsfilename, if_pos hnil]
    rfl
  have hhead : (if file.head? = some slash then file else cwd ++ str "/" ++ file).head? =
      some slash := by
    split
    · assumption
    · rcases h with rfl | h
      · rfl
      · rw [List.append_assoc, List.head?_append, h]
        rfl
  obtain ⟨cs, c, hjoined, hcs⟩ := exists_joined_concat hhead
  simp only [getAbsfilename, if_neg hnil, hjoined, collapseDots_joined hcs]
  rfl

/-- The path ends in a name, and whenever it leaves a directory it also does so if `.` and empty
components are directories; or it ends in a slash and leaves every directory that way. -/
def Settled (path : Str) : Prop :=
  (isName ((components path).getLastD []) = true ∧
    ∀ c rest, c :: rest <:+ (components path).dropLast → isName c = true →
      Climbs isName rest → Climbs isOther rest) ∨
  ((components path).getLastD [] = [] ∧
    ∀ c rest, c :: rest <:+ (components path).dropLast → isName c = true → Climbs isOther rest)

theorem joined_inj {ds : List Name} (hcs : ∀ e ∈ cs, slash ∉ e) (hds : ∀ e ∈ ds, slash ∉ e) :
    joined cs = joined ds ↔ cs = ds := by
  refine ⟨fun h => ?_, fun h => h ▸ rfl⟩
  have hcomponents := congrArg components h
  have hleft := components_append List.not_mem_nil hcs
  have hright := components_append List.not_mem_nil hds
  rw [List.nil_append] at hleft hright
  rw [hleft, hright] at hcomponents
  exact (List.cons.inj hcomponents).2

/-- A path that ends in no name is in normal form only if it is the root. -/
theorem joined_eq_render {p ds : List Name} (hp : ∀ e ∈ p, slash ∉ e ∧ isName e = true)
    (hds : ∀ e ∈ ds ++ [c], slash ∉ e) (hc : isName c = false) :
    joined (ds ++ [c]) = render p ↔ p = [] ∧ ds = [] ∧ c = [] := by
  by_cases hnil : p = []
  · have hroot : render p = joined [[]] := by rw [render, if_pos hnil]; rfl
    rw [hroot, joined_inj hds (by simp)]
    constructor
    · intro h
      have hlength := congrArg List.length h
      rw [List.length_append, List.length_singleton, List.length_singleton] at hlength
      obtain rfl : ds = [] := List.eq_nil_of_length_eq_zero (by omega)
      exact ⟨hnil, rfl, (List.cons.inj h).1⟩
    · rintro ⟨-, rfl, rfl⟩
      rfl
  · rw [render, if_neg hnil, joined_inj hds fun e he => (hp e he).1]
    constructor
    · rintro rfl
      have hname := (hp c (List.mem_append_right _ (List.mem_singleton_self c))).2
      exact absurd (hname.symm.trans hc) (by decide)
    · exact fun h => absurd h.1 hnil

/-- The client always gets a file name for an absolute path, and it gets the normal form if and
only if the path is settled. -/
theorem getAbsfilename_normalises_iff (cwd : Str) {path : Str} (h : path.head? = some slash) :
    ∃ file, getAbsfilename cwd path = some file ∧
      (file = render (normalise path) ↔ Settled path) := by
  obtain ⟨cs, c, rfl, hcs⟩ := exists_joined_concat h
  refine ⟨_, getAbsfilename_joined cwd hcs, ?_⟩
  have hcomponents : components (joined (cs ++ [c])) = [] :: (cs ++ [c]) :=
    components_append List.not_mem_nil hcs
  have hnormal : normalise (joined (cs ++ [c])) = step (kept isName cs) c := by
    rw [normalise, hcomponents, ← resolve_eq, resolve, resolve, List.foldl_cons, List.foldl_append]
    rfl
  have hsuffixes : ∀ P : Name → List Name → Prop, (∀ d rest, d :: rest <:+ [] :: cs →
      isName d = true → P d rest) ↔ ∀ d rest, d :: rest <:+ cs → isName d = true → P d rest := by
    intro P
    rw [forall_suffix_cons (P := fun d rest => isName d = true → P d rest)]
    exact and_iff_right fun hname => absurd hname (by decide)
  have hsettled : Settled (joined (cs ++ [c])) ↔ (isName c = true ∧
      (kept isOther cs).filter isName = kept isName cs) ∨
      (c = [] ∧ (kept isOther cs).filter isName = []) := by
    rw [Settled, hcomponents, ← List.cons_append, List.getLastD_concat, List.dropLast_concat,
      hsuffixes, hsuffixes, kept_eq_iff, kept_nil_iff]
  have hkept : ∀ e ∈ (kept isOther cs).filter isName ++ [c], slash ∉ e := by
    intro e he
    rw [List.mem_append, List.mem_filter] at he
    exact he.elim (fun he => hcs e (List.mem_append_left _ (isName_of_mem_kept he.1).1))
      fun he => hcs e (List.mem_append_right _ he)
  have hreal : ∀ e ∈ kept isName cs, slash ∉ e ∧ isName e = true := fun e he =>
    ⟨hcs e (List.mem_append_left _ (isName_of_mem_kept he).1), (isName_of_mem_kept he).2.1⟩
  rw [hsettled, hnormal]
  cases hname : isName c with
  | true =>
    obtain ⟨hnil, -, hdots⟩ := of_decide_eq_true hname
    have hstep : step (kept isName cs) c = kept isName cs ++ [c] := by
      rw [step_eq, descend, if_neg hdots, if_pos hname]
    have hboth : ∀ e ∈ kept isName cs ++ [c], slash ∉ e := by
      intro e he
      rw [List.mem_append] at he
      exact he.elim (fun he => (hreal e he).1) fun he => hcs e (List.mem_append_right _ he)
    rw [hstep, render, if_neg (List.append_ne_nil_of_right_ne_nil _ (List.cons_ne_nil c [])),
      joined_inj hkept hboth, List.append_cancel_right_eq]
    simp [hnil]
  | false =>
    have hstep : ∀ e ∈ step (kept isName cs) c, slash ∉ e ∧ isName e = true := by
      intro e he
      refine hreal e ?_
      rw [step_eq, descend, hname] at he
      split at he
      · exact List.mem_of_mem_dropLast he
      · exact he
    rw [joined_eq_render hstep hkept hname]
    simp only [Bool.false_eq_true, false_and, false_or]
    constructor
    · exact fun h => ⟨h.2.2, h.2.1⟩
    · rintro ⟨rfl, hnone⟩
      refine ⟨?_, hnone, rfl⟩
      have hsublist := kept_sublist cs
      rw [hnone, List.sublist_nil] at hsublist
      rw [step, if_pos (.inl rfl), hsublist]

/-- Two components that are taken back, one after the other -/
theorem getAbsfilename_normalises_iff_up : (str "/a/b/../../c").head? = some slash ∧
    ∃ file, getAbsfilename [] (str "/a/b/../../c") = some file ∧
      (file = render (normalise (str "/a/b/../../c")) ↔ Settled (str "/a/b/../../c")) :=
  ⟨by decide, getAbsfilename_normalises_iff [] (by decide)⟩

/-- An empty component is taken for a directory, and what is at the end is left as it is. -/
theorem getAbsfilename_abnormal :
    getAbsfilename [] (str "/a//../b") = some (str "/a/b") ∧
      render (normalise (str "/a//../b")) = str "/b" ∧
    getAbsfilename [] (str "/a/b/..") = some (str "/a/b/..") ∧
      render (normalise (str "/a/b/..")) = str "/a" := by
  decide +kernel

end Icecream.Client
