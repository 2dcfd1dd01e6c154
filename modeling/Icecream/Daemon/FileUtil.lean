import Icecream.Library.Path
import Icecream.Comm.Message

/-!
# Paths as the daemon computes them

The path functions of `daemon/file_util.cpp`, which work on the text alone. A canonical
path is a written normal form, and a relative path leads from one to another.
-/

namespace Icecream.Daemon

open Icecream.Comm (Str str)
open Icecream.Path

/-- The items that `getline` reads, less the empty ones -/
def split (s : Str) (delim : UInt8) : List Str := (s.splitOn delim).filter (· ≠ [])

/-- The loop over both paths while their components agree -/
def skipCommon : List Str → List Str → List Str × List Str
  | t :: toDirs, f :: fromDirs =>
    if t = f then skipCommon toDirs fromDirs else (t :: toDirs, f :: fromDirs)
  | toDirs, fromDirs => (toDirs, fromDirs)

def getRelativePath (toPath fromPath : Str) : Str :=
  let rest := skipCommon (split toPath slash) (split fromPath slash)
  rest.2.flatMap (fun _ => str "../") ++ [slash].intercalate rest.1

/-- One part taken into the canonical path; `..` at the root is left out. -/
def takePart (canonicalized : List Str) (part : Str) : List Str :=
  if part = dotDot ∧ canonicalized ≠ [] then canonicalized.dropLast
  else if part ≠ dot ∧ part ≠ dotDot then canonicalized ++ [part]
  else canonicalized

def getCanonicalizedPath (path : Str) : Str :=
  if path = [] ∨ path.head? ≠ some slash then path
  else slash :: [slash].intercalate ((split path slash).foldl takePart [])

/-! ## Canonical paths -/

variable {s : Str} {p t f : List Name}

theorem foldl_takePart (hcs : ∀ c ∈ t, c ≠ []) : t.foldl takePart p = resolve p t := by
  induction t generalizing p with
  | nil => rfl
  | cons c cs ih =>
    rw [List.forall_mem_cons] at hcs
    have hpart : takePart p c = step p c := by
      unfold takePart step
      by_cases hup : c = dotDot
      · subst hup
        rcases List.eq_nil_or_concat p with rfl | ⟨q, d, rfl⟩
        · rfl
        · simp [dotDot, dot]
      · by_cases hdot : c = dot
        · simp [hdot, dotDot, dot]
        · simp [hup, hdot, hcs.1]
    rw [List.foldl_cons, hpart, ih hcs.2]
    rfl

theorem render_eq_intercalate (p : List Name) : render p = slash :: [slash].intercalate p := by
  cases p with
  | nil => rfl
  | cons c p =>
    rw [render, if_neg (List.cons_ne_nil c p)]
    induction p generalizing c with
    | nil => simp [joined]
    | cons d p ih =>
      rw [joined_cons, ih d, List.intercalate_cons_cons]
      simp

theorem getCanonicalizedPath_eq (h : s.head? = some slash) :
    getCanonicalizedPath s = render (normalise s) := by
  have hne : ¬ (s = [] ∨ s.head? ≠ some slash) := by
    rintro (rfl | hhead)
    · cases h
    · exact hhead h
  have hparts : ∀ c ∈ split s slash, c ≠ [] := fun c hc => by simpa using List.of_mem_filter hc
  rw [getCanonicalizedPath, if_neg hne, foldl_takePart hparts, split, resolve_filter,
    render_eq_intercalate]
  rfl

theorem split_render (h : ∀ c ∈ p, slash ∉ c ∧ isName c = true) : split (render p) slash = p := by
  have hne : ∀ c ∈ p, c ≠ [] := by
    intro c hc hnil
    have hname := (h c hc).2
    rw [hnil] at hname
    exact absurd hname (by decide)
  have hkept : p.filter (· ≠ []) = p :=
    List.filter_eq_self.mpr fun c hc => decide_eq_true (hne c hc)
  have hsplit := components_render fun c hc => (h c hc).1
  rw [split]
  rw [components] at hsplit
  rw [hsplit, List.filter_cons_of_neg (by simp)]
  split
  · rename_i hp
    rw [hp]
    rfl
  · exact hkept

/-! ## Relative paths -/

/-- What is left of two paths after their common beginning -/
theorem skipCommon_append (t f : List Str) :
    ∃ common, t = common ++ (skipCommon t f).1 ∧ f = common ++ (skipCommon t f).2 := by
  induction t generalizing f with
  | nil => exact ⟨[], rfl, rfl⟩
  | cons c t ih =>
    cases f with
    | nil => exact ⟨[], rfl, rfl⟩
    | cons d f =>
      by_cases hcd : c = d
      · obtain ⟨common, ht, hf⟩ := ih f
        rw [skipCommon, if_pos hcd]
        exact ⟨c :: common, congrArg (c :: ·) ht, by rw [← hcd]; exact congrArg (c :: ·) hf⟩
      · rw [skipCommon, if_neg hcd]
        exact ⟨[], rfl, rfl⟩

theorem components_up (n : List Str) (rest : Str) :
    components (n.flatMap (fun _ => str "../") ++ rest) =
      List.replicate n.length dotDot ++ components rest := by
  induction n with
  | nil => rfl
  | cons c n ih =>
    rw [List.flatMap_cons, List.append_assoc]
    exact (components_append_cons dotDot _).trans (congrArg (dotDot :: ·) ih)

theorem resolve_intercalate (h : ∀ c ∈ t, slash ∉ c ∧ isName c = true) :
    resolve p (components ([slash].intercalate t)) = p ++ t := by
  by_cases hne : t = []
  · subst hne
    exact (List.append_nil p).symm
  · rw [components, List.splitOn_intercalate slash (fun c hc => (h c hc).1) hne]
    exact resolve_names p fun c hc => (h c hc).2

/-- The relative path, read in `fromPath` below any directory, leads to `toPath` below it. -/
theorem resolve_getRelativePath {toPath fromPath : Str} (p : List Name) (ht : split toPath slash = t)
    (hf : split fromPath slash = f) (hnames : ∀ c ∈ t, slash ∉ c ∧ isName c = true) :
    resolve (p ++ f) (components (getRelativePath toPath fromPath)) = p ++ t := by
  obtain ⟨common, htc, hfc⟩ := skipCommon_append t f
  rw [getRelativePath, ht, hf, components_up, resolve_append, resolve_replicate]
  generalize skipCommon t f = rest at htc hfc
  subst htc hfc
  have hrest : ∀ c ∈ rest.1, slash ∉ c ∧ isName c = true := fun c hc =>
    hnames c (List.mem_append_right common hc)
  have hup : (p ++ (common ++ rest.2)).rdrop rest.2.length = p ++ common := by
    rw [← List.append_assoc]
    exact List.rdrop_append_length
  rw [resolve_intercalate hrest, hup, List.append_assoc]

/-- No component but the names of directories and files, each with something in it -/
def Plain (path : Str) : Prop :=
  path = [slash] ∨ ∃ rest, path = slash :: rest ∧
    ∀ c ∈ components rest, c ≠ [] ∧ c ≠ dot ∧ c ≠ dotDot

theorem plain_render (h : ∀ c ∈ p, slash ∉ c ∧ isName c = true) : Plain (render p) := by
  by_cases hp : p = []
  · exact .inl (by rw [hp]; rfl)
  · refine .inr ⟨_, render_eq_intercalate p, ?_⟩
    rw [components, List.splitOn_intercalate slash (fun c hc => (h c hc).1) hp]
    intro c hc
    simpa [isName] using (h c hc).2

theorem getCanonicalizedPath_relative {toPath fromPath : Str} (hto : toPath.head? = some slash)
    (hfrom : fromPath.head? = some slash) :
    getCanonicalizedPath (getCanonicalizedPath toPath) = getCanonicalizedPath toPath ∧
    Plain (getCanonicalizedPath toPath) ∧
    getCanonicalizedPath (getCanonicalizedPath fromPath ++ slash ::
        getRelativePath (getCanonicalizedPath toPath) (getCanonicalizedPath fromPath)) =
      getCanonicalizedPath toPath := by
  have hnames : ∀ {s : Str}, ∀ c ∈ normalise s, slash ∉ c ∧ isName c = true := fun c hc =>
    mem_normalise hc
  rw [getCanonicalizedPath_eq hto, getCanonicalizedPath_eq hfrom]
  refine ⟨?_, plain_render hnames, ?_⟩
  · rw [getCanonicalizedPath_eq (head?_render _), normalise_render hnames]
  · have hhead : (render (normalise fromPath) ++ slash ::
        getRelativePath (render (normalise toPath)) (render (normalise fromPath))).head? = some slash := by
      rw [List.head?_append, head?_render]
      rfl
    rw [getCanonicalizedPath_eq hhead, normalise_append, normalise_render hnames]
    have hsplit : split (render (normalise fromPath)) slash = normalise fromPath :=
      split_render hnames
    have hleads := resolve_getRelativePath [] (split_render (hnames (s := toPath))) hsplit hnames
    rw [List.nil_append] at hleads
    rw [hleads]
    rfl

/-- From a directory beside the one the path goes through -/
theorem getCanonicalizedPath_relative_beside :
    (str "/a/./b//c").head? = some slash ∧ (str "/../a/x/y/../z").head? = some slash ∧
    getCanonicalizedPath (getCanonicalizedPath (str "/../a/x/y/../z") ++ slash ::
        getRelativePath (getCanonicalizedPath (str "/a/./b//c"))
          (getCanonicalizedPath (str "/../a/x/y/../z"))) =
      getCanonicalizedPath (str "/a/./b//c") :=
  ⟨by decide, by decide, (getCanonicalizedPath_relative (by decide) (by decide)).2.2⟩

example : getRelativePath (str "/a/b/c") (str "/a/x/z") = str "../../b/c" := by decide

end Icecream.Daemon
