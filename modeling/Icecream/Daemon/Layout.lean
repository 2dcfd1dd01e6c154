import Icecream.Daemon.FileUtil
import Icecream.Services.Basename

/-!
# The directories of a job with split debug information

For such a job `handle_connection` recreates the client's directories under a temporary
one. The compiler runs in the working directory there and writes to a relative path,
while the daemon looks for the object under the path it has put together itself.
-/

namespace Icecream.Daemon

open Icecream.Comm (Str str)
open Icecream.Path
open Icecream.Services (rfind IsDir)

/-- The directory `mkdtemp` makes, which fills in the end of the name -/
def dccMakeTmpdir (filled : Str) : Str := str "/tmp/icecc-" ++ filled

structure Layout where
  outputDir : Str
  relativeFilePath : Str
  objFile : Str
  dwoFile : Str

/-- What `handle_connection` makes of the output file and the working directory -/
def layout (tmpPath jobOutputFile jobWorkingDir : Str) : Layout :=
  let slashIndex := rfind jobOutputFile (str "/")
  let fileDir := (slashIndex.map fun i => jobOutputFile.take i).getD []
  let fileName := (slashIndex.map fun i => jobOutputFile.drop (i + 1)).getD jobOutputFile
  let canonicalizedDir := getCanonicalizedPath (jobWorkingDir ++ slash :: fileDir)
  let absolute : Bool := fileDir ≠ [] ∧ fileDir.head? = some slash
  let relativeFilePath :=
    if absolute then
      getRelativePath (getCanonicalizedPath jobOutputFile) (getCanonicalizedPath jobWorkingDir)
    else
      getRelativePath (canonicalizedDir ++ slash :: fileName) (getCanonicalizedPath jobWorkingDir)
  let outputDir := tmpPath ++ if absolute then getCanonicalizedPath fileDir else canonicalizedDir
  let objFile := outputDir ++ slash :: fileName
  { outputDir, relativeFilePath, objFile
    dwoFile := objFile.take ((rfind objFile (str ".")).getD objFile.length) ++ str ".dwo" }

/-- The path the file has on the client -/
def clientPath (jobOutputFile jobWorkingDir : Str) : Str :=
  if jobOutputFile.head? = some slash then jobOutputFile else jobWorkingDir ++ slash :: jobOutputFile

/-- The object is looked for under its client's path, where the compiler writes it. -/
def Layout.Consistent (l : Layout) (tmpPath jobOutputFile jobWorkingDir : Str) : Prop :=
  l.objFile = tmpPath ++ getCanonicalizedPath (clientPath jobOutputFile jobWorkingDir) ∧
  getCanonicalizedPath (tmpPath ++ getCanonicalizedPath jobWorkingDir ++ slash :: l.relativeFilePath) =
    l.objFile

/-! ## Both branches -/

variable {filled fileDir fileName outputFile workingDir : Str} {p q : List Name}

theorem dccMakeTmpdir_eq (hfilled : slash ∉ filled) :
    ∃ tmp, dccMakeTmpdir filled = render tmp ∧ tmp ≠ [] ∧ ∀ c ∈ tmp, slash ∉ c ∧ isName c = true := by
  refine ⟨[str "tmp", str "icecc-" ++ filled], ?_, List.cons_ne_nil _ _, ?_⟩
  · rw [render, if_neg (List.cons_ne_nil _ _), joined_cons, joined_cons, joined, List.flatMap_nil,
      List.append_nil]
    rfl
  have hslash : slash ∉ str "icecc-" := by decide
  simp only [List.forall_mem_cons]
  have hreal : isName (str "icecc-" ++ filled) = true := by
    have hletter : (str "icecc-" ++ filled).head? = some 105 := rfl
    simp only [isName, decide_eq_true_eq]
    refine ⟨?_, ?_, ?_⟩
    · intro h
      simp [h] at hletter
    · intro h
      simp [h, dot] at hletter
    · intro h
      simp [h, dotDot] at hletter
  refine ⟨by decide, ⟨?_, hreal⟩, List.forall_mem_nil _⟩
  exact fun hmem => (List.mem_append.mp hmem).elim hslash hfilled

/-- The directory of the object, before it is made canonical -/
def objectDir (fileDir workingDir : Str) : Str :=
  if fileDir.head? = some slash then fileDir else workingDir ++ slash :: fileDir

theorem head?_objectDir (fileDir : Str) (hwork : workingDir.head? = some slash) :
    (objectDir fileDir workingDir).head? = some slash := by
  unfold objectDir
  split
  · assumption
  · rw [List.head?_append, hwork]
    rfl

/-- The directory of a path without a slash is empty. -/
def Splits (outputFile fileDir fileName : Str) : Prop :=
  outputFile = fileName ∧ fileDir = [] ∨ outputFile = fileDir ++ slash :: fileName

theorem layout_parts (hname : slash ∉ fileName) (hfile : Splits outputFile fileDir fileName) :
    ((rfind outputFile (str "/")).map fun i => outputFile.take i).getD [] = fileDir ∧
      ((rfind outputFile (str "/")).map fun i => outputFile.drop (i + 1)).getD outputFile =
        fileName := by
  rcases hfile with ⟨rfl, rfl⟩ | rfl
  · rw [Services.rfind_slash_none hname]
    exact ⟨rfl, rfl⟩
  · rw [Services.rfind_slash hname]
    simp

theorem normalise_append_name (s : Str) (hname : slash ∉ fileName) (hreal : isName fileName = true) :
    normalise (s ++ slash :: fileName) = normalise s ++ [fileName] := by
  rw [normalise_append, components, List.splitOn_eq_singleton hname]
  exact resolve_names _ fun c hc => by rwa [List.mem_singleton.mp hc]

theorem split_append_name (hp : ∀ c ∈ p, slash ∉ c ∧ isName c = true) (hname : slash ∉ fileName)
    (hreal : isName fileName = true) :
    split (render p ++ slash :: fileName) slash = p ++ [fileName] := by
  have hne : fileName ≠ [] := by
    rintro rfl
    exact absurd hreal (by decide)
  have hrender := split_render hp
  rw [split, List.splitOn_append_cons_self, List.filter_append, List.splitOn_eq_singleton hname]
  rw [split] at hrender
  rw [hrender]
  simp [hne]

/-- What the two branches have in common -/
theorem layout_eq (tmpPath : Str) (hname : slash ∉ fileName) (hreal : isName fileName = true)
    (hwork : workingDir.head? = some slash)
    (hfile : Splits outputFile fileDir fileName) :
    let dir := normalise (objectDir fileDir workingDir)
    let l := layout tmpPath outputFile workingDir
    l.objFile = tmpPath ++ render dir ++ slash :: fileName ∧
    ∃ toPath, l.relativeFilePath = getRelativePath toPath (getCanonicalizedPath workingDir) ∧
      split toPath slash = dir ++ [fileName] := by
  obtain ⟨hdir, hlast⟩ := layout_parts hname hfile
  have hcanonical := getCanonicalizedPath_eq (head?_objectDir fileDir hwork)
  have hnames : ∀ {s : Str}, ∀ c ∈ normalise s, slash ∉ c ∧ isName c = true := fun c hc =>
    mem_normalise hc
  simp only [layout, hdir, hlast]
  by_cases hhead : fileDir.head? = some slash
  · have hne : fileDir ≠ [] := by
      rintro rfl
      cases hhead
    have hsplit : outputFile = fileDir ++ slash :: fileName := hfile.resolve_left fun h => hne h.2
    have hobject : objectDir fileDir workingDir = fileDir := if_pos hhead
    have habsolute : outputFile.head? = some slash := by
      rw [hsplit, List.head?_append, hhead]
      rfl
    rw [hobject] at hcanonical ⊢
    simp only [hhead, hne, ne_eq, not_false_eq_true, and_self, decide_true, if_true, hcanonical]
    refine ⟨trivial, _, rfl, ?_⟩
    rw [getCanonicalizedPath_eq habsolute, split_render hnames, hsplit,
      normalise_append_name _ hname hreal]
  · have hobject : objectDir fileDir workingDir = workingDir ++ slash :: fileDir := if_neg hhead
    rw [hobject] at hcanonical ⊢
    simp only [hhead, and_false, decide_false, Bool.false_eq_true, if_false, hcanonical]
    exact ⟨trivial, _, rfl, split_append_name hnames hname hreal⟩

theorem normalise_clientPath (workingDir : Str) (hname : slash ∉ fileName) (hreal : isName fileName = true)
    (hfile : Splits outputFile fileDir fileName) :
    normalise (clientPath outputFile workingDir) =
      if outputFile = slash :: fileName then [fileName]
      else normalise (objectDir fileDir workingDir) ++ [fileName] := by
  have hroot : normalise (slash :: fileName) = [fileName] := normalise_append_name [] hname hreal
  have hhead : fileName.head? ≠ some slash := fun h => hname (List.mem_of_head? h)
  rcases hfile with ⟨rfl, rfl⟩ | rfl
  · have hne : outputFile ≠ slash :: outputFile := fun h => by
      simpa using congrArg List.length h
    rw [if_neg hne, clientPath, if_neg hhead, objectDir, if_neg (by simp),
      normalise_append_name _ hname hreal, normalise_append]
    rfl
  · cases fileDir with
    | nil =>
      have habsolute : (slash :: fileName).head? = some slash := rfl
      rw [List.nil_append, if_pos rfl, clientPath, if_pos habsolute, hroot]
    | cons x d =>
      have hne : x :: d ++ slash :: fileName ≠ slash :: fileName := fun h => by
        have hlength := congrArg List.length h
        rw [List.length_append, List.length_cons] at hlength
        omega
      have hheads : (x :: d ++ slash :: fileName).head? = (x :: d).head? := rfl
      rw [if_neg hne, clientPath, hheads, objectDir]
      split
      · exact normalise_append_name _ hname hreal
      · rw [← List.cons_append, ← List.append_assoc]
        exact normalise_append_name _ hname hreal

theorem exists_fileDir (outputFile : Str) :
    ∃ fileDir, Splits outputFile fileDir (Services.findBasename outputFile) := by
  obtain ⟨dir, name, rfl, hdir, hname⟩ := Services.exists_dir_append outputFile
  rw [Services.findBasename_append hdir hname]
  rcases hdir with rfl | ⟨d, rfl⟩
  · exact ⟨[], .inl ⟨rfl, rfl⟩⟩
  · exact ⟨d, .inr (by simp)⟩

theorem normalise_render_append (hp : ∀ c ∈ p, slash ∉ c ∧ isName c = true)
    (hq : ∀ c ∈ q, slash ∉ c ∧ isName c = true) :
    normalise (render p ++ render q) = p ++ q := by
  rw [render_eq_intercalate q, normalise_append, normalise_render hp, resolve_intercalate hq]

theorem render_concat (p : List Name) (c : Name) : render (p ++ [c]) = joined p ++ slash :: c := by
  rw [render, if_neg (by simp), joined_append]
  simp [joined]

theorem render_eq_joined_iff : render p = joined p ↔ p ≠ [] := by
  by_cases hp : p = []
  · simp [hp, render, joined]
  · simp [hp, render]

theorem joined_eq_nil_iff : joined p = [] ↔ p = [] := by
  cases p with
  | nil => exact ⟨fun _ => rfl, fun _ => rfl⟩
  | cons c p => simp

/-- A file directly in the root directory is taken for one in the working directory, and
another one there is written with two slashes. -/
theorem layout_consistent_iff (hfilled : slash ∉ filled) (hwork : workingDir.head? = some slash)
    (hreal : isName (Services.findBasename outputFile) = true) :
    (layout (dccMakeTmpdir filled) outputFile workingDir).Consistent (dccMakeTmpdir filled)
        outputFile workingDir ↔
      getCanonicalizedPath (clientPath outputFile workingDir) ≠
        slash :: Services.findBasename outputFile := by
  obtain ⟨tmp, htmp, hne, hnames⟩ := dccMakeTmpdir_eq hfilled
  obtain ⟨fileDir, hfile⟩ := exists_fileDir outputFile
  have hname := Services.slash_not_mem_findBasename outputFile
  generalize Services.findBasename outputFile = fileName at hfile hname hreal ⊢
  obtain ⟨hobject, toPath, hrelative, hsplit⟩ :=
    layout_eq (dccMakeTmpdir filled) hname hreal hwork hfile
  have hclient := normalise_clientPath workingDir hname hreal hfile
  have hmem : ∀ {s : Str}, ∀ c ∈ normalise s, slash ∉ c ∧ isName c = true := fun c hc =>
    mem_normalise hc
  have hlast : ∀ c ∈ normalise (objectDir fileDir workingDir) ++ [fileName],
      slash ∉ c ∧ isName c = true := by
    simp only [List.forall_mem_append, List.forall_mem_singleton]
    exact ⟨hmem, hname, hreal⟩
  have habsolute : (clientPath outputFile workingDir).head? = some slash := by
    unfold clientPath
    split
    · assumption
    · rw [List.head?_append, hwork]
      rfl
  -- the compiler writes to the object's place below the temporary directory
  have hwrites : getCanonicalizedPath (dccMakeTmpdir filled ++ getCanonicalizedPath workingDir ++
      slash :: (layout (dccMakeTmpdir filled) outputFile workingDir).relativeFilePath) =
      dccMakeTmpdir filled ++ joined (normalise (objectDir fileDir workingDir)) ++
        slash :: fileName := by
    have hhead : ((dccMakeTmpdir filled ++ getCanonicalizedPath workingDir) ++ slash ::
        (layout (dccMakeTmpdir filled) outputFile workingDir).relativeFilePath).head? =
        some slash := rfl
    rw [getCanonicalizedPath_eq hhead, hrelative, normalise_append, getCanonicalizedPath_eq hwork,
      htmp, normalise_render_append hnames hmem,
      resolve_getRelativePath tmp hsplit (split_render hmem) hlast, ← List.append_assoc,
      render_concat, joined_append]
    rw [render, if_neg hne]
  rw [Layout.Consistent, hwrites, hobject, getCanonicalizedPath_eq habsolute, hclient]
  simp only [List.append_assoc, List.append_cancel_left_eq]
  split
  · have hroot : render [fileName] = slash :: fileName := by
      rw [render, if_neg (List.cons_ne_nil _ _)]
      simp [joined]
    rw [hroot]
    refine iff_of_false (fun h => ?_) (fun h => h rfl)
    have hnil : render (normalise (objectDir fileDir workingDir)) = [] :=
      List.append_left_eq_self.mp h.1
    have hhead := head?_render (normalise (objectDir fileDir workingDir))
    rw [hnil] at hhead
    cases hhead
  · have hroot : joined (normalise (objectDir fileDir workingDir)) ++ slash :: fileName =
        slash :: fileName ↔ normalise (objectDir fileDir workingDir) = [] := by
      rw [List.append_left_eq_self, joined_eq_nil_iff]
    rw [render_concat, List.append_cancel_right_eq, List.append_cancel_right_eq, ne_eq, hroot,
      ← ne_eq, ← render_eq_joined_iff]
    exact ⟨And.left, fun h => ⟨h, h.symm⟩⟩

/-- The file is at the root of the client: it is looked for in the working directory. -/
theorem layout_inconsistent_root :
    ¬ (layout (dccMakeTmpdir (str "aaaaaa")) (str "/b.o") (str "/w")).Consistent
      (dccMakeTmpdir (str "aaaaaa")) (str "/b.o") (str "/w") := by
  unfold Layout.Consistent
  decide

theorem layout_consistent_iff_up : slash ∉ str "aaaaaa" ∧ (str "/w/x").head? = some slash ∧
    isName (Services.findBasename (str "../y//b.o")) = true ∧
    ((layout (dccMakeTmpdir (str "aaaaaa")) (str "../y//b.o") (str "/w/x")).Consistent
        (dccMakeTmpdir (str "aaaaaa")) (str "../y//b.o") (str "/w/x") ↔
      getCanonicalizedPath (clientPath (str "../y//b.o") (str "/w/x")) ≠
        slash :: Services.findBasename (str "../y//b.o")) :=
  ⟨by decide, by decide, by decide, layout_consistent_iff (by decide) (by decide) (by decide)⟩

example : (layout (str "/tmp/t") (str "../y//b.o") (str "/w/x")).objFile =
    str "/tmp/t/w/y/b.o" := by decide

end Icecream.Daemon
