import Icecream.Comm.Message
import Icecream.Library.Firsts
import Icecream.Services.Basename
import Mathlib.Tactic

/-!
# Environments for other hosts

`ICECC_VERSION` lists files that hold environments, each for a platform and perhaps for compilers
with a prefix. The scheduler is offered them by their names; what is kept of the files is looked up
by the platform of the host that it answers with.
-/

namespace Icecream.Client.Versions

open Icecream.Comm (Str str Environments)
open Icecream.Services (findBasename)

/-- What `access` and `lstat` say of files, and whether they are regular, with their sizes -/
structure Disk where
  readable : Str → Bool := fun _ => false
  lstat : Str → Option (Bool × ℕ) := fun _ => none

/-! ## `parse_icecc_version` -/

/-- The platform and the version of a couple -/
def platformOf (targetPlatform couple : Str) : Str × Str :=
  match couple.findIdx? (· = 58) with
  | none => (targetPlatform, couple)
  | some colon => (couple.take colon, couple.drop (colon + 1))

/-- The file of a version, unless it is for compilers with another prefix -/
def fileFor (compilerPrefix : Str) (defTargets : Bool) (version : Str) : Option Str :=
  if defTargets then
    match version.findIdx? (· = 61) with
    | some colon => if compilerPrefix ≠ version.drop (colon + 1) then none else some (version.take colon)
    | none => if compilerPrefix ≠ [] then none else some version
  else some version

def entryOf (targetPlatform compilerPrefix : Str) (defTargets : Bool) (couple : Str) :
    Option (Str × Str) :=
  let (platform, version) := platformOf targetPlatform couple
  (fileFor compilerPrefix defTargets version).map fun file => (platform, file)

/-- The file can be read, is a regular one and is large enough. -/
def Disk.usable (disk : Disk) (env : Str × Str) : Bool :=
  disk.readable env.2 && (disk.lstat env.2).any fun st => st.1 && 500 ≤ st.2

/-- The entries that are for this compiler -/
def entries (iceccVersion targetPlatform compilerPrefix : Str) : Environments :=
  ((iceccVersion.splitOn 44).filter (· ≠ [])).filterMap
    (entryOf targetPlatform compilerPrefix (61 ∈ iceccVersion))

/-- Of a platform the first usable entry is taken. -/
def parseIceccVersion (disk : Disk) (iceccVersion targetPlatform compilerPrefix : Str) : Environments :=
  Firsts.firsts Prod.fst disk.usable (entries iceccVersion targetPlatform compilerPrefix)

/-! ## `rip_out_paths` -/

def endswith (orig suff : Str) : Option Str :=
  if suff.length < orig.length ∧ orig.drop (orig.length - suff.length) = suff then
    some (orig.take (orig.length - suff.length))
  else none

def suffs : List Str :=
  [str ".tar.xz", str ".tar.zst", str ".tar.bz2", str ".tar.gz", str ".tar", str ".tgz"]

/-- What is returned, with `version_map` and `versionfile_map` -/
structure Ripped where
  envs : Environments := []
  version : Str → Str := fun _ => []
  versionfile : Str → Str := fun _ => []

def Ripped.add (r : Ripped) (env : Str × Str) (version : Str) : Ripped where
  envs := r.envs ++ [(env.1, version)]
  version := Function.update r.version env.1 version
  versionfile := Function.update r.versionfile env.1 env.2

def ripSuffix (env : Str × Str) (r : Ripped) (suff : Str) : Ripped :=
  match endswith env.2 suff with
  | none => r
  | some versfile => r.add env (findBasename versfile)

def ripEnv (r : Ripped) (env : Str × Str) : Ripped := suffs.foldl (ripSuffix env) r

def ripOutPaths (envs : Environments) : Ripped := envs.foldl ripEnv {}

/-! ## One name for a file -/

theorem endswith_eq_some {orig suff versfile : Str} (h : endswith orig suff = some versfile) :
    orig = versfile ++ suff ∧ versfile ≠ [] := by
  obtain ⟨⟨hlength, hsuff⟩, heq⟩ := Option.ite_none_right_eq_some.mp h
  obtain rfl := Option.some.inj heq
  refine ⟨?_, fun hnil => ?_⟩
  · nth_rewrite 1 [← List.take_append_drop (orig.length - suff.length) orig]
    rw [hsuff]
  · rw [List.take_eq_nil_iff] at hnil
    rcases hnil with hzero | rfl
    · omega
    · exact Nat.not_lt_zero _ hlength

/-- None of the suffixes is one of another. -/
theorem suffs_apart {a b : Str} (ha : a ∈ suffs) (hb : b ∈ suffs) {s : Str} (has : a <:+ s) (hbs : b <:+ s) :
    a = b := by
  have happart : ∀ a ∈ suffs, ∀ b ∈ suffs, a <:+ b → a = b := by decide
  rcases List.suffix_or_suffix_of_suffix has hbs with h | h
  · exact happart a ha b hb h
  · exact (happart b hb a ha h).symm

/-- What an environment is called: the file has one of the suffixes. -/
inductive Names (file version : Str) : Prop
  | intro (base suff : Str) (hsuff : suff ∈ suffs) (hbase : base ≠ []) (hfile : file = base ++ suff)
      (hversion : version = findBasename base)

theorem ripSuffix_none {env : Str × Str} {r : Ripped} {suff : Str} (h : endswith env.2 suff = none) :
    ripSuffix env r suff = r := by
  rw [ripSuffix, h]

theorem foldl_none {env : Str × Str} {r : Ripped} {l : List Str}
    (h : ∀ suff ∈ l, endswith env.2 suff = none) : l.foldl (ripSuffix env) r = r := by
  induction l generalizing r with
  | nil => rfl
  | cons suff l ih =>
    rw [List.foldl_cons, ripSuffix_none (h suff List.mem_cons_self)]
    exact ih fun x hx => h x (List.mem_cons_of_mem _ hx)

/-- An environment is left out, or it gets one name. -/
theorem ripEnv_cases (r : Ripped) (env : Str × Str) :
    ((∀ version, ¬ Names env.2 version) ∧ ripEnv r env = r) ∨
    ∃ version, Names env.2 version ∧ ripEnv r env = r.add env version := by
  by_cases hnone : ∀ suff ∈ suffs, endswith env.2 suff = none
  · refine .inl ⟨?_, foldl_none hnone⟩
    rintro version ⟨base, suff, hsuff, hbase, hfile, -⟩
    have hends : endswith env.2 suff = some base := by
      have hlength : suff.length < env.2.length := by
        rw [hfile, List.length_append]
        have := List.length_pos_of_ne_nil hbase
        omega
      have hcut : env.2.length - suff.length = base.length := by
        rw [hfile, List.length_append, Nat.add_sub_cancel]
      rw [endswith, hcut, if_pos ⟨hlength, by rw [hfile, List.drop_left]⟩, hfile, List.take_left]
    rw [hnone suff hsuff] at hends
    cases hends
  · push Not at hnone
    obtain ⟨suff, hsuff, hends⟩ := hnone
    obtain ⟨base, hbase⟩ := Option.ne_none_iff_exists'.mp hends
    obtain ⟨hfile, hne⟩ := endswith_eq_some hbase
    refine .inr ⟨findBasename base, ⟨base, suff, hsuff, hne, hfile, rfl⟩, ?_⟩
    obtain ⟨before, after, hsplit⟩ := List.append_of_mem hsuff
    have hother : ∀ other ∈ suffs, other ≠ suff → endswith env.2 other = none := by
      intro other hmem hdiff
      by_contra hsome
      obtain ⟨base', hbase'⟩ := Option.ne_none_iff_exists'.mp hsome
      have hother : other <:+ env.2 := ⟨base', (endswith_eq_some hbase').1.symm⟩
      exact hdiff (suffs_apart hmem hsuff hother ⟨base, hfile.symm⟩)
    have hnodup : (before ++ suff :: after).Nodup := hsplit ▸ (by decide)
    have hfront : ∀ other ∈ before, endswith env.2 other = none := fun other hmem =>
      hother other (hsplit ▸ List.mem_append_left _ hmem) fun heq =>
        (List.nodup_append.mp hnodup).2.2 other hmem suff List.mem_cons_self heq
    have hback : ∀ other ∈ after, endswith env.2 other = none := fun other hmem =>
      hother other (hsplit ▸ List.mem_append_right _ (List.mem_cons_of_mem _ hmem)) fun heq =>
        (List.nodup_cons.mp (List.nodup_append.mp hnodup).2.1).1 (heq ▸ hmem)
    rw [ripEnv, hsplit, List.foldl_append, foldl_none hfront, List.foldl_cons, foldl_none hback, ripSuffix,
      hbase]

/-! ## What the scheduler is offered -/

theorem Names.unique {file version version' : Str} (h : Names file version) (h' : Names file version') :
    version = version' := by
  obtain ⟨base, suff, hsuff, -, hfile, rfl⟩ := h
  obtain ⟨base', suff', hsuff', -, hfile', rfl⟩ := h'
  obtain rfl := suffs_apart hsuff hsuff' ⟨base, hfile.symm⟩ ⟨base', hfile'.symm⟩
  rw [List.append_cancel_right (hfile.symm.trans hfile')]

/-- The environments have names, which are looked up with their files; nothing else is found. -/
structure Offers (envs : Environments) (r : Ripped) : Prop where
  named : ∀ e ∈ r.envs, ∃ file, (e.1, file) ∈ envs ∧ Names file e.2
  all : ∀ e ∈ envs, ∀ version, Names e.2 version → (e.1, version) ∈ r.envs
  nodup : (r.envs.map Prod.fst).Nodup
  version : ∀ e ∈ r.envs, r.version e.1 = e.2
  versionfile : ∀ e ∈ r.envs, (e.1, r.versionfile e.1) ∈ envs ∧ Names (r.versionfile e.1) e.2
  none : ∀ platform ∉ r.envs.map Prod.fst, r.version platform = [] ∧ r.versionfile platform = []

section

variable {envs : Environments} {r : Ripped} {env : Str × Str}

theorem Offers.skip (h : Offers envs r) (hunnamed : ∀ version, ¬ Names env.2 version) :
    Offers (envs ++ [env]) r where
  named e he := by
    obtain ⟨file, hfile, hnames⟩ := h.named e he
    exact ⟨file, List.mem_append_left _ hfile, hnames⟩
  all e he version hversion := by
    rcases List.mem_append.mp he with he | he
    · exact h.all e he version hversion
    · rw [List.mem_singleton.mp he] at hversion
      exact absurd hversion (hunnamed version)
  nodup := h.nodup
  version := h.version
  versionfile e he := ⟨List.mem_append_left _ (h.versionfile e he).1, (h.versionfile e he).2⟩
  none := h.none

theorem Offers.add (h : Offers envs r) (hnew : env.1 ∉ envs.map Prod.fst) {version : Str}
    (hnames : Names env.2 version) : Offers (envs ++ [env]) (r.add env version) := by
  have hkeys : ∀ e ∈ r.envs, e.1 ≠ env.1 := by
    intro e he heq
    obtain ⟨file, hfile, -⟩ := h.named e he
    exact hnew (List.mem_map.mpr ⟨_, hfile, heq⟩)
  have hcases : ∀ e ∈ (r.add env version).envs, e ∈ r.envs ∨ e = (env.1, version) := fun e he =>
    (List.mem_append.mp he).imp_right List.mem_singleton.mp
  have hold : ∀ platform, platform ≠ env.1 → (r.add env version).version platform = r.version platform ∧
      (r.add env version).versionfile platform = r.versionfile platform := fun platform hne =>
    ⟨Function.update_of_ne hne _ _, Function.update_of_ne hne _ _⟩
  have hfound : (r.add env version).version env.1 = version ∧
      (r.add env version).versionfile env.1 = env.2 :=
    ⟨Function.update_self .., Function.update_self ..⟩
  have hmem : (env.1, env.2) ∈ envs ++ [env] := List.mem_append_right _ (List.mem_singleton_self _)
  refine ⟨fun e he => ?_, fun e he version' hversion => ?_, ?_, fun e he => ?_, fun e he => ?_,
    fun platform hplatform => ?_⟩
  · rcases hcases e he with he | rfl
    · obtain ⟨file, hfile, hnames⟩ := h.named e he
      exact ⟨file, List.mem_append_left _ hfile, hnames⟩
    · exact ⟨env.2, hmem, hnames⟩
  · rcases List.mem_append.mp he with he | he
    · exact List.mem_append_left _ (h.all e he version' hversion)
    · obtain rfl := List.mem_singleton.mp he
      rw [hversion.unique hnames]
      exact List.mem_append_right _ (List.mem_singleton_self _)
  · show ((r.envs ++ [(env.1, version)]).map Prod.fst).Nodup
    rw [List.map_append]
    refine h.nodup.append (List.nodup_singleton _) (List.disjoint_singleton.mpr fun hmem => ?_)
    obtain ⟨e, he, heq⟩ := List.mem_map.mp hmem
    exact hkeys e he heq
  · rcases hcases e he with he | rfl
    · rw [(hold e.1 (hkeys e he)).1]
      exact h.version e he
    · exact hfound.1
  · rcases hcases e he with he | rfl
    · rw [(hold e.1 (hkeys e he)).2]
      exact ⟨List.mem_append_left _ (h.versionfile e he).1, (h.versionfile e he).2⟩
    · rw [hfound.2]
      exact ⟨hmem, hnames⟩
  · have hboth : platform ∉ r.envs.map Prod.fst ∧ platform ≠ env.1 := by
      simpa [Ripped.add, not_or] using hplatform
    obtain ⟨hversion, hfile⟩ := hold platform hboth.2
    rw [hversion, hfile]
    exact h.none platform hboth.1

theorem ripOutPaths_offers (h : (envs.map Prod.fst).Nodup) : Offers envs (ripOutPaths envs) := by
  induction envs using List.reverseRecOn with
  | nil =>
    refine ⟨?_, ?_, List.nodup_nil, ?_, ?_, fun _ _ => ⟨rfl, rfl⟩⟩
    all_goals exact fun _ h => absurd h List.not_mem_nil
  | append_singleton envs env ih =>
    rw [List.map_append, List.map_singleton] at h
    have hold := ih h.of_append_left
    have hnew : env.1 ∉ envs.map Prod.fst := fun hmem =>
      (List.nodup_append.mp h).2.2 env.1 hmem env.1 (List.mem_singleton_self _) rfl
    have hrun : ripOutPaths (envs ++ [env]) = ripEnv (ripOutPaths envs) env := by
      rw [ripOutPaths, List.foldl_append]
      rfl
    rw [hrun]
    rcases ripEnv_cases (ripOutPaths envs) env with ⟨hunnamed, heq⟩ | ⟨version, hnames, heq⟩
    · rw [heq]
      exact hold.skip hunnamed
    · rw [heq]
      exact hold.add hnew hnames

end

/-- An entry of the variable is in use: it is for this compiler, its file is usable, and none in front
of it is both and has its platform. -/
def Chosen (disk : Disk) (iceccVersion targetPlatform compilerPrefix : Str) (env : Str × Str) : Prop :=
  ∃ before after, entries iceccVersion targetPlatform compilerPrefix = before ++ env :: after ∧
    disk.usable env = true ∧ ∀ other ∈ before, disk.usable other = true → other.1 ≠ env.1

theorem parse_offers (disk : Disk) (iceccVersion targetPlatform compilerPrefix : Str) :
    let r := ripOutPaths (parseIceccVersion disk iceccVersion targetPlatform compilerPrefix)
    (r.envs.map Prod.fst).Nodup ∧
    (∀ platform version, (platform, version) ∈ r.envs ↔ ∃ file,
      Chosen disk iceccVersion targetPlatform compilerPrefix (platform, file) ∧ Names file version) ∧
    (∀ platform version, (platform, version) ∈ r.envs → r.version platform = version ∧
      Chosen disk iceccVersion targetPlatform compilerPrefix (platform, r.versionfile platform) ∧
      Names (r.versionfile platform) version) ∧
    ∀ platform ∉ r.envs.map Prod.fst, r.version platform = [] ∧ r.versionfile platform = [] := by
  have hchosen : ∀ env, env ∈ parseIceccVersion disk iceccVersion targetPlatform compilerPrefix ↔
      Chosen disk iceccVersion targetPlatform compilerPrefix env := fun env =>
    Firsts.mem_firsts_iff Prod.fst disk.usable
  have hoffers := ripOutPaths_offers (Firsts.firsts_nodup Prod.fst disk.usable
    (entries iceccVersion targetPlatform compilerPrefix))
  refine ⟨hoffers.nodup, fun platform version => ⟨fun h => ?_, ?_⟩, fun platform version h => ?_,
    hoffers.none⟩
  · obtain ⟨file, hfile, hnames⟩ := hoffers.named _ h
    exact ⟨file, (hchosen _).mp hfile, hnames⟩
  · rintro ⟨file, hfile, hnames⟩
    exact hoffers.all _ ((hchosen _).mpr hfile) version hnames
  · obtain ⟨hfile, hnames⟩ := hoffers.versionfile _ h
    exact ⟨hoffers.version _ h, (hchosen _).mp hfile, hnames⟩

end Icecream.Client.Versions
