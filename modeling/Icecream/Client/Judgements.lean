import Icecream.Client.Safety

/-!
# Commands that should be built locally

An argument of the assembler that cannot be handled on another host, and a command for several
architectures. `analyse_argv` reports the command as a local one exactly if it comes to its end and
has one of the reasons; the argument of the assembler is one only if it is the last of its option,
and the architectures are none.
-/

namespace Icecream.Client

open Icecream.Comm (Str str)
open Icecream.Fault

variable {host : Host} {job : Job} {argv words : List Str} {extrafiles : List Str} {icerun : Bool}
  {s t : Scan}

/-- The command is run as it is, or there is a reason to build locally. -/
def Local (host : Host) (argv : List Str) (job : Job) (icerun : Bool) : Prop :=
  isCustom (commandName argv job) icerun = true ∨
    Reason host (knownJob (commandName argv job) job) (argv.drop (leading job))

theorem runFlags_ne_zero (s : Scan) : (runFlags s ≠ 0 : Bool) = s.alwaysLocal := by
  unfold runFlags
  cases s.alwaysLocal with
  | false => rfl
  | true =>
    rw [if_pos rfl]
    split_ifs <;> rfl

theorem analyseArgv_ok {b : Bool} : analyseArgv host argv job icerun extrafiles = .ok (s, b) ↔
    analyse host argv job icerun extrafiles = .ok s ∧ s.alwaysLocal = b := by
  unfold analyseArgv
  cases analyse host argv job icerun extrafiles with
  | error e => exact iff_of_false (fun h => by cases h) fun h => by cases h.1
  | ok t =>
    change (.ok (t, (runFlags t ≠ 0 : Bool)) : Except Fault (Scan × Bool)) = _ ↔ _
    rw [runFlags_ne_zero, Except.ok.injEq, Prod.mk.injEq, Except.ok.injEq]
    exact and_congr_right fun h => by rw [h]

theorem analyse_alwaysLocal (host : Host) (argv : List Str) (job : Job) (icerun : Bool)
    (extrafiles : List Str) :
    Ends (fun _ => True) (fun s => s.alwaysLocal = true ↔ Local host argv job icerun)
      (analyse host argv job icerun extrafiles) := by
  cases hcustom : isCustom (commandName argv job) icerun with
  | true =>
    refine ((analyse_custom hcustom).weaken fun _ _ => trivial).mono ?_
    rintro _ ⟨rfl, -⟩
    exact iff_of_true rfl (.inl hcustom)
  | false =>
    refine ((analyse_known hcustom).weaken fun _ _ => trivial).mono fun s hs => ?_
    rw [hs.1.alwaysLocal_iff, Local, hcustom]
    exact (or_iff_right (by simp)).symm

/-- The commands that are reported as `AlwaysLocal` -/
theorem reported_iff : (∃ s, analyseArgv host argv job icerun extrafiles = .ok (s, true)) ↔
    Safe host argv job icerun ∧ Local host argv job icerun := by
  have hends := analyse_ends host argv job icerun extrafiles
  have hlocal := analyse_alwaysLocal host argv job icerun extrafiles
  simp only [analyseArgv_ok]
  constructor
  · rintro ⟨s, hs, htrue⟩
    exact ⟨hends.of_ok hs, (hlocal.of_ok hs).mp htrue⟩
  · rintro ⟨hsafe, h⟩
    cases hanalyse : analyse host argv job icerun extrafiles with
    | error e => exact absurd hsafe (hends.of_error hanalyse)
    | ok s => exact ⟨s, rfl, (hlocal.of_ok hanalyse).mpr h⟩

/-! ## Arguments of the assembler -/

/-- One of the arguments has to be handled locally and is not the operand of another. -/
def anyLocal (host : Host) : Bool → List Str → Bool
  | _, [] => false
  | second, part :: parts =>
    (!second && assemblerLocal host part) || anyLocal host (operandNext second part) parts

/-- One of the options for the assembler has such an argument. -/
def assemblerAsks (host : Host) : Bool → List Opt → Bool
  | _, [] => false
  | second, o :: os =>
    (kind o.1 = .assembler && anyLocal host second (assemblerParts o.1)) ||
      assemblerAsks host (secondAfter second o) os

/-- How many `-arch` options there are -/
def architectures (os : List Opt) : ℕ := os.countP fun o => o.1 = str "-arch"

end Icecream.Client
