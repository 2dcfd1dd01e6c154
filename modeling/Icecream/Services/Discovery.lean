import Icecream.Services.Broadcast

/-!
# Discovery

`DiscoverSched::try_get_scheduler` of `services/comm.cpp`: a daemon collects answers and
takes the best one when its time is over. An address stands for the sender's address and
port.
-/

namespace Icecream.Services

open Icecream.Comm (Bytes Str protocolVersion)

/-- `strcasecmp(a, b) == 0` in the C locale -/
def sameIgnoringCase (a b : Str) : Bool :=
  let lower (c : UInt8) : UInt8 := if 65 ≤ c ∧ c ≤ 90 then c + 32 else c
  a.map lower = b.map lower

structure DiscoverSched where
  bestSchedname : ℕ := 0
  bestVersion : ℤ := 0
  bestStartTime : Int64 := 0
  multiple : Bool := false
  deriving DecidableEq

namespace DiscoverSched

/-- An answer with a good version -/
def offer (d : DiscoverSched) (address : ℕ) (data : BroadData) : DiscoverSched :=
  let multiple := d.multiple || d.bestVersion ≠ 0
  if d.bestVersion < data.version ∨
      (d.bestVersion = data.version ∧ data.startTime < d.bestStartTime) then
    ⟨address, data.version, data.startTime, multiple⟩
  else { d with multiple := multiple }

/-- One datagram of the loop -/
def hear (netname : Str) (d : DiscoverSched) (answer : ℕ × Bytes) : DiscoverSched :=
  match (getBroadAnswer answer.2).bind getBroadData with
  | none => d
  | some data =>
    if sameIgnoringCase (cString netname) data.name then
      -- a bogus version
      if 128 ≤ data.version ∨ data.version < 1 then d else d.offer answer.1 data
    else d

/-- Whom the daemon connects to once its time is over -/
def tryGetScheduler (netname : Str) (answers : List (ℕ × Bytes)) : Option ℕ :=
  let d := answers.foldl (hear netname) {}
  if d.bestVersion = 0 then none else some d.bestSchedname

end DiscoverSched

/-! ## What is read of a datagram -/

theorem filledTo_eq {len : ℕ} {head : Bytes} (netname : Str) (h : head.length < len) :
    ∃ k, filledTo len head netname =
      head ++ (netname.take (len - head.length - 1) ++ List.replicate (k + 1) 0) ∧
      (filledTo len head netname).length = len := by
  have hlength : (head ++ netname.take (len - head.length - 1)).length + 1 ≤ len := by
    rw [List.length_append, List.length_take]
    omega
  refine ⟨len - (head ++ netname.take (len - head.length - 1)).length - 1, ?_, ?_⟩
  · have hk : len - (head ++ netname.take (len - head.length - 1)).length - 1 + 1 =
        len - (head ++ netname.take (len - head.length - 1)).length := by omega
    rw [hk, ← List.append_assoc]
    rfl
  · simp only [filledTo]
    rw [List.length_append, List.length_replicate]
    omega

theorem cString_terminated {name : Str} (h : (0 : UInt8) ∉ name) (rest : Bytes) :
    cString (name ++ 0 :: rest) = name := by
  have hname : ∀ c ∈ name, decide (c ≠ 0) = true := fun c hc =>
    decide_eq_true fun hzero => h (hzero ▸ hc)
  rw [cString, List.takeWhile_append_of_pos hname, List.takeWhile_cons_of_neg (by simp),
    List.append_nil]

theorem cString_append_zeros {name : Str} (h : (0 : UInt8) ∉ name) (k : ℕ) :
    cString (name ++ List.replicate (k + 1) 0) = name := by
  rw [List.replicate_succ, cString_terminated h]

theorem dropLast_zeros (b : Bytes) (k : ℕ) :
    (b ++ List.replicate (k + 1) (0 : UInt8)).dropLast ++ [0] = b ++ List.replicate (k + 1) 0 := by
  rw [List.replicate_succ', ← List.append_assoc, List.dropLast_concat]

theorem high_low (x : UInt64) :
    (x >>> 32).toUInt32.toUInt64 <<< 32 ||| x.toUInt32.toUInt64 = x := by
  have hx := x.toNat_lt
  have hshift : (32 : UInt64).toNat % 64 = 32 := rfl
  have hfits : x.toNat / 2 ^ 32 % 2 ^ 32 * 2 ^ 32 < 2 ^ 64 := by omega
  apply UInt64.toNat_inj.mp
  simp only [UInt64.toNat_or, UInt64.toNat_shiftLeft, UInt64.toNat_shiftRight,
    UInt64.toNat_toUInt32, UInt32.toNat_toUInt64]
  rw [hshift, Nat.shiftRight_eq_div_pow, Nat.shiftLeft_eq, Nat.mod_eq_of_lt hfits,
    ← Nat.shiftLeft_eq, ← Nat.shiftLeft_add_eq_or_of_lt (Nat.mod_lt _ (by decide)),
    Nat.shiftLeft_eq]
  omega

theorem timeOf_high_low (t : Int64) : timeOf (timeHigh t) (timeLow t) = t := by
  rw [timeOf, timeHigh, timeLow, high_low]
  simp

theorem Announcer.toNat_version (a : Announcer) : (UInt8.ofNat a.version).toNat = a.version := by
  have hversion := a.current.2
  rw [UInt8.toNat_ofNat']
  omega

theorem Announcer.take_plain (a : Announcer) (n : ℕ) : (0 : UInt8) ∉ a.netname.take n :=
  fun hmem => a.plain (List.mem_of_mem_take hmem)

/-- What another scheduler reads of an announcement -/
theorem getSchedulerVersionData_schedulerVersionData (a : Announcer) :
    isSchedulerVersion (schedulerVersionData a) = true ∧
      getSchedulerVersionData (schedulerVersionData a) =
        ⟨a.version, a.starttime, a.netname.take 255⟩ := by
  have hhead : ([73, 67, 70, UInt8.ofNat a.version] ++ (Word.bytes (timeHigh a.starttime) ++
      Word.bytes (timeLow a.starttime))).length < broadBuflen := by simp [broadBuflen]
  obtain ⟨k, heq, hlength⟩ := filledTo_eq a.netname hhead
  have hbuf : schedulerVersionData a = [73, 67, 70, UInt8.ofNat a.version] ++
      (Word.bytes (timeHigh a.starttime) ++ (Word.bytes (timeLow a.starttime) ++
        (a.netname.take 255 ++ List.replicate (k + 1) 0))) := heq
  constructor
  · rw [isSchedulerVersion, decide_eq_true_eq]
    refine ⟨hlength, ?_⟩
    rw [hbuf]
    rfl
  · rw [getSchedulerVersionData, hbuf, SchedulerVersion.mk.injEq]
    refine ⟨a.toNat_version, ?_, cString_append_zeros (a.take_plain 255) k⟩
    have hhigh := Word.value_bytes (timeHigh a.starttime) (Word.bytes (timeLow a.starttime) ++
      (a.netname.take 255 ++ List.replicate (k + 1) 0))
    have hlow := Word.value_bytes (timeLow a.starttime)
      (a.netname.take 255 ++ List.replicate (k + 1) 0)
    exact (congrArg₂ timeOf hhigh hlow).trans (timeOf_high_low a.starttime)

/-- What a daemon of this version reads of the answer to it -/
theorem getBroadData_prepareBroadcastReply (a : Announcer) :
    (getBroadAnswer (prepareBroadcastReply a (UInt8.ofNat protocolVersion))).bind getBroadData =
      some ⟨a.netname.take 254, a.version, a.starttime⟩ := by
  have hhead : ((48 : UInt8) :: (Word.bytes (UInt32.ofNat a.version) ++
      (Word.bytes (timeHigh a.starttime) ++ Word.bytes (timeLow a.starttime)))).length <
      broadBuflen := by simp [broadBuflen]
  obtain ⟨k, heq, hlength⟩ := filledTo_eq a.netname hhead
  have hbuf : prepareBroadcastReply a (UInt8.ofNat protocolVersion) =
      (48 : UInt8) :: (Word.bytes (UInt32.ofNat a.version) ++ (Word.bytes (timeHigh a.starttime) ++
        (Word.bytes (timeLow a.starttime) ++
          (a.netname.take 254 ++ List.replicate (k + 1) 0)))) := heq
  have hanswer : getBroadAnswer (prepareBroadcastReply a (UInt8.ofNat protocolVersion)) =
      some (prepareBroadcastReply a (UInt8.ofNat protocolVersion)) := by
    have hmark : (prepareBroadcastReply a (UInt8.ofNat protocolVersion)).getD 0 0 = 48 := by
      rw [hbuf]
      rfl
    have hlast : (prepareBroadcastReply a (UInt8.ofNat protocolVersion)).dropLast ++ [0] =
        prepareBroadcastReply a (UInt8.ofNat protocolVersion) := by
      rw [hbuf]
      simp only [← List.append_assoc, ← List.cons_append]
      exact dropLast_zeros _ k
    have hlen : (prepareBroadcastReply a (UInt8.ofNat protocolVersion)).length = broadBuflen :=
      hlength
    unfold getBroadAnswer
    rw [hmark, hlen, if_pos (by decide), hlast]
  rw [hanswer, Option.bind_some]
  have hversion := Word.value_bytes (UInt32.ofNat a.version) (Word.bytes (timeHigh a.starttime) ++
    (Word.bytes (timeLow a.starttime) ++ (a.netname.take 254 ++ List.replicate (k + 1) 0)))
  have hhigh := Word.value_bytes (timeHigh a.starttime) (Word.bytes (timeLow a.starttime) ++
    (a.netname.take 254 ++ List.replicate (k + 1) 0))
  have hlow := Word.value_bytes (timeLow a.starttime)
    (a.netname.take 254 ++ List.replicate (k + 1) 0)
  have hmark : ((prepareBroadcastReply a (UInt8.ofNat protocolVersion)).getD 0 0).toInt8.toInt -
      protocolVersion = 3 := by
    rw [hbuf]
    rfl
  unfold getBroadData
  rw [hmark, if_neg (by decide), if_neg (by decide), if_pos rfl, hbuf, Option.some.injEq,
    BroadData.mk.injEq]
  refine ⟨cString_append_zeros (a.take_plain 254) k, ?_, ?_⟩
  · refine (congrArg (fun x => x.toInt32.toInt) hversion).trans ?_
    have hcurrent := a.current.2
    rw [UInt32.toInt32_ofNat', Int32.toInt_ofNat_of_lt (by omega)]
  · exact (congrArg₂ timeOf hhigh hlow).trans (timeOf_high_low a.starttime)

/-! ## The best of the answers -/

namespace Announcer

/-- Newer, or as new and running for longer -/
def Better (a b : Announcer) : Prop :=
  b.version < a.version ∨ (a.version = b.version ∧ a.starttime < b.starttime)

instance (a b : Announcer) : Decidable (a.Better b) := inferInstanceAs (Decidable (_ ∨ _))

theorem Better.asymm {a b : Announcer} (h : a.Better b) : ¬ b.Better a := by
  simp only [Better, Int64.lt_iff_toInt_lt] at *
  omega

theorem better_or_better {a b : Announcer}
    (h : (a.version, a.starttime) ≠ (b.version, b.starttime)) : a.Better b ∨ b.Better a := by
  rw [Ne, Prod.mk.injEq, ← Int64.toInt_inj] at h
  simp only [Better, Int64.lt_iff_toInt_lt]
  omega

/-- What beats a maximal one is maximal. -/
theorem Better.maximal {a b c : Announcer} (h : b.Better a) (hc : ¬ c.Better a) :
    ¬ c.Better b := by
  simp only [Better, Int64.lt_iff_toInt_lt] at *
  omega

def answer (a : Announcer) : Bytes := prepareBroadcastReply a (UInt8.ofNat protocolVersion)

/-- A daemon takes the netname in the answer for its own. -/
def AcceptedBy (a : Announcer) (netname : Str) : Prop :=
  sameIgnoringCase (cString netname) (a.netname.take 254) = true

instance (a : Announcer) (netname : Str) : Decidable (a.AcceptedBy netname) :=
  inferInstanceAs (Decidable (_ = _))

end Announcer

namespace DiscoverSched

variable {netname : Str}

theorem hear_answer {a : Announcer} (d : DiscoverSched) (address : ℕ)
    (h : a.AcceptedBy netname) :
    d.hear netname (address, a.answer) =
      d.offer address ⟨a.netname.take 254, a.version, a.starttime⟩ := by
  have hversion := a.current
  have hgood : ¬ (128 ≤ (a.version : ℤ) ∨ (a.version : ℤ) < 1) := by omega
  have hread : (getBroadAnswer a.answer).bind getBroadData =
    some ⟨a.netname.take 254, a.version, a.starttime⟩ := getBroadData_prepareBroadcastReply a
  have haccepted : sameIgnoringCase (cString netname) (a.netname.take 254) = true := h
  simp only [hear, hread]
  rw [if_pos haccepted, if_neg hgood]

/-- The answer remembered is one of those heard, and none is better. -/
def Remembers (d : DiscoverSched) (heard : List (ℕ × Announcer)) : Prop :=
  if heard = [] then d.bestVersion = 0
  else ∃ r ∈ heard, d.bestSchedname = r.1 ∧ d.bestVersion = r.2.version ∧
    d.bestStartTime = r.2.starttime ∧ ∀ r' ∈ heard, ¬ r'.2.Better r.2

theorem Remembers.offer {d : DiscoverSched} {heard : List (ℕ × Announcer)} (r : ℕ × Announcer)
    (name : Str) (h : d.Remembers heard) :
    (d.offer r.1 ⟨name, r.2.version, r.2.starttime⟩).Remembers (heard ++ [r]) := by
  have hversion := r.2.current
  have hsome : heard ++ [r] ≠ [] := by simp
  have hself : ¬ r.2.Better r.2 := fun hbetter => hbetter.asymm hbetter
  rw [Remembers, if_neg hsome]
  by_cases hheard : heard = []
  · rw [Remembers, if_pos hheard] at h
    have hnewer : d.bestVersion < r.2.version := by omega
    refine ⟨r, by simp, ?_, ?_, ?_, ?_⟩
    · simp [DiscoverSched.offer, hnewer]
    · simp [DiscoverSched.offer, hnewer]
    · simp [DiscoverSched.offer, hnewer]
    · intro r' hr'
      rw [hheard, List.nil_append, List.mem_singleton] at hr'
      rwa [hr']
  · rw [Remembers, if_neg hheard] at h
    obtain ⟨best, hbest, hname, hbestversion, hstart, hmax⟩ := h
    have hoffer : (d.bestVersion < r.2.version ∨
        (d.bestVersion = r.2.version ∧ r.2.starttime < d.bestStartTime)) ↔ r.2.Better best.2 := by
      rw [hbestversion, hstart, Announcer.Better, Nat.cast_lt, Nat.cast_inj,
        eq_comm (a := best.2.version)]
    by_cases hbetter : r.2.Better best.2
    · refine ⟨r, by simp, ?_, ?_, ?_, ?_⟩
      · simp [DiscoverSched.offer, hoffer, hbetter]
      · simp [DiscoverSched.offer, hoffer, hbetter]
      · simp [DiscoverSched.offer, hoffer, hbetter]
      · intro r' hr'
        rcases List.mem_append.mp hr' with hr' | hr'
        · exact hbetter.maximal (hmax r' hr')
        · rwa [List.mem_singleton.mp hr']
    · refine ⟨best, by simp [hbest], ?_, ?_, ?_, ?_⟩
      · simpa [DiscoverSched.offer, hoffer, hbetter] using hname
      · simpa [DiscoverSched.offer, hoffer, hbetter] using hbestversion
      · simpa [DiscoverSched.offer, hoffer, hbetter] using hstart
      · intro r' hr'
        rcases List.mem_append.mp hr' with hr' | hr'
        · exact hmax r' hr'
        · rwa [List.mem_singleton.mp hr']

theorem foldl_remembers {heard : List (ℕ × Announcer)}
    (haccepted : ∀ r ∈ heard, r.2.AcceptedBy netname) :
    ((heard.map fun r => (r.1, r.2.answer)).foldl (hear netname) {}).Remembers heard := by
  induction heard using List.reverseRecOn with
  | nil => rfl
  | append_singleton heard r ih =>
    have hbefore := ih fun r' hr' => haccepted r' (List.mem_append_left _ hr')
    rw [List.map_append, List.foldl_append]
    simp only [List.map_cons, List.map_nil, List.foldl_cons, List.foldl_nil]
    rw [hear_answer _ _ (haccepted r (by simp))]
    exact hbefore.offer r _

theorem tryGetScheduler_best {heard : List (ℕ × Announcer)} (hsome : heard ≠ [])
    (haccepted : ∀ r ∈ heard, r.2.AcceptedBy netname) :
    ∃ r ∈ heard, tryGetScheduler netname (heard.map fun r => (r.1, r.2.answer)) = some r.1 ∧
      ∀ r' ∈ heard, ¬ r'.2.Better r.2 := by
  have hremembers := foldl_remembers haccepted
  rw [Remembers, if_neg hsome] at hremembers
  obtain ⟨r, hr, hname, hversion, -, hmax⟩ := hremembers
  have hcurrent := r.2.current
  refine ⟨r, hr, ?_, hmax⟩
  simp only [tryGetScheduler]
  rw [if_neg (by omega), hname]

end DiscoverSched

end Icecream.Services
