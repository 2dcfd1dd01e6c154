import Icecream.Comm.Codec

/-!
# Field readers and the end of what was received

The readers test against the end of the received data, not against the end of the
frame. What follows says how such a reader behaves on a frame alone and on the frame
with more data behind it: the same if it did not meet the end of the frame, and
otherwise it goes past that end once there is enough data.
-/

namespace Icecream.Comm

open Reader

variable (k : Compression) (protocol : ℕ)

theorem readUInt32_of_le {w : Window UInt8} (h : 4 ≤ w.rest.length) :
    readUInt32 w = (Word.value w.rest, { w with rest := w.rest.drop 4 }) := if_pos h

theorem readUInt32_of_lt {w : Window UInt8} (h : ¬4 ≤ w.rest.length) :
    readUInt32 w = (0, { w with short := true }) := if_neg h

theorem readUInt32_regular : Regular readUInt32 where
  suffix w := by
    rw [readUInt32]
    split
    · exact List.drop_suffix _ _
    · exact List.suffix_rfl
  beyond w := by
    rw [readUInt32]
    split <;> rfl
  short w h := by
    rw [readUInt32]
    split
    · exact h
    · rfl
  loose w h := by
    rw [readUInt32]
    split <;> exact h
  failed w h := by
    rw [readUInt32]
    split <;> exact h
  extend w r b hs _ := by
    by_cases hlen : 4 ≤ w.rest.length
    · have hlen' : 4 ≤ (w.extend r b).rest.length := by
        simp only [Window.extend, List.length_append]
        omega
      rw [readUInt32_of_le hlen, readUInt32_of_le hlen']
      simp only [Window.extend, Word.value_append hlen, List.drop_append_of_le_length hlen]
    · rw [readUInt32_of_lt hlen] at hs
      cases hs

theorem readUInt32_tracks : Tracks Eq readUInt32 readUInt32 where
  suffix := readUInt32_regular.suffix
  suffix' := readUInt32_regular.suffix
  track w w' r hw _ := by
    by_cases hlen : 4 ≤ w.rest.length
    · have hlen' : 4 ≤ w'.rest.length := by
        rw [hw, List.length_append]
        omega
      rw [readUInt32_of_le hlen, readUInt32_of_le hlen', hw]
      exact .inr ⟨List.drop_append_of_le_length hlen, (Word.value_append hlen r).symm⟩
    · by_cases hlen' : 4 ≤ w'.rest.length
      · left
        rw [readUInt32_of_le hlen', List.length_drop]
        rw [hw, List.length_append] at hlen' ⊢
        omega
      · rw [readUInt32_of_lt hlen, readUInt32_of_lt hlen']
        exact .inr ⟨hw, rfl⟩

theorem readUInt32_quiet (w : Window UInt8) : (readUInt32 w).2.failed = w.failed := by
  rw [readUInt32]
  split <;> rfl

theorem readUInt32_paired : Paired readUInt32 readUInt32 where
  left := readUInt32_regular
  right := readUInt32_regular
  tracks := readUInt32_tracks.weaken fun _ _ _ => trivial
  quiet := readUInt32_quiet

theorem readChars_zero (w : Window UInt8) : readChars 0 w = ([], w) := rfl

theorem readChars_of_lt {len : UInt32} (h0 : len ≠ 0) {w : Window UInt8}
    (h : w.rest.length < len.toNat) : readChars len w = ([], { w with short := true }) := by
  rw [readChars, if_neg h0, if_pos h]

theorem readChars_of_le {len : UInt32} (h0 : len ≠ 0) {w : Window UInt8}
    (h : ¬w.rest.length < len.toNat) :
    readChars len w = ((w.rest ++ w.beyond).takeWhile (· ≠ 0),
      { w with rest := w.rest.drop len.toNat, loose := w.loose || !w.rest.contains 0 }) := by
  rw [readChars, if_neg h0, if_neg h]

/-- Up to a NUL that is there, what follows does not matter. -/
theorem takeWhile_of_contains {p : Bytes} (h : p.contains 0 = true) (r : Bytes) :
    (p ++ r).takeWhile (· ≠ 0) = p.takeWhile (· ≠ 0) := by
  induction p with
  | nil => simp at h
  | cons c p ih =>
    by_cases hc : c = 0
    · simp [hc]
    · have hp : p.contains 0 = true := by
        simpa [List.contains_cons, Ne.symm hc] using h
      simp [hc] at ih ⊢
      exact ih (by simpa using hp)

theorem readChars_regular (len : UInt32) : Regular (readChars len) where
  suffix w := by
    rw [readChars]
    split
    · exact List.suffix_rfl
    · split
      · exact List.suffix_rfl
      · exact List.drop_suffix _ _
  beyond w := by
    rw [readChars]
    split
    · rfl
    · split <;> rfl
  short w h := by
    rw [readChars]
    split
    · exact h
    · split
      · rfl
      · exact h
  loose w h := by
    rw [readChars]
    split
    · exact h
    · split
      · exact h
      · simp [h]
  failed w h := by
    rw [readChars]
    split
    · exact h
    · split <;> exact h
  extend w r b hs hl := by
    by_cases h0 : len = 0
    · subst h0
      rfl
    · by_cases hlen : w.rest.length < len.toNat
      · rw [readChars_of_lt h0 hlen] at hs
        cases hs
      · rw [readChars_of_le h0 hlen] at hl
        have hl' : w.loose = false ∧ w.rest.contains 0 = true := by simpa using hl
        have hlen' : ¬(w.extend r b).rest.length < len.toNat := by
          simp only [Window.extend, List.length_append]
          omega
        rw [readChars_of_le h0 hlen, readChars_of_le h0 hlen']
        have hcont : (w.rest ++ r).contains 0 = true := by
          have := hl'.2
          simp only [List.contains_iff_mem] at this ⊢
          exact List.mem_append_left _ this
        simp only [Window.extend, hl'.1, hl'.2, hcont, List.append_assoc,
          takeWhile_of_contains hl'.2, List.drop_append_of_le_length (Nat.not_lt.mp hlen)]

theorem readChars_quiet (len : UInt32) (w : Window UInt8) :
    (readChars len w).2.failed = w.failed := by
  rw [readChars]
  split
  · rfl
  · split <;> rfl

theorem readChars_tracks (len : UInt32) :
    Tracks (fun _ _ => True) (readChars len) (readChars len) where
  suffix := (readChars_regular len).suffix
  suffix' := (readChars_regular len).suffix
  track w w' r hw _ := by
    by_cases h0 : len = 0
    · subst h0
      exact .inr ⟨hw, trivial⟩
    · by_cases hlen : w.rest.length < len.toNat
      · by_cases hlen' : w'.rest.length < len.toNat
        · rw [readChars_of_lt h0 hlen, readChars_of_lt h0 hlen']
          exact .inr ⟨hw, trivial⟩
        · left
          rw [readChars_of_le h0 hlen', List.length_drop]
          rw [hw, List.length_append] at hlen' ⊢
          omega
      · have hlen' : ¬w'.rest.length < len.toNat := by
          rw [hw, List.length_append]
          omega
        rw [readChars_of_le h0 hlen, readChars_of_le h0 hlen', hw]
        exact .inr ⟨List.drop_append_of_le_length (Nat.not_lt.mp hlen), trivial⟩

theorem readString_paired : Paired readString readString where
  left := readUInt32_regular.bind readChars_regular
  right := readUInt32_regular.bind readChars_regular
  tracks := readUInt32_tracks.bind (fun len => (readChars_regular len).suffix)
    (fun len => (readChars_regular len).suffix) fun len _ h => h ▸ readChars_tracks len
  quiet w := (readChars_quiet _ _).trans (readUInt32_quiet w)

theorem readString_regular : Regular readString := readString_paired.left

/-! ## Lists -/

theorem readStringsLoop_of_nil (n : ℕ) {w : Window UInt8} (h : (readString w).2.rest = []) :
    readStringsLoop (n + 1) w = ([(readString w).1],
      { (readString w).2 with short := (readString w).2.short || n ≠ 0 }) := by
  rw [readStringsLoop_succ, if_pos h]

theorem readStringsLoop_of_ne (n : ℕ) {w : Window UInt8} (h : (readString w).2.rest ≠ []) :
    readStringsLoop (n + 1) w = ((readString w).1 :: (readStringsLoop n (readString w).2).1,
      (readStringsLoop n (readString w).2).2) := by
  rw [readStringsLoop_succ, if_neg h]

theorem readStringsLoop_suffix (n : ℕ) (w : Window UInt8) :
    (readStringsLoop n w).2.rest <:+ w.rest := by
  induction n generalizing w with
  | zero => exact List.suffix_rfl
  | succ n ih =>
    rw [readStringsLoop_succ]
    split
    · exact readString_regular.suffix w
    · exact (ih _).trans (readString_regular.suffix w)

/-- One turn of the loop that does not stop: a string, then the other strings. -/
def readStringsTurn (n : ℕ) : Reader UInt8 (List Str) :=
  readString >>= fun s => (fun l => s :: l) <$> readStringsLoop n

theorem readStringsLoop_turn (n : ℕ) {w : Window UInt8} (h : (readString w).2.rest ≠ []) :
    readStringsLoop (n + 1) w = readStringsTurn n w :=
  readStringsLoop_of_ne n h

theorem regular_flag {α : Type} {rd : Reader UInt8 α} (h : Regular rd) {w : Window UInt8}
    (hs : (rd w).2.short = false) (hl : (rd w).2.loose = false) :
    w.short = false ∧ w.loose = false := by
  constructor
  · by_contra hc
    rw [h.short w (by simpa using hc)] at hs
    cases hs
  · by_contra hc
    rw [h.loose w (by simpa using hc)] at hl
    cases hl

theorem readStringsLoop_regular (n : ℕ) : Regular (readStringsLoop n) := by
  induction n with
  | zero => exact Regular.pure []
  | succ n ih =>
    have hturn : Regular (readStringsTurn n) :=
      readString_regular.bind fun _ => ih.map _
    refine ⟨readStringsLoop_suffix (n + 1), ?_, ?_, ?_, ?_, ?_⟩
    · intro w
      by_cases hnil : (readString w).2.rest = []
      · rw [readStringsLoop_of_nil n hnil]
        exact readString_regular.beyond w
      · rw [readStringsLoop_turn n hnil]
        exact hturn.beyond w
    · intro w h
      by_cases hnil : (readString w).2.rest = []
      · rw [readStringsLoop_of_nil n hnil]
        simp [readString_regular.short w h]
      · rw [readStringsLoop_turn n hnil]
        exact hturn.short w h
    · intro w h
      by_cases hnil : (readString w).2.rest = []
      · rw [readStringsLoop_of_nil n hnil]
        exact readString_regular.loose w h
      · rw [readStringsLoop_turn n hnil]
        exact hturn.loose w h
    · intro w h
      by_cases hnil : (readString w).2.rest = []
      · rw [readStringsLoop_of_nil n hnil]
        exact readString_regular.failed w h
      · rw [readStringsLoop_turn n hnil]
        exact hturn.failed w h
    · intro w r b hs hl
      by_cases hnil : (readString w).2.rest = []
      · -- the loop stopped because it was done, so it stops in the longer window as well
        rw [readStringsLoop_of_nil n hnil] at hs hl ⊢
        simp only [Bool.or_eq_false_iff, decide_eq_false_iff_not, not_not] at hs
        obtain ⟨hs, rfl⟩ := hs
        have hext := readString_regular.extend w r b hs hl
        rw [readStringsLoop_succ, hext]
        cases r with
        | nil => simp [Window.extend, hnil, hs]
        | cons c r =>
          have hne : ((readString w).2.extend (c :: r) b).rest ≠ [] := by
            simp [Window.extend]
          rw [if_neg hne]
          simp [readStringsLoop, Window.extend, hs]
      · rw [readStringsLoop_turn n hnil] at hs hl ⊢
        have hflag := regular_flag (ih.map fun l => (readString w).1 :: l) hs hl
        have hext := readString_regular.extend w r b hflag.1 hflag.2
        have hne : (readString (w.extend r b)).2.rest ≠ [] := by
          rw [hext]
          simp [Window.extend, hnil]
        rw [readStringsLoop_turn n hne]
        exact hturn.extend w r b hs hl

theorem readStringsLoop_quiet (n : ℕ) (w : Window UInt8) :
    (readStringsLoop n w).2.failed = w.failed := by
  induction n generalizing w with
  | zero => rfl
  | succ n ih =>
    rw [readStringsLoop_succ]
    split
    · exact readString_paired.quiet w
    · exact (ih _).trans (readString_paired.quiet w)

theorem readStringsLoop_tracks (n : ℕ) :
    Tracks (fun _ _ => True) (readStringsLoop n) (readStringsLoop n) := by
  induction n with
  | zero => exact Tracks.pure trivial
  | succ n ih =>
    have hturn : Paired (readStringsTurn n) (readStringsTurn n) :=
      readString_paired.bind fun s s' =>
        Paired.map (fun l => s :: l) (fun l => s' :: l)
          ⟨readStringsLoop_regular n, readStringsLoop_regular n, ih, readStringsLoop_quiet n⟩
    refine ⟨readStringsLoop_suffix (n + 1), readStringsLoop_suffix (n + 1), ?_⟩
    intro w w' r hw hne
    have hnil : (readString w).2.rest ≠ [] := by
      intro h
      rw [readStringsLoop_of_nil n h] at hne
      exact hne h
    rw [readStringsLoop_turn n hnil] at hne ⊢
    rcases readString_paired.tracks.track w w' r hw hnil with hover | ⟨hrest, -⟩
    · left
      rw [readStringsLoop_succ]
      split
      · exact hover
      · exact (readStringsLoop_suffix n _).length_le.trans_lt hover
    · have hnil' : (readString w').2.rest ≠ [] := by
        rw [hrest]
        simp [hnil]
      rw [readStringsLoop_turn n hnil']
      exact (hturn.tracks.track w w' r hw hne).imp_right fun h => ⟨h.1, trivial⟩

theorem readStrings_paired : Paired readStrings readStrings where
  left := readUInt32_regular.bind fun _ => readStringsLoop_regular _
  right := readUInt32_regular.bind fun _ => readStringsLoop_regular _
  tracks := readUInt32_tracks.bind (fun _ => readStringsLoop_suffix _)
    (fun _ => readStringsLoop_suffix _) fun _ _ h => h ▸ readStringsLoop_tracks _
  quiet w := (readStringsLoop_quiet _ _).trans (readUInt32_quiet w)

theorem readEnvironmentsLoop_paired (n : ℕ) :
    Paired (readEnvironmentsLoop n) (readEnvironmentsLoop n) := by
  induction n with
  | zero => exact Paired.pure [] []
  | succ n ih =>
    refine readString_paired.bind fun _ _ => ?_
    refine readString_paired.bind fun _ _ => ?_
    exact ih.bind fun _ _ => Paired.pure _ _

theorem readEnvironments_paired : Paired readEnvironments readEnvironments where
  left := readUInt32_regular.bind fun _ => (readEnvironmentsLoop_paired _).left
  right := readUInt32_regular.bind fun _ => (readEnvironmentsLoop_paired _).left
  tracks := readUInt32_tracks.bind (fun _ => (readEnvironmentsLoop_paired _).left.suffix)
    (fun _ => (readEnvironmentsLoop_paired _).left.suffix)
    fun _ _ h => h ▸ (readEnvironmentsLoop_paired _).tracks
  quiet w := ((readEnvironmentsLoop_paired _).quiet _).trans (readUInt32_quiet w)

/-! ## Messages -/

/-- What every field reader has, and sequencing keeps, every message's reader has. -/
structure Fields (P : ∀ {α α' : Type}, Reader UInt8 α → Reader UInt8 α' → Prop) : Prop
    extends Closed @P where
  word : P readUInt32 readUInt32
  string : P readString readString
  strings : P readStrings readStrings
  environments : P readEnvironments readEnvironments

section Fields

variable {P : ∀ {α α' : Type}, Reader UInt8 α → Reader UInt8 α' → Prop} (hP : Fields @P)
include hP

theorem Fields.map {α γ α' γ' : Type} {rd : Reader UInt8 α} {rd' : Reader UInt8 α'} (f : α → γ)
    (f' : α' → γ') (h : P rd rd') : P (f <$> rd) (f' <$> rd') := hP.toClosed.map f f' h

theorem Fields.bool : P readBool readBool := hP.map _ _ hP.word

theorem Fields.since {α : Type} {rd : Reader UInt8 α} (x : ℕ) (d : α) (h : P rd rd) :
    P (readSince protocol x rd d) (readSince protocol x rd d) := Closed.ite h (hP.pure d d)

theorem readFlags_of : P (readFlags protocol) (readFlags protocol) :=
  Closed.ite (hP.map _ _ hP.strings)
    (hP.bind hP.strings fun _ _ => hP.bind hP.strings fun _ _ => hP.pure _ _)

theorem getCS_of :
    P (GetCSMsg.fillFromChannel protocol) (GetCSMsg.fillFromChannel protocol) := by
  refine hP.bind hP.environments fun _ _ => hP.bind hP.string fun _ _ => ?_
  refine hP.bind hP.word fun _ _ => hP.bind hP.word fun _ _ => ?_
  refine hP.bind hP.string fun _ _ => hP.bind hP.word fun _ _ => ?_
  refine hP.bind hP.word fun _ _ => ?_
  refine hP.bind (hP.since protocol 22 _ hP.string) fun _ _ => ?_
  refine hP.bind (hP.since protocol 31 _ hP.bool) fun _ _ => ?_
  refine hP.bind (hP.since protocol 34 _ hP.word) fun _ _ => ?_
  refine hP.bind (hP.since protocol 39 _ hP.word) fun _ _ => ?_
  refine hP.bind (hP.since protocol 42 _ hP.word) fun _ _ => ?_
  exact hP.bind (hP.since protocol 43 _ hP.word) fun _ _ => hP.pure _ _

theorem useCS_of :
    P (UseCSMsg.fillFromChannel protocol) (UseCSMsg.fillFromChannel protocol) := by
  refine hP.bind hP.word fun _ _ => hP.bind hP.word fun _ _ => ?_
  refine hP.bind hP.string fun _ _ => hP.bind hP.string fun _ _ => ?_
  refine hP.bind hP.word fun _ _ => hP.bind hP.word fun _ _ => ?_
  exact hP.bind (hP.since protocol 28 _ hP.word) fun _ _ => hP.pure _ _

theorem noCS_of :
    P NoCSMsg.fillFromChannel NoCSMsg.fillFromChannel := by
  exact hP.bind hP.word fun _ _ => hP.bind hP.word fun _ _ => hP.pure _ _

theorem compileFile_of :
    P (CompileJob.fillFromChannel protocol) (CompileJob.fillFromChannel protocol) := by
  refine hP.bind hP.word fun _ _ => hP.bind hP.word fun _ _ => ?_
  refine hP.bind (readFlags_of protocol hP) fun _ _ => hP.bind hP.string fun _ _ => ?_
  refine hP.bind hP.string fun _ _ => ?_
  refine hP.bind (hP.since protocol 30 _ hP.string) fun _ _ => ?_
  refine hP.bind (hP.since protocol 34 _ hP.string) fun _ _ => ?_
  refine hP.bind (hP.since protocol 34 _ hP.string) fun _ _ => ?_
  refine hP.bind (hP.since protocol 35 _ hP.string) fun _ _ => ?_
  exact hP.bind (hP.since protocol 35 _ hP.bool) fun _ _ => hP.pure _ _

theorem compileResult_of : P (CompileResultMsg.fillFromChannel protocol)
    (CompileResultMsg.fillFromChannel protocol) := by
  refine hP.bind hP.string fun _ _ => hP.bind hP.string fun _ _ => ?_
  refine hP.bind hP.word fun _ _ => hP.bind hP.bool fun _ _ => ?_
  exact hP.bind (hP.since protocol 35 _ hP.bool) fun _ _ => hP.pure _ _

theorem jobBegin_of :
    P (JobBeginMsg.fillFromChannel protocol) (JobBeginMsg.fillFromChannel protocol) := by
  refine hP.bind hP.word fun _ _ => hP.bind hP.word fun _ _ => ?_
  exact hP.bind (hP.since protocol 39 _ hP.word) fun _ _ => hP.pure _ _

theorem jobDone_of :
    P (JobDoneMsg.fillFromChannel protocol) (JobDoneMsg.fillFromChannel protocol) := by
  refine hP.bind hP.word fun _ _ => hP.bind hP.word fun _ _ => ?_
  refine hP.bind hP.word fun _ _ => hP.bind hP.word fun _ _ => ?_
  refine hP.bind hP.word fun _ _ => hP.bind hP.word fun _ _ => ?_
  refine hP.bind hP.word fun _ _ => hP.bind hP.word fun _ _ => ?_
  refine hP.bind hP.word fun _ _ => hP.bind hP.word fun _ _ => ?_
  refine hP.bind hP.word fun _ _ => ?_
  exact hP.bind (hP.since protocol 39 _ hP.word) fun _ _ => hP.pure _ _

theorem jobLocalBegin_of : P (JobLocalBeginMsg.fillFromChannel protocol)
    (JobLocalBeginMsg.fillFromChannel protocol) := by
  refine hP.bind hP.word fun _ _ => hP.bind hP.string fun _ _ => ?_
  refine hP.bind hP.word fun _ _ => ?_
  refine hP.bind (hP.since protocol 44 _ hP.bool) fun _ _ => ?_
  exact hP.bind (hP.since protocol 45 _ hP.word) fun _ _ => hP.pure _ _

theorem login_of :
    P (LoginMsg.fillFromChannel protocol) (LoginMsg.fillFromChannel protocol) := by
  refine hP.bind hP.word fun _ _ => hP.bind hP.word fun _ _ => ?_
  refine hP.bind hP.environments fun _ _ => hP.bind hP.string fun _ _ => ?_
  refine hP.bind hP.string fun _ _ => hP.bind hP.bool fun _ _ => ?_
  refine hP.bind (hP.since protocol 26 _ hP.bool) fun _ _ => ?_
  exact hP.bind (hP.since protocol 42 _ hP.word) fun _ _ => hP.pure _ _

theorem csConf_of :
    P ConfCSMsg.fillFromChannel ConfCSMsg.fillFromChannel := by
  refine hP.bind hP.word fun _ _ => hP.bind hP.word fun _ _ => ?_
  exact hP.bind hP.string fun _ _ => hP.pure _ _

theorem stats_of :
    P StatsMsg.fillFromChannel StatsMsg.fillFromChannel := by
  refine hP.bind hP.word fun _ _ => hP.bind hP.word fun _ _ => ?_
  refine hP.bind hP.word fun _ _ => hP.bind hP.word fun _ _ => ?_
  exact hP.bind hP.word fun _ _ => hP.pure _ _

theorem getNativeEnv_of : P (GetNativeEnvMsg.fillFromChannel protocol)
    (GetNativeEnvMsg.fillFromChannel protocol) := by
  refine hP.bind (hP.since protocol 32 _ hP.string) fun _ _ => ?_
  refine hP.bind (hP.since protocol 32 _ hP.strings) fun _ _ => ?_
  exact hP.bind (hP.since protocol 42 _ hP.string) fun _ _ => hP.pure _ _

theorem transferEnv_of :
    P EnvTransferMsg.fillFromChannel EnvTransferMsg.fillFromChannel := by
  exact hP.bind hP.string fun _ _ => hP.bind hP.string fun _ _ => hP.pure _ _

theorem verifyEnv_of :
    P VerifyEnvMsg.fillFromChannel VerifyEnvMsg.fillFromChannel := by
  exact hP.bind hP.string fun _ _ => hP.bind hP.string fun _ _ => hP.pure _ _

theorem blacklistHostEnv_of :
    P BlacklistHostEnvMsg.fillFromChannel BlacklistHostEnvMsg.fillFromChannel := by
  refine hP.bind hP.string fun _ _ => hP.bind hP.string fun _ _ => ?_
  exact hP.bind hP.string fun _ _ => hP.pure _ _

theorem monJobBegin_of :
    P MonJobBeginMsg.fillFromChannel MonJobBeginMsg.fillFromChannel := by
  refine hP.bind hP.word fun _ _ => hP.bind hP.word fun _ _ => ?_
  exact hP.bind hP.word fun _ _ => hP.pure _ _

theorem monLocalJobBegin_of :
    P MonLocalJobBeginMsg.fillFromChannel MonLocalJobBeginMsg.fillFromChannel := by
  refine hP.bind hP.word fun _ _ => hP.bind hP.word fun _ _ => ?_
  exact hP.bind hP.word fun _ _ => hP.bind hP.string fun _ _ => hP.pure _ _

theorem monStats_of :
    P MonStatsMsg.fillFromChannel MonStatsMsg.fillFromChannel := by
  exact hP.bind hP.word fun _ _ => hP.bind hP.string fun _ _ => hP.pure _ _

theorem monGetCS_of :
    P (MonGetCSMsg.fillFromChannel protocol) (MonGetCSMsg.fillFromChannel protocol) := by
  have hshort : P
      (do let filename ← readString
          let lang ← readUInt32
          pure { filename, lang } : Reader UInt8 GetCSMsg)
      (do let filename ← readString
          let lang ← readUInt32
          pure { filename, lang } : Reader UInt8 GetCSMsg) :=
    hP.bind hP.string fun _ _ => hP.bind hP.word fun _ _ => hP.pure _ _
  refine hP.bind (Closed.ite hshort (getCS_of protocol hP)) fun _ _ => ?_
  exact hP.bind hP.word fun _ _ => hP.bind hP.word fun _ _ => hP.pure _ _

/-- Every message but the chunk, whose reader checks a length that it has read. -/
theorem fill_of {t : MsgType} (ht : t ≠ .fileChunk) {fill : Reader UInt8 Msg}
    (h : fillFromChannel k protocol t = some fill) : P fill fill := by
  cases t with
  | fileChunk => exact absurd rfl ht
  | unknown => cases h
  | timeout => cases h
  | ping => exact (Option.some.inj h) ▸ hP.pure _ _
  | endMsg => exact (Option.some.inj h) ▸ hP.pure _ _
  | getInternals => exact (Option.some.inj h) ▸ hP.pure _ _
  | monLogin => exact (Option.some.inj h) ▸ hP.pure _ _
  | text => exact (Option.some.inj h) ▸ hP.pure _ _
  | getCS => exact (Option.some.inj h) ▸ hP.map _ _ (getCS_of protocol hP)
  | useCS => exact (Option.some.inj h) ▸ hP.map _ _ (useCS_of protocol hP)
  | noCS => exact (Option.some.inj h) ▸ hP.map _ _ (noCS_of hP)
  | getNativeEnv => exact (Option.some.inj h) ▸ hP.map _ _ (getNativeEnv_of protocol hP)
  | nativeEnv => exact (Option.some.inj h) ▸ hP.map _ _ hP.string
  | compileFile => exact (Option.some.inj h) ▸ hP.map _ _ (compileFile_of protocol hP)
  | compileResult => exact (Option.some.inj h) ▸ hP.map _ _ (compileResult_of protocol hP)
  | jobBegin => exact (Option.some.inj h) ▸ hP.map _ _ (jobBegin_of protocol hP)
  | jobDone => exact (Option.some.inj h) ▸ hP.map _ _ (jobDone_of protocol hP)
  | jobLocalBegin => exact (Option.some.inj h) ▸ hP.map _ _ (jobLocalBegin_of protocol hP)
  | jobLocalDone => exact (Option.some.inj h) ▸ hP.map _ _ hP.word
  | login => exact (Option.some.inj h) ▸ hP.map _ _ (login_of protocol hP)
  | csConf => exact (Option.some.inj h) ▸ hP.map _ _ (csConf_of hP)
  | stats => exact (Option.some.inj h) ▸ hP.map _ _ (stats_of hP)
  | transferEnv => exact (Option.some.inj h) ▸ hP.map _ _ (transferEnv_of hP)
  | monGetCS => exact (Option.some.inj h) ▸ hP.map _ _ (monGetCS_of protocol hP)
  | monJobBegin => exact (Option.some.inj h) ▸ hP.map _ _ (monJobBegin_of hP)
  | monJobDone => exact (Option.some.inj h) ▸ hP.map _ _ (jobDone_of protocol hP)
  | monLocalJobBegin => exact (Option.some.inj h) ▸ hP.map _ _ (monLocalJobBegin_of hP)
  | monStats => exact (Option.some.inj h) ▸ hP.map _ _ (monStats_of hP)
  | statusText => exact (Option.some.inj h) ▸ hP.map _ _ hP.string
  | verifyEnv => exact (Option.some.inj h) ▸ hP.map _ _ (verifyEnv_of hP)
  | verifyEnvResult => exact (Option.some.inj h) ▸ hP.map _ _ hP.bool
  | blacklistHostEnv => exact (Option.some.inj h) ▸ hP.map _ _ (blacklistHostEnv_of hP)

end Fields

theorem paired_fields : Fields Paired where
  toClosed := Paired.closed
  word := readUInt32_paired
  string := readString_paired
  strings := readStrings_paired
  environments := readEnvironments_paired

theorem readHunk_regular (ulen clen proto : UInt32) :
    Regular (readHunk k ulen clen proto) where
  suffix w := by
    unfold readHunk
    repeat' split
    all_goals first | exact List.suffix_rfl | exact List.drop_suffix _ _
  beyond w := by
    unfold readHunk
    repeat' split
    all_goals rfl
  short w h := by
    unfold readHunk
    repeat' split
    all_goals first | exact h | rfl
  loose w h := by
    unfold readHunk
    repeat' split
    all_goals exact h
  failed w h := by
    unfold readHunk
    repeat' split
    all_goals first | exact h | rfl
  extend w r b hs _ := by
    unfold readHunk at hs ⊢
    by_cases hproto : proto ≠ cLZO ∧ proto ≠ cZSTD
    · simp only [if_pos hproto, Window.extend]
    · by_cases hsize : maxMsgSize < ulen.toNat ∨ (ulen ≠ 0 ∧ clen = 0)
      · simp only [if_neg hproto, if_pos hsize, Window.extend]
      · by_cases hroom : w.rest.length < clen.toNat
        · simp only [if_neg hproto, if_neg hsize, if_pos hroom] at hs
          cases hs
        · have hroom' : ¬(w.extend r b).rest.length < clen.toNat := by
            simp only [Window.extend, List.length_append]
            omega
          simp only [if_neg hproto, if_neg hsize, if_neg hroom, if_neg hroom']
          simp only [Window.extend, List.take_append_of_le_length (Nat.not_lt.mp hroom),
            List.drop_append_of_le_length (Nat.not_lt.mp hroom)]

theorem readcompressed_regular : Regular (readcompressed k protocol) := by
  refine readUInt32_regular.bind fun _ => readUInt32_regular.bind fun _ => ?_
  exact (paired_fields.since protocol 40 _ readUInt32_paired).left.bind fun _ =>
    readHunk_regular k _ _ _

theorem fill_paired {t : MsgType} (ht : t ≠ .fileChunk) {fill : Reader UInt8 Msg}
    (h : fillFromChannel k protocol t = some fill) : Paired fill fill :=
  fill_of k protocol paired_fields ht h

theorem fill_regular {t : MsgType} {fill : Reader UInt8 Msg}
    (h : fillFromChannel k protocol t = some fill) : Regular fill := by
  by_cases ht : t = .fileChunk
  · subst ht
    cases h
    exact (readcompressed_regular k protocol).map _
  · exact (fill_paired k protocol ht h).left

/-- What follows the type word. -/
def readBody (t : UInt32) : Reader UInt8 (Option Msg) :=
  match (MsgType.ofCode t).bind (fillFromChannel k protocol) with
  | some fill => some <$> fill
  | none => pure none

theorem readMsg_eq : readMsg k protocol = readUInt32 >>= readBody k protocol := rfl

theorem readBody_regular (t : UInt32) : Regular (readBody k protocol t) := by
  rw [readBody]
  split
  · next fill hfill =>
    obtain ⟨t', -, hfill'⟩ := Option.bind_eq_some_iff.mp hfill
    exact (fill_regular k protocol hfill').map _
  · exact Regular.pure _

theorem readMsg_regular : Regular (readMsg k protocol) :=
  readUInt32_regular.bind (readBody_regular k protocol)

theorem readBody_paired {t : UInt32} (ht : t ≠ MsgType.fileChunk.code) :
    Paired (readBody k protocol t) (readBody k protocol t) := by
  rw [readBody]
  split
  · next fill hfill =>
    obtain ⟨t', ht', hfill'⟩ := Option.bind_eq_some_iff.mp hfill
    have hcode : t' ≠ .fileChunk := by
      rintro rfl
      have hfind : MsgType.fileChunk.code = t := by
        simpa using List.find?_some ht'
      exact ht hfind.symm
    exact (fill_paired k protocol hcode hfill').map _ _
  · exact Paired.pure _ _

end Icecream.Comm
