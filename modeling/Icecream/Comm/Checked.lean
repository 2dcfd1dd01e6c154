import Icecream.Library.Checks
import Icecream.Comm.Growth
import Icecream.Comm.Malformed

/-!
# The input buffer, index by index

The routines that move the cursors of `inbuf` once more, with every difference of two cursors
taken where it does not wrap only, and with a look at the cursors at the end of each. There
is no result where something of this fails. Sums do not wrap: `size_t` has 64 bits, and a
buffer fits the memory.
-/

namespace Icecream.Comm.Checked

open Icecream.Checks

variable (p : Platform)

def inOrder (ch : MsgChannel) : Option MsgChannel :=
  ensure (ch.intogo ≤ ch.inofs ∧ ch.inofs ≤ ch.inbuf.length) ch

def chopInput (ch : MsgChannel) : Option MsgChannel := do
  let count ← minus ch.inofs ch.intogo
  if 8192 < ch.intogo ∨ count ≤ 16 then
    inOrder { ch with
      inbuf := Block.overwrite ch.inbuf 0 (Block.slice ch.inbuf ch.intogo count)
      inofs := count
      intogo := 0 }
  else inOrder ch

/-! ## The decoders -/

/-- `operator>>` for a number -/
def word (ch : MsgChannel) : Option (UInt32 × MsgChannel) :=
  if ch.intogo + 4 ≤ ch.inofs then
    (inOrder { ch with intogo := ch.intogo + 4 }).map
      (Word.value (Block.slice ch.inbuf ch.intogo 4), ·)
  else (inOrder ch).map (0, ·)

/-- `operator>>` for a string, behind its length -/
def chars (len : UInt32) (ch : MsgChannel) : Option (Str × MsgChannel) := do
  let count ← minus ch.inofs ch.intogo
  if len = 0 ∨ count < len.toNat then (inOrder ch).map ([], ·)
  else
    (inOrder { ch with intogo := ch.intogo + len.toNat }).map
      ((ch.inbuf.drop ch.intogo).takeWhile (· ≠ 0), ·)

/-- `readcompressed` behind its numbers, and whether it has called `set_error` -/
def hunk (ulen clen proto : UInt32) (ch : MsgChannel) : Option (FileChunkMsg × MsgChannel × Bool) :=
  if proto ≠ cLZO ∧ proto ≠ cZSTD then (inOrder ch).map (⟨[], 0, clen.toNat⟩, ·, true)
  else do
    let count ← minus ch.inofs ch.intogo
    if maxMsgSize < ulen.toNat ∨ count < clen.toNat ∨ (ulen ≠ 0 ∧ clen = 0) ∨
        ch.inofs < ch.intogo + clen.toNat then
      (inOrder ch).map (⟨[], 0, clen.toNat⟩, ·, true)
    else
      let u := uncompress p.compression proto ulen.toNat
        (Block.slice ch.inbuf ch.intogo clen.toNat)
      (inOrder { ch with intogo := ch.intogo + clen.toNat }).map
        (⟨u.1, u.2, clen.toNat⟩, ·, false)

/-- The operations of a decoder; the flag says that one has called `set_error`. -/
def field : (o : FieldOp) → MsgChannel × Bool → Option (o.Result × MsgChannel × Bool)
  | .word, (ch, failed) => (word ch).map fun r => (r.1, r.2, failed)
  | .chars len, (ch, failed) => (chars len ch).map fun r => (r.1, r.2, failed)
  | .last _, (ch, failed) => some (decide (ch.inofs = ch.intogo), ch, failed)
  | .hunk ulen clen proto, (ch, failed) =>
    (hunk p ulen clen proto ch).map fun r => (r.1, r.2.1, failed || r.2.2)

/-! ## `update_state` -/

def fillBuf (ch : MsgChannel) : Option MsgChannel := do
  let count ← minus ch.inofs ch.intogo
  if ch.inmsglen.toNat ≤ count then some { ch with instate := .hasMsg } else some ch

def needLen (ch : MsgChannel) : Option MsgChannel := do
  let count ← minus ch.inofs ch.intogo
  if 4 ≤ count then
    let (len, ch) ← word ch
    let room ← minus ch.inbuf.length ch.intogo
    fillBuf
      { ch with
        inmsglen := len
        inbuf :=
          if room < len.toNat then
            Block.enlarge p.junk ch.inbuf (MsgChannel.roundUp (len.toNat + ch.intogo))
          else ch.inbuf
        instate := .fillBuf }
  else some ch

/-- NEED_LEN on a text channel. The loop over leading blanks runs while `inofs` is before
`intogo`. -/
def needLine (ch : MsgChannel) : Option MsgChannel :=
  let blanks := (Block.slice ch.inbuf ch.inofs (ch.intogo - ch.inofs)).takeWhile p.control
  let ch := { ch with inofs := ch.inofs + blanks.length }
  do
    let count ← minus ch.inofs ch.intogo
    match (Block.slice ch.inbuf ch.intogo count).findIdx? p.control with
    | some n => some { ch with inmsglen := UInt32.ofNat n, instate := .hasMsg }
    | none => some { ch with inmsglen := UInt32.ofNat count }

/-- `update_state` from NEED_LEN on -/
def update (textBased : Bool) (ch : MsgChannel) : Option MsgChannel :=
  match ch.instate with
  | .needLen => if textBased then needLine p ch else needLen p ch
  | .fillBuf => fillBuf ch
  | .hasMsg => some ch
  | .error => some ch

/-! ## No check of a decoder fails -/

variable {p}

theorem inOrder_eq {ch : MsgChannel} (h : ch.Cursors) : inOrder ch = some ch :=
  if_pos ⟨h.order, h.inside⟩

theorem slice_pending {ch : MsgChannel} {n : ℕ} (hn : n ≤ ch.inofs - ch.intogo) :
    Block.slice ch.inbuf ch.intogo n = ch.pending.take n := by
  rw [MsgChannel.pending, Block.slice, Block.slice, List.take_take, min_eq_left hn]

theorem pending_beyond {ch : MsgChannel} (h : ch.Cursors) :
    ch.pending ++ ch.inbuf.drop ch.inofs = ch.inbuf.drop ch.intogo := by
  have hofs : ch.inofs = ch.intogo + (ch.inofs - ch.intogo) := by
    have horder := h.order
    omega
  rw [hofs, ← List.drop_drop]
  exact List.take_append_drop _ _

theorem word_eq {ch : MsgChannel} (h : ch.Cursors) (hfour : 4 ≤ ch.inofs - ch.intogo) :
    word ch = some (Word.value ch.pending, { ch with intogo := ch.intogo + 4 }) := by
  have hskip := (MsgChannel.skip_pending h hfour).1
  have hvalue : Word.value (Block.slice ch.inbuf ch.intogo 4) = Word.value ch.pending := by
    have htake : 4 ≤ (ch.pending.take 4).length := by
      rw [List.length_take, h.pending_length]
      omega
    rw [slice_pending hfour]
    conv_rhs => rw [← List.take_append_drop 4 ch.pending]
    exact (Word.value_append htake _).symm
  unfold word
  rw [if_pos (by omega), inOrder_eq hskip, hvalue]
  rfl

/-- The channel behind what a decoder has taken of the window of `ch₀` -/
structure Along (ch₀ : MsgChannel) (s : MsgChannel × Bool) (w : Window UInt8) : Prop where
  cursors : s.1.Cursors
  rest : w.rest = s.1.pending
  beyond : w.beyond = s.1.inbuf.drop s.1.inofs
  failed : w.failed = s.2
  behind : ch₀.intogo ≤ s.1.intogo
  frame : s.1 = { ch₀ with intogo := s.1.intogo }

namespace Along

variable {ch₀ : MsgChannel} {s : MsgChannel × Bool} {w w' : Window UInt8}

theorem init {ch : MsgChannel} (h : ch.Cursors) : Along ch (ch, false) ch.window :=
  ⟨h, rfl, rfl, rfl, le_rfl, rfl⟩

theorem length (h : Along ch₀ s w) : w.rest.length = s.1.inofs - s.1.intogo := by
  rw [h.rest, h.cursors.pending_length]

theorem stay (h : Along ch₀ s w) {failed : Bool} (hr : w'.rest = w.rest)
    (hb : w'.beyond = w.beyond) (hf : w'.failed = failed) : Along ch₀ (s.1, failed) w' :=
  ⟨h.cursors, hr.trans h.rest, hb.trans h.beyond, hf, h.behind, h.frame⟩

theorem skip (h : Along ch₀ s w) {n : ℕ} {failed : Bool} (hn : n ≤ s.1.inofs - s.1.intogo)
    (hr : w'.rest = w.rest.drop n) (hb : w'.beyond = w.beyond) (hf : w'.failed = failed) :
    Along ch₀ ({ s.1 with intogo := s.1.intogo + n }, failed) w' := by
  obtain ⟨hcursors, hpending⟩ := MsgChannel.skip_pending h.cursors hn
  refine ⟨hcursors, ?_, hb.trans h.beyond, hf, h.behind.trans (Nat.le_add_right _ _), ?_⟩
  · rw [hr, h.rest, hpending]
  · rw [h.frame]

theorem word (h : Along ch₀ s w) : ∃ ch, Checked.word s.1 = some ((readUInt32 w).1, ch) ∧
    Along ch₀ (ch, s.2) (readUInt32 w).2 := by
  have hlen := h.length
  have horder := h.cursors.order
  by_cases hfour : 4 ≤ w.rest.length
  · have hskip : Along ch₀ ({ s.1 with intogo := s.1.intogo + 4 }, s.2)
        { w with rest := w.rest.drop 4 } := h.skip (by omega) rfl rfl h.failed
    rw [word_eq h.cursors (by omega), readUInt32_of_le hfour, h.rest]
    exact ⟨_, rfl, h.rest ▸ hskip⟩
  · unfold Checked.word
    rw [if_neg (by omega), inOrder_eq h.cursors, readUInt32_of_lt hfour]
    exact ⟨_, rfl, h.stay rfl rfl h.failed⟩

theorem chars (h : Along ch₀ s w) (len : UInt32) :
    ∃ ch, Checked.chars len s.1 = some ((readChars len w).1, ch) ∧
      Along ch₀ (ch, s.2) (readChars len w).2 := by
  have hlen := h.length
  unfold Checked.chars
  rw [minus_eq h.cursors.order]
  by_cases hzero : len = 0
  · subst hzero
    rw [readChars_zero]
    simp only [Option.bind_eq_bind, Option.bind_some, true_or, if_true, inOrder_eq h.cursors]
    exact ⟨_, rfl, h⟩
  by_cases hshort : w.rest.length < len.toNat
  · rw [readChars_of_lt hzero hshort]
    simp only [Option.bind_eq_bind, Option.bind_some]
    rw [if_pos (.inr (by omega)), inOrder_eq h.cursors]
    exact ⟨_, rfl, h.stay rfl rfl h.failed⟩
  · have hskip : Along ch₀ ({ s.1 with intogo := s.1.intogo + len.toNat }, s.2)
        (readChars len w).2 := by
      rw [readChars_of_le hzero hshort]
      exact h.skip (by omega) rfl rfl h.failed
    have hvalue : (s.1.inbuf.drop s.1.intogo).takeWhile (· ≠ 0) = (readChars len w).1 := by
      rw [readChars_of_le hzero hshort, h.rest, h.beyond, pending_beyond h.cursors]
    simp only [Option.bind_eq_bind, Option.bind_some]
    rw [if_neg (not_or.mpr ⟨hzero, by omega⟩), inOrder_eq hskip.cursors, hvalue]
    exact ⟨_, rfl, hskip⟩

theorem hunk (h : Along ch₀ s w) (p : Platform) (ulen clen proto : UInt32) :
    ∃ ch failed, Checked.hunk p ulen clen proto s.1 =
        some ((readHunk p.compression ulen clen proto w).1, ch, failed) ∧
      Along ch₀ (ch, s.2 || failed) (readHunk p.compression ulen clen proto w).2 := by
  have hlen := h.length
  have horder := h.cursors.order
  have hfailed : Along ch₀ (s.1, s.2 || true) { w with failed := true } :=
    h.stay rfl rfl (Bool.or_true _).symm
  unfold Checked.hunk readHunk
  by_cases hproto : proto ≠ cLZO ∧ proto ≠ cZSTD
  · rw [if_pos hproto, if_pos hproto, inOrder_eq h.cursors]
    exact ⟨_, _, rfl, hfailed⟩
  rw [if_neg hproto, if_neg hproto, minus_eq horder]
  simp only [Option.bind_eq_bind, Option.bind_some]
  by_cases hsize : maxMsgSize < ulen.toNat ∨ (ulen ≠ 0 ∧ clen = 0)
  · rw [if_pos hsize, if_pos (by tauto), inOrder_eq h.cursors]
    exact ⟨_, _, rfl, hfailed⟩
  rw [if_neg hsize]
  by_cases hshort : w.rest.length < clen.toNat
  · rw [if_pos hshort, if_pos (.inr (.inl (by omega))), inOrder_eq h.cursors]
    exact ⟨_, _, rfl, h.stay rfl rfl (Bool.or_true _).symm⟩
  · have hskip : Along ch₀ ({ s.1 with intogo := s.1.intogo + clen.toNat }, s.2 || false)
        { w with rest := w.rest.drop clen.toNat } :=
      h.skip (by omega) rfl rfl (h.failed.trans (Bool.or_false _).symm)
    have hfits : ¬ (maxMsgSize < ulen.toNat ∨ s.1.inofs - s.1.intogo < clen.toNat ∨
        (ulen ≠ 0 ∧ clen = 0) ∨ s.1.inofs < s.1.intogo + clen.toNat) := by
      rintro (hlong | hmissing | hempty | hend)
      · exact hsize (.inl hlong)
      · omega
      · exact hsize (.inr hempty)
      · omega
    rw [if_neg hshort, if_neg hfits, inOrder_eq hskip.cursors, slice_pending (by omega), ← h.rest]
    exact ⟨_, _, rfl, hskip⟩

theorem field (h : Along ch₀ s w) (p : Platform) (o : FieldOp) :
    ∃ s', Checked.field p o s = some ((o.exec p.compression w).1, s') ∧
      Along ch₀ s' (o.exec p.compression w).2 := by
  cases o with
  | word =>
    obtain ⟨ch, heq, halong⟩ := h.word
    exact ⟨(ch, s.2), by rw [Checked.field, heq]; rfl, halong⟩
  | chars len =>
    obtain ⟨ch, heq, halong⟩ := h.chars len
    exact ⟨(ch, s.2), by rw [Checked.field, heq]; rfl, halong⟩
  | last more =>
    have hlen := h.length
    have horder := h.cursors.order
    simp only [Checked.field, FieldOp.exec, FieldOp.atLast]
    by_cases hnil : w.rest = []
    · have hsame : s.1.inofs = s.1.intogo := by
        rw [hnil, List.length_nil] at hlen
        omega
      rw [if_pos hnil]
      exact ⟨_, by simp [hsame], h.stay rfl rfl h.failed⟩
    · have hmore : s.1.inofs ≠ s.1.intogo := by
        have hpos := List.length_pos_iff.mpr hnil
        omega
      rw [if_neg hnil]
      exact ⟨_, by simp [hmore], h⟩
  | hunk ulen clen proto =>
    obtain ⟨ch, failed, heq, halong⟩ := h.hunk p ulen clen proto
    exact ⟨(ch, s.2 || failed), by rw [Checked.field, heq]; rfl, halong⟩

end Along

/-- A decoder on the buffer does what its reader does on the window. -/
theorem runOn_readMsg {p : Platform} {ch : MsgChannel} (h : ch.Cursors) {α : Type}
    {rd : Reader UInt8 α} {q : Script FieldOp FieldOp.Result α}
    (hq : q.run (FieldOp.exec p.compression) = rd) :
    ∃ s, q.runOn (field p) (ch, false) = some ((rd ch.window).1, s) ∧
      Along ch s (rd ch.window).2 := by
  subst hq
  exact q.runOn_run (fun o s w hs => hs.field p o) (Along.init h)

/-! ## No check of `update_state` fails -/

variable {p : Platform} {ch : MsgChannel}

theorem chopInput_eq (h : ch.Cursors) : chopInput ch = some ch.chopInput := by
  have hmoved := (MsgChannel.chopInput_moved h).cursors
  unfold MsgChannel.chopInput at hmoved ⊢
  unfold chopInput
  rw [minus_eq h.order]
  simp only [Option.bind_eq_bind, Option.bind_some]
  split
  · next hchop =>
    rw [if_pos hchop] at hmoved
    exact inOrder_eq hmoved
  · exact inOrder_eq h

theorem fillBuf_eq (h : ch.Cursors) : fillBuf ch = some ch.fillBuf := by
  unfold fillBuf MsgChannel.fillBuf
  rw [minus_eq h.order]
  simp only [Option.bind_eq_bind, Option.bind_some]
  split <;> rfl

theorem needLen_eq (h : ch.Cursors) : needLen p ch = some (ch.needLen p.junk) := by
  have hin := h.inside
  unfold needLen MsgChannel.needLen
  rw [minus_eq h.order]
  simp only [Option.bind_eq_bind, Option.bind_some]
  split
  · next hfour =>
    have hgrown := Block.enlarge_length p.junk ch.inbuf
      (MsgChannel.roundUp ((Word.value ch.pending).toNat + (ch.intogo + 4)))
    rw [word_eq h hfour]
    simp only [Option.bind_some]
    rw [minus_eq (by omega)]
    simp only [Option.bind_some]
    apply fillBuf_eq
    constructor
    · dsimp only
      omega
    · dsimp only
      split <;> omega
  · rfl

theorem needLine_eq (h : ch.Cursors) (hstate : ch.instate = .needLen) :
    needLine p ch = some (Connection.needLine p ch) := by
  have hnone : ch.intogo - ch.inofs = 0 := Nat.sub_eq_zero_of_le h.order
  have hlen := h.pending_length
  unfold needLine Connection.needLine
  rw [if_pos hstate]
  simp only [hnone, Block.slice, List.take_zero, List.takeWhile_nil, List.length_nil, Nat.add_zero]
  rw [minus_eq h.order]
  simp only [Option.bind_eq_bind, Option.bind_some]
  rw [hlen, MsgChannel.pending, Block.slice]
  split
  · next hline => simp only [hline]
  · next hline => simp only [hline]

theorem update_eq (h : ch.Cursors) {textBased : Bool}
    (hfill : textBased = true → ch.instate ≠ .fillBuf) : update p textBased ch =
      some (if textBased then Connection.needLine p ch else ch.updateState p.junk) := by
  unfold update MsgChannel.updateState
  cases hstate : ch.instate with
  | needLen =>
    cases textBased with
    | true => exact needLine_eq h hstate
    | false => exact needLen_eq h
  | fillBuf =>
    cases textBased with
    | true => exact absurd hstate (hfill rfl)
    | false => exact fillBuf_eq h
  | hasMsg => cases textBased <;> simp [Connection.needLine, hstate]
  | error => cases textBased <;> simp [Connection.needLine, hstate]

end Icecream.Comm.Checked
