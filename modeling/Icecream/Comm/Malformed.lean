import Mathlib.Data.List.TakeWhile
import Icecream.Library.Script
import Icecream.Comm.Bounds
import Icecream.Comm.Frame

/-!
# What a peer can make the decoders read

Which bytes a string is taken from, and how many elements a list has, when the received data
is whatever a peer has sent.
-/

namespace Icecream.Comm

open Reader

variable (k : Compression) (protocol : ℕ)

/-! ## Strings -/

/-- What the decoders are made of. `last` is the test of `operator>>` for a list of strings
that ends the loop, with `more` for what the announced count says. -/
inductive FieldOp
  | word
  | chars (len : UInt32)
  | last (more : Bool)
  | hunk (ulen clen proto : UInt32)

namespace FieldOp

def Result : FieldOp → Type
  | word => UInt32
  | chars _ => Str
  | last _ => Bool
  | hunk _ _ _ => FileChunkMsg

def atLast (more : Bool) : Reader UInt8 Bool := fun w =>
  if w.rest = [] then (true, { w with short := w.short || more }) else (false, w)

def exec : (o : FieldOp) → Reader UInt8 o.Result
  | word => readUInt32
  | chars len => readChars len
  | last more => atLast more
  | hunk ulen clen proto => readHunk k ulen clen proto

/-- A string is the beginning of its field, and shorter. Whatever else is read does not depend
on what lies behind the received data. -/
def Confined (w : Window UInt8) : FieldOp → Prop
  | chars len => (readChars len w).1 <+: w.rest.take len.toNat ∧
      (len ≠ 0 → (readChars len w).1.length < len.toNat)
  | o => ∀ b, (o.exec k { w with beyond := b }).1 = (o.exec k w).1

/-- The field of a string, when it has been received, has a NUL. -/
def Terminated (w : Window UInt8) : FieldOp → Prop
  | chars len => len ≠ 0 → len.toNat ≤ w.rest.length → 0 ∈ w.rest.take len.toNat
  | _ => True

end FieldOp

theorem takeWhile_length_of_notMem {p : Bytes} (h : 0 ∉ p) (r : Bytes) :
    p.length ≤ ((p ++ r).takeWhile (· ≠ 0)).length := by
  have hall : ∀ x ∈ p, decide (x ≠ 0) = true := by
    intro x hx
    rw [decide_eq_true_eq]
    rintro rfl
    exact h hx
  rw [List.takeWhile_append_of_pos hall, List.length_append]
  exact Nat.le_add_right _ _

theorem takeWhile_length_of_mem {p : Bytes} (h : 0 ∈ p) :
    (p.takeWhile (· ≠ 0)).length < p.length := by
  refine lt_of_le_of_ne (List.takeWhile_prefix _).length_le fun hsame => ?_
  have hall := List.takeWhile_eq_self_iff.mp ((List.takeWhile_prefix _).eq_of_length hsame) 0 h
  simp at hall

/-- A string that the received data holds is read up to its NUL. -/
theorem readChars_value {len : UInt32} (h0 : len ≠ 0) {w : Window UInt8}
    (hlen : ¬ w.rest.length < len.toNat) : (readChars len w).1 =
      (w.rest.take len.toNat ++ (w.rest.drop len.toNat ++ w.beyond)).takeWhile (· ≠ 0) := by
  rw [readChars_of_le h0 hlen, ← List.append_assoc, List.take_append_drop]

theorem chars_confined_iff (len : UInt32) (w : Window UInt8) :
    (FieldOp.chars len).Confined k w ↔ (FieldOp.chars len).Terminated w := by
  simp only [FieldOp.Confined, FieldOp.Terminated]
  by_cases h0 : len = 0
  · subst h0
    simp [readChars_zero]
  have hpos : 0 < len.toNat := Nat.pos_of_ne_zero fun hzero => h0 (UInt32.toNat_inj.mp hzero)
  by_cases hlen : w.rest.length < len.toNat
  · rw [readChars_of_lt h0 hlen]
    simp [hpos, Nat.not_le.mpr hlen]
  · rw [readChars_value h0 hlen]
    have hfield : (w.rest.take len.toNat).length = len.toNat := by
      rw [List.length_take]
      omega
    constructor
    · intro h _ _
      by_contra hnul
      have hlong := takeWhile_length_of_notMem hnul (w.rest.drop len.toNat ++ w.beyond)
      have hshort := h.2 h0
      omega
    · intro h
      have hnul := h h0 (Nat.not_lt.mp hlen)
      rw [takeWhile_of_contains (by simpa using hnul)]
      refine ⟨List.takeWhile_prefix _, fun _ => ?_⟩
      exact (takeWhile_length_of_mem hnul).trans_eq hfield

theorem readUInt32_beyond (w : Window UInt8) (b : Bytes) :
    (readUInt32 { w with beyond := b }).1 = (readUInt32 w).1 := by
  unfold readUInt32
  split <;> rfl

theorem readHunk_beyond (ulen clen proto : UInt32) (w : Window UInt8) (b : Bytes) :
    (readHunk k ulen clen proto { w with beyond := b }).1 = (readHunk k ulen clen proto w).1 := by
  unfold readHunk
  split
  · rfl
  · split
    · rfl
    · split <;> rfl

theorem confined_iff (o : FieldOp) (w : Window UInt8) : o.Confined k w ↔ o.Terminated w := by
  cases o with
  | word => exact iff_of_true (readUInt32_beyond w) trivial
  | chars len => exact chars_confined_iff k len w
  | last more =>
    refine iff_of_true (fun b => ?_) trivial
    simp only [FieldOp.exec, FieldOp.atLast]
    split <;> rfl
  | hunk ulen clen proto => exact iff_of_true (readHunk_beyond k ulen clen proto w) trivial

/-! ## Messages -/

theorem readString_spelled : Spelled (FieldOp.exec k) readString :=
  (Spelled.op (FieldOp.exec k) .word).bind fun len => .op (FieldOp.exec k) (.chars len)

/-- A turn of the loop is a string and the test of whether there is more. -/
theorem readStringsLoop_eq (n : ℕ) : readStringsLoop (n + 1) =
    readString >>= fun s => FieldOp.atLast (n ≠ 0) >>= fun stop =>
      if stop then pure [s] else (s :: ·) <$> readStringsLoop n := by
  funext w
  simp only [readStringsLoop, bind_apply, FieldOp.atLast]
  by_cases h : (readString w).2.rest = []
  · simp [h]
  · simp [h]

theorem readStringsLoop_spelled (n : ℕ) : Spelled (FieldOp.exec k) (readStringsLoop n) := by
  induction n with
  | zero => exact .pure []
  | succ n ih =>
    rw [readStringsLoop_eq]
    refine (readString_spelled k).bind fun s => ?_
    refine (Spelled.op (FieldOp.exec k) (.last (n ≠ 0))).bind fun stop => ?_
    cases stop with
    | true => exact .pure [s]
    | false => exact ih.bind fun l => .pure (s :: l)

theorem readEnvironmentsLoop_spelled (n : ℕ) :
    Spelled (FieldOp.exec k) (readEnvironmentsLoop n) := by
  induction n with
  | zero => exact .pure []
  | succ n ih =>
    refine (readString_spelled k).bind fun plat => (readString_spelled k).bind fun vers => ?_
    exact ih.bind fun envs => .pure _

theorem readUInt32_spelled : Spelled (FieldOp.exec k) readUInt32 := .op (FieldOp.exec k) .word

theorem spelled_fields : Fields fun rd rd' =>
    Spelled (FieldOp.exec k) rd ∧ Spelled (FieldOp.exec k) rd' where
  toClosed := Spelled.closed _
  word := ⟨readUInt32_spelled k, readUInt32_spelled k⟩
  string := ⟨readString_spelled k, readString_spelled k⟩
  strings := by
    have h := (readUInt32_spelled k).bind fun len => readStringsLoop_spelled k len.toNat
    exact ⟨h, h⟩
  environments := by
    have h := (readUInt32_spelled k).bind fun count => readEnvironmentsLoop_spelled k count.toNat
    exact ⟨h, h⟩

theorem fill_spelled {t : MsgType} {fill : Reader UInt8 Msg}
    (h : fillFromChannel k protocol t = some fill) : Spelled (FieldOp.exec k) fill := by
  by_cases ht : t = .fileChunk
  · subst ht
    obtain rfl := Option.some.inj h
    have hword := readUInt32_spelled k
    have hproto := (spelled_fields k).since protocol 40 cLZO ⟨hword, hword⟩
    refine Spelled.bind (hword.bind fun ulen => hword.bind fun clen => hproto.1.bind fun proto => ?_)
      fun m => .pure (Msg.fileChunk m)
    exact .op (FieldOp.exec k) (.hunk ulen clen proto)
  · exact (fill_of k protocol (spelled_fields k) ht h).1

theorem readMsg_spelled : Spelled (FieldOp.exec k) (readMsg k protocol) := by
  rw [readMsg_eq]
  refine (readUInt32_spelled k).bind fun t => ?_
  rw [readBody]
  split
  · next fill hfill =>
    obtain ⟨t', -, hfill'⟩ := Option.bind_eq_some_iff.mp hfill
    exact (fill_spelled k protocol hfill').bind fun m => .pure (some m)
  · exact .pure none

/-- A string is confined to its field if and only if the field has a NUL, and a message's reader
confines what it reads if and only if every string field it comes to has one. -/
theorem decoders_confined_iff :
    (∀ len w, (FieldOp.chars len).Confined k w ↔ (FieldOp.chars len).Terminated w) ∧
    ∀ t, ∀ fill ∈ fillFromChannel k protocol t,
      ∃ p : Script FieldOp FieldOp.Result Msg, p.run (FieldOp.exec k) = fill ∧
        ∀ w, (∀ u ∈ p.uses (FieldOp.exec k) w, u.1.Confined k u.2) ↔
          ∀ u ∈ p.uses (FieldOp.exec k) w, u.1.Terminated u.2 := by
  refine ⟨chars_confined_iff k, fun t fill hfill => ?_⟩
  obtain ⟨p, hp⟩ := fill_spelled k protocol hfill
  exact ⟨p, hp, fun w => forall₂_congr fun u _ => confined_iff k u.1 u.2⟩

theorem decoders_confined_iff_statusText :
    ∃ p : Script FieldOp FieldOp.Result Msg,
      p.run (FieldOp.exec .stored) = Msg.statusText <$> readString ∧
        ∀ w, (∀ u ∈ p.uses (FieldOp.exec .stored) w, u.1.Confined .stored u.2) ↔
          ∀ u ∈ p.uses (FieldOp.exec .stored) w, u.1.Terminated u.2 :=
  (decoders_confined_iff .stored 45).2 .statusText _ rfl

/-- A field of one byte that is no NUL: the string goes on with what was in the buffer before. -/
theorem string_unconfined :
    (readString (Window.fresh (writeUInt32 1 ++ [65]) [66, 0])).1 = [65, 66] ∧
      ¬ (FieldOp.chars 1).Confined .stored (Window.fresh [65] [66, 0]) := by
  refine ⟨by decide, fun h => ?_⟩
  exact absurd (h.2 (by decide)) (by decide)

/-! ## Lists -/

/-- The strings behind one another leave nothing over: each has as many bytes as its length
says, or its length says more than there are and the next one starts behind the length. -/
inductive Tiled : Bytes → Prop
  | nil : Tiled []
  | field {len : UInt32} {chars rest : Bytes} :
    chars.length = len.toNat → Tiled rest → Tiled (writeUInt32 len ++ (chars ++ rest))
  | cut {len : UInt32} {rest : Bytes} :
    rest.length < len.toNat → Tiled rest → Tiled (writeUInt32 len ++ rest)

theorem readUInt32_ahead {w : Window UInt8} {len : UInt32} {rest : Bytes}
    (h : w.rest = writeUInt32 len ++ rest) : readUInt32 w = (len, { w with rest := rest }) := by
  have hfour : 4 ≤ w.rest.length := by
    rw [h, List.length_append, writeUInt32_length]
    exact Nat.le_add_right _ _
  rw [readUInt32_of_le hfour, h, writeUInt32, Word.value_bytes]
  rfl

theorem readChars_rest (len : UInt32) (w : Window UInt8) : (readChars len w).2.rest =
    if len.toNat ≤ w.rest.length then w.rest.drop len.toNat else w.rest := by
  by_cases h0 : len = 0
  · subst h0
    simp [readChars_zero]
  by_cases hlen : w.rest.length < len.toNat
  · rw [readChars_of_lt h0 hlen, if_neg (Nat.not_le.mpr hlen)]
  · rw [readChars_of_le h0 hlen, if_pos (Nat.not_lt.mp hlen)]

theorem readString_rest {w : Window UInt8} {len : UInt32} {rest : Bytes}
    (h : w.rest = writeUInt32 len ++ rest) : (readString w).2.rest =
      if len.toNat ≤ rest.length then rest.drop len.toNat else rest := by
  rw [readString, bind_apply, readUInt32_ahead h, readChars_rest]

theorem tiled_of_readString {w : Window UInt8} (h : Tiled (readString w).2.rest) :
    Tiled w.rest := by
  by_cases hfour : 4 ≤ w.rest.length
  · have htake : (w.rest.take 4).length = 4 := by
      rw [List.length_take]
      omega
    have hw : w.rest = writeUInt32 (Word.value (w.rest.take 4)) ++ w.rest.drop 4 := by
      rw [writeUInt32, Word.bytes_value htake, List.take_append_drop]
    rw [readString_rest hw] at h
    rw [hw]
    split at h
    · next hlen =>
      rw [← List.take_append_drop (Word.value (w.rest.take 4)).toNat (w.rest.drop 4)]
      exact .field (by rw [List.length_take, min_eq_left hlen]) h
    · next hlen => exact .cut (Nat.not_le.mp hlen) h
  · rwa [readString, bind_apply, readUInt32_of_lt hfour, readChars_zero] at h

theorem readStringsLoop_length_le (n : ℕ) (w : Window UInt8) :
    (readStringsLoop n w).1.length ≤ n := by
  induction n generalizing w with
  | zero => exact le_rfl
  | succ n ih =>
    rw [readStringsLoop_succ]
    split
    · exact Nat.succ_le_succ (Nat.zero_le n)
    · exact Nat.succ_le_succ (ih _)

/-- A remainder of one to three bytes is never read, and the loop goes on to the announced
count. -/
theorem readStringsLoop_length {w : Window UInt8} (n : ℕ) (h : ¬ Tiled w.rest) :
    (readStringsLoop n w).1.length = n := by
  induction n generalizing w with
  | zero => rfl
  | succ n ih =>
    have hrest : ¬ Tiled (readString w).2.rest := fun ht => h (tiled_of_readString ht)
    have hne : (readString w).2.rest ≠ [] := fun hnil => hrest (hnil ▸ .nil)
    rw [readStringsLoop_of_ne n hne, List.length_cons, ih hrest]

/-- A turn that takes four bytes at least -/
theorem readStringsLoop_turn_le {w : Window UInt8} {size : ℕ} (n : ℕ)
    (hsize : (readString w).2.rest.length + 4 ≤ size)
    (h : ∀ n, (readStringsLoop n (readString w).2).1.length ≤
      (readString w).2.rest.length / 4 + 1) :
    (readStringsLoop n w).1.length ≤ size / 4 + 1 := by
  cases n with
  | zero => exact Nat.zero_le _
  | succ n =>
    by_cases hnil : (readString w).2.rest = []
    · rw [readStringsLoop_of_nil n hnil]
      exact Nat.succ_le_succ (Nat.zero_le _)
    · rw [readStringsLoop_of_ne n hnil, List.length_cons]
      have hrest := h n
      omega

theorem readStringsLoop_tiled {bs : Bytes} (h : Tiled bs) {w : Window UInt8} (hw : w.rest = bs)
    (n : ℕ) : (readStringsLoop n w).1.length ≤ bs.length / 4 + 1 := by
  induction h generalizing w n with
  | nil =>
    cases n with
    | zero => exact Nat.zero_le _
    | succ n =>
      have hnil : (readString w).2.rest = [] :=
        List.suffix_nil.mp (hw ▸ readString_regular.suffix w)
      rw [readStringsLoop_of_nil n hnil]
      exact le_rfl
  | @field len chars rest hlen _ ih =>
    have hrest : (readString w).2.rest = rest := by
      rw [readString_rest hw, if_pos (by simp [hlen]), ← hlen, List.drop_left]
    refine readStringsLoop_turn_le n ?_ fun n => hrest.symm ▸ ih hrest n
    rw [hrest, List.length_append, List.length_append, writeUInt32_length]
    omega
  | @cut len rest hlen _ ih =>
    have hrest : (readString w).2.rest = rest := by
      rw [readString_rest hw, if_neg (Nat.not_le.mpr hlen)]
    refine readStringsLoop_turn_le n ?_ fun n => hrest.symm ▸ ih hrest n
    rw [hrest, List.length_append, writeUInt32_length]
    omega

theorem readEnvironmentsLoop_length (n : ℕ) (w : Window UInt8) :
    (readEnvironmentsLoop n w).1.length = n := by
  induction n generalizing w with
  | zero => rfl
  | succ n ih => exact congrArg Nat.succ (ih _)

/-- The count in front of a list -/
def announced (w : Window UInt8) : ℕ := (readUInt32 w).1.toNat

/-- A list of strings has no more elements than there are bytes if and only if no more are
announced or the strings leave nothing over, and a list of environments if and only if no more
are announced. -/
theorem lists_bounded_iff (w : Window UInt8) :
    ((readStrings w).1.length ≤ w.rest.length ↔
      announced w ≤ w.rest.length ∨ Tiled (w.rest.drop 4)) ∧
    ((readEnvironments w).1.length ≤ w.rest.length ↔ announced w ≤ w.rest.length) := by
  constructor
  · change (readStringsLoop (announced w) (readUInt32 w).2).1.length ≤ _ ↔ _
    by_cases hfour : 4 ≤ w.rest.length
    · have hafter : (readUInt32 w).2.rest = w.rest.drop 4 := by rw [readUInt32_of_le hfour]
      rw [← hafter]
      by_cases htiled : Tiled (readUInt32 w).2.rest
      · refine iff_of_true ((readStringsLoop_tiled htiled rfl _).trans ?_) (.inr htiled)
        rw [hafter, List.length_drop]
        omega
      · rw [readStringsLoop_length _ htiled, or_iff_left htiled]
    · have hnone : announced w = 0 := by rw [announced, readUInt32_of_lt hfour]; rfl
      have hle := readStringsLoop_length_le (announced w) (readUInt32 w).2
      rw [hnone] at hle ⊢
      exact iff_of_true (hle.trans (Nat.zero_le _)) (.inl (Nat.zero_le _))
  · change (readEnvironmentsLoop _ _).1.length ≤ _ ↔ _
    rw [readEnvironmentsLoop_length, announced]

/-- One byte behind the count makes nine strings, and the count alone four billion
environments. -/
theorem lists_unbounded :
    (readStrings (Window.fresh (writeUInt32 9 ++ [0]) [])).1.length = 9 ∧
      (readEnvironments (Window.fresh (writeUInt32 4294967295) [])).1.length = 4294967295 := by
  refine ⟨by decide, ?_⟩
  change (readEnvironmentsLoop _ _).1.length = _
  rw [readEnvironmentsLoop_length, readUInt32_ahead (List.append_nil _).symm]
  rfl

end Icecream.Comm
