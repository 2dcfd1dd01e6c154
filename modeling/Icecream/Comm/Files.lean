import Icecream.Comm.RoundTrip
import Icecream.Comm.Transfer

/-!
# Files as messages

What both sides make of a file: chunks, and `EndMsg` behind them.
-/

namespace Icecream.Comm

/-- What `read` gives -/
inductive ReadResult where
  | bytes (bs : Bytes)
  -- EINTR and EAGAIN
  | interrupted
  | failed

/-- The chunk that is made of a buffer -/
def chunk (bs : Bytes) : FileChunkMsg := { buffer := bs, len := bs.length }

/-- The messages that a file is sent as -/
def transfer (chunks : List FileChunkMsg) : List Msg := chunks.map .fileChunk ++ [.endMsg]

/-- The bytes of a file; `none` where nothing had been written to the buffer -/
abbrev Content := List (Option UInt8)

def contents (chunks : List FileChunkMsg) : Content := chunks.flatMap FileChunkMsg.content

variable {bs : Bytes} {c c' : List FileChunkMsg} {rest rest' : List Msg}

@[simp]
theorem content_chunk (bs : Bytes) : (chunk bs).content = bs.map some := by
  simp [chunk, FileChunkMsg.content]

@[simp]
theorem contents_nil : contents [] = [] := rfl

@[simp]
theorem contents_cons (m : FileChunkMsg) (c : List FileChunkMsg) :
    contents (m :: c) = m.content ++ contents c := List.flatMap_cons

@[simp]
theorem contents_append (c c' : List FileChunkMsg) : contents (c ++ c') = contents c ++ contents c' :=
  List.flatMap_append

theorem contents_chunks (pieces : List Bytes) : contents (pieces.map chunk) = pieces.flatten.map some := by
  induction pieces with
  | nil => rfl
  | cons bs pieces ih => rw [List.map_cons, contents_cons, content_chunk, ih, List.flatten_cons,
      List.map_append]

/-- The end of a file is seen where it is. -/
theorem transfer_append_inj (h : transfer c ++ rest = transfer c' ++ rest') : c = c' ∧ rest = rest' := by
  induction c generalizing c' with
  | nil =>
    cases c' with
    | nil => exact ⟨rfl, (List.cons_eq_cons.mp h).2⟩
    | cons m c' => cases h
  | cons m c ih =>
    cases c' with
    | nil => cases h
    | cons m' c' =>
      obtain ⟨hm, hrest⟩ := List.cons_eq_cons.mp h
      obtain ⟨rfl, rfl⟩ := ih hrest
      cases hm
      exact ⟨rfl, rfl⟩

/-- Chunks at the front of a file -/
theorem transfer_split (h : c.map .fileChunk ++ rest = transfer c') :
    ∃ more, c' = c ++ more ∧ rest = transfer more := by
  induction c generalizing c' with
  | nil => exact ⟨c', rfl, h⟩
  | cons m c ih =>
    cases c' with
    | nil => cases h
    | cons m' c' =>
      obtain ⟨hm, hrest⟩ := List.cons_eq_cons.mp h
      obtain ⟨more, rfl, hmore⟩ := ih hrest
      cases hm
      exact ⟨more, rfl, hmore⟩

section

variable (protocol : ℕ) (k : Compression)

@[simp]
theorem content_normalised (m : FileChunkMsg) : (m.normalised protocol k).content = m.content := rfl

theorem contents_normalised (c : List FileChunkMsg) :
    contents (c.map fun m => m.normalised protocol k) = contents c := by
  rw [contents, contents, List.flatMap_map]
  rfl

theorem transfer_normalised (c : List FileChunkMsg) :
    (transfer c).map (Msg.normalised protocol k) =
      transfer (c.map fun m => m.normalised protocol k) := by
  simp [transfer, Msg.normalised, Function.comp_def]

end

end Icecream.Comm
