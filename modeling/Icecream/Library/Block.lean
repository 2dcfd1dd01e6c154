import Mathlib.Data.List.Basic

/-!
# Blocks of memory

A block is the list of its cells. `slice` reads cells, `overwrite` copies data over
them, `enlarge` reallocates and leaves the new cells with whatever they held.
-/

namespace Icecream.Block

universe u
variable {β : Type u}

def slice (block : List β) (i n : ℕ) : List β := (block.drop i).take n

def overwrite (block : List β) (i : ℕ) (data : List β) : List β :=
  block.take i ++ (data ++ block.drop (i + data.length))

def enlarge (junk : ℕ → β) (block : List β) (n : ℕ) : List β :=
  block ++ (List.range' block.length (n - block.length)).map junk

/-- `overwrite` where there is room for the data -/
def write (i : ℕ) (data block : List β) : Option (List β) :=
  if i + data.length ≤ block.length then some (overwrite block i data) else none

theorem slice_length {block : List β} {i n : ℕ} (h : i + n ≤ block.length) :
    (slice block i n).length = n := by
  rw [slice, List.length_take, List.length_drop]
  omega

theorem overwrite_length {block data : List β} {i : ℕ} (h : i + data.length ≤ block.length) :
    (overwrite block i data).length = block.length := by
  simp only [overwrite, List.length_append, List.length_take, List.length_drop]
  omega

theorem enlarge_length (junk : ℕ → β) (block : List β) (n : ℕ) :
    (enlarge junk block n).length = max block.length n := by
  rw [enlarge, List.length_append, List.length_map, List.length_range']
  omega

theorem write_length {i : ℕ} {data block block' : List β} (h : write i data block = some block') :
    i + data.length ≤ block.length ∧ block'.length = block.length := by
  rw [write] at h
  split at h
  · next hfits =>
    obtain rfl := Option.some.inj h
    exact ⟨hfits, overwrite_length hfits⟩
  · cases h

theorem overwrite_behind (data front back : List β) :
    overwrite (front ++ back) front.length data = front ++ data ++ back.drop data.length := by
  rw [overwrite, List.take_left, ← List.drop_drop, List.drop_left, List.append_assoc]

/-- Data copied behind what has been filled -/
theorem write_behind {i : ℕ} {data front back : List β} (hi : front.length = i)
    (hroom : data.length ≤ back.length) :
    write i data (front ++ back) = some (front ++ data ++ back.drop data.length) := by
  rw [write, if_pos (by rw [List.length_append]; omega), ← hi, overwrite_behind]

/-- Data copied over a part of what has been set to `x` -/
theorem write_filled {i k : ℕ} {x : β} {data front back : List β} (hi : front.length = i)
    (hroom : data.length ≤ k) :
    write i data (front ++ (List.replicate k x ++ back)) =
      some (front ++ data ++ (List.replicate (k - data.length) x ++ back)) := by
  have hback : data.length ≤ (List.replicate k x ++ back).length := by
    rw [List.length_append, List.length_replicate]
    omega
  rw [write_behind hi hback, List.drop_append_of_le_length (by rwa [List.length_replicate]),
    List.drop_replicate]

/-- What is there is written once more. -/
theorem write_same {i : ℕ} {x : β} {block : List β} (h : block[i]? = some x) :
    write i [x] block = some block := by
  obtain ⟨hi, hx⟩ := List.getElem?_eq_some_iff.mp h
  rw [write, if_pos (by rw [List.length_singleton]; omega), overwrite, List.length_singleton, ← hx,
    List.singleton_append, List.getElem_cons_drop, List.take_append_drop]

/-- Data copied right behind a slice prolongs it. -/
theorem slice_overwrite (block data : List β) (i n : ℕ) (h : i + n + data.length ≤ block.length) :
    slice (overwrite block (i + n) data) i (n + data.length) = slice block i n ++ data := by
  have hlen : (block.take (i + n)).length = i + n := by
    rw [List.length_take]
    omega
  have hslice : (List.drop i (block.take (i + n))).length = n := by
    rw [List.length_drop, hlen]
    omega
  rw [slice, overwrite, List.drop_append_of_le_length (by omega), ← List.append_assoc,
    List.take_append_of_le_length (by rw [List.length_append]; omega),
    List.take_of_length_le (by rw [List.length_append]; omega), slice, List.drop_take]
  congr 2
  omega

theorem slice_overwrite_zero {block data : List β} (h : data.length ≤ block.length) :
    slice (overwrite block 0 data) 0 data.length = data := by
  have hslice := slice_overwrite block data 0 0 (by omega)
  simpa [slice] using hslice

/-- Data copied over a part of a slice replaces it. -/
theorem slice_patch {block data x y z : List β} {n : ℕ} (h : slice block 0 n = x ++ (y ++ z))
    (hdata : data.length = y.length) (hn : n ≤ block.length) :
    slice (overwrite block x.length data) 0 n = x ++ (data ++ z) := by
  have hlen : n = x.length + (y.length + z.length) := by
    have hslice := slice_length (i := 0) (show 0 + n ≤ block.length by omega)
    rw [h, List.length_append, List.length_append] at hslice
    exact hslice.symm
  have hblock : block = x ++ (y ++ (z ++ block.drop n)) := by
    have hsplit := List.take_append_drop n block
    rw [slice, List.drop_zero] at h
    rw [h, List.append_assoc, List.append_assoc] at hsplit
    exact hsplit.symm
  have hpatched : overwrite block x.length data = x ++ (data ++ z) ++ block.drop n := by
    conv_lhs => rw [hblock]
    rw [overwrite, List.take_left, hdata, ← List.drop_drop, List.drop_left, List.drop_left]
    simp only [List.append_assoc]
  rw [slice, List.drop_zero, hpatched, List.take_left' (by simp [hlen, hdata])]

theorem slice_enlarge (junk : ℕ → β) {block : List β} {i n : ℕ} (m : ℕ)
    (h : i + n ≤ block.length) : slice (enlarge junk block m) i n = slice block i n := by
  rw [slice, enlarge, List.drop_append_of_le_length (by omega),
    List.take_append_of_le_length (by rw [List.length_drop]; omega), slice]

theorem slice_add (block : List β) (i m n : ℕ) :
    slice block i (m + n) = slice block i m ++ slice block (i + m) n := by
  rw [slice, slice, slice, List.take_add, List.drop_drop]

theorem drop_slice (block : List β) (i m n : ℕ) :
    (slice block i (m + n)).drop m = slice block (i + m) n := by
  rw [slice, slice, List.drop_take, List.drop_drop, Nat.add_sub_cancel_left]

end Icecream.Block
