-- Bytes in storage order, lowest first: numbers as bytes and back, and reading
-- or replacing a window of a block. A window read back after it was replaced
-- holds what was put there, and nothing outside it moves.

namespace DeepCopy.Bytes

-- Powers are those of the core library here and in all that builds on this.
attribute [instance (high), default_instance (high + 1)] instPowNat

/-- The `width` low bytes of a number, lowest first. -/
def ofNat : Nat → Nat → List UInt8
  | 0, _ => []
  | width + 1, n => UInt8.ofNat n :: ofNat width (n / 256)

/-- The number that bytes in storage order stand for. -/
def toNat : List UInt8 → Nat
  | [] => 0
  | b :: bs => b.toNat + 256 * toNat bs

/-- A block of zeros. -/
def zeros (size : Nat) : List UInt8 := List.replicate size 0

/-- The bytes at `offset` up to `offset + width`, if the block is long enough. -/
def window? (offset width : Nat) (block : List UInt8) : Option (List UInt8) :=
  if offset + width ≤ block.length then some ((block.drop offset).take width) else none

/-- The block with `bytes` in the place of what stood at `offset`. -/
def overwrite (offset : Nat) (bytes block : List UInt8) : List UInt8 :=
  block.take offset ++ bytes ++ block.drop (offset + bytes.length)

/-! ## Laws -/

@[simp] theorem length_ofNat (width n : Nat) : (ofNat width n).length = width := by
  induction width generalizing n with
  | zero => rfl
  | succ width ih => simp [ofNat, ih]

theorem toNat_ofNat (width n : Nat) : toNat (ofNat width n) = n % 256 ^ width := by
  induction width generalizing n with
  | zero => simp [ofNat, toNat, Nat.mod_one]
  | succ width ih =>
    simp only [ofNat, toNat, ih, Nat.pow_succ, Nat.mul_comm (256 ^ width) 256]
    rw [Nat.mod_mul]
    simp

theorem ofNat_toNat (bytes : List UInt8) : ofNat bytes.length (toNat bytes) = bytes := by
  induction bytes with
  | nil => rfl
  | cons b bs ih =>
    have hb : b.toNat < 256 := b.toNat_lt
    have hdiv : (b.toNat + 256 * toNat bs) / 256 = toNat bs := by omega
    simp only [List.length_cons, ofNat, toNat, hdiv, ih, List.cons.injEq, and_true]
    apply UInt8.toNat_inj.mp
    simp

theorem toNat_lt (bytes : List UInt8) : toNat bytes < 256 ^ bytes.length := by
  induction bytes with
  | nil => simp [toNat]
  | cons b bs ih =>
    have hb : b.toNat < 256 := b.toNat_lt
    simp only [toNat, List.length_cons, Nat.pow_succ]
    omega

theorem length_overwrite {offset : Nat} {bytes block : List UInt8}
    (h : offset + bytes.length ≤ block.length) :
    (overwrite offset bytes block).length = block.length := by
  simp only [overwrite, List.length_append, List.length_take, List.length_drop]
  omega

theorem window?_overwrite_same {offset : Nat} {bytes block : List UInt8}
    (h : offset + bytes.length ≤ block.length) :
    window? offset bytes.length (overwrite offset bytes block) = some bytes := by
  have ht : (block.take offset).length = offset := by simp; omega
  unfold window?
  rw [length_overwrite h, if_pos h, overwrite, List.append_assoc,
    List.drop_append_of_le_length (by omega), List.drop_of_length_le (by omega),
    List.nil_append, List.take_left]

theorem getElem?_overwrite_outside {offset i : Nat} {bytes block : List UInt8}
    (h : offset + bytes.length ≤ block.length) (hi : i < offset ∨ offset + bytes.length ≤ i) :
    (overwrite offset bytes block)[i]? = block[i]? := by
  have ht : (block.take offset).length = offset := by simp; omega
  rcases hi with hi | hi
  · rw [overwrite, List.append_assoc, List.getElem?_append_left (by omega), List.getElem?_take,
      if_pos hi]
  · rw [overwrite, List.getElem?_append_right (by simp; omega), List.getElem?_drop]
    congr 1
    simp only [List.length_append, ht]
    omega

theorem window?_overwrite_outside {offset place width : Nat} {bytes block : List UInt8}
    (h : offset + bytes.length ≤ block.length)
    (apart : place + width ≤ offset ∨ offset + bytes.length ≤ place) :
    window? place width (overwrite offset bytes block) = window? place width block := by
  unfold window?
  rw [length_overwrite h]
  split
  · refine congrArg some (List.ext_getElem? fun i => ?_)
    rw [List.getElem?_take, List.getElem?_take]
    split
    · rw [List.getElem?_drop, List.getElem?_drop]
      exact getElem?_overwrite_outside h (by omega)
    · rfl
  · rfl

end DeepCopy.Bytes
