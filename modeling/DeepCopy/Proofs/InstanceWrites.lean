-- Single writes to an instance that is as large as they need: each goes well, and
-- what the instance holds afterwards is said in full. A backend carries a
-- primitive as it stands or as it would write it, and always at full width.
import DeepCopy.Proofs.Filling

namespace DeepCopy

namespace Body

/-- The instance with other bytes at an offset of its block. -/
def withBytes (offset : Nat) (bytes : List UInt8) : Body → Body
  | record block refs => record (Bytes.overwrite offset bytes block) refs
  | b => b

/-- The instance with another value in a slot. -/
def withSlot (index : Nat) (v : Value) : Body → Body
  | record block refs => record block (refs.set index v)
  | b => b

/-- The instance with another block. -/
def withBlock (block : List UInt8) : Body → Body
  | record _ refs => record block refs
  | b => b

variable {blockSize slotCount offset index : Nat} {bytes : List UInt8} {b : Body}

theorem Sized.writeBytes_eq (h : b.Sized blockSize slotCount)
    (hw : offset + bytes.length ≤ blockSize) :
    b.writeBytes offset bytes = .ok (b.withBytes offset bytes) := by
  obtain ⟨block, refs, rfl, rfl, rfl⟩ := h.exists_record
  simp only [writeBytes, withBytes, if_pos hw]

theorem Sized.writeSlot_eq (h : b.Sized blockSize slotCount) (hw : index < slotCount) (v : Value) :
    b.writeSlot index v = .ok (b.withSlot index v) := by
  obtain ⟨block, refs, rfl, rfl, rfl⟩ := h.exists_record
  simp only [writeSlot, withSlot, if_pos hw]

theorem Sized.withBytes (h : b.Sized blockSize slotCount)
    (hw : offset + bytes.length ≤ blockSize) :
    (b.withBytes offset bytes).Sized blockSize slotCount := by
  obtain ⟨block, refs, rfl, rfl, rfl⟩ := h.exists_record
  exact ⟨Bytes.length_overwrite hw, rfl⟩

theorem Sized.withSlot (h : b.Sized blockSize slotCount) (index : Nat) (v : Value) :
    (b.withSlot index v).Sized blockSize slotCount := by
  obtain ⟨block, refs, rfl, rfl, rfl⟩ := h.exists_record
  exact ⟨rfl, List.length_set⟩

theorem Sized.withBlock (h : b.Sized blockSize slotCount) {block : List UInt8}
    (hb : block.length = blockSize) : (b.withBlock block).Sized blockSize slotCount := by
  obtain ⟨old, refs, rfl, -, hr⟩ := h.exists_record
  exact ⟨hb, hr⟩

end Body

namespace Place

/-- The instance with nothing at a place: zeros, or null. -/
def cleared (b : Body) : Place → Body
  | .bytes offset kind => b.withBytes offset (Bytes.zeros kind.width)
  | .slot index => b.withSlot index .null

theorem sized_cleared {p : Place} {b : Body} {blockSize slotCount : Nat}
    (h : b.Sized blockSize slotCount) (hw : p.Within blockSize slotCount) :
    (p.cleared b).Sized blockSize slotCount := by
  cases p with
  | bytes offset kind =>
    have hlen : (Bytes.zeros kind.width).length = kind.width := by simp [Bytes.zeros]
    exact h.withBytes (Nat.le_trans (Nat.le_of_eq (by rw [hlen])) hw)
  | slot index => exact h.withSlot index .null

end Place

namespace Primitive

/-- A primitive that was boxed can be unboxed. A 32-bit pattern that is no number may come out as
another such pattern. -/
theorem exists_unbox?_box (p : Primitive) : ∃ q, unbox? p.kind p.box = some q := by
  cases p with
  | f32 bits => exact ⟨_, rfl⟩
  | bool b => exact ⟨_, unbox?_box trivial⟩
  | i8 v => exact ⟨_, unbox?_box trivial⟩
  | i16 v => exact ⟨_, unbox?_box trivial⟩
  | i32 v => exact ⟨_, unbox?_box trivial⟩
  | i64 v => exact ⟨_, unbox?_box trivial⟩
  | f64 bits => exact ⟨_, unbox?_box trivial⟩
  | char c => exact ⟨_, unbox?_box trivial⟩

end Primitive

namespace Backend

/-- The bytes that a backend puts at the target for those of a primitive at the source: the same by
direct access, and by checked access those of what is read. -/
def carried (b : Backend) (kind : Primitive.Kind) (bytes : List UInt8) : List UInt8 :=
  match b with
  | fast => bytes
  | portable _ =>
    match Primitive.unbox? kind (Primitive.decode kind bytes).box with
    | some p => p.encode
    | none => []

theorem length_carried (b : Backend) {kind : Primitive.Kind} {bytes : List UInt8}
    (h : bytes.length = kind.width) : (b.carried kind bytes).length = kind.width := by
  cases b with
  | fast => exact h
  | portable r =>
    obtain ⟨p, hp⟩ := Primitive.exists_unbox?_box (Primitive.decode kind bytes)
    rw [Primitive.kind_decode] at hp
    simp only [carried, hp, Primitive.length_encode, Primitive.kind_of_unbox? hp]

/-- A step goes well, and all it does is to give one object a body. -/
def Draws (x : CopyM Unit) (m : Memory) (target : ObjectId) (body : Body) : Prop :=
  Succeeds x m fun _ m' => m'.heap = m.heap.setBody target body

variable {m : Memory} {f : PlannedField} {source target : ObjectId} {block : List UInt8}
  {blockSize slotCount offset index : Nat} {kind : Primitive.Kind} {bytes : List UInt8}

theorem draws_update {change : Heap → Except CloneError Write} {body : Body}
    (h : change m.heap = .ok ⟨target, body⟩) : Draws (CopyM.update change) m target body := by
  unfold Draws Succeeds
  rw [ends_copy_update, h]
  rfl

theorem draws_resetField (b : Backend) (hs : (m.heap.body target).Sized blockSize slotCount)
    (hw : f.place.Within blockSize slotCount) :
    Draws (b.resetField f target) m target (f.place.cleared (m.heap.body target)) := by
  cases hp : f.place with
  | bytes offset kind =>
    have hlen : (Bytes.zeros kind.width).length = kind.width := by simp [Bytes.zeros]
    have hfits : offset + (Bytes.zeros kind.width).length ≤ blockSize := by
      rw [hp] at hw
      rw [hlen]
      exact hw
    have hb := hs.writeBytes_eq hfits
    cases b with
    | fast => exact draws_update (Direct.resetField_eq hp hb)
    | portable r =>
      refine draws_update ?_
      rw [Field.reset_of_bytes hp hb]
      rfl
  | slot index =>
    have hfits : index < slotCount := by
      rw [hp] at hw
      exact hw
    have hb := hs.writeSlot_eq hfits .null
    cases b with
    | fast =>
      refine draws_update ?_
      simp only [Direct.resetField, hp]
      exact Direct.writeReference_eq hp hb
    | portable r =>
      refine draws_update ?_
      rw [Field.reset_of_slot hp hb]
      rfl

/-- A primitive is carried, whatever bytes it has at the source. -/
theorem draws_copyPrimitive (b : Backend) (hp : f.place = .bytes offset kind)
    (hr : (m.heap.body source).readBytes offset kind.width = .ok bytes)
    (hs : (m.heap.body target).Sized blockSize slotCount) (hw : offset + kind.width ≤ blockSize) :
    Draws (b.copyPrimitive f source target) m target
      ((m.heap.body target).withBytes offset (b.carried kind bytes)) := by
  have hlen := b.length_carried (Body.length_of_readBytes hr)
  have hfits : offset + (b.carried kind bytes).length ≤ blockSize := by
    rw [hlen]
    exact hw
  have hb := hs.writeBytes_eq hfits
  cases b with
  | fast => exact draws_update (Direct.copyPrimitive_eq hp hr hb)
  | portable r =>
    refine draws_update ?_
    obtain ⟨p, hu⟩ := Primitive.exists_unbox?_box (Primitive.decode kind bytes)
    rw [Primitive.kind_decode] at hu
    simp only [carried, hu] at hb
    have hget : f.get m.heap source = .ok (Primitive.decode kind bytes).box := by
      rw [Field.get, Field.readFrom_of_bytes hp hr]
      rfl
    have hset : f.set m.heap target (Primitive.decode kind bytes).box =
        .ok ⟨target, (m.heap.body target).withBytes offset p.encode⟩ := by
      simp only [Field.set, Field.writeTo, hp, hu, hb]
      rfl
    rw [hget]
    show (f.set m.heap target (Primitive.decode kind bytes).box).mapError (f.fault target) = _
    rw [hset]
    simp only [carried, hu]
    rfl

/-- A value is put into a slot, if it is an array or nothing where the class declares arrays. -/
theorem draws_writeReference (b : Backend) (hp : f.place = .slot index)
    (hs : (m.heap.body target).Sized blockSize slotCount) (hw : index < slotCount) {v : Value}
    (ha : f.type.category = .array → Field.takesArray m.heap v = true) :
    Draws (b.writeReference f target v) m target ((m.heap.body target).withSlot index v) := by
  have hb := hs.writeSlot_eq hw v
  cases b with
  | fast => exact draws_update (Direct.writeReference_eq hp hb)
  | portable r =>
    refine draws_update ?_
    rw [Field.set_of_slot hp ha hb]
    rfl

/-- The value of a slot is read. -/
theorem succeeds_readField (b : Backend) (hp : f.place = .slot index)
    (hs : (m.heap.body source).Sized blockSize slotCount) (hw : index < slotCount) :
    Succeeds (b.readField f source) m fun v m' =>
      (m.heap.body source).readSlot index = .ok v ∧ m' = m := by
  obtain ⟨v, hv⟩ := hs.exists_readSlot hw
  cases b with
  | fast =>
    simp only [Succeeds, readField, ends_copy_read, Direct.readField, hp, hv]
    exact ⟨rfl, trivial⟩
  | portable r =>
    simp only [Succeeds, readField, ends_copy_read, Field.get, Field.readFrom, hp, hv]
    exact ⟨rfl, trivial⟩

/-- Whether a backend carries whole blocks. -/
def carriesBlocks : Backend → Bool
  | fast => true
  | portable _ => false

/-- The whole block is carried over, or nothing is. -/
theorem succeeds_copyBlock (b : Backend) {refs : List Value} (hne : source ≠ target)
    (hb : m.heap.body source = .record block refs)
    (hs : (m.heap.body target).Sized block.length slotCount) :
    Succeeds (b.copyBlock source target) m fun bulk m' => bulk = b.carriesBlocks ∧
      m'.heap = if bulk then m.heap.setBody target ((m.heap.body target).withBlock block)
        else m.heap := by
  cases b with
  | portable r => exact ⟨rfl, rfl⟩
  | fast =>
    obtain ⟨old, slots, ht, hlen, -⟩ := hs.exists_record
    simp only [Succeeds, copyBlock, if_neg hne, ends_bind, ends_get, Direct.copyBlock?, hb, ht,
      if_pos hlen]
    exact ⟨rfl, rfl⟩

theorem draws_writeElement (b : Backend) {items : List Value}
    (hb : m.heap.body target = .slots items) (hi : index < items.length) (v : Value) :
    Draws (b.writeElement target index v) m target (.slots (items.set index v)) := by
  cases b with
  | fast =>
    refine draws_update ?_
    simp only [Direct.writeElement, hb, if_pos hi]
  | portable r =>
    refine draws_update ?_
    simp only [Heap.setElement, hb, Body.setElement, if_pos hi]
    rfl

theorem draws_setContents {old : Container} (hb : m.heap.body target = .container old) (p : Plan)
    (c : Container) :
    Draws (CopyM.update fun h => (h.setContents target c).mapError (Setting.contentsFault p target))
      m target (.container c) := by
  refine draws_update ?_
  simp only [Heap.setContents, Heap.contents, Heap.contents?, hb, Body.contents?]
  rfl

end Backend

end DeepCopy
