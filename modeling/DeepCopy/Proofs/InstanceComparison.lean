-- Two instances compared byte by byte and slot by slot. A write of the same to
-- both makes them alike where it is made and changes nothing elsewhere, so what
-- is still unlike grows less with every field that is written.
import DeepCopy.Proofs.Renaming

namespace DeepCopy

/-- A byte or a slot of an instance. -/
inductive Spot where
  | byte (i : Nat)
  | slot (i : Nat)

/-- A spot belongs to a place. -/
def Place.Holds (p : Place) : Spot → Prop
  | .byte i => p.Covers i
  | .slot i => p = .slot i

theorem Place.Apart.not_holds {p q : Place} (h : p.Apart q) {x : Spot} (hp : p.Holds x) :
    ¬ q.Holds x := by
  intro hq
  cases x with
  | byte i =>
    cases p with
    | slot index => exact hp
    | bytes offset kind =>
      cases q with
      | slot index => exact hq
      | bytes offset' kind' =>
        simp only [Holds, Covers] at hp hq
        simp only [Apart] at h
        omega
  | slot i =>
    simp only [Holds] at hp hq
    subst hp hq
    exact h rfl

namespace Body

/-- The bytes of an instance. -/
def block : Body → List UInt8
  | record block _ => block
  | _ => []

/-- The slots of an instance. -/
def refs : Body → List Value
  | record _ refs => refs
  | _ => []

end Body

/-- Two instances are alike at a spot, but for the names of objects. -/
def Spot.Alike (ρ : ObjectId → ObjectId) (b b' : Body) : Spot → Prop
  | .byte i => b'.block[i]? = b.block[i]?
  | .slot i => b'.refs[i]? = b.refs[i]?.map (Value.rename ρ)

theorem Bytes.getElem?_overwrite_inside {offset i : Nat} {bytes block : List UInt8}
    (h : offset + bytes.length ≤ block.length) (hl : offset ≤ i) (hi : i < offset + bytes.length) :
    (overwrite offset bytes block)[i]? = bytes[i - offset]? := by
  have ht : (block.take offset).length = offset := by simp; omega
  rw [overwrite, List.append_assoc, List.getElem?_append_right (by omega), ht,
    List.getElem?_append_left (by omega)]

section Alike

variable {ρ : ObjectId → ObjectId} {b b' : Body} {n m offset index : Nat} {kind : Primitive.Kind}
  {bytes : List UInt8} {v w : Value} {p : Place} {x : Spot}

namespace Spot.Alike

theorem refl (b : Body) (x : Spot) : x.Alike (fun o => o) b b := by
  cases x with
  | byte i => rfl
  | slot i =>
    show b.refs[i]? = b.refs[i]?.map (Value.rename fun o => o)
    cases b.refs[i]? with
    | none => rfl
    | some v => exact congrArg some (Value.rename_id v).symm

theorem of_rename (ρ : ObjectId → ObjectId) (b : Body) (x : Spot) : x.Alike ρ b (b.rename ρ) := by
  cases x with
  | byte i => cases b <;> rfl
  | slot i =>
    show (b.rename ρ).refs[i]? = b.refs[i]?.map (Value.rename ρ)
    cases b with
    | record block refs => exact List.getElem?_map
    | _ => rfl

/-- The same bytes are put into two instances. -/
theorem withBytes (hs : b.Sized n m) (hs' : b'.Sized n m) (hlen : bytes.length = kind.width)
    (hw : offset + kind.width ≤ n) (h : ¬ (Place.bytes offset kind).Holds x → x.Alike ρ b b') :
    x.Alike ρ (b.withBytes offset bytes) (b'.withBytes offset bytes) := by
  obtain ⟨block, refs, rfl, rfl, rfl⟩ := hs.exists_record
  obtain ⟨block', refs', rfl, hb, -⟩ := hs'.exists_record
  cases x with
  | slot i => exact h fun hp => by cases hp
  | byte i =>
    show (Bytes.overwrite offset bytes block')[i]? = (Bytes.overwrite offset bytes block)[i]?
    by_cases hi : offset ≤ i ∧ i < offset + kind.width
    · rw [Bytes.getElem?_overwrite_inside (by omega) hi.1 (by omega),
        Bytes.getElem?_overwrite_inside (by omega) hi.1 (by omega)]
    · rw [Bytes.getElem?_overwrite_outside (by omega) (by omega),
        Bytes.getElem?_overwrite_outside (by omega) (by omega)]
      exact h hi

/-- A value is put into a slot of two instances, in one of them renamed. -/
theorem withSlot (hs : b.Sized n m) (hs' : b'.Sized n m) (hw : index < m)
    (h : ¬ (Place.slot index).Holds x → x.Alike ρ b b') :
    x.Alike ρ (b.withSlot index v) (b'.withSlot index (v.rename ρ)) := by
  obtain ⟨block, refs, rfl, rfl, rfl⟩ := hs.exists_record
  obtain ⟨block', refs', rfl, -, hr⟩ := hs'.exists_record
  cases x with
  | byte i => exact h fun hp => hp
  | slot i =>
    show (refs'.set index (v.rename ρ))[i]? = (refs.set index v)[i]?.map (Value.rename ρ)
    by_cases hi : index = i
    · subst hi
      rw [List.getElem?_set_self (by omega), List.getElem?_set_self hw]
      rfl
    · rw [List.getElem?_set_ne hi, List.getElem?_set_ne hi]
      exact h fun hp => hi (Place.slot.inj hp)

theorem cleared (hs : b.Sized n m) (hs' : b'.Sized n m) (hw : p.Within n m)
    (h : ¬ p.Holds x → x.Alike ρ b b') : x.Alike ρ (p.cleared b) (p.cleared b') := by
  cases p with
  | bytes offset kind => exact withBytes hs hs' (by simp [Bytes.zeros]) hw h
  | slot index => exact withSlot hs hs' hw h

/-- Other blocks are put into two instances. -/
theorem withBlock {block block' : List UInt8} (hs : b.Sized n m) (hs' : b'.Sized n m)
    (h : match x with
      | .byte i => block'[i]? = block[i]?
      | .slot _ => x.Alike ρ b b') :
    x.Alike ρ (b.withBlock block) (b'.withBlock block') := by
  obtain ⟨old, refs, rfl, -, -⟩ := hs.exists_record
  obtain ⟨old', refs', rfl, -, -⟩ := hs'.exists_record
  cases x with
  | byte i => exact h
  | slot i => exact h

end Spot.Alike

/-- Instances that are alike everywhere are the same, but for the names of objects. -/
theorem Body.eq_rename_of_alike (hs : b.Sized n m) (hs' : b'.Sized n m)
    (h : ∀ x : Spot, x.Alike ρ b b') : b' = b.rename ρ := by
  obtain ⟨block, refs, rfl, rfl, rfl⟩ := hs.exists_record
  obtain ⟨block', refs', rfl, hb, hr⟩ := hs'.exists_record
  have hblock : block' = block := List.ext_getElem? fun i => h (.byte i)
  have hrefs : refs' = refs.map (Value.rename ρ) := by
    refine List.ext_getElem? fun i => ?_
    rw [List.getElem?_map]
    exact h (.slot i)
  rw [hblock, hrefs]
  rfl

/-- Instances that are alike at a place hold the same there. -/
theorem Place.same_of_alike (hs : b.Sized n m) (hs' : b'.Sized n m) (hw : p.Within n m)
    (h : ∀ x, p.Holds x → x.Alike ρ b b') : p.Same (b.rename ρ) b' := by
  obtain ⟨block, refs, rfl, rfl, rfl⟩ := hs.exists_record
  obtain ⟨block', refs', rfl, hb, hr⟩ := hs'.exists_record
  cases p with
  | bytes offset kind =>
    have hw : offset + kind.width ≤ block.length := hw
    have hwindow : Bytes.window? offset kind.width block' =
        Bytes.window? offset kind.width block := by
      unfold Bytes.window?
      rw [hb, if_pos hw, if_pos hw]
      refine congrArg some (List.ext_getElem? fun i => ?_)
      rw [List.getElem?_take, List.getElem?_take]
      split
      · rw [List.getElem?_drop, List.getElem?_drop]
        exact h (.byte (offset + i)) ⟨by omega, by omega⟩
      · rfl
    simp only [Same, Body.rename, Body.readBytes, hwindow, hb]
  | slot index =>
    have hslot : refs'[index]? = refs[index]?.map (Value.rename ρ) := h (.slot index) rfl
    simp only [Same, Body.rename, Body.readSlot, List.getElem?_map, hslot, hr, List.length_map]

/-! ## What is changed by a write -/

namespace Body

theorem Sized.alters_withBytes (hs : b.Sized n m) (hlen : bytes.length = kind.width)
    (hw : offset + kind.width ≤ n) : Alters (.bytes offset kind) b (b.withBytes offset bytes) :=
  alters_writeBytes hlen (hs.writeBytes_eq (by omega))

theorem Sized.alters_withSlot (hs : b.Sized n m) (hw : index < m) :
    Alters (.slot index) b (b.withSlot index v) := alters_writeSlot (hs.writeSlot_eq hw v)

theorem Sized.alters_cleared (hs : b.Sized n m) (hw : p.Within n m) :
    Alters p b (p.cleared b) := by
  cases p with
  | bytes offset kind => exact hs.alters_withBytes (by simp [Bytes.zeros]) hw
  | slot index => exact hs.alters_withSlot hw

/-- A field at a place that was cleared is at its default. -/
theorem Sized.readFrom_cleared (hs : b.Sized n m) {f : Field} (hw : f.place.Within n m) :
    f.readFrom (f.place.cleared b) = .ok f.default := by
  cases hp : f.place with
  | bytes offset kind =>
    rw [hp] at hw
    have hfits : offset + (Primitive.zero kind).encode.length ≤ n := by
      rw [Primitive.length_encode, Primitive.kind_zero]
      exact hw
    have hread := Field.readFrom_writeBytes hp (Primitive.kind_zero kind) (hs.writeBytes_eq hfits)
    rw [Primitive.encode_zero] at hread
    rw [Place.cleared, hread, Field.default, hp]
  | slot index =>
    rw [hp] at hw
    rw [Field.readFrom_of_slot hp, Place.cleared, readSlot_writeSlot (hs.writeSlot_eq hw .null),
      Field.default, hp]

/-- What an instance refers to after a write is what it referred to and what was written. -/
theorem mem_values_withSlot (h : v ∈ (b.withSlot index w).values) : v ∈ b.values ∨ v = w := by
  cases b with
  | record block refs => exact List.mem_or_eq_of_mem_set h
  | _ => exact Or.inl h

theorem values_withBytes : (b.withBytes offset bytes).values = b.values := by
  cases b <;> rfl

theorem values_withBlock {block : List UInt8} : (b.withBlock block).values = b.values := by
  cases b <;> rfl

theorem mem_values_cleared (h : v ∈ (p.cleared b).values) : v ∈ b.values ∨ v = .null := by
  cases p with
  | bytes offset kind => exact Or.inl (values_withBytes ▸ h)
  | slot index => exact mem_values_withSlot h

end Body

end Alike

end DeepCopy
