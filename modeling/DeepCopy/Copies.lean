-- The map of copies: for source objects, the values that stand for them. It is
-- dense, since an object's identity is its place in the heap. A read sees the
-- last write to its object, and a write changes no other object's reading.
import DeepCopy.Value

namespace DeepCopy

/-- For each source object the value that stands for it, if one does. -/
structure Copies where
  /-- What stands for each object, at the object's place. Past the end nothing does. -/
  places : Array (Option Value) := #[]
deriving DecidableEq, Repr

namespace Copies

/-- The value that stands for an object. -/
def find? (m : Copies) (o : ObjectId) : Option Value := m.places[o]?.join

/-- Whether a value stands for an object. -/
def has (m : Copies) (o : ObjectId) : Bool := (m.find? o).isSome

/-- The places, enough of them that an object has one. -/
def reach (m : Copies) (o : ObjectId) : Array (Option Value) :=
  m.places ++ Array.replicate (o + 1 - m.places.size) none

/-- The map in which a value stands for an object. -/
def put (m : Copies) (o : ObjectId) (v : Value) : Copies :=
  ⟨(m.reach o).setIfInBounds o (some v)⟩

/-- How many objects a value stands for. -/
def size (m : Copies) : Nat := m.places.countP Option.isSome

/-! ## Laws -/

theorem lt_size_reach (m : Copies) (o : Nat) : o < (m.reach o).size := by
  simp only [reach, Array.size_append, Array.size_replicate]
  omega

theorem reach_getElem? (m : Copies) (o o' : ObjectId) : (m.reach o)[o']?.join = m.find? o' := by
  rcases Nat.lt_or_ge o' m.places.size with h | h
  · simp [reach, find?, Array.getElem?_append, h]
  · simp only [reach, find?, Array.getElem?_append, Nat.not_lt.mpr h, if_false,
      Array.getElem?_replicate, Array.getElem?_eq_none h]
    split <;> rfl

@[simp] theorem find?_empty (o : ObjectId) : ({} : Copies).find? o = none := by simp [find?]

@[simp] theorem find?_put (m : Copies) (o : ObjectId) (v : Value) :
    (m.put o v).find? o = some v := by
  show ((m.reach o).setIfInBounds o (some v))[o]?.join = some v
  rw [Array.getElem?_setIfInBounds_self, if_pos (lt_size_reach m o)]
  rfl

theorem find?_put_ne (m : Copies) {o o' : ObjectId} (v : Value) (h : o' ≠ o) :
    (m.put o v).find? o' = m.find? o' := by
  show ((m.reach o).setIfInBounds o (some v))[o']?.join = m.find? o'
  rw [Array.getElem?_setIfInBounds_ne h.symm]
  exact reach_getElem? m o o'

end Copies

end DeepCopy
