-- The heap: objects in the order in which they came to be. An object's place is
-- its identity. Its class and the shape it was made with never change; its body
-- can be replaced.
import DeepCopy.Bytes
import DeepCopy.Container
import DeepCopy.HeapError

namespace DeepCopy

/-- The shapes of bodies. -/
inductive Shape where
  | record
  | packed
  | slots
  | container
deriving DecidableEq, Repr

/-- What an object holds. -/
inductive Body where
  /-- The fields of an instance: a block of bytes for the primitives, and slots for all else. -/
  | record (block : List UInt8) (refs : List Value)
  /-- The elements of a primitive array, one after the other. -/
  | packed (kind : Primitive.Kind) (bytes : List UInt8)
  /-- The elements of a reference array. -/
  | slots (items : List Value)
  | container (contents : Container)
deriving DecidableEq, Repr

/-- An object: its class, the shape of the body it was made with, and its body. -/
structure Object where
  cls : ClassId
  shape : Shape
  body : Body
deriving DecidableEq, Repr

/-- All objects, the oldest first. -/
structure Heap where
  objects : Array Object := #[]
deriving DecidableEq, Repr

/-- A change of the heap: another body for one object. -/
structure Write where
  object : ObjectId
  body : Body
deriving DecidableEq, Repr

namespace Shape

/-- The number by which headers tell shapes apart. -/
def number : Shape → Nat
  | record => 1
  | packed => 2
  | slots => 3
  | container => 4

/-- Whether objects of this shape count as arrays. -/
def isArray : Shape → Bool
  | packed | slots => true
  | record | container => false

end Shape

namespace Body

/-- The shape of a body. -/
def shape : Body → Shape
  | record _ _ => .record
  | packed _ _ => .packed
  | slots _ => .slots
  | container _ => .container

theorem exists_record {b : Body} (h : b.shape = .record) :
    ∃ block refs, b = .record block refs := by
  cases b with
  | record block refs => exact ⟨block, refs, rfl⟩
  | _ => cases h

theorem exists_packed {b : Body} (h : b.shape = .packed) :
    ∃ kind bytes, b = .packed kind bytes := by
  cases b with
  | packed kind bytes => exact ⟨kind, bytes, rfl⟩
  | _ => cases h

theorem exists_slots {b : Body} (h : b.shape = .slots) : ∃ items, b = .slots items := by
  cases b with
  | slots items => exact ⟨items, rfl⟩
  | _ => cases h

theorem exists_container {b : Body} (h : b.shape = .container) : ∃ c, b = .container c := by
  cases b with
  | container c => exact ⟨c, rfl⟩
  | _ => cases h

/-- The values a body holds, in order, each key before its value. -/
def values : Body → List Value
  | record _ refs => refs
  | packed _ _ => []
  | slots items => items
  | container contents => contents.values

/-- The body of an instance before any field is written. -/
def bareRecord (blockSize slotCount : Nat) : Body :=
  record (Bytes.zeros blockSize) (List.replicate slotCount .null)

end Body

namespace Object

/-- A new object: its shape is that of its body. -/
def new (cls : ClassId) (body : Body) : Object := ⟨cls, body.shape, body⟩

/-- What is found where no object is: an instance of the root class with no fields. -/
def nothing : Object := new 0 (.record [] [])

end Object

namespace Heap

/-- How many objects there are. The next object gets this identity. -/
def size (h : Heap) : Nat := h.objects.size

/-- An object. -/
def get (h : Heap) (o : ObjectId) : Object := (h.objects[o]?).getD Object.nothing

/-- The class of an object. -/
def cls (h : Heap) (o : ObjectId) : ClassId := (h.get o).cls

/-- The shape an object was made with. -/
def shape (h : Heap) (o : ObjectId) : Shape := (h.get o).shape

/-- The body of an object. -/
def body (h : Heap) (o : ObjectId) : Body := (h.get o).body

/-- The heap with one more object. Its identity is the old size. -/
def add (h : Heap) (x : Object) : Heap := ⟨h.objects.push x⟩

/-- The heap with another body for an object. -/
def setBody (h : Heap) (o : ObjectId) (body : Body) : Heap :=
  ⟨h.objects.modify o fun x => { x with body }⟩

/-- The heap after a write. -/
def write (h : Heap) (w : Write) : Heap := h.setBody w.object w.body

/-- Whether a value refers to an array. -/
def isArrayRef (h : Heap) : Value → Bool
  | .ref o => (h.shape o).isArray
  | _ => false

/-! ## Laws -/

@[simp] theorem size_add (h : Heap) (x : Object) : (h.add x).size = h.size + 1 := by
  simp [add, size]

@[simp] theorem size_setBody (h : Heap) (o : ObjectId) (b : Body) :
    (h.setBody o b).size = h.size := by
  simp [setBody, size]

@[simp] theorem get_add_new (h : Heap) (x : Object) : (h.add x).get h.size = x := by
  simp [add, get, size]

theorem get_add_of_lt {h : Heap} {o : ObjectId} (x : Object) (ho : o < h.size) :
    (h.add x).get o = h.get o := by
  have : o < h.objects.size := ho
  simp [add, get, Array.getElem?_push, Nat.ne_of_lt this]

theorem get_setBody_of_ne {h : Heap} {o o' : ObjectId} (b : Body) (ho : o' ≠ o) :
    (h.setBody o b).get o' = h.get o' := by
  simp [setBody, get, Array.getElem?_modify, ho.symm]

theorem get_setBody_self {h : Heap} {o : ObjectId} (b : Body) (ho : o < h.size) :
    (h.setBody o b).get o = { h.get o with body := b } := by
  have ho' : o < h.objects.size := ho
  simp [setBody, get, Array.getElem?_modify, Array.getElem?_eq_getElem ho']

@[simp] theorem cls_setBody (h : Heap) (o o' : ObjectId) (b : Body) :
    (h.setBody o b).cls o' = h.cls o' := by
  by_cases ho : o' = o
  · subst ho
    by_cases hs : o' < h.size
    · simp [cls, get_setBody_self b hs]
    · have : h.objects.size ≤ o' := by simpa [size] using hs
      simp [cls, get, setBody, Array.getElem?_modify, Array.getElem?_eq_none this]
  · simp [cls, get_setBody_of_ne b ho]

@[simp] theorem shape_setBody (h : Heap) (o o' : ObjectId) (b : Body) :
    (h.setBody o b).shape o' = h.shape o' := by
  by_cases ho : o' = o
  · subst ho
    by_cases hs : o' < h.size
    · simp [shape, get_setBody_self b hs]
    · have : h.objects.size ≤ o' := by simpa [size] using hs
      simp [shape, get, setBody, Array.getElem?_modify, Array.getElem?_eq_none this]
  · simp [shape, get_setBody_of_ne b ho]

@[simp] theorem size_write (h : Heap) (w : Write) : (h.write w).size = h.size :=
  h.size_setBody w.object w.body

/-- A write leaves all other objects as they are. -/
theorem get_write_of_ne {h : Heap} {w : Write} {o : ObjectId} (ho : o ≠ w.object) :
    (h.write w).get o = h.get o := get_setBody_of_ne w.body ho

end Heap

end DeepCopy
