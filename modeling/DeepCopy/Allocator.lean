-- Making objects: bare instances with every field at its default, arrays, and
-- containers. No class code runs. A tally counts what was made.
import DeepCopy.Access

namespace DeepCopy

/-- What an allocator has made so far. -/
structure Tally where
  /-- Instances and containers. -/
  instances : Nat := 0
  arrays : Nat := 0
  /-- Bytes of fields and elements. -/
  bytes : Nat := 0
deriving DecidableEq, Repr

/-- What a slot or an element of a reference array counts in bytes. -/
def slotBytes : Nat := 32

/-- The heap together with the tally of the allocator at work. -/
structure Memory where
  heap : Heap := {}
  tally : Tally := {}
deriving DecidableEq, Repr

/-- Work on the heap that may fail. What was done before a failure stays done. -/
abbrev MemoryM (ε α : Type) := EStateM ε Memory α

namespace Memory

/-- Adds an object to the heap. -/
def create {ε : Type} (cls : ClassId) (body : Body) : MemoryM ε ObjectId :=
  modifyGet fun m => (m.heap.size, { m with heap := m.heap.add (Object.new cls body) })

/-- Counts an instance or a container, and the bytes of its fields. -/
def countInstance {ε : Type} (bytes : Nat) : MemoryM ε Unit :=
  modify fun m => { m with
    tally := { m.tally with instances := m.tally.instances + 1, bytes := m.tally.bytes + bytes } }

/-- Counts an array and the bytes of its elements. -/
def countArray {ε : Type} (bytes : Nat) : MemoryM ε Unit :=
  modify fun m => { m with
    tally := { m.tally with arrays := m.tally.arrays + 1, bytes := m.tally.bytes + bytes } }

/-- Reads from the heap, or fails. -/
def read {ε α : Type} (look : Heap → Except ε α) : MemoryM ε α := do
  match look (← get).heap with
  | .ok a => pure a
  | .error e => throw e

/-- Writes to the heap, or fails and leaves it. -/
def update {ε : Type} (change : Heap → Except ε Write) : MemoryM ε Unit := do
  let w ← read change
  modify fun m => { m with heap := m.heap.write w }

end Memory

namespace Allocator

open Memory

/-- A new array of a class, every element zero or null. -/
def allocateArray (r : Registry) (cls : ClassId) (length : Nat) : MemoryM HeapError ObjectId := do
  let d ← read fun _ => r.decl cls
  match d.kind with
  | .array (.primitive kind) =>
    countArray (length * kind.width)
    create cls (.packed kind (Bytes.zeros (length * kind.width)))
  | .array (.reference _) =>
    countArray (length * slotBytes)
    create cls (.slots (List.replicate length .null))
  | _ => throw (.notInstantiable d.name .notArrayClass)

/-- A new bare object of a class. An array has no elements, and a container is empty. -/
def allocate (r : Registry) (cls : ClassId) : MemoryM HeapError ObjectId := do
  let d ← read fun _ => r.decl cls
  match d.kind with
  | .concrete =>
    let l ← read fun _ => r.layout cls
    countInstance (l.blockSize + l.slotCount * slotBytes)
    create cls (Body.bareRecord l.blockSize l.slotCount)
  | .container kind =>
    countInstance 0
    create cls (.container (Container.empty kind))
  | .array _ => allocateArray r cls 0
  | .abstract => throw (.notInstantiable d.name .abstractClass)
  | .interface => throw (.notInstantiable d.name .interface)
  | .enum => throw (.notInstantiable d.name .enum)

/-- Writes fields by name, one after the other. -/
def setFields (r : Registry) (o : ObjectId) : List (String × Value) → MemoryM HeapError Unit
  | [] => pure ()
  | (name, v) :: rest => do
    update fun h => r.setField h o name v
    setFields r o rest

/-- A new object with some fields written. -/
def instantiate (r : Registry) (cls : ClassId) (fields : List (String × Value)) :
    MemoryM HeapError ObjectId := do
  let o ← allocate r cls
  setFields r o fields
  pure o

/-- Writes elements of an array, from an index on. -/
def setElements (o : ObjectId) : (index : Nat) → List Value → MemoryM HeapError Unit
  | _, [] => pure ()
  | index, v :: rest => do
    update fun h => h.setElement o index v
    setElements o (index + 1) rest

/-- A new array of an array class with given elements. -/
def fillArray (r : Registry) (cls : ClassId) (items : List Value) : MemoryM HeapError ObjectId := do
  let o ← allocateArray r cls items.length
  setElements o 0 items
  pure o

/-- A new container with given contents. -/
def newContainer {ε : Type} (contents : Container) : MemoryM ε ObjectId := do
  countInstance 0
  create (Registry.containerClass contents.kind) (.container contents)

end Allocator

end DeepCopy
