-- The two ways in which cloning moves data. The fast one reads and writes the
-- places of fields directly; the portable one goes through checked access and
-- an allocator. Every failure names the field or element and the object.
import DeepCopy.Allocator
import DeepCopy.Plan

namespace DeepCopy

/-- A way to move data. The portable one has the registry it allocates by. -/
inductive Backend where
  | fast
  | portable (r : Registry)

/-- The two kinds of backends. -/
inductive Backend.Kind where
  | fast | portable
deriving DecidableEq, Repr

/-- Work on the heap that may end a clone. -/
abbrev CopyM (α : Type) := MemoryM Stop α

namespace CopyM

/-- Reads from the heap, or ends the clone. -/
def read {α : Type} (look : Heap → Except CloneError α) : CopyM α :=
  Memory.read fun h => (look h).mapError .failed

/-- Writes to the heap, or ends the clone. -/
def update (change : Heap → Except CloneError Write) : CopyM Unit :=
  Memory.update fun h => (change h).mapError .failed

/-- Runs an allocation, naming the class if it fails. -/
def allocating {α : Type} (cls : String) (x : MemoryM HeapError α) : CopyM α := fun m =>
  match x m with
  | .ok a m' => .ok a m'
  | .error e m' => .error (.failed (.allocation cls e)) m'

end CopyM

/-! ## Errors -/

/-- The error that a field of an object could not be reached. -/
def PlannedField.fault (f : PlannedField) (o : ObjectId) (cause : HeapError) : CloneError :=
  .access f.holder f.name o cause

/-- The error that a place of an object could not be reached directly. -/
def PlannedField.missed (f : PlannedField) (o : ObjectId) (miss : Miss) : CloneError :=
  f.fault o (miss.error f.holder)

/-- The error that a primitive field was taken for a reference. -/
def PlannedField.notReference (f : PlannedField) (o : ObjectId) : CloneError :=
  f.fault o (.typeMismatch f.holder f.name .reference .primitiveField)

/-- The error that an element of an array could not be reached directly. -/
def elementFault (h : Heap) (o : ObjectId) (index : Nat) (cause : HeapError) : CloneError :=
  .access (h.cls o).text (toString index) o cause

/-- The error that an object has no body of the kind a backend needs. -/
def elementBodyFault (h : Heap) (o : ObjectId) (index : Nat) (need : BodyNeed) : CloneError :=
  elementFault h o index (.wrongBody (h.cls o).text need)

/-! ## Direct access -/

namespace Direct

/-- The value in the slot of a field. -/
def readField (f : PlannedField) (h : Heap) (o : ObjectId) : Except CloneError Value :=
  match f.place with
  | .slot index => ((h.body o).readSlot index).mapError (f.missed o)
  | .bytes _ _ => .error (f.notReference o)

/-- Puts another value in the slot of a field. -/
def writeReference (f : PlannedField) (h : Heap) (o : ObjectId) (v : Value) :
    Except CloneError Write :=
  match f.place with
  | .slot index => Write.mk o <$> ((h.body o).writeSlot index v).mapError (f.missed o)
  | .bytes _ _ => .error (f.notReference o)

/-- Carries the bytes of a field from one object to another. -/
def copyPrimitive (f : PlannedField) (h : Heap) (source target : ObjectId) :
    Except CloneError Write :=
  match f.place with
  | .slot _ => do
    let v ← readField f h source
    writeReference f h target v
  | .bytes offset kind => do
    let bytes ← ((h.body source).readBytes offset kind.width).mapError (f.missed source)
    Write.mk target <$> ((h.body target).writeBytes offset bytes).mapError (f.missed target)

/-- Gives a field its default. -/
def resetField (f : PlannedField) (h : Heap) (o : ObjectId) : Except CloneError Write :=
  match f.place with
  | .bytes offset kind =>
    Write.mk o <$>
      ((h.body o).writeBytes offset (Bytes.zeros kind.width)).mapError (f.missed o)
  | .slot _ => writeReference f h o .null

/-- Carries the whole block of an object to another, if both are instances with blocks of one
length. -/
def copyBlock? (h : Heap) (source target : ObjectId) : Option Write :=
  match h.body source, h.body target with
  | .record block _, .record old refs =>
    if old.length = block.length then some ⟨target, .record block refs⟩ else none
  | _, _ => none

/-- Gives a reference array another element. -/
def writeElement (h : Heap) (o : ObjectId) (index : Nat) (v : Value) : Except CloneError Write :=
  match h.body o with
  | .slots items =>
    if index < items.length then .ok ⟨o, .slots (items.set index v)⟩
    else .error (elementFault h o index (.outOfBounds index items.length))
  | _ => .error (elementBodyFault h o index .slotArray)

end Direct

namespace Backend

/-- The kind of a backend. -/
def kind : Backend → Kind
  | fast => .fast
  | portable _ => .portable

/-- A bare object of a plan's class. -/
def allocate (b : Backend) (p : Plan) : CopyM ObjectId :=
  match b with
  | fast =>
    match p.kind with
    | .concrete => Memory.create p.cls (Body.bareRecord p.blockSize p.slotCount)
    | .container kind => Memory.create p.cls (.container (Container.empty kind))
    | .array _ => Memory.create p.cls (.slots [])
    | .abstract | .interface | .enum =>
      throw (.failed (.allocation p.name (.notInstantiable p.name .kind)))
  | portable r => CopyM.allocating p.name (Allocator.allocate r p.cls)

/-- The value of a reference field. -/
def readField (b : Backend) (f : PlannedField) (o : ObjectId) : CopyM Value :=
  match b with
  | fast => CopyM.read fun h => Direct.readField f h o
  | portable _ => CopyM.read fun h => (f.get h o).mapError (f.fault o)

/-- Writes a reference field. -/
def writeReference (b : Backend) (f : PlannedField) (o : ObjectId) (v : Value) : CopyM Unit :=
  match b with
  | fast => CopyM.update fun h => Direct.writeReference f h o v
  | portable _ => CopyM.update fun h => (f.set h o v).mapError (f.fault o)

/-- Carries a primitive field from one object to another. -/
def copyPrimitive (b : Backend) (f : PlannedField) (source target : ObjectId) : CopyM Unit :=
  match b with
  | fast => CopyM.update fun h => Direct.copyPrimitive f h source target
  | portable _ => CopyM.update fun h => do
    let v ← (f.get h source).mapError (f.fault source)
    (f.set h target v).mapError (f.fault target)

/-- Carries all primitive fields at once, if the backend can. -/
def copyBlock (b : Backend) (source target : ObjectId) : CopyM Bool :=
  match b with
  | fast =>
    if source = target then pure true else do
      match Direct.copyBlock? (← get).heap source target with
      | some w =>
        modify fun m => { m with heap := m.heap.write w }
        pure true
      | none => pure false
  | portable _ => pure false

/-- Writes the default of a field. -/
def resetField (b : Backend) (f : PlannedField) (o : ObjectId) : CopyM Unit :=
  match b with
  | fast => CopyM.update fun h => Direct.resetField f h o
  | portable _ => CopyM.update fun h => (f.reset h o).mapError (f.fault o)

/-- Carries a field from one object to another: a primitive as it is, anything else as the value
that takes its place, or as it is if there is none. -/
def copyField (b : Backend) (f : PlannedField) (source target : ObjectId)
    (replacement : Option Value) : CopyM Unit :=
  match f.type.category, replacement with
  | .primitive, _ => b.copyPrimitive f source target
  | _, some v => b.writeReference f target v
  | _, none => do
    let v ← b.readField f source
    b.writeReference f target v

/-- Fills a new array with the bytes of another. It breaks off if the lengths differ, and leaves
an array of references alone. -/
def fillPacked (copy : ObjectId) (bytes : List UInt8) : CopyM Unit := do
  match (← get).heap.body copy with
  | .packed kind old =>
    if old.length = bytes.length then
      modify fun m => { m with heap := m.heap.setBody copy (.packed kind bytes) }
    else throw .aborted
  | _ => pure ()

/-- A new primitive array with the bytes of another. The portable backend makes it by the array's
class, and so with elements of the kind that the class says. -/
def duplicatePacked (b : Backend) (source : ObjectId) : CopyM ObjectId := do
  let h := (← get).heap
  let cls := h.cls source
  match b, h.body source with
  | fast, .packed kind bytes => Memory.create cls (.packed kind bytes)
  | fast, _ => throw (.failed (elementBodyFault h source 0 .packedArray))
  | portable r, .packed kind bytes =>
    let copy ← CopyM.allocating (r.className cls)
      (Allocator.allocateArray r cls (Packed.length kind bytes))
    fillPacked copy bytes
    pure copy
  | portable r, _ =>
    let name := r.className cls
    throw (.failed (.access name "[]" source (.wrongBody name .packedArray)))

/-- A new array of references, all null. -/
def allocateSlots (b : Backend) (cls : ClassId) (length : Nat) : CopyM ObjectId :=
  match b with
  | fast => Memory.create cls (.slots (List.replicate length .null))
  | portable r => CopyM.allocating (r.className cls) (Allocator.allocateArray r cls length)

/-- Writes an element of a reference array. -/
def writeElement (b : Backend) (o : ObjectId) (index : Nat) (v : Value) : CopyM Unit :=
  match b with
  | fast => CopyM.update fun h => Direct.writeElement h o index v
  | portable r => CopyM.update fun h =>
    (h.setElement o index v).mapError (.access (r.className (h.cls o)) (toString index) o)

end Backend

end DeepCopy
