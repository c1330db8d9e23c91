-- Whole operations: a deep clone of a value, a deep copy into an instance that
-- is there already, and a copy that goes one level deep.
import DeepCopy.Clone

namespace DeepCopy

/-- How deep a clone may go: once for each object there is, and far more often for routines that
clone objects of their own making. -/
def depthAllowance (h : Heap) : Nat := h.size + 2 ^ 48

namespace Setting

open CloneM

variable (s : Setting)

/-- Starts an operation: nothing has a copy yet. -/
def begin : CloneM Unit := modify fun run => { run with copies := {} }

/-- A deep clone of a value. -/
def clone (v : Value) : CloneM Value := do
  begin
  cloneValue s (depthAllowance (← heap)) v

/-- Copies all fields of an instance into another of the same class, cloning what they refer to.
References back to the source come out as references to the target. -/
def copyInto (source target : ObjectId) : CloneM Unit := do
  begin
  let h ← heap
  let name := s.registry.className (h.cls source)
  if source = target then pure ()
  else if h.cls source ≠ h.cls target then
    fail (.config (.cannotCopy name (s.registry.className (h.cls target))))
  else if h.shape source ≠ .record ∨ h.shape target ≠ .record then
    fail (.config (.copyNeedsInstances name))
  else do
    let p ← s.plan (h.cls source)
    register source (.ref target)
    s.copyFields (cloneValue s (depthAllowance h)) source target p

/-- Writes elements of an array, from an index on. -/
def writeElements (target : ObjectId) : (index : Nat) → List Value → CloneM Unit
  | _, [] => pure ()
  | index, v :: vs => do
    onMemory (s.backend.writeElement target index v)
    writeElements target (index + 1) vs

/-- Carries fields as they are, one after the other. -/
def carryFields (source target : ObjectId) (bulk : Bool) : List PlannedField → CloneM Unit
  | [] => pure ()
  | f :: fs => do
    if f.type.category = .primitive ∧ bulk then pure ()
    else onMemory (s.backend.copyField f source target none)
    carryFields source target bulk fs

/-- A copy of a reference array with the same elements. -/
def shallowSlots (source : ObjectId) : CloneM ObjectId := do
  let items ← s.slotItems source
  let copy ← onMemory (s.backend.allocateSlots ((← heap).cls source) items.length)
  s.writeElements copy 0 items
  pure copy

/-- A copy of a container with the same entries. -/
def shallowContainer (source : ObjectId) : CloneM ObjectId := do
  let p ← s.plan ((← heap).cls source)
  let copy ← onMemory (s.backend.allocate p)
  match (← heap).contents? source with
  | none => fail (contentsFault p copy (.wrongBody p.name .container))
  | some contents =>
    setContents p copy contents
    pure copy

/-- A copy of an instance with the same fields. -/
def shallowRecord (source : ObjectId) : CloneM ObjectId := do
  let p ← s.plan ((← heap).cls source)
  let copy ← onMemory (s.backend.allocate p)
  let bulk ← onMemory (s.backend.copyBlock source copy)
  s.carryFields source copy bulk p.fields
  pure copy

/-- A new object of the same class that holds what the source holds, and no clones of it. -/
def shallow (source : ObjectId) : CloneM ObjectId := do
  match (← heap).shape source with
  | .packed => onMemory (s.backend.duplicatePacked source)
  | .slots => s.shallowSlots source
  | .container => s.shallowContainer source
  | .record => s.shallowRecord source

end Setting

end DeepCopy
