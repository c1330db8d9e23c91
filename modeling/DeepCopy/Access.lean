-- Checked access to what objects hold: fields through the class that declares
-- them, elements of arrays by index, and the contents of containers.
import DeepCopy.Registry

namespace DeepCopy

/-! ## Fields -/

namespace Field

/-- What the field of an instance reads as. -/
def readFrom (f : Field) (b : Body) : Except Miss Value :=
  match f.place with
  | .bytes offset kind => do
    let bytes ← b.readBytes offset kind.width
    .ok (Primitive.decode kind bytes).box
  | .slot index => b.readSlot index

/-- The value of a field. -/
def get (f : Field) (h : Heap) (o : ObjectId) : Except HeapError Value :=
  (f.readFrom (h.body o)).mapError (Miss.error f.declaringName)

/-- Whether an array field may hold a value: nothing or an array. -/
def takesArray (h : Heap) : Value → Bool
  | .null => true
  | v => h.isArrayRef v

/-- The error that a field does not take a value. -/
def refusal (f : Field) (expected : Expected) (v : Value) : HeapError :=
  .typeMismatch f.declaringName f.name expected (.value v.kind)

/-- The body of an instance with another value for the field. -/
def writeTo (f : Field) (h : Heap) (v : Value) (b : Body) : Except HeapError Body :=
  match f.place with
  | .bytes offset kind =>
    match Primitive.unbox? kind v with
    | some p => (b.writeBytes offset p.encode).mapError (Miss.error f.declaringName)
    | none => .error (f.refusal (.primitive kind) v)
  | .slot index =>
    if f.type.category = .array ∧ takesArray h v = false then .error (f.refusal .array v)
    else (b.writeSlot index v).mapError (Miss.error f.declaringName)

/-- Gives the field of an object another value. A primitive must fit the field's kind, and an array
field takes only arrays; all else a slot takes as it comes. -/
def set (f : Field) (h : Heap) (o : ObjectId) (v : Value) : Except HeapError Write :=
  Write.mk o <$> f.writeTo h v (h.body o)

/-- Gives the field of an object its default. -/
def reset (f : Field) (h : Heap) (o : ObjectId) : Except HeapError Write :=
  match f.place with
  | .bytes offset kind =>
    Write.mk o <$>
      ((h.body o).writeBytes offset (Bytes.zeros kind.width)).mapError (Miss.error f.declaringName)
  | .slot _ => f.set h o .null

end Field

namespace Registry

/-- The value of the field of a name. -/
def getField (r : Registry) (h : Heap) (o : ObjectId) (name : String) : Except HeapError Value := do
  let l ← r.layout (h.cls o)
  let f ← l.field name
  f.get h o

/-- Gives the field of a name another value. -/
def setField (r : Registry) (h : Heap) (o : ObjectId) (name : String) (v : Value) :
    Except HeapError Write := do
  let l ← r.layout (h.cls o)
  let f ← l.field name
  f.set h o v

end Registry

/-! ## Elements of primitive arrays -/

namespace Packed

/-- How many elements the bytes of an array hold. -/
def length (kind : Primitive.Kind) (bytes : List UInt8) : Nat := bytes.length / kind.width

/-- The body of an array with given bytes, which must be whole elements. -/
def ofBytes (kind : Primitive.Kind) (bytes : List UInt8) : Except HeapError Body :=
  let rest := bytes.length % kind.width
  if rest = 0 then .ok (.packed kind bytes)
  else .error (.outOfBounds bytes.length (bytes.length - rest))

/-- An element. -/
def get (kind : Primitive.Kind) (bytes : List UInt8) (index : Nat) : Except HeapError Primitive :=
  match Bytes.window? (index * kind.width) kind.width bytes with
  | some element => .ok (Primitive.decode kind element)
  | none => .error (.outOfBounds index (length kind bytes))

/-- The bytes with another element. Its kind must be that of the array. -/
def set (kind : Primitive.Kind) (bytes : List UInt8) (index : Nat) (p : Primitive) :
    Except HeapError (List UInt8) :=
  if p.kind ≠ kind then
    .error (.typeMismatch s!"{kind.name}[]" (toString index) (.primitive kind) (.element p.kind))
  else if index * kind.width + kind.width ≤ bytes.length then
    .ok (Bytes.overwrite (index * kind.width) p.encode bytes)
  else .error (.outOfBounds index (length kind bytes))

end Packed

/-! ## Elements and contents of objects -/

namespace Body

/-- How many elements an array has. -/
def arrayLength? : Body → Option Nat
  | packed kind bytes => some (Packed.length kind bytes)
  | slots items => some items.length
  | _ => none

/-- An element of an array, where `cls` names the array's class. -/
def element (cls : String) (index : Nat) : Body → Except HeapError Value
  | packed kind bytes => Primitive.box <$> Packed.get kind bytes index
  | slots items =>
    match items[index]? with
    | some v => .ok v
    | none => .error (.outOfBounds index items.length)
  | _ => .error (.wrongBody cls .array)

/-- The array with another element. A primitive array takes what fits its kind. -/
def setElement (cls : String) (index : Nat) (v : Value) : Body → Except HeapError Body
  | packed kind bytes =>
    match Primitive.unbox? kind v with
    | some p => packed kind <$> Packed.set kind bytes index p
    | none => .error (.typeMismatch cls (toString index) (.primitive kind) (.value v.kind))
  | slots items =>
    if index < items.length then .ok (slots (items.set index v))
    else .error (.outOfBounds index items.length)
  | _ => .error (.wrongBody cls .array)

/-- The contents of a container. -/
def contents? : Body → Option Container
  | container c => some c
  | _ => none

end Body

namespace Heap

/-- The number of elements of an array. -/
def arrayLength? (h : Heap) (o : ObjectId) : Option Nat := (h.body o).arrayLength?

/-- An element of an array. -/
def element (h : Heap) (o : ObjectId) (index : Nat) : Except HeapError Value :=
  (h.body o).element (h.cls o).text index

/-- Gives an array another element. -/
def setElement (h : Heap) (o : ObjectId) (index : Nat) (v : Value) : Except HeapError Write :=
  Write.mk o <$> (h.body o).setElement (h.cls o).text index v

/-- The contents of a container. -/
def contents? (h : Heap) (o : ObjectId) : Option Container := (h.body o).contents?

/-- The contents of a container, or the error that the object is none. -/
def contents (h : Heap) (o : ObjectId) : Except HeapError Container :=
  match h.contents? o with
  | some c => .ok c
  | none => .error (.wrongBody (h.cls o).text .container)

/-- Gives a container other contents. -/
def setContents (h : Heap) (o : ObjectId) (c : Container) : Except HeapError Write := do
  let _ ← h.contents o
  .ok ⟨o, .container c⟩

end Heap

end DeepCopy
