-- What can go wrong with classes, fields and objects, and how it is said.
import DeepCopy.Value

namespace DeepCopy

/-- What is wrong with a class definition. -/
inductive DefinitionFault where
  /-- Array and container classes come with the registry. -/
  | builtInKind
  /-- An interface declares a field of its instances. -/
  | interfaceField
  /-- The superclass is neither concrete nor abstract. -/
  | cannotExtend (parent : String)
  /-- Two fields have one name. -/
  | duplicateField (field : String)
  /-- The type of an array field is no array class. -/
  | notArrayField (field : String)
deriving DecidableEq, Repr

/-- Why a class has no bare instances, or no arrays. -/
inductive NoInstances where
  | abstractClass
  | interface
  | enum
  | notArrayClass
  /-- Said where only the kind of class is looked at. -/
  | kind
deriving DecidableEq, Repr

/-- The body that an operation needs. -/
inductive BodyNeed where
  | record
  | array
  | packedArray
  | slotArray
  | container
deriving DecidableEq, Repr

/-- What a slot takes. -/
inductive Expected where
  | primitive (kind : Primitive.Kind)
  | array
  | reference
deriving DecidableEq, Repr

/-- What a slot was given. -/
inductive Found where
  | value (kind : Value.Kind)
  | element (kind : Primitive.Kind)
  | primitiveField
deriving DecidableEq, Repr

/-- Errors of the registry, of layouts, of objects and of the allocator. Classes and fields are
named as the message names them. -/
inductive HeapError where
  | unknownClass (cls : String)
  | duplicateClass (cls : String)
  | invalidDefinition (cls : String) (fault : DefinitionFault)
  | notInstantiable (cls : String) (reason : NoInstances)
  | noSuchField (cls field : String)
  | typeMismatch (cls field : String) (expected : Expected) (found : Found)
  | wrongBody (cls : String) (expected : BodyNeed)
  | outOfBounds (index length : Nat)
deriving DecidableEq, Repr

/-! ## Wording -/

/-- What is wrong with a definition, in words. -/
def DefinitionFault.message : DefinitionFault → String
  | builtInKind => "array and container classes are built in"
  | interfaceField => "interfaces cannot declare instance fields"
  | cannotExtend parent => s!"cannot extend {parent}"
  | duplicateField field => s!"duplicate field {field}"
  | notArrayField field => s!"field {field} is not typed by an array class"

/-- Why there are no instances, in words. -/
def NoInstances.message : NoInstances → String
  | abstractClass => "abstract class"
  | interface => "interface"
  | enum => "enum constants are fixed"
  | notArrayClass => "not an array class"
  | kind => "no instances of this kind"

/-- The word for the body that is needed. -/
def BodyNeed.name : BodyNeed → String
  | record => "instance"
  | array => "array"
  | packedArray => "primitive array"
  | slotArray => "reference array"
  | container => "container"

/-- The word for what a slot takes. -/
def Expected.name : Expected → String
  | primitive kind => kind.name
  | array => "array"
  | reference => "reference"

/-- The word for what a slot was given. -/
def Found.name : Found → String
  | value kind => kind.name
  | element kind => kind.name
  | primitiveField => "primitive"

/-- The text of an error. -/
def HeapError.message : HeapError → String
  | unknownClass cls => s!"unknown class: {cls}"
  | duplicateClass cls => s!"duplicate class: {cls}"
  | invalidDefinition cls fault => s!"invalid class definition for {cls}: {fault.message}"
  | notInstantiable cls reason => s!"cannot instantiate {cls}: {reason.message}"
  | noSuchField cls field => s!"no field {field} on {cls}"
  | typeMismatch cls field expected found =>
    s!"type mismatch on {cls}.{field}: expected {expected.name}, found {found.name}"
  | wrongBody cls expected => s!"{cls}: expected {expected.name} body"
  | outOfBounds index length => s!"index {index} out of bounds for length {length}"

end DeepCopy
