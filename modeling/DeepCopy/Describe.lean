-- The texts by which fields, policies, backends and cloners describe themselves:
-- a name, and in braces the parts with their names.
import DeepCopy.Cloner

namespace DeepCopy.Describe

/-- A name with named parts in braces. -/
def record (name : String) (parts : List (String × String)) : String :=
  let part := fun (p : String × String) => p.1 ++ ": " ++ p.2
  name ++ " \x7b " ++ String.intercalate ", " (parts.map part) ++ " \x7d"

/-- A name with one part in brackets. -/
def wrapped (name part : String) : String := name ++ "(" ++ part ++ ")"

/-- The word for a switch. -/
def flag (b : Bool) : String := if b then "true" else "false"

/-- The word for a kind of primitives. -/
def primitiveKind : Primitive.Kind → String
  | .bool => "Bool"
  | .i8 => "I8"
  | .i16 => "I16"
  | .i32 => "I32"
  | .i64 => "I64"
  | .f32 => "F32"
  | .f64 => "F64"
  | .char => "Char"

/-- A field type with the kind or the class it is made of. -/
def fieldType : FieldType → String
  | .primitive kind => wrapped "Primitive" (primitiveKind kind)
  | .object cls => wrapped "Object" cls.text
  | .array cls => wrapped "Array" cls.text

/-- The word for a category of fields. -/
def category : Category → String
  | .primitive => "Primitive"
  | .array => "Array"
  | .object => "Object"

/-- Where a field is kept. -/
def place : Place → String
  | .bytes offset kind =>
    record "Prim" [("offset", toString offset), ("kind", primitiveKind kind)]
  | .slot index => record "Ref" [("slot", toString index)]

/-- A field as the registry knows it. -/
def field (f : Field) : String :=
  record "FieldInfo"
    [ ("declaring_class", f.declaring.text), ("name", Text.quoted f.name),
      ("field_type", fieldType f.type), ("handle", place f.place) ]

/-- A field as a plan lists it. -/
def plannedField (f : PlannedField) : String :=
  record "FieldDescriptor"
    [ ("name", Text.quoted f.name), ("category", category f.type.category),
      ("handle", place f.place) ]

/-- The word for a kind of backends. -/
def backendKind : Backend.Kind → String
  | .fast => "Fast"
  | .portable => "Portable"

/-- The word for a mode. -/
def mode : Mode → String
  | .full => "Full"
  | .minimal => "Minimal"

/-- A portable backend, by what it has allocated. -/
def portableBackend (t : Tally) : String :=
  let tally := record "AllocStats"
    [ ("instances", toString t.instances), ("arrays", toString t.arrays),
      ("bytes", toString t.bytes) ]
  record "PortableBackend" [("stats", tally)]

/-- A policy, by how many classes it names and its switches. -/
def policy (p : Policy) : String :=
  record "Policy"
    [ ("immutable_classes", toString p.immutableClasses.length),
      ("non_cloneable_classes", toString p.nonCloneableClasses.length),
      ("overrides", toString p.overrides.length),
      ("clone_transient_fields", flag p.flags.cloneTransient),
      ("clone_transient_annotated_fields", flag p.flags.cloneAnnotated),
      ("clone_immutable_flagged", flag p.flags.cloneImmutable),
      ("clone_synthetic_fields", flag p.flags.cloneSynthetic),
      ("use_native_clone_method", flag p.flags.useSelfCopy),
      ("use_overrides", flag p.flags.useOverrides) ]

/-- A map of copies, by its size. -/
def copies (m : Copies) : String := record "IdentityMap" [("len", toString m.size)]

/-- The traversal of a cloner whose store holds so many plans. -/
def traversal (c : Cloner) (plans : Nat) : String :=
  record "CloneStrategy"
    [ ("backend", backendKind c.backendKind), ("mode", mode c.mode), ("models", toString plans) ]

/-- A cloner whose store holds so many plans. -/
def cloner (c : Cloner) (plans : Nat) : String :=
  let parts := [("strategy", traversal c plans), ("policy", policy c.policy)]
  match c.facade with
  | .full => record "Cloner" parts
  | .quick => record "QuickCloner" parts
  | .bare => traversal c plans

end DeepCopy.Describe
