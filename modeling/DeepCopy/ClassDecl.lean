-- Class definitions: what a class is, which fields it declares, and how its
-- instances want to be cloned.
import DeepCopy.CloneError
import DeepCopy.Heap

namespace DeepCopy

/-- What the elements of an array are. -/
inductive Component where
  | primitive (kind : Primitive.Kind)
  | reference (cls : ClassId)
deriving DecidableEq, Repr

/-- The kinds of classes. -/
inductive ClassDecl.Kind where
  | concrete
  | abstract
  | interface
  | enum
  | array (component : Component)
  | container (kind : Container.Kind)
deriving DecidableEq, Repr

/-- The declared type of a field. -/
inductive FieldType where
  | primitive (kind : Primitive.Kind)
  | object (cls : ClassId)
  | array (cls : ClassId)
deriving DecidableEq, Repr

/-- What a field is at large. -/
inductive Category where
  | primitive | array | object
deriving DecidableEq, Repr

/-- The category of a type. -/
def FieldType.category : FieldType → Category
  | primitive _ => .primitive
  | array _ => .array
  | object _ => .object

/-- The marks a field can carry. -/
structure Marks where
  /-- The field belongs to the class and not to its instances. -/
  isStatic : Bool := false
  /-- The field is transient by the language. -/
  isTransient : Bool := false
  /-- The field is transient by an annotation. -/
  isAnnotated : Bool := false
  /-- The field was not written by hand. -/
  isSynthetic : Bool := false
deriving DecidableEq, Repr

/-- A declared field. -/
structure FieldDecl where
  name : String
  type : FieldType
  marks : Marks := {}
deriving DecidableEq, Repr

/-- The marks a class can carry. -/
structure ClassFlags where
  /-- Instances never change. -/
  immutable : Bool := false
  /-- With `immutable`: instances of subclasses never change either. -/
  immutableSubclasses : Bool := false
  /-- Instances are shared and never duplicated. -/
  nonCloneable : Bool := false
deriving DecidableEq, Repr

/-- The marks of a field that are set, by name. -/
def Marks.names (m : Marks) : List String :=
  [(m.isStatic, "static"), (m.isTransient, "transient"), (m.isAnnotated, "annotated"),
    (m.isSynthetic, "synthetic")].filterMap fun (isSet, name) => if isSet then some name else none

/-- The marks of a field with one more, by name. -/
def Marks.add? (m : Marks) : String → Option Marks
  | "static" => some { m with isStatic := true }
  | "transient" => some { m with isTransient := true }
  | "annotated" => some { m with isAnnotated := true }
  | "synthetic" => some { m with isSynthetic := true }
  | _ => none

/-- The flags of a class with one more, by name. -/
def ClassFlags.add? (f : ClassFlags) : String → Option ClassFlags
  | "immutable" => some { f with immutable := true }
  | "immutable_subclasses" => some { f with immutableSubclasses := true }
  | "non_cloneable" => some { f with nonCloneable := true }
  | _ => none

/-- Why a self-copy method failed: by an error of cloning, or by one of another kind. -/
inductive SelfCopyFault where
  | clone (error : CloneError)
  | other (fault : DelegateFault)
deriving DecidableEq, Repr

/-- A method by which instances copy themselves. It sees the whole heap, may add to it, and
returns the copy. -/
abbrev SelfCopy := ObjectId → Heap → Except SelfCopyFault ObjectId × Heap

/-- A class definition. -/
structure ClassDecl where
  name : String
  kind : ClassDecl.Kind := .concrete
  superclass : Option ClassId := none
  fields : List FieldDecl := []
  flags : ClassFlags := {}
  /-- The name of the routine that clones instances. -/
  cloneWith : Option String := none
  selfCopy : Option SelfCopy := none
  /-- The names of an enum's constants. -/
  constants : List String := []

namespace ClassDecl.Kind

/-- Whether the kind comes with the registry and cannot be defined. -/
def isBuiltIn : Kind → Bool
  | array _ | container _ => true
  | _ => false

/-- Whether classes of the kind can have subclasses. -/
def isExtensible : Kind → Bool
  | concrete | abstract => true
  | _ => false

/-- Whether a class of the kind is an array class. -/
def isArray : Kind → Bool
  | array _ => true
  | _ => false

end ClassDecl.Kind

end DeepCopy
