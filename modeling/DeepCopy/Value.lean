-- Values: what a reference slot, an array element or a container entry holds.
-- All but references to objects are held by value and never duplicated.
import DeepCopy.Primitive
import DeepCopy.Decimal.Shortest
import DeepCopy.Text.Quoted

namespace DeepCopy

/-- The place of a class in its registry. -/
abbrev ClassId := Nat

/-- The place of an object in the heap, which is the object's identity. -/
abbrev ObjectId := Nat

/-- How a class is called where its name is not at hand. -/
def ClassId.text (id : ClassId) : String := s!"ClassId({id})"

/-- A constant of an enum class. -/
structure EnumConstant where
  cls : ClassId
  ordinal : Nat
  name : String
deriving DecidableEq, Repr

/-- A value. Floating point numbers are kept as their bits. -/
inductive Value where
  | null
  | bool (b : Bool)
  | int (n : Int64)
  | float (bits : UInt64)
  | char (c : Char)
  | text (s : String)
  | constant (c : EnumConstant)
  | ref (object : ObjectId)
deriving DecidableEq, Repr, Inhabited

namespace Value

/-- The types of values, as messages call them. -/
inductive Kind where
  | null | bool | int | float | char | text | constant | ref
deriving DecidableEq, Repr

/-- The word for a type. -/
def Kind.name : Kind → String
  | null => "null"
  | bool => "bool"
  | int => "int"
  | float => "float"
  | char => "char"
  | text => "string"
  | constant => "enum"
  | ref => "object"

/-- The type of a value. -/
def kind : Value → Kind
  | null => .null
  | bool _ => .bool
  | int _ => .int
  | float _ => .float
  | char _ => .char
  | text _ => .text
  | constant _ => .constant
  | ref _ => .ref

/-- Whether a value is a boxed primitive or an enum constant. -/
def isBoxed : Value → Bool
  | bool _ | int _ | float _ | char _ | constant _ => true
  | null | text _ | ref _ => false

/-- The object a value refers to. -/
def object? : Value → Option ObjectId
  | ref o => some o
  | _ => none

/-- Equality of values: objects by identity, floating point by value, all else by content. -/
def agrees : Value → Value → Bool
  | float a, float b => Binary.agree Binary.double a.toNat b.toNat
  | a, b => a == b

/-- The text of a value, where `showRef` writes a reference. -/
def describe (showRef : ObjectId → String) : Value → String
  | null => "null"
  | bool b => if b then "true" else "false"
  | int n => toString n.toInt
  | float bits => Decimal.render Decimal.plainStyle bits
  | char c => Text.quotedChar c
  | text s => Text.quoted s
  | constant c => c.name
  | ref o => showRef o

end Value

namespace Primitive

/-- A primitive as a value: integers and floating point numbers at their full width. -/
def box : Primitive → Value
  | bool b => .bool b
  | i8 v => .int v.toInt64
  | i16 v => .int v.toInt64
  | i32 v => .int v.toInt64
  | i64 v => .int v
  | f32 bits => .float (Binary.widen bits)
  | f64 bits => .float bits
  | char c => .char c

/-- Whether an integer lies in the range of a signed number of `bits` bits. -/
def inRange (bits : Nat) (n : Int64) : Bool :=
  -(2 : Int) ^ (bits - 1) ≤ n.toInt && n.toInt < (2 : Int) ^ (bits - 1)

/-- A value as a primitive of a kind. Integers must be in range; a floating point kind also takes
integers, and rounds what it cannot hold. -/
def unbox? : Kind → Value → Option Primitive
  | .bool, .bool b => some (.bool b)
  | .i8, .int n => if inRange 8 n then some (.i8 n.toInt8) else none
  | .i16, .int n => if inRange 16 n then some (.i16 n.toInt16) else none
  | .i32, .int n => if inRange 32 n then some (.i32 n.toInt32) else none
  | .i64, .int n => some (.i64 n)
  | .f32, .float bits => some (.f32 (Binary.narrow bits))
  | .f32, .int n => some (.f32 (Binary.singleOfInt n))
  | .f64, .float bits => some (.f64 bits)
  | .f64, .int n => some (.f64 (Binary.doubleOfInt n))
  | .char, .char c => some (.char c)
  | _, _ => none

theorem kind_of_unbox? {kind : Kind} {v : Value} {p : Primitive} (h : unbox? kind v = some p) :
    p.kind = kind := by
  unfold unbox? at h
  split at h <;> first | (split at h <;> simp_all [Primitive.kind]) | simp_all [Primitive.kind]
  all_goals (subst h; rfl)

end Primitive

end DeepCopy
