-- Primitives: the values that instances and arrays hold as bytes. Each kind has
-- a width; a primitive is written lowest byte first and read back from there.
import DeepCopy.Bytes
import DeepCopy.Binary

namespace DeepCopy

/-- The kinds of primitive fields and array elements. -/
inductive Primitive.Kind where
  | bool | i8 | i16 | i32 | i64 | f32 | f64 | char
deriving DecidableEq, Repr

/-- A primitive. Floating point numbers are kept as their bits. -/
inductive Primitive where
  | bool (b : Bool)
  | i8 (v : Int8)
  | i16 (v : Int16)
  | i32 (v : Int32)
  | i64 (v : Int64)
  | f32 (bits : UInt32)
  | f64 (bits : UInt64)
  | char (c : Char)
deriving DecidableEq, Repr

namespace Primitive

namespace Kind

/-- How many bytes a primitive of the kind takes. -/
def width : Kind → Nat
  | bool | i8 => 1
  | i16 => 2
  | i32 | f32 | char => 4
  | i64 | f64 => 8

/-- The name of the kind in class names and messages. -/
def name : Kind → String
  | bool => "bool"
  | i8 => "i8"
  | i16 => "i16"
  | i32 => "i32"
  | i64 => "i64"
  | f32 => "f32"
  | f64 => "f64"
  | char => "char"

/-- All kinds. -/
def all : List Kind := [bool, i8, i16, i32, i64, f32, f64, char]

/-- The kind of a name. -/
def ofName? (name : String) : Option Kind := all.find? fun k => k.name == name

theorem width_pos (kind : Kind) : 0 < kind.width := by
  cases kind <;> decide

end Kind

/-- The zero of a kind. -/
def zero : Kind → Primitive
  | .bool => .bool false
  | .i8 => .i8 0
  | .i16 => .i16 0
  | .i32 => .i32 0
  | .i64 => .i64 0
  | .f32 => .f32 0
  | .f64 => .f64 0
  | .char => .char '\x00'

/-- The kind of a primitive. -/
def kind : Primitive → Kind
  | bool _ => .bool
  | i8 _ => .i8
  | i16 _ => .i16
  | i32 _ => .i32
  | i64 _ => .i64
  | f32 _ => .f32
  | f64 _ => .f64
  | char _ => .char

/-- The bytes of a primitive. -/
def encode : Primitive → List UInt8
  | bool b => [if b then 1 else 0]
  | i8 v => Bytes.ofNat 1 v.toBitVec.toNat
  | i16 v => Bytes.ofNat 2 v.toBitVec.toNat
  | i32 v => Bytes.ofNat 4 v.toBitVec.toNat
  | i64 v => Bytes.ofNat 8 v.toBitVec.toNat
  | f32 bits => Bytes.ofNat 4 bits.toNat
  | f64 bits => Bytes.ofNat 8 bits.toNat
  | char c => Bytes.ofNat 4 c.toNat

/-- The primitive of a kind that the first bytes stand for, as many as the kind is wide. A boolean
is true unless its byte is zero; a number that is no code point reads as the zero character. -/
def decode (kind : Kind) (bytes : List UInt8) : Primitive :=
  let n := Bytes.toNat (bytes.take kind.width)
  match kind with
  | .bool => .bool (n != 0)
  | .i8 => .i8 (Int8.ofBitVec (BitVec.ofNat 8 n))
  | .i16 => .i16 (Int16.ofBitVec (BitVec.ofNat 16 n))
  | .i32 => .i32 (Int32.ofBitVec (BitVec.ofNat 32 n))
  | .i64 => .i64 (Int64.ofBitVec (BitVec.ofNat 64 n))
  | .f32 => .f32 (UInt32.ofNat n)
  | .f64 => .f64 (UInt64.ofNat n)
  | .char => .char (if n.isValidChar then Char.ofNat n else '\x00')

/-- Equality of primitives as numbers: of one kind, and floating point compared by value. -/
def agrees : Primitive → Primitive → Bool
  | f32 a, f32 b => Binary.agree Binary.single a.toNat b.toNat
  | f64 a, f64 b => Binary.agree Binary.double a.toNat b.toNat
  | a, b => a == b

/-! ## Laws -/

theorem kind_zero (kind : Kind) : (zero kind).kind = kind := by
  cases kind <;> rfl

theorem kind_decode (kind : Kind) (bytes : List UInt8) : (decode kind bytes).kind = kind := by
  cases kind <;> rfl

theorem length_encode (p : Primitive) : p.encode.length = p.kind.width := by
  cases p <;> simp [encode, kind, Kind.width]

end Primitive

end DeepCopy
