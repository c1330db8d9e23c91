-- Binary floating point by its bits. A pattern is read as a sign, a whole
-- number and a power of two; a number is written as the pattern nearest to it,
-- a tie going to the even one. Changing the width of a pattern is reading it in
-- one format and writing it in the other.

namespace DeepCopy.Binary

-- Powers are those of the core library here and in all that builds on this.
attribute [instance (high), default_instance (high + 1)] instPowNat

/-- A format is known by how many bits its significands have and how many its exponents. -/
structure Format where
  precision : Nat
  exponentBits : Nat
deriving DecidableEq, Repr

/-- The 32-bit format. -/
def single : Format := ⟨24, 8⟩

/-- The 64-bit format. -/
def double : Format := ⟨53, 11⟩

/-- What a pattern stands for. A finite one is `significand · 2 ^ exponent`. -/
inductive Reading where
  | nan (negative : Bool) (payload : Nat)
  | infinite (negative : Bool)
  | finite (negative : Bool) (significand : Nat) (exponent : Int)
deriving DecidableEq, Repr

namespace Format

/-- How many bits of a significand are stored; the top one of a normal number is not. -/
def fractionBits (f : Format) : Nat := f.precision - 1

/-- The exponent of the smallest step of the format. -/
def minExponent (f : Format) : Int := 3 - 2 ^ (f.exponentBits - 1) - f.precision

/-- The exponent field of the infinities and of what is not a number. -/
def topField (f : Format) : Nat := 2 ^ f.exponentBits - 1

/-- The pattern of positive infinity. -/
def infinity (f : Format) : Nat := f.topField * 2 ^ f.fractionBits

/-- The weight of the sign bit. -/
def signWeight (f : Format) : Nat := 2 ^ (f.exponentBits + f.fractionBits)

/-- A magnitude with its sign bit. -/
def signed (f : Format) (negative : Bool) (magnitude : Nat) : Nat :=
  if negative then f.signWeight + magnitude else magnitude

/-- What a pattern stands for in this format. -/
def read (f : Format) (pattern : Nat) : Reading :=
  let negative := f.signWeight ≤ pattern
  let magnitude := pattern % f.signWeight
  let field := magnitude / 2 ^ f.fractionBits
  let fraction := magnitude % 2 ^ f.fractionBits
  if field = f.topField then
    if fraction = 0 then .infinite negative else .nan negative fraction
  else if field = 0 then .finite negative fraction f.minExponent
  else .finite negative (2 ^ f.fractionBits + fraction) (f.minExponent + (field - 1 : Nat))

end Format

/-- `n / 2 ^ shift` to the nearest whole number, a tie going to the even one. -/
def shiftRounded (n shift : Nat) : Nat :=
  let quotient := n / 2 ^ shift
  let rest := n % 2 ^ shift
  if 2 ^ shift < 2 * rest ∨ (2 * rest = 2 ^ shift ∧ quotient % 2 = 1) then quotient + 1
  else quotient

namespace Format

/-- The step that a number with this significand and exponent is measured in: fine enough to
keep `precision` bits, but never finer than the smallest step of the format. -/
def stepExponent (f : Format) (significand : Nat) (exponent : Int) : Int :=
  max (Nat.log2 significand + 1 + exponent - f.precision) f.minExponent

/-- The magnitude nearest to `significand · 2 ^ exponent`. Patterns follow each other as the
numbers do, so a significand that rounds up to the next power of two carries into the exponent
field by itself, and what lies past the largest number is infinity. -/
def nearest (f : Format) (significand : Nat) (exponent : Int) : Nat :=
  if significand = 0 then 0 else
    let step := f.stepExponent significand exponent
    let rounded :=
      if step ≤ exponent then significand * 2 ^ (exponent - step).toNat
      else shiftRounded significand (step - exponent).toNat
    min ((step - f.minExponent).toNat * 2 ^ f.fractionBits + rounded) f.infinity

/-- A payload of `fromBits` bits kept by its high bits, with the quiet bit set. -/
def quiet (f : Format) (fromBits payload : Nat) : Nat :=
  let kept :=
    if fromBits ≤ f.fractionBits then payload * 2 ^ (f.fractionBits - fromBits)
    else payload / 2 ^ (fromBits - f.fractionBits)
  f.infinity + (kept ||| 2 ^ (f.fractionBits - 1))

/-- The pattern of this format nearest to what a pattern of another format stands for. -/
def convert (source target : Format) (pattern : Nat) : Nat :=
  match source.read pattern with
  | .nan negative payload => target.signed negative (target.quiet source.fractionBits payload)
  | .infinite negative => target.signed negative target.infinity
  | .finite negative significand exponent =>
    target.signed negative (target.nearest significand exponent)

/-- The pattern nearest to a whole number. -/
def ofInt (f : Format) (n : Int) : Nat := f.signed (n < 0) (f.nearest n.natAbs 0)

end Format

/-- A 32-bit pattern as the 64-bit pattern of the same number. -/
def widen (bits : UInt32) : UInt64 := UInt64.ofNat (single.convert double bits.toNat)

/-- The 32-bit pattern nearest to a 64-bit one. -/
def narrow (bits : UInt64) : UInt32 := UInt32.ofNat (double.convert single bits.toNat)

/-- The 32-bit pattern nearest to an integer, rounded once. -/
def singleOfInt (n : Int64) : UInt32 := UInt32.ofNat (single.ofInt n.toInt)

/-- The 64-bit pattern nearest to an integer. -/
def doubleOfInt (n : Int64) : UInt64 := UInt64.ofNat (double.ofInt n.toInt)

/-- Whether a pattern is no number. -/
def isNaN (f : Format) (pattern : Nat) : Bool := f.infinity < pattern % f.signWeight

/-- Whether two patterns stand for equal numbers: the two zeros are equal, and what is not a
number equals nothing. -/
def agree (f : Format) (a b : Nat) : Bool :=
  !isNaN f a && !isNaN f b && (a == b || (a % f.signWeight == 0 && b % f.signWeight == 0))

end DeepCopy.Binary
