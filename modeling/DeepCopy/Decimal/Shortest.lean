-- The fewest decimal digits that read back as a given binary number: of all
-- decimals that round to it, one with the least digits, and of those the nearest.
import DeepCopy.Binary

namespace DeepCopy.Decimal

open Binary (Format)

/-- A decimal with its digits in `digits` and the power of ten of the last one. -/
structure Scientific where
  digits : Nat
  exponent : Int
deriving DecidableEq, Repr

/-- An interval of positive rationals over one denominator, around `middle`. Its ends belong to
it when `closed`. -/
structure Interval where
  low : Nat
  middle : Nat
  high : Nat
  denominator : Nat
  closed : Bool

/-- The numbers that round to `significand · 2 ^ exponent` in a format. Below a power of two the
patterns lie twice as dense, so the lower gap is half as wide there. -/
def Interval.around (f : Format) (significand : Nat) (exponent : Int) : Interval :=
  let lowGap := if significand = 2 ^ f.fractionBits ∧ f.minExponent < exponent then 1 else 2
  let scale := 2 ^ (exponent - 2).toNat
  { low := (4 * significand - lowGap) * scale
    middle := 4 * significand * scale
    high := (4 * significand + 2) * scale
    denominator := 2 ^ (2 - exponent).toNat
    closed := significand % 2 = 0 }

/-- How many decimal digits a number has. -/
def digitCount (n : Nat) : Nat := (Nat.toDigits 10 n).length

/-- The power of ten of the first digit of `n / d`, for quotients down to `10 ^ -400`. -/
def leadingExponent (n d : Nat) : Int := (digitCount (n * 10 ^ 400 / d) : Int) - 401

/-- The point of the interval on the grid of multiples of `10 ^ exponent` that is nearest to
the middle: one of the middle's two neighbours on the grid, the upper one in a tie. -/
def Interval.onGrid? (i : Interval) (exponent : Int) : Option Nat :=
  let unit := i.denominator * 10 ^ exponent.toNat
  let scale := 10 ^ (-exponent).toNat
  let below := i.middle * scale / unit
  let above := below + 1
  let belowFits := i.low * scale < below * unit || (i.closed && i.low * scale == below * unit)
  let aboveFits := above * unit < i.high * scale || (i.closed && above * unit == i.high * scale)
  if belowFits && aboveFits then
    if i.middle * scale - below * unit < above * unit - i.middle * scale then some below
    else some above
  else if belowFits then some below
  else if aboveFits then some above
  else none

/-- What is found on a grid lies in the interval. -/
theorem Interval.within_of_onGrid? {i : Interval} {exponent : Int} {digits : Nat}
    (hlow : i.low ≤ i.middle) (hhigh : i.middle ≤ i.high) (hd : 0 < i.denominator)
    (h : i.onGrid? exponent = some digits) :
    i.low * 10 ^ (-exponent).toNat ≤ digits * (i.denominator * 10 ^ exponent.toNat) ∧
      digits * (i.denominator * 10 ^ exponent.toNat) ≤ i.high * 10 ^ (-exponent).toNat := by
  simp only [onGrid?] at h
  generalize hscale : 10 ^ (-exponent).toNat = scale at h ⊢
  generalize hunit : i.denominator * 10 ^ exponent.toNat = unit at h ⊢
  have hpos : 0 < unit := hunit ▸ Nat.mul_pos hd (Nat.pow_pos (by decide))
  have hbelow : i.middle * scale / unit * unit ≤ i.high * scale :=
    Nat.le_trans (Nat.div_mul_le_self _ _) (Nat.mul_le_mul_right scale hhigh)
  have habove : i.low * scale ≤ (i.middle * scale / unit + 1) * unit :=
    Nat.le_of_lt (Nat.lt_of_le_of_lt (Nat.mul_le_mul_right scale hlow)
      (Nat.lt_mul_of_div_lt (Nat.lt_succ_self _) hpos))
  -- the point below is no further up than the middle, and the point above is past it
  have fits : ∀ {x y : Nat}, (decide (x < y) || (i.closed && x == y)) = true → x ≤ y := by
    intro x y hxy
    simp only [Bool.or_eq_true, Bool.and_eq_true, decide_eq_true_eq, beq_iff_eq] at hxy
    omega
  split at h
  · rename_i hboth
    rw [Bool.and_eq_true] at hboth
    split at h <;> cases h
    · exact ⟨fits hboth.1, hbelow⟩
    · exact ⟨habove, fits hboth.2⟩
  · split at h
    · cases h
      exact ⟨fits (by assumption), hbelow⟩
    · split at h <;> cases h
      exact ⟨habove, fits (by assumption)⟩

-- A tenth is nearest to a number of fifty-three bits, and the only tenth near it.
example : (Interval.around Binary.double 0x1999999999999a (-56)).onGrid? (-1) = some 1 := by
  decide +kernel

/-- The first grid, from `count` digits on, that meets the interval. -/
def Interval.coarsest (i : Interval) (leading : Int) : (tries count : Nat) → Scientific
  | 0, count => ⟨(i.onGrid? (leading - count + 1)).getD 0, leading - count + 1⟩
  | tries + 1, count =>
    match i.onGrid? (leading - count + 1) with
    | some digits => ⟨digits, leading - count + 1⟩
    | none => i.coarsest leading tries (count + 1)

/-- The shortest decimal that rounds to `significand · 2 ^ exponent`, for a positive
significand. Seventeen digits are always enough in the formats used here. -/
def shortest (f : Format) (significand : Nat) (exponent : Int) : Scientific :=
  let i := Interval.around f significand exponent
  i.coarsest (leadingExponent i.middle i.denominator) 17 1

/-! ## The text of a 64-bit number -/

/-- Where numbers are written in full and where with a power of ten. -/
structure Style where
  /-- The least power of ten of a first digit that is written in full. -/
  leastPositional : Int
  /-- The greatest one. -/
  greatestPositional : Int
  /-- What stands before the power of ten. -/
  exponentMark : Char
  /-- The fraction of a whole number that is written in full. -/
  wholeFraction : String
  positiveInfinity : String
  negativeInfinity : String
  notANumber : String

/-- Numbers are written in full from `0.0001` up to sixteen digits before the point, a whole
number with `.0`; all others as digits with a power of ten. -/
def plainStyle : Style :=
  { leastPositional := -4, greatestPositional := 15, exponentMark := 'e', wholeFraction := ".0"
    positiveInfinity := "inf", negativeInfinity := "-inf", notANumber := "NaN" }

/-- The digits with a point after the first `places` of them, zeros filling the gaps. -/
def positional (style : Style) (digits : List Char) (places : Int) : String :=
  if places ≤ 0 then
    "0." ++ String.ofList (List.replicate (-places).toNat '0' ++ digits)
  else if digits.length ≤ places.toNat then
    String.ofList (digits ++ List.replicate (places.toNat - digits.length) '0') ++
      style.wholeFraction
  else
    String.ofList (digits.take places.toNat) ++ "." ++ String.ofList (digits.drop places.toNat)

/-- The digits with a point after the first and a power of ten. -/
def scientific (style : Style) (digits : List Char) (leading : Int) : String :=
  let fraction := if digits.length ≤ 1 then "" else "." ++ String.ofList (digits.drop 1)
  String.ofList (digits.take 1) ++ fraction ++ String.singleton style.exponentMark ++
    toString leading

/-- Digits without the zeros at their end. -/
def stripZeros (digits : List Char) : List Char :=
  (digits.reverse.dropWhile (· == '0')).reverse

/-- The text of a 64-bit pattern. -/
def render (style : Style) (bits : UInt64) : String :=
  match Binary.double.read bits.toNat with
  | .nan _ _ => style.notANumber
  | .infinite negative => if negative then style.negativeInfinity else style.positiveInfinity
  | .finite negative significand exponent =>
    let sign := if negative then "-" else ""
    if significand = 0 then sign ++ "0" ++ style.wholeFraction else
      let decimal := shortest Binary.double significand exponent
      let written := Nat.toDigits 10 decimal.digits
      let leading := decimal.exponent + written.length - 1
      let digits := stripZeros written
      if style.leastPositional ≤ leading ∧ leading ≤ style.greatestPositional then
        sign ++ positional style digits (leading + 1)
      else sign ++ scientific style digits leading

end DeepCopy.Decimal
