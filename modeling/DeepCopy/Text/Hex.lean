-- Bytes as text: two hexadecimal digits for each, the high one first.

namespace DeepCopy.Text

/-- The digit of a number below sixteen. -/
def hexDigit (n : Nat) : Char := (Nat.toDigits 16 n).headD '0'

/-- The digits of bytes in order. -/
def hex (bytes : List UInt8) : String :=
  String.ofList (bytes.flatMap fun b => [hexDigit (b.toNat / 16), hexDigit (b.toNat % 16)])

/-- The number a digit stands for. Small and capital letters count alike. -/
def hexValue? (c : Char) : Option Nat :=
  let n := c.toNat
  if 0x30 ≤ n ∧ n ≤ 0x39 then some (n - 0x30)
  else if 0x61 ≤ n ∧ n ≤ 0x66 then some (n - 0x61 + 10)
  else if 0x41 ≤ n ∧ n ≤ 0x46 then some (n - 0x41 + 10)
  else none

/-- The bytes that digits stand for, if they come in pairs. -/
def unhex? : List Char → Option (List UInt8)
  | [] => some []
  | [_] => none
  | a :: b :: rest => do
    let high ← hexValue? a
    let low ← hexValue? b
    let bytes ← unhex? rest
    some (UInt8.ofNat (16 * high + low) :: bytes)

example : hex [0, 255, 16] = "00ff10" := by decide
example : unhex? "00fF10".toList = some [0, 255, 16] := by decide

end DeepCopy.Text
