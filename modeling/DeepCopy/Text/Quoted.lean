-- Characters and texts in quotes: what would not show as itself is written as
-- an escape.
import DeepCopy.Text.Printable

namespace DeepCopy.Text

/-- The hexadecimal digits of a code point in braces, after the mark of a code point. -/
def codePointEscape (c : Char) : List Char :=
  "\\u\x7b".toList ++ Nat.toDigits 16 c.toNat ++ ['\x7d']

/-- One character between quotes of the given kind. -/
def escaped (quote c : Char) : List Char :=
  if c = '\x00' then "\\0".toList
  else if c = '\t' then "\\t".toList
  else if c = '\n' then "\\n".toList
  else if c = '\r' then "\\r".toList
  else if c = '\\' then "\\\\".toList
  else if c = quote then ['\\', c]
  else if showsAsItself c then [c]
  else codePointEscape c

/-- A character in single quotes. -/
def quotedChar (c : Char) : String :=
  String.ofList (['\x27'] ++ escaped '\x27' c ++ ['\x27'])

/-- A text in double quotes. -/
def quoted (s : String) : String :=
  String.ofList (['\x22'] ++ s.toList.flatMap (escaped '\x22') ++ ['\x22'])

/-! ## Examples -/

example : quoted "a\x22'\n\x1b" = "\x22a\\\x22'\\n\\u\x7b1b\x7d\x22" := by decide +kernel
example : quotedChar '\x27' = "'\\''" := by decide +kernel

end DeepCopy.Text
