-- White space and letter case of settings: texts are cut at both ends and
-- compared without regard to the case of the ASCII letters.

namespace DeepCopy.Text

/-- The characters with the Unicode property White_Space. -/
def isBlank (c : Char) : Bool :=
  let n := c.toNat
  (0x9 ≤ n && n ≤ 0xd) || n == 0x20 || n == 0x85 || n == 0xa0 || n == 0x1680 ||
    (0x2000 ≤ n && n ≤ 0x200a) || n == 0x2028 || n == 0x2029 || n == 0x202f || n == 0x205f ||
    n == 0x3000

/-- A text without the blanks at its ends. -/
def trimmed (s : List Char) : List Char :=
  ((s.dropWhile isBlank).reverse.dropWhile isBlank).reverse

/-- The form in which settings are compared: cut at both ends, ASCII letters small. -/
def settingKey (s : String) : String :=
  String.ofList ((trimmed s.toList).map Char.toLower)

/-! ## Laws -/

theorem isBlank_of_isWhitespace {c : Char} (h : c.isWhitespace = true) : isBlank c = true := by
  simp only [Char.isWhitespace, Bool.or_eq_true, decide_eq_true_eq] at h
  rcases h with ((rfl | rfl) | rfl) | rfl <;> decide

example : settingKey " ON\u00a0" = "on" := by decide +kernel
example : settingKey "\u200bOn" = "\u200bon" := by decide +kernel

end DeepCopy.Text
