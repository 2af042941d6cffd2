/-! # Code points in text

Two spellings of a code point: lower-case hexadecimal without padding, which quoted text uses, and
`U+` with at least four upper-case digits, which messages use beside the character itself.
-/

namespace ProtoSchema.Text

/-- The lower-case hexadecimal digits of the code point of `c`. -/
def hexDigits (c : Char) : List Char := Nat.toDigits 16 c.toNat

/-- `U+00E9 'é'`: a character for a reader who may not see it. -/
def describeChar (c : Char) : String :=
  String.ofList ('U' :: '+' :: ((hexDigits c).map Char.toUpper).leftpad 4 '0' ++
    [' ', '\'', c, '\''])

/-- The digits of base sixteen, in either case. -/
def isHexDigit (c : Char) : Bool :=
  c.isDigit || ('a' ≤ c && c ≤ 'f') || ('A' ≤ c && c ≤ 'F')

theorem isHexDigit_of_isDigit {c : Char} (h : c.isDigit = true) : isHexDigit c = true := by
  simp [isHexDigit, h]

end ProtoSchema.Text
