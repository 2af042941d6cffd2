/-! # Sets of characters given by code-point ranges

A property of characters that has no rule is a list of closed ranges of code points.  `inRanges`
asks whether a character lies in one of them; `inRanges_iff` says so in logic.
-/

namespace ProtoSchema.Text

/-- A closed range of code points, first and last. -/
abbrev CodeRange := Nat × Nat

/-- Whether the code point of `c` lies in one of `ranges`. -/
def inRanges (ranges : List CodeRange) (c : Char) : Bool :=
  ranges.any fun r => r.1 ≤ c.toNat && c.toNat ≤ r.2

theorem inRanges_iff {ranges : List CodeRange} {c : Char} :
    inRanges ranges c = true ↔ ∃ r ∈ ranges, r.1 ≤ c.toNat ∧ c.toNat ≤ r.2 := by
  simp [inRanges]

/-- The seven-bit characters, about which the tables say nothing. -/
def isAscii (c : Char) : Bool := c.toNat < 128

/-- The seven-bit control characters. -/
def isControl (c : Char) : Bool := c.toNat < 32 || c.toNat = 127

end ProtoSchema.Text
