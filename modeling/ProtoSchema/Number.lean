/-! # Decimal numbers

Numbers as people write them, and the 64-bit floating-point numbers nearest to them.  A `Decimal`
is a whole number of units of some power of ten.  `Number.ofText?` reads a sign, digits with a
point somewhere, and an exponent; or infinity, or no number at all, in words.
-/

namespace ProtoSchema

/-! ## §1 Decimals -/

/-- The value `digits · 10 ^ exponent`. -/
structure Decimal where
  digits : Nat
  exponent : Int
  deriving DecidableEq, Repr

namespace Decimal

/-- The nearest floating-point number.  A value with its first digit far outside of the range of
such numbers is settled without its power of ten, which might be beyond all measure. -/
def toFloat (d : Decimal) : Float :=
  let magnitude := (Nat.toDigits 10 d.digits).length + d.exponent
  if d.digits = 0 ∨ magnitude < -400 then 0.0
  else if 400 < magnitude then Float.ofBits 0x7FF0000000000000
  else Float.ofScientific d.digits (d.exponent < 0) d.exponent.natAbs

/-- The number without exponent: a point stands before its last digits if there are fractions, and
a digit stands before the point. -/
def text (d : Decimal) : String :=
  let places := d.exponent.natAbs
  let unit := Nat.pow 10 places
  if 0 ≤ d.exponent then toString (d.digits * unit)
  else
    let whole := Nat.toDigits 10 (d.digits / unit)
    let fraction := (Nat.toDigits 10 (d.digits % unit)).leftpad places '0'
    String.ofList (whole ++ '.' :: fraction)

end Decimal

/-! ## §2 Numbers in words and digits -/

inductive Number where
  | finite (negative : Bool) (size : Decimal)
  | infinite (negative : Bool)
  | notANumber
  deriving DecidableEq, Repr

namespace Number

def toFloat : Number → Float
  | finite false size => size.toFloat
  | finite true size => -size.toFloat
  | infinite false => Float.ofBits 0x7FF0000000000000
  | infinite true => -Float.ofBits 0x7FF0000000000000
  | notANumber => Float.ofBits 0x7FF8000000000000

/-- The number that decimal digits spell. -/
def ofDigits (ds : List Char) : Nat := ds.foldl (fun n d => 10 * n + (d.toNat - '0'.toNat)) 0

/-- Cut a sign off a text; it is true for minus. -/
def sign : List Char → Bool × List Char
  | '+' :: cs => (false, cs)
  | '-' :: cs => (true, cs)
  | cs => (false, cs)

/-- The exponent that makes up all of a text: nothing, or `e` and a whole number. -/
def exponent? : List Char → Option Int
  | [] => some 0
  | e :: cs =>
    let (negative, ds) := sign cs
    if (e = 'e' || e = 'E') && !ds.isEmpty && ds.all Char.isDigit then
      some (if negative then -(ofDigits ds : Int) else ofDigits ds)
    else none

/-- Digits with a point before, among or behind them, and an exponent.  There is at least one
digit. -/
def decimal? (cs : List Char) : Option Decimal :=
  let whole := cs.takeWhile Char.isDigit
  let (fraction, rest) := match cs.dropWhile Char.isDigit with
    | '.' :: cs => (cs.takeWhile Char.isDigit, cs.dropWhile Char.isDigit)
    | cs => ([], cs)
  if whole.isEmpty && fraction.isEmpty then none
  else (exponent? rest).map fun e => ⟨ofDigits (whole ++ fraction), e - fraction.length⟩

/-- The number that all of `s` spells.  Words are read in any case. -/
def ofText? (s : String) : Option Number :=
  let (negative, cs) := sign s.toList
  let word := String.ofList (cs.map Char.toLower)
  if word = "inf" ∨ word = "infinity" then some (infinite negative)
  else if word = "nan" then some notANumber
  else (decimal? cs).map (finite negative)

end Number

end ProtoSchema
