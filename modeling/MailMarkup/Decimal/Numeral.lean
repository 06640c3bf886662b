import MailMarkup.Decimal.Positional

/-!
# Numerals

A numeral is an optional sign, digits with at most one point among or around them, and an optional
exponent of ten. A scalar also names the infinities and the number that is none; a numeral that is
too large for a finite double is refused.
-/
namespace MailMarkup.Decimal

/-- The double nearest to `digits · 10 ^ (exponent - places)`. Beyond the range of doubles the
power of ten is not formed. -/
def scaled (negative : Bool) (digits places : Nat) (exponent : Int) : Float :=
  let power := exponent - places
  let size := Int.ofNat (digitText digits).length
  let magnitude : Float :=
    if digits = 0 ∨ power + size < -400 then 0
    else if 400 < power + size then 1 / 0
    else if 0 ≤ power then Float.ofScientific digits false power.toNat
    else Float.ofScientific digits true (-power).toNat
  if negative then -magnitude else magnitude

def readSign : List Char → Bool × List Char
  | '-' :: cs => (true, cs)
  | '+' :: cs => (false, cs)
  | cs => (false, cs)

/-- The exponent that ends a numeral, zero if nothing is left. -/
def readExponent? : List Char → Option Int
  | [] => some 0
  | c :: cs =>
    let signed := readSign cs
    if (c = 'e' ∨ c = 'E') ∧ signed.2 ≠ [] ∧ signed.2.all Char.isDigit then
      let size := Int.ofNat (digitsValue signed.2)
      some (if signed.1 then -size else size)
    else none

def readNumeral? (cs : List Char) : Option Float :=
  let signed := readSign cs
  let whole := digitRun signed.2
  let fraction := readFraction whole.2
  if whole.1 = [] ∧ fraction.1 = [] then none
  else (readExponent? fraction.2).map
    (scaled signed.1 (digitsValue (whole.1 ++ fraction.1)) fraction.1.length)

/-- The number a plain scalar stands for. -/
def readScalar? (s : String) : Option Float :=
  if s ∈ [".inf", ".Inf", ".INF", "+.inf", "+.Inf", "+.INF"] then some (1 / 0)
  else if s ∈ ["-.inf", "-.Inf", "-.INF"] then some (-1 / 0)
  else if s ∈ [".nan", ".NaN", ".NAN"] then some (0 / 0)
  else (readNumeral? s.toList).filter Float.isFinite

end MailMarkup.Decimal
