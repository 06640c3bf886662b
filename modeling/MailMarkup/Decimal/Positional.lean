import MailMarkup.Decimal.Shortest

/-!
# Positional decimals

The written form of a double: the shortest digits that read back, in full positional notation,
with no point after a whole number. A numeral is read back exactly and rounded once.
-/
namespace MailMarkup.Decimal

def digitText (n : Nat) : List Char := Nat.toDigits 10 n

/-- Digits with the point `places` digits from the right. -/
def withPoint (digits : List Char) (places : Nat) : List Char :=
  if places < digits.length then
    digits.take (digits.length - places) ++ '.' :: digits.drop (digits.length - places)
  else
    '0' :: '.' :: List.replicate (places - digits.length) '0' ++ digits

def Scientific.positional (s : Scientific) : List Char :=
  if 0 ≤ s.exponent then digitText s.digits ++ List.replicate s.exponent.toNat '0'
  else withPoint (digitText s.digits) (-s.exponent).toNat

def signed (negative : Bool) (cs : List Char) : List Char := if negative then '-' :: cs else cs

def Parts.written : Parts → List Char
  | .finite negative significand exponent =>
    signed negative (if significand = 0 then ['0'] else (shortest significand exponent).positional)
  | .infinite negative => signed negative ['i', 'n', 'f']
  | .nan => ['N', 'a', 'N']

def text (x : Float) : String := String.ofList (partsOf x).written

/-- The written form of a double with its fraction cut off. -/
def wholeText (x : Float) : String := String.ofList ((partsOf x).written.takeWhile (· != '.'))

def digitValue (c : Char) : Nat := c.toNat - '0'.toNat

def digitsValue (cs : List Char) : Nat := cs.foldl (fun n c => 10 * n + digitValue c) 0

/-- The double nearest to the numeral with the given digits before and after its point. -/
def numeral (negative : Bool) (whole fraction : List Char) : Float :=
  let magnitude := Float.ofScientific (digitsValue (whole ++ fraction)) true fraction.length
  if negative then -magnitude else magnitude

/-- The run of ASCII digits at the start, and the rest. -/
def digitRun (cs : List Char) : List Char × List Char :=
  (cs.takeWhile Char.isDigit, cs.dropWhile Char.isDigit)

/-- The digits after a point, none if there is no point, and the rest. -/
def readFraction : List Char → List Char × List Char
  | '.' :: cs => digitRun cs
  | cs => ([], cs)

end MailMarkup.Decimal
