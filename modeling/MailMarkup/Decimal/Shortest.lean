/-!
# The shortest decimal of a double

A finite double is a sign and a dyadic number `significand · 2 ^ exponent`. The reals that round
to it form an interval, whose ends belong to it exactly when the significand is even. Among the
grids of multiples of `10 ^ k`, the shortest decimal lies on the coarsest one that meets the
interval, and is the point of that grid nearest to the double, a tie going to the larger.
-/
namespace MailMarkup.Decimal

def twoTo (n : Nat) : Nat := Nat.pow 2 n

def tenTo (n : Nat) : Nat := Nat.pow 10 n

inductive Parts where
  | finite (negative : Bool) (significand : Nat) (exponent : Int)
  | infinite (negative : Bool)
  | nan
  deriving DecidableEq

def partsOf (x : Float) : Parts :=
  let bits := x.toBits.toNat
  let negative := decide (twoTo 63 ≤ bits)
  let biased := bits / twoTo 52 % twoTo 11
  let fraction := bits % twoTo 52
  if biased = twoTo 11 - 1 then (if fraction = 0 then .infinite negative else .nan)
  else if biased = 0 then .finite negative fraction (-1074)
  else .finite negative (twoTo 52 + fraction) (Int.ofNat biased - 1075)

/-- The decimal `digits · 10 ^ exponent`. -/
structure Scientific where
  digits : Nat
  exponent : Int
  deriving DecidableEq

/-- A positive dyadic number in quarters of its last place, with the reals that round to it. -/
structure Interval where
  low : Nat
  middle : Nat
  high : Nat
  exponent : Int
  closed : Bool

def intervalOf (significand : Nat) (exponent : Int) : Interval where
  low := 4 * significand - (if significand = twoTo 52 ∧ exponent ≠ -1074 then 1 else 2)
  middle := 4 * significand
  high := 4 * significand + 2
  exponent := exponent - 2
  closed := significand % 2 = 0

/-- The point of the grid `10 ^ k` in the interval that is nearest to its middle. -/
def Interval.nearest? (i : Interval) (k : Int) : Option Nat :=
  let quarter := twoTo i.exponent.toNat * tenTo (-k).toNat
  let step := tenTo k.toNat * twoTo (-i.exponent).toNat
  let middle := i.middle * quarter
  let below := middle / step
  let above := below + 1
  let belowFits := below ≠ 0 ∧
    (i.low * quarter < below * step ∨ i.closed ∧ i.low * quarter = below * step)
  let aboveFits := above * step < i.high * quarter ∨ i.closed ∧ above * step = i.high * quarter
  if belowFits ∧ (¬ aboveFits ∨ 2 * middle < (2 * below + 1) * step) then some below
  else if aboveFits then some above
  else none

/-- An exponent of ten above the interval. -/
def Interval.ceiling (i : Interval) : Int :=
  let bits := i.exponent + Int.ofNat (i.high.log2 + 1)
  if 0 < bits then bits / 3 + 1 else 1 - (-bits * 3) / 10

/-- Seventeen digits always tell two doubles apart, and the ceiling is never fifty places high. -/
def Interval.shortest (i : Interval) : Scientific :=
  let found := (List.range 68).findSome? fun n =>
    let k := i.ceiling - Int.ofNat n
    (i.nearest? k).map (Scientific.mk · k)
  found.getD ⟨i.middle, 0⟩

def shortest (significand : Nat) (exponent : Int) : Scientific :=
  if significand = 0 then ⟨0, 0⟩ else (intervalOf significand exponent).shortest

end MailMarkup.Decimal
