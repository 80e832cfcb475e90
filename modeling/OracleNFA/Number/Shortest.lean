/-
  OracleNFA.Number.Shortest
  ─────────────────────────
  **THE SHORTEST DECIMAL THAT READS BACK.**

  A number is written with the fewest digits that round to it again; of two
  such decimals the nearer is taken, and of two equally near the even one.
  The candidates of a length are the two neighbours of the number on the
  decimal grid of that length, so the search is a finite scan over lengths.

  `layout` fixes where the digits are written positionally and where with an
  exponent.
-/
import OracleNFA.Number.Nearest
import OracleNFA.Text

namespace OracleNFA.Number

/-! ## §1. The rationals that round to a number. -/

/-- The interval of rationals around a positive binary64 value that round to
it.  Its ends round to it as well when the significand is even. -/
structure Catchment where
  low : Rat
  high : Rat
  closed : Bool

/-- Whether a rational lies in the interval. -/
def Catchment.holds (c : Catchment) (x : Rat) : Bool :=
  if c.closed then c.low ≤ x && x ≤ c.high else c.low < x && x < c.high

/-- The interval of a positive value.  Below a power of two the grid is twice
as fine, so there the lower end is half as far. -/
def catchment (value : Rat) : Catchment :=
  let place := lastPlace value.num.natAbs value.den
  let m := significand value.num.natAbs value.den place
  let half := scaled 1 (place - 1)
  let below := if m = Nat.pow 2 52 ∧ -1074 < place then scaled 1 (place - 2) else half
  ⟨value - below, value + half, m % 2 = 0⟩

/-! ## §2. The digits. -/

/-- A decimal `0.digits · 10 ^ point`, where `digits` has `length` places and
a nonzero first one. -/
structure Decimal where
  digits : Nat
  length : Nat
  point : Int

/-- `10 ^ e` for any integer `e`. -/
def powerOfTen (e : Int) : Rat :=
  scaledBy 10 1 e

/-- The `point` of a positive value: `10 ^ (point - 1) ≤ value < 10 ^ point`.
Found from the binary exponent, which misses it by at most one. -/
def decimalPoint (value : Rat) : Int :=
  let guess := binaryExponent value.num.natAbs value.den * 30103 / 100000
  if value < powerOfTen guess then guess
  else if value < powerOfTen (guess + 1) then guess + 1
  else guess + 2

/-- The decimals of a given length next to `value` that lie in the interval,
the better one if both do. -/
def candidate? (c : Catchment) (value : Rat) (point : Int) (length : Nat) : Option Nat :=
  let unit := powerOfTen (point - length)
  let lower := (value / unit).floor.toNat
  let upper := lower + 1
  let lowerAt := ((lower : Int) : Rat) * unit
  let upperAt := ((upper : Int) : Rat) * unit
  let lowerIn := 0 < lower && c.holds lowerAt
  let upperIn := c.holds upperAt
  if lowerIn && upperIn then
    let down := value - lowerAt
    let up := upperAt - value
    some (if down < up then lower
      else if up < down then upper
      else if lower % 2 = 0 then lower else upper)
  else if lowerIn then some lower
  else if upperIn then some upper
  else none

/-- The first length from `length` on that has a candidate.  Seventeen digits
always suffice. -/
def firstCandidate (c : Catchment) (value : Rat) (point : Int) : Nat → Nat → Decimal
  | 0, length => ⟨(value / powerOfTen (point - length)).floor.toNat, length, point⟩
  | more + 1, length =>
      match candidate? c value point length with
      | some digits =>
          if digits = Nat.pow 10 length then ⟨1, 1, point + 1⟩ else ⟨digits, length, point⟩
      | none => firstCandidate c value point more (length + 1)

/-- The shortest decimal of a positive value. -/
def shortest (value : Rat) : Decimal :=
  firstCandidate (catchment value) value (decimalPoint value) 17 1

/-! ## §3. The layout. -/

/-- Which decimals are written positionally. -/
structure Layout where
  /-- the largest `point` written without exponent -/
  largestPoint : Int
  /-- the smallest `point` written without exponent -/
  smallestPoint : Int

/-- Numbers are written positionally up to 21 places before the point and up
to six zeros behind it. -/
def layout : Layout := ⟨21, -5⟩

/-- `n` zeros. -/
def zeros (n : Nat) : List Char :=
  List.replicate n '0'

/-- The digits of a decimal in the given layout. -/
def Layout.write (l : Layout) (d : Decimal) : List Char :=
  let digits := (Nat.repr d.digits).toList
  if l.largestPoint < d.point ∨ d.point < l.smallestPoint then
    let exponent := d.point - 1
    let mantissa :=
      match digits with
      | [] => []
      | [first] => [first]
      | first :: rest => first :: '.' :: rest
    let sign := if exponent < 0 then '-' else '+'
    mantissa ++ 'e' :: sign :: (Nat.repr exponent.natAbs).toList
  else if d.point ≤ 0 then '0' :: '.' :: zeros (-d.point).toNat ++ digits
  else if d.length ≤ d.point.toNat then digits ++ zeros (d.point.toNat - d.length)
  else digits.take d.point.toNat ++ '.' :: digits.drop d.point.toNat

/-- The text of a finite value.  An integer of magnitude at most `maxSafe` is
its own shortest decimal. -/
def rationalText (value : Rat) : Text :=
  let sign := if value < 0 then ['-'] else []
  let magnitude :=
    if value.den = 1 ∧ value.num.natAbs ≤ maxSafe then (Nat.repr value.num.natAbs).toList
    else layout.write (shortest (if value < 0 then -value else value))
  Text.ofString (String.ofList (sign ++ magnitude))

/-- The text of a number.  The sign of a zero is not written. -/
def toText : Number → Text
  | .nan => "NaN"
  | .infinite false => "Infinity"
  | .infinite true => "-Infinity"
  | .negativeZero => "0"
  | .finite value => rationalText value

/-- The text of a number in trace lines, where a zero keeps its sign. -/
def toSignedText : Number → Text
  | .negativeZero => "-0"
  | x => x.toText

end OracleNFA.Number

/-- The text of a natural number: all its digits up to `maxSafe`, the shortest
decimal above. -/
def OracleNFA.Text.ofNat (n : Nat) : OracleNFA.Text :=
  (OracleNFA.Number.ofNat n).toText
