/-
  OracleNFA.Number.Nearest
  ────────────────────────
  **ROUNDING TO BINARY64.**

  A written decimal denotes a rational; the number it stands for is the
  binary64 value nearest to it, a tie going to the even significand.  Below
  the smallest normal value the grid stays at `2 ^ (-1074)`; from `2 ^ 1024`
  on the result is an infinity.  All arithmetic is exact.
-/
import OracleNFA.Number.Basic

namespace OracleNFA.Number

/-- `n / d` rounded to the nearest natural number, a tie to the even one. -/
def divideToEven (n d : Nat) : Nat :=
  let quotient := n / d
  let remainder := n % d
  if 2 * remainder < d then quotient
  else if d < 2 * remainder then quotient + 1
  else quotient + quotient % 2

/-- The exponent `e` with `2 ^ e ≤ n / d < 2 ^ (e + 1)`, for positive `n` and `d`. -/
def binaryExponent (n d : Nat) : Int :=
  let guess : Int := (Nat.log2 n : Int) - (Nat.log2 d : Int)
  let reached :=
    if 0 ≤ guess then d * Nat.pow 2 guess.toNat ≤ n else d ≤ n * Nat.pow 2 (-guess).toNat
  if reached then guess else guess - 1

/-- The exponent of the last place of the binary64 values around `n / d`:
53 significant bits, but no place below `2 ^ (-1074)`. -/
def lastPlace (n d : Nat) : Int :=
  max (binaryExponent n d - 52) (-1074)

/-- The significand of the binary64 value nearest to `n / d`, counted in
units of `2 ^ place`. -/
def significand (n d : Nat) (place : Int) : Nat :=
  if 0 ≤ place then divideToEven n (d * Nat.pow 2 place.toNat)
  else divideToEven (n * Nat.pow 2 (-place).toNat) d

/-- `m` units of `base ^ place`, for any integer `place`. -/
def scaledBy (base m : Nat) (place : Int) : Rat :=
  if 0 ≤ place then ((m * Nat.pow base place.toNat : Nat) : Int)
  else mkRat m (Nat.pow base (-place).toNat)

/-- `m` units of `2 ^ place`. -/
def scaled (m : Nat) (place : Int) : Rat :=
  scaledBy 2 m place

/-- Whether `m` units of `2 ^ place` are too many for a finite value. -/
def overflows (m : Nat) (place : Int) : Bool :=
  0 ≤ place && Nat.pow 2 1024 ≤ m * Nat.pow 2 place.toNat

/-- The binary64 number nearest to `n / d`, with the sign given. -/
def nearestWithSign (negative : Bool) (n d : Nat) : Number :=
  let place := lastPlace n d
  let m := significand n d place
  if n = 0 ∨ m = 0 then if negative then .negativeZero else .finite ((0 : Int) : Rat)
  else if overflows m place then .infinite negative
  else .finite (if negative then -scaled m place else scaled m place)

/-- The binary64 number nearest to a rational. -/
def nearest (value : Rat) : Number :=
  nearestWithSign (value.num < 0) value.num.natAbs value.den

/-- The sum of two numbers, rounded once.  An infinity absorbs every finite
number, and two opposite ones have no sum. -/
def add : Number → Number → Number
  | .nan, _ | _, .nan => .nan
  | .infinite a, .infinite b => if a = b then .infinite a else .nan
  | .infinite a, _ => .infinite a
  | _, .infinite b => .infinite b
  | .negativeZero, .negativeZero => .negativeZero
  | x, y => nearest (x.rat?.getD 0 + y.rat?.getD 0)

/-- The binary64 number nearest to the decimal `± digits · 10 ^ exponent`.  An
exponent that puts every digit beyond the largest or below the smallest
value is not multiplied out. -/
def ofDecimal (negative : Bool) (digits : Nat) (exponent : Int) : Number :=
  if digits = 0 then nearestWithSign negative 0 1
  else if 400 < exponent then .infinite negative
  else if 0 ≤ exponent then nearestWithSign negative (digits * Nat.pow 10 exponent.toNat) 1
  else if exponent + (Nat.log2 digits : Int) < -1200 then nearestWithSign negative 0 1
  else nearestWithSign negative digits (Nat.pow 10 (-exponent).toNat)

end OracleNFA.Number
