/-
  OracleNFA.Number.Basic
  ──────────────────────
  **NUMBERS AS ANSWERED.**

  An oracle is free to answer with any binary64 number, so a `Number` is an
  exact rational, an infinity, the zero with a minus sign, or no number at
  all.  Everything the automaton computes with is a natural number; the
  partial readings `integer?`, `natural?` and `safeNatural?` say which
  numbers denote one.
-/

namespace OracleNFA

/-- A binary64 number.  The negative zero is kept apart because trace lines
show its sign; it counts as zero everywhere else. -/
inductive Number where
  | nan
  | infinite (negative : Bool)
  | negativeZero
  | finite (value : Rat)
  deriving DecidableEq, Inhabited

namespace Number

/-- The number of a natural number. -/
def ofNat (n : Nat) : Number :=
  .finite (n : Int)

instance : Coe Nat Number := ⟨ofNat⟩

@[simp] theorem ofNat_inj {m n : Nat} : ofNat m = ofNat n ↔ m = n := by
  simp only [ofNat, Number.finite.injEq, Rat.intCast_inj, Int.ofNat_inj]

/-! ## §1. Readings. -/

/-- The rational a finite number denotes. -/
def rat? : Number → Option Rat
  | .finite value => some value
  | .negativeZero => some ((0 : Int) : Rat)
  | .nan | .infinite _ => none

/-- The integer a number denotes, if it denotes one. -/
def integer? (x : Number) : Option Int :=
  match x.rat? with
  | some value => if value.den = 1 then some value.num else none
  | none => none

/-- The natural number a number denotes, if it denotes one. -/
def natural? (x : Number) : Option Nat :=
  match x.integer? with
  | some (.ofNat n) => some n
  | some (.negSucc _) => none
  | none => none

/-- The largest natural number below which every natural number is a binary64
number of its own. -/
def maxSafe : Nat := Nat.pow 2 53 - 1

/-- Whether a number is an integer of magnitude at most `maxSafe`. -/
def isSafeInteger (x : Number) : Bool :=
  match x.integer? with
  | some i => i.natAbs ≤ maxSafe
  | none => false

/-- The natural number a number denotes, if it is at most `maxSafe`. -/
def safeNatural? (x : Number) : Option Nat :=
  x.natural?.filter (· ≤ maxSafe)

/-- The natural number a number denotes, and zero for any other number.  Only
used on numbers that were checked before. -/
def toNat (x : Number) : Nat :=
  x.natural?.getD 0

/-! ## §2. Comparison. -/

/-- Strictly smaller.  No number compares with `nan`. -/
def lt : Number → Number → Bool
  | .nan, _ | _, .nan => false
  | .infinite negative, y => negative && y != .infinite true
  | _, .infinite negative => !negative
  | x, y =>
      match x.rat?, y.rat? with
      | some a, some b => a < b
      | _, _ => false

/-- Numeric equality: `nan` equals nothing, the two zeros are equal. -/
def same : Number → Number → Bool
  | .nan, _ | _, .nan => false
  | .infinite a, .infinite b => a == b
  | .infinite _, _ | _, .infinite _ => false
  | x, y => x.rat? == y.rat?

/-- Whether a number is below zero. -/
def isNegative (x : Number) : Bool :=
  x.lt (ofNat 0)

/-- Whether a number may stand before another in ascending order. -/
def atMost (x y : Number) : Bool :=
  !y.lt x

/-- The same number with no sign on a zero. -/
def unsigned : Number → Number
  | .negativeZero => ofNat 0
  | x => x

end Number

end OracleNFA
