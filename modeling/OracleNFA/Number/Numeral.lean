/-
  OracleNFA.Number.Numeral
  ────────────────────────
  **READING A TEXT AS A NUMBER.**

  The keys of a rule table are read as numerals before their range is
  checked, whatever they hold.  A numeral, with white space around it
  ignored, is

      nothing at all                          — zero
      0x.. , 0o.. , 0b..                      — an unsigned radix numeral
      [+-] Infinity
      [+-] digits [. digits] [e [+-] digits]  — digits may be missing on one
                                                side of the point

  and every other text denotes no number.  The value is the binary64 number
  nearest to what is written.
-/
import OracleNFA.Number.Nearest
import OracleNFA.Text

namespace OracleNFA.Number

/-! ## §1. White space. -/

/-- The units that are white space or end a line. -/
def isBlank (u : UInt16) : Bool :=
  let c := u.toNat
  (9 ≤ c && c ≤ 13) || c = 0x20 || c = 0xA0 || c = 0x1680 || (0x2000 ≤ c && c ≤ 0x200A)
    || c = 0x2028 || c = 0x2029 || c = 0x202F || c = 0x205F || c = 0x3000 || c = 0xFEFF

/-- The units without the white space at both ends. -/
def trimmed (units : List UInt16) : List UInt16 :=
  ((units.dropWhile isBlank).reverse.dropWhile isBlank).reverse

/-! ## §2. Digits. -/

/-- The value of an ASCII letter or digit as a digit of a radix up to 36. -/
def digitValue? (u : UInt16) : Option Nat :=
  let c := u.toNat
  if 0x30 ≤ c ∧ c ≤ 0x39 then some (c - 0x30)
  else if 0x41 ≤ c ∧ c ≤ 0x5A then some (c - 0x41 + 10)
  else if 0x61 ≤ c ∧ c ≤ 0x7A then some (c - 0x61 + 10)
  else none

/-- The value of a sequence of digits in `radix`, read after `seen`. -/
def radixValue? (radix seen : Nat) : List UInt16 → Option Nat
  | [] => some seen
  | u :: rest =>
      match digitValue? u with
      | some d => if d < radix then radixValue? radix (seen * radix + d) rest else none
      | none => none

/-- A radix numeral behind its `0x`, `0o` or `0b`: at least one digit. -/
def ofRadixDigits (radix : Nat) (digits : List UInt16) : Number :=
  if digits.isEmpty then .nan
  else
    match radixValue? radix 0 digits with
    | some n => ofDecimal false n 0
    | none => .nan

/-- The decimal digits at the front of a sequence, and what follows them. -/
def leadingDigits (units : List UInt16) : List UInt16 × List UInt16 :=
  (units.takeWhile fun u => (Text.digit? u).isSome, units.dropWhile fun u => (Text.digit? u).isSome)

/-- The value of decimal digits. -/
def decimalValue (digits : List UInt16) : Nat :=
  (radixValue? 10 0 digits).getD 0

/-! ## §3. Signed decimals. -/

/-- The unit of an ASCII character. -/
def unit (c : Char) : UInt16 :=
  UInt16.ofNat c.toNat

/-- A sign at the front, if there is one, and what follows it. -/
def leadingSign : List UInt16 → Bool × List UInt16
  | [] => (false, [])
  | u :: rest =>
      if u = unit '-' then (true, rest)
      else if u = unit '+' then (false, rest)
      else (false, u :: rest)

/-- The exponent a decimal ends in: nothing, or `e` and a signed integer. -/
def exponent? : List UInt16 → Option Int
  | [] => some 0
  | u :: rest =>
      if u = unit 'e' ∨ u = unit 'E' then
        let (negative, digits) := leadingSign rest
        if digits.isEmpty then none
        else
          match radixValue? 10 0 digits with
          | some n => some (if negative then -(n : Int) else n)
          | none => none
      else none

/-- An unsigned decimal with the sign that stood before it. -/
def ofUnsigned (negative : Bool) (units : List UInt16) : Number :=
  let (whole, rest) := leadingDigits units
  let (fraction, rest) :=
    match rest with
    | [] => ([], [])
    | u :: after => if u = unit '.' then leadingDigits after else ([], u :: after)
  if whole.isEmpty ∧ fraction.isEmpty then .nan
  else
    match exponent? rest with
    | some e => ofDecimal negative (decimalValue (whole ++ fraction)) (e - fraction.length)
    | none => .nan

/-- A numeral with an optional sign. -/
def ofSigned (units : List UInt16) : Number :=
  let (negative, rest) := leadingSign units
  if rest = ("Infinity" : Text).units then .infinite negative else ofUnsigned negative rest

/-! ## §4. The reading. -/

/-- The number a text denotes. -/
def ofText (t : Text) : Number :=
  match trimmed t.units with
  | [] => ofNat 0
  | zero :: mark :: digits =>
      if zero = unit '0' ∧ (mark = unit 'x' ∨ mark = unit 'X') then ofRadixDigits 16 digits
      else if zero = unit '0' ∧ (mark = unit 'o' ∨ mark = unit 'O') then ofRadixDigits 8 digits
      else if zero = unit '0' ∧ (mark = unit 'b' ∨ mark = unit 'B') then ofRadixDigits 2 digits
      else ofSigned (zero :: mark :: digits)
  | units => ofSigned units

end OracleNFA.Number
