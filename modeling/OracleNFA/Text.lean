/-
  OracleNFA.Text
  ──────────────
  **TEXT AS SIXTEEN-BIT UNITS.**

  Input symbols are code points, but the texts they come from are sequences
  of UTF-16 units in which a surrogate may stand alone.  `Text` keeps the
  units themselves, so nothing is lost on the way in or out:

      codePoints  — pairs of surrogates are joined, a lone one is a symbol
      ofPoints    — the units of a list of code points

  Messages are `Text` as well, because they quote keys and values that may
  hold a lone surrogate.
-/

namespace OracleNFA

/-- A text: its UTF-16 units in order.  Surrogates need not be paired. -/
structure Text where
  units : List UInt16
  deriving DecidableEq, Inhabited

namespace Text

/-! ## §1. Surrogates. -/

/-- A unit that opens a surrogate pair. -/
def isHigh (u : UInt16) : Bool :=
  0xD800 ≤ u.toNat && u.toNat ≤ 0xDBFF

/-- A unit that closes a surrogate pair. -/
def isLow (u : UInt16) : Bool :=
  0xDC00 ≤ u.toNat && u.toNat ≤ 0xDFFF

/-- The code point of a surrogate pair. -/
def joinPair (high low : UInt16) : Nat :=
  0x10000 + (high.toNat - 0xD800) * 0x400 + (low.toNat - 0xDC00)

/-- The units of one code point: itself below `0x10000`, a pair above. -/
def unitsOfPoint (c : Nat) : List UInt16 :=
  if c < 0x10000 then [UInt16.ofNat c]
  else
    let offset := c - 0x10000
    [UInt16.ofNat (0xD800 + offset / 0x400), UInt16.ofNat (0xDC00 + offset % 0x400)]

/-- The code points of a unit sequence.  A high surrogate directly followed
by a low one is one symbol; every other unit stands for itself. -/
def pointsOfUnits : List UInt16 → List Nat
  | [] => []
  | [u] => [u.toNat]
  | u :: v :: rest =>
      if isHigh u && isLow v then joinPair u v :: pointsOfUnits rest
      else u.toNat :: pointsOfUnits (v :: rest)

/-- The symbols of a text. -/
def codePoints (t : Text) : List Nat :=
  pointsOfUnits t.units

/-- The text that spells a list of code points. -/
def ofPoints (points : List Nat) : Text :=
  ⟨points.flatMap unitsOfPoint⟩

/-! ## §2. Building texts. -/

/-- The text of a string. -/
def ofString (s : String) : Text :=
  ofPoints (s.toList.map Char.toNat)

instance : Coe String Text := ⟨ofString⟩

instance : Append Text := ⟨fun a b => ⟨a.units ++ b.units⟩⟩

/-- The empty text. -/
def empty : Text := ⟨[]⟩

/-- Whether a text has no unit. -/
def isEmpty (t : Text) : Bool :=
  t.units.isEmpty

/-- One text after the other. -/
def concat (parts : List Text) : Text :=
  ⟨parts.flatMap Text.units⟩

/-- The parts with `separator` between neighbours. -/
def join (separator : Text) (parts : List Text) : Text :=
  concat (parts.intersperse separator)

/-- A text between two copies of `mark`. -/
def between (mark t : Text) : Text :=
  concat [mark, t, mark]

/-- The decimal digits of a natural number. -/
def ofDigits (n : Nat) : Text :=
  ofString (Nat.repr n)

/-- The string of a text.  A lone surrogate, which no string can hold, becomes
the replacement character. -/
def toString (t : Text) : String :=
  String.ofList (t.codePoints.map fun c =>
    if c.isValidChar then Char.ofNat c else Char.ofNat 0xFFFD)

/-! ## §3. Decimal keys. -/

/-- The value of an ASCII decimal digit. -/
def digit? (u : UInt16) : Option Nat :=
  if 0x30 ≤ u.toNat && u.toNat ≤ 0x39 then some (u.toNat - 0x30) else none

/-- The value of a sequence of decimal digits read after `seen`; `none` if a
unit is no digit. -/
def digitsFrom? (seen : Nat) : List UInt16 → Option Nat
  | [] => some seen
  | u :: rest =>
      match digit? u with
      | some d => digitsFrom? (seen * 10 + d) rest
      | none => none

/-- The value of a canonical decimal: digits only, at least one, and no
leading zero but in `0` itself. -/
def decimal? (t : Text) : Option Nat :=
  match t.units with
  | [] => none
  | [u] => digit? u
  | u :: rest => if digit? u = some 0 then none else digitsFrom? 0 (u :: rest)

end Text

end OracleNFA
