/-
  OracleNFA.Value.Render
  ──────────────────────
  **VALUES IN MESSAGES.**

  A value is shown in two forms.  `toText?` is the plain form: a text stands
  for itself, an array is its items joined by commas, an object shows
  nothing of its fields.  Not every value has one.  A field `toString` of an
  object stands in the place of its conversion, and since it is data it
  converts nothing; so such an object has no plain form, and no array has one
  that such an object is in.  `quoted` is the JSON form, which every value
  has; in it all can be told apart but those JSON has no word for.
-/
import OracleNFA.Value.Basic
import OracleNFA.Number.Shortest

namespace OracleNFA.Value

/-! ## §1. The plain form. -/

/-- Whether an object with these fields brings its own conversion. -/
def convertsItself (fields : List (Text × Value)) : Bool :=
  fields.any fun entry => entry.1 = "toString"

mutual

/-- The plain form of a value, if it has one. -/
def toText? : Value → Option Text
  | .absent => some "undefined"
  | .null => some "null"
  | .bool true => some "true"
  | .bool false => some "false"
  | .number x => some x.toText
  | .text t => some t
  | .array items => (itemTexts? items).map (Text.join ",")
  | .object fields => if convertsItself fields then none else some "[object Object]"

/-- The plain forms of the items of an array, empty for missing and null
ones, if all the others have one. -/
def itemTexts? : List Value → Option (List Text)
  | [] => some []
  | item :: rest => do
      let first ← if item.isNothing then some Text.empty else item.toText?
      let others ← itemTexts? rest
      return first :: others

end

/-! ## §2. The JSON form. -/

/-- A hexadecimal digit in lower case. -/
def hexDigit (n : Nat) : UInt16 :=
  UInt16.ofNat (if n < 10 then 0x30 + n else 0x61 + (n - 10))

/-- A unit written as `\u` and four hexadecimal digits. -/
def unitEscape (u : UInt16) : List UInt16 :=
  let n := u.toNat
  [0x5C, 0x75, hexDigit (n / 0x1000 % 16), hexDigit (n / 0x100 % 16), hexDigit (n / 0x10 % 16),
    hexDigit (n % 16)]

/-- One unit of a quoted text that is not half of a surrogate pair. -/
def quotedUnit (u : UInt16) : List UInt16 :=
  if u = 0x22 then [0x5C, 0x22]
  else if u = 0x5C then [0x5C, 0x5C]
  else if u = 0x08 then [0x5C, 0x62]
  else if u = 0x0C then [0x5C, 0x66]
  else if u = 0x0A then [0x5C, 0x6E]
  else if u = 0x0D then [0x5C, 0x72]
  else if u = 0x09 then [0x5C, 0x74]
  else if u.toNat < 0x20 || Text.isHigh u || Text.isLow u then unitEscape u
  else [u]

/-- The units of a text with what JSON cannot hold escaped: quotes,
backslashes, control characters and surrogates that stand alone. -/
def quotedUnits : List UInt16 → List UInt16
  | [] => []
  | [u] => quotedUnit u
  | u :: v :: rest =>
      if Text.isHigh u && Text.isLow v then u :: v :: quotedUnits rest
      else quotedUnit u ++ quotedUnits (v :: rest)

/-- A text in quotes. -/
def quotedText (t : Text) : Text :=
  Text.between "\"" ⟨quotedUnits t.units⟩

/-- The JSON form of a number: `null` if it is not finite. -/
def quotedNumber (x : Number) : Text :=
  match x.rat? with
  | some _ => x.toText
  | none => "null"

mutual

/-- The JSON form of a value. -/
def quoted : Value → Text
  | .absent | .null => "null"
  | .bool true => "true"
  | .bool false => "false"
  | .number x => quotedNumber x
  | .text t => quotedText t
  | .array items => Text.concat ["[", Text.join "," (quotedItems items), "]"]
  | .object fields => Text.concat ["\x7b", Text.join "," (quotedFields fields), "\x7d"]

/-- The JSON forms of the items of an array. -/
def quotedItems : List Value → List Text
  | [] => []
  | item :: rest => item.quoted :: quotedItems rest

/-- The JSON forms of the fields of an object.  A field without a value is
left out. -/
def quotedFields : List (Text × Value) → List Text
  | [] => []
  | (_, .absent) :: rest => quotedFields rest
  | (key, v) :: rest => Text.concat [quotedText key, ":", v.quoted] :: quotedFields rest

end

/-- The JSON form of a value, with a word for the missing one. -/
def shown : Value → Text
  | .absent => "undefined"
  | v => v.quoted

end OracleNFA.Value
