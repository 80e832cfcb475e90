/-
  OracleNFA.Value.Basic
  ─────────────────────
  **DATA FROM OUTSIDE.**

  Sentinels, rule tables, options and answers arrive as plain data whose
  shape nobody has checked.  `Value` is that data.  A field that is missing
  and a field that holds no value are the same to every check, so both read
  as `absent`.

  The fields of an object have a fixed order, which shows wherever keys are
  listed: keys that are array indices come first, in ascending order, the
  others follow in the order in which they were written (`Value.ofFields`).
-/
import OracleNFA.Number.Basic
import OracleNFA.Text

namespace OracleNFA

/-- Unchecked data. -/
inductive Value where
  | absent
  | null
  | bool (b : Bool)
  | number (x : Number)
  | text (t : Text)
  | array (items : List Value)
  | object (fields : List (Text × Value))
  deriving Inhabited

/-- What a value is, as messages name it. -/
inductive Kind where
  | absent
  | null
  | bool
  | nan
  | number
  | text
  | array
  | object
  deriving DecidableEq

/-- The name of a kind. -/
def Kind.name : Kind → Text
  | .absent => "undefined"
  | .null => "null"
  | .bool => "boolean"
  | .nan => "nan"
  | .number => "number"
  | .text => "string"
  | .array => "array"
  | .object => "object"

namespace Value

/-! ## §1. Looking at a value. -/

/-- The kind of a value.  Not-a-number is a kind of its own; the infinities
are numbers. -/
def kind : Value → Kind
  | .absent => .absent
  | .null => .null
  | .bool _ => .bool
  | .number .nan => .nan
  | .number _ => .number
  | .text _ => .text
  | .array _ => .array
  | .object _ => .object

/-- The value under a key, `absent` if there is none. -/
def lookup (key : Text) : List (Text × Value) → Value
  | [] => .absent
  | (k, v) :: rest => if k = key then v else lookup key rest

/-- A field of an object; `absent` for anything that is not an object. -/
def field (v : Value) (key : Text) : Value :=
  match v with
  | .object fields => lookup key fields
  | _ => .absent

/-- Whether a value is missing or null. -/
def isNothing : Value → Bool
  | .absent | .null => true
  | _ => false

/-- Strict equality: equal simple values.  Arrays and objects are equal to
nothing, since each arrives on its own. -/
def same : Value → Value → Bool
  | .absent, .absent => true
  | .null, .null => true
  | .bool a, .bool b => a == b
  | .number x, .number y => x.same y
  | .text s, .text t => s == t
  | _, _ => false

/-! ## §2. The order of fields. -/

/-- The largest array index. -/
def maxIndex : Nat := Nat.pow 2 32 - 2

/-- The array index a key spells, if it spells one. -/
def index? (key : Text) : Option Nat :=
  key.decimal?.filter (· ≤ maxIndex)

/-- Set a field: in place if the key is there, else at the end. -/
def put (key : Text) (v : Value) : List (Text × Value) → List (Text × Value)
  | [] => [(key, v)]
  | (k, w) :: rest => if k = key then (k, v) :: rest else (k, w) :: put key v rest

/-- Insert a field with an index key into fields ascending by index. -/
def insertByIndex (index : Nat) (entry : Text × Value) :
    List (Nat × (Text × Value)) → List (Nat × (Text × Value))
  | [] => [(index, entry)]
  | (i, e) :: rest =>
      if index < i then (index, entry) :: (i, e) :: rest
      else (i, e) :: insertByIndex index entry rest

/-- The fields in the order in which an object keeps them. -/
def arrange (fields : List (Text × Value)) : List (Text × Value) :=
  let merged := fields.foldl (fun done (key, v) => put key v done) []
  let indexed := merged.foldl
    (fun done entry =>
      match index? entry.1 with
      | some i => insertByIndex i entry done
      | none => done) []
  indexed.map Prod.snd ++ merged.filter fun entry => (index? entry.1).isNone

/-- The object with these fields. -/
def ofFields (fields : List (Text × Value)) : Value :=
  .object (arrange fields)

end Value

end OracleNFA
