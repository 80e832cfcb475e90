/-
  OracleNFA.Validation.Schema
  ───────────────────────────
  **CHECKS FOR THE KINDS OF DATA.**

  The checks that descriptions of data are put together from.  Each names
  the kind it wants; a number, a text and an object then meet their own
  tests.  An object is checked field by field in the order of its
  description, and a closed one complains about its other keys at the end.
-/
import OracleNFA.Validation.Checked

namespace OracleNFA.Check

/-! ## §1. Simple values. -/

/-- A complaint about the value itself. -/
def here (c : Complaint) : Issue := ⟨[], c⟩

/-- The value is not of the expected kind. -/
def wrong {α : Type} (expected : Kind) (v : Value) : Checked α :=
  .fail (here (.wrongKind expected v.kind))

/-- True or false. -/
def bool : Check Bool
  | .bool b => .pass b
  | v => wrong .bool v

/-- Any text. -/
def text : Check Text
  | .text t => .pass t
  | v => wrong .text v

/-- A text with at least one character. -/
def someText : Check Text :=
  fun v => (text v).refine fun t => if t.isEmpty then [here .emptyText] else []

/-- Any number but not-a-number. -/
def number : Check Number
  | .number .nan => wrong .number (.number .nan)
  | .number x => .pass x
  | v => wrong .number v

/-- The tests for a natural number. -/
def naturalIssues (x : Number) : List Issue :=
  (if x.integer?.isNone then [here .notInteger] else [])
    ++ (if x.isNegative then [here .negative] else [])

/-- A non-negative integer of any size. -/
def natural : Check Number :=
  fun v => (number v).refine naturalIssues

/-! ## §2. Optional values, lists and objects. -/

/-- A value that may be missing. -/
def optional {α : Type} (check : Check α) : Check (Option α)
  | .absent => .pass none
  | v => (check v).map some

/-- The items of a list with the index of each. -/
def items {α : Type} (check : Check α) : Nat → List Value → List (Checked α)
  | _, [] => []
  | i, v :: rest => (check v).under (.index i) :: items check (i + 1) rest

/-- A list of values that each pass `check`. -/
def list {α : Type} (check : Check α) : Check (List α)
  | .array values => .all (items check 0 values)
  | v => wrong .array v

/-- A value with fields, checked by `check`. -/
def object {α : Type} (check : List (Text × Value) → Checked α) : Check α
  | .object fields => check fields
  | v => wrong .object v

/-- One field of an object. -/
def field {α : Type} (fields : List (Text × Value)) (key : Text) (check : Check α) : Checked α :=
  (check (Value.lookup key fields)).under (.key key)

/-- The keys of an object that are not among the known ones. -/
def strayKeys (known : List Text) (fields : List (Text × Value)) : List Text :=
  (fields.map Prod.fst).filter fun key => !known.contains key

/-- A closed object: no field beyond the known ones, whatever became of
those. -/
def closed {α : Type} (known : List Text) (fields : List (Text × Value)) (c : Checked α) :
    Checked α :=
  c.also <|
    match strayKeys known fields with
    | [] => []
    | stray => [here (.unknownKeys stray)]

end OracleNFA.Check
