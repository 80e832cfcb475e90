/-
  OracleNFA.Validation.Issue
  ──────────────────────────
  **WHAT A CHECK FINDS.**

  An issue is a complaint and the path to the value it is about.  Complaints
  are kept as causes; their wording is in `Complaint.message` alone, and
  `Issue.line` puts the path in front of it.
-/
import OracleNFA.Value.Render

namespace OracleNFA

/-- One step from a value to a part of it. -/
inductive Step where
  | key (name : Text)
  | index (i : Nat)
  deriving DecidableEq

/-- What can be wrong with a value. -/
inductive Complaint where
  /-- A value of another kind was expected. -/
  | wrongKind (expected received : Kind)
  /-- A number is not an integer. -/
  | notInteger
  /-- A number is below zero. -/
  | negative
  /-- A text that must have a character has none. -/
  | emptyText
  /-- An object has keys that mean nothing here. -/
  | unknownKeys (keys : List Text)
  /-- Two of the reserved states are one. -/
  | reservedNotDistinct
  /-- A reserved state is above the largest state. -/
  | reservedOutOfRange
  /-- A key of the rule table is not a canonical decimal. -/
  | keyNotDecimal
  /-- A key of the rule table is too large for a state. -/
  | keyNotSafe
  /-- A key of the rule table is above the largest state. -/
  | keyOutOfRange (largest : Number)
  /-- A rule leads above the largest state. -/
  | targetOutOfRange (target largest : Number)
  deriving DecidableEq

/-- A complaint and where it arose. -/
structure Issue where
  path : List Step
  complaint : Complaint
  deriving DecidableEq

/-! ## Wording. -/

/-- The text of a step. -/
def Step.text : Step → Text
  | .key name => name
  | .index i => Text.ofDigits i

/-- The wording of a complaint. -/
def Complaint.message : Complaint → Text
  | .wrongKind _ .absent => "Required"
  | .wrongKind expected received =>
      Text.concat ["Expected ", expected.name, ", received ", received.name]
  | .notInteger => "Expected integer, received float"
  | .negative => "Number must be greater than or equal to 0"
  | .emptyText => "String must contain at least 1 character(s)"
  | .unknownKeys keys =>
      Text.concat ["Unrecognized key(s) in object: ", Text.join ", " (keys.map (Text.between "'"))]
  | .reservedNotDistinct => "start, match and reject must be distinct states"
  | .reservedOutOfRange => "reserved states must not exceed maxStateId"
  | .keyNotDecimal => "state keys must be decimal state ids without leading zeros"
  | .keyNotSafe => "state exceeds the safe integer range"
  | .keyOutOfRange largest => Text.concat ["state exceeds maxStateId ", largest.toText]
  | .targetOutOfRange target largest =>
      Text.concat ["target ", target.toText, " exceeds maxStateId ", largest.toText]

namespace Issue

/-- The steps of the path, separated by points. -/
def pathText (i : Issue) : Text :=
  Text.join "." (i.path.map Step.text)

/-- The issue in one line: its path, if it has one, and its wording. -/
def line (i : Issue) : Text :=
  if i.path.isEmpty then i.complaint.message
  else Text.concat [i.pathText, ": ", i.complaint.message]

/-- The issue in one line, with a name for the value the path starts from. -/
def lineIn (whole : Text) (i : Issue) : Text :=
  let path := if i.pathText.isEmpty then whole else i.pathText
  Text.concat [path, ": ", i.complaint.message]

/-- The same issue seen from the value one step further out. -/
def under (step : Step) (i : Issue) : Issue :=
  ⟨step :: i.path, i.complaint⟩

end Issue

end OracleNFA
