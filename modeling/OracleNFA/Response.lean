/-
  OracleNFA.Response
  ──────────────────
  **READING AN ANSWER.**

  An answer is a transition when it is an object that says whether the symbol
  is consumed and whether there is a second successor.  Anything else is
  unusable as a whole.  Of a transition each successor is judged on its own:
  one that is no valid state is dropped with a problem to report, the other
  stays.
-/
import OracleNFA.Oracle

namespace OracleNFA

/-- What is wrong with an answer or with one of its successors. -/
inductive Problem where
  /-- The answer is no transition. -/
  | unusable (issues : List Issue)
  /-- The first successor is no state. -/
  | next (given : Value)
  /-- There should be a second successor, and it is no state. -/
  | branch (given : Value)

/-- The wording of a problem. -/
def Problem.message : Problem → Text
  | .unusable issues =>
      Text.concat ["response is not a transition result (",
        Text.join ", " (issues.map (Issue.lineIn "response")), ")"]
  | .next given => Text.concat ["invalid nextState ", given.shown]
  | .branch given => Text.concat ["invalid secondState ", given.shown, " on enabled branch"]

/-- A transition that was read: its valid successors, first one first, and
what was wrong with the others. -/
structure Decoded where
  consumes : Bool
  successors : List StateId
  problems : List Problem

namespace Response

/-- The parts of an answer before its successors are judged. -/
structure Shape where
  next : Value
  branch : Value
  consumed : Bool
  enabled : Bool

/-- The check for the shape of an answer. -/
def check : Check Shape :=
  Check.object fun fields =>
    Shape.mk (Value.lookup "nextState" fields) (Value.lookup "secondState" fields)
      <$> Check.field fields "consumed" Check.bool
      <*> Check.field fields "enabled" Check.bool

/-- One successor: a state, or the problem it is. -/
def judge (ids : Numbering) (problem : Value → Problem) (v : Value) : Except Problem StateId :=
  match ids.validId? v with
  | some s => .ok s
  | none => .error (problem v)

/-- The successors of a shape in the order in which they are written, judged. -/
def judged (ids : Numbering) (shape : Shape) : List (Except Problem StateId) :=
  judge ids .next shape.next
    :: if shape.enabled then [judge ids .branch shape.branch] else []

/-- The states among judged successors. -/
def states : List (Except Problem StateId) → List StateId
  | [] => []
  | .ok s :: rest => s :: states rest
  | .error _ :: rest => states rest

/-- The problems among judged successors. -/
def problems : List (Except Problem StateId) → List Problem
  | [] => []
  | .ok _ :: rest => problems rest
  | .error p :: rest => p :: problems rest

/-- Read an answer. -/
def decode (ids : Numbering) (raw : Value) : Except (List Issue) Decoded :=
  match (check raw).result with
  | .error issues => .error issues
  | .ok shape =>
      let found := judged ids shape
      .ok ⟨shape.consumed, states found, problems found⟩

end Response

end OracleNFA
