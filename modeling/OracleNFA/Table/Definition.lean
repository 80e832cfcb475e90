/-
  OracleNFA.Table.Definition
  ──────────────────────────
  **ORACLES WRITTEN AS RULE TABLES.**

  A definition gives the sentinels of an oracle and, for each state that has
  any, a list of guarded rules.  It arrives as unchecked data.  `check` finds
  everything that is wrong with it in one pass:

      the sentinels, the rules and the keys each on their own, then
      the keys that are no state and the keys and targets above the largest
      state (`Definition.rangeIssues`)

  A definition that passes is a plain value over natural numbers.
-/
import OracleNFA.Sentinels
import OracleNFA.Number.Numeral
import OracleNFA.Configuration

namespace OracleNFA

/-! ## §1. Rules and definitions. -/

/-- One guarded rule.  Every guard that is present must hold for the rule to
apply. -/
structure Rule (ι : Type) where
  /-- the current symbol is one of these -/
  on : Option Text
  /-- the current symbol is real and none of these -/
  notOn : Option Text
  /-- the input has ended, or has not -/
  atEnd : Option Bool
  /-- there is a next symbol, and it is one of these -/
  lookahead : Option Text
  /-- there is no next symbol, or it is none of these -/
  notLookahead : Option Text
  /-- the successor -/
  next : ι
  /-- the second successor -/
  branch : Option ι
  /-- whether the current symbol is consumed; by default it is not -/
  consume : Option Bool
  deriving DecidableEq

/-- The sentinels of an oracle and the rules of its states, each under the
decimal text of the state. -/
structure Definition (ι : Type) where
  sentinels : Sentinels ι
  states : List (Text × List (Rule ι))
  deriving DecidableEq

namespace Rule

variable {ι κ : Type}

/-- The same rule over other ids. -/
def map (f : ι → κ) (r : Rule ι) : Rule κ :=
  { r with next := f r.next, branch := r.branch.map f }

/-- The keys of a rule. -/
def keys : List Text :=
  ["on", "notOn", "atEnd", "lookahead", "notLookahead", "next", "branch", "consume"]

/-- The check for a rule. -/
def check : Check (Rule Number) :=
  Check.object fun fields =>
    Check.closed keys fields <| mk
      <$> Check.field fields "on" (Check.optional Check.someText)
      <*> Check.field fields "notOn" (Check.optional Check.text)
      <*> Check.field fields "atEnd" (Check.optional Check.bool)
      <*> Check.field fields "lookahead" (Check.optional Check.someText)
      <*> Check.field fields "notLookahead" (Check.optional Check.someText)
      <*> Check.field fields "next" Check.natural
      <*> Check.field fields "branch" (Check.optional Check.natural)
      <*> Check.field fields "consume" (Check.optional Check.bool)

/-- A rule as data. -/
def toValue (r : Rule Nat) : Value :=
  let text (key : Text) (t : Text) : Text × Value := (key, .text t)
  let flag (key : Text) (b : Bool) : Text × Value := (key, .bool b)
  let state (key : Text) (id : Nat) : Text × Value := (key, .number (.ofNat id))
  .object ((r.on.map (text "on")).toList
    ++ (r.notOn.map (text "notOn")).toList
    ++ (r.atEnd.map (flag "atEnd")).toList
    ++ (r.lookahead.map (text "lookahead")).toList
    ++ (r.notLookahead.map (text "notLookahead")).toList
    ++ [state "next" r.next]
    ++ (r.branch.map (state "branch")).toList
    ++ (r.consume.map (flag "consume")).toList)

end Rule

namespace Definition

variable {ι κ : Type}

/-- The same definition over other ids. -/
def map (f : ι → κ) (d : Definition ι) : Definition κ :=
  ⟨d.sentinels.map f, d.states.map fun (key, rules) => (key, rules.map (Rule.map f))⟩

/-! ## §2. The table of states. -/

/-- A key that no table keeps, whatever is under it. -/
def droppedKey : Text := "__proto__"

/-- A key of the table must be a canonical decimal. -/
def keyIssues (key : Text) : List Issue :=
  if key.decimal?.isSome then [] else [Check.here .keyNotDecimal]

/-- One entry of the table: its key and its rules. -/
def checkEntry (entry : Text × Value) : Checked (Text × List (Rule Number)) :=
  (Prod.mk <$> Checked.flagged (keyIssues entry.1) entry.1 <*> Check.list Rule.check entry.2).under
    (.key entry.1)

/-- The table of states. -/
def checkStates : Check (List (Text × List (Rule Number))) :=
  Check.object fun fields =>
    (Checked.all (fields.map checkEntry)).map (List.filter fun entry => entry.1 ≠ droppedKey)

/-! ## §3. Ranges. -/

/-- What is wrong with a key as a state: it is not exact, or else it is above
the largest state. -/
def keyComplaint? (largest : Option Number) (key : Text) : Option Complaint :=
  let state := Number.ofText key
  if !state.isSafeInteger then some .keyNotSafe
  else
    match largest with
    | some m => if m.lt state then some (.keyOutOfRange m) else none
    | none => none

/-- The targets of a rule that are above the largest state. -/
def targetIssues (largest : Number) (r : Rule Number) : List Issue :=
  let above (name : Text) (target : Number) : List Issue :=
    if largest.lt target then [⟨[.key name], .targetOutOfRange target largest⟩] else []
  above "next" r.next ++ (r.branch.map (above "branch")).getD []

/-- The issues of a list of rules, each under its index. -/
def rulesIssues (largest : Number) : Nat → List (Rule Number) → List Issue
  | _, [] => []
  | i, r :: rest =>
      (targetIssues largest r).map (Issue.under (.index i)) ++ rulesIssues largest (i + 1) rest

/-- The range issues of one entry: its key, then its rules. -/
def entryIssues (largest : Option Number) (entry : Text × List (Rule Number)) : List Issue :=
  let issues := ((keyComplaint? largest entry.1).map Check.here).toList
    ++ (largest.map fun m => rulesIssues m 0 entry.2).getD []
  issues.map fun i => (i.under (.key entry.1)).under (.key "states")

/-- The keys that are no state, and the keys and targets above the largest
state.  One fault never hides another. -/
def rangeIssues (d : Definition Number) : List Issue :=
  d.states.flatMap (entryIssues d.sentinels.maxStateId)

/-! ## §4. Definitions. -/

/-- The check for a definition. -/
def check : Check (Definition Number) :=
  Check.object fun fields =>
    let parts := Check.closed ["sentinels", "states"] fields <| mk
      <$> Check.field fields "sentinels" Sentinels.check
      <*> Check.field fields "states" checkStates
    parts.refine rangeIssues

/-- The definition a value makes. -/
def ofValue (v : Value) : Except ConfigError (Definition Nat) :=
  match (check v).result with
  | .ok d => .ok (d.map Number.toNat)
  | .error issues => .error (.definition issues)

/-- A definition as data. -/
def toValue (d : Definition Nat) : Value :=
  let entry (key : Text) (v : Value) : Text × Value := (key, v)
  .object [entry "sentinels" d.sentinels.toValue,
    entry "states" (.object (d.states.map fun (key, rules) =>
      (key, .array (rules.map Rule.toValue))))]

end Definition

end OracleNFA
