/-
  OracleNFA.Exploration.Event
  ───────────────────────────
  **WHAT A TRACE TELLS.**

  An event is something worth telling about a match, kept as its facts.  Each
  belongs to one channel of the trace and has one wording.
-/
import OracleNFA.Response
import OracleNFA.Configuration

namespace OracleNFA

/-- How a match ends.  `exhausted` means that the budget was spent before the
question was decided. -/
inductive Verdict where
  | accepted
  | rejected
  | exhausted
  deriving DecidableEq

/-- The word for a verdict. -/
def Verdict.name : Verdict → Text
  | .accepted => "accepted"
  | .rejected => "rejected"
  | .exhausted => "exhausted"

/-- The channels of the trace. -/
inductive Channel where
  | step
  | frontier
  | path
  | search
  deriving DecidableEq

/-- The name of a channel. -/
def Channel.name : Channel → Text
  | .step => "step"
  | .frontier => "frontier"
  | .path => "path"
  | .search => "search"

/-- Something that happened during a match. -/
inductive Event where
  /-- An answer, or one of its successors, was dropped. -/
  | pruned (state : Role StateId) (position : Position) (problem : Problem)
  /-- A transition wanted a symbol where the input has ended. -/
  | fellOff (state : Role StateId) (position : Position)
  /-- A transition was taken. -/
  | moved (state : Role StateId) (position : Position) (consumes : Bool)
      (successors : List (Role StateId)) (target : Position)
  /-- A frontier is about to be expanded. -/
  | expanding (position : Position) (length : Nat) (frontier : List StateId)
  /-- A frontier simulation ended. -/
  | simulated (verdict : Verdict) (position : Position) (queries : Nat)
  /-- A path search spent its budget. -/
  | pathSpent (state : Role StateId) (position : Position) (pending : Nat)
  /-- A path search reached its goal. -/
  | pathAccepted (queries : Nat)
  /-- A path search ran out of paths. -/
  | pathRejected (queries : Nat)
  /-- A start position was left undecided. -/
  | skipped (start : Position) (budget : Budget)

namespace Event

/-- The channel of an event. -/
def channel : Event → Channel
  | .pruned .. | .fellOff .. | .moved .. => .step
  | .expanding .. | .simulated .. => .frontier
  | .pathSpent .. | .pathAccepted .. | .pathRejected .. => .path
  | .skipped .. => .search

/-- The label of a state. -/
private def label (state : Role StateId) : Text :=
  state.label Number.toText

/-- The wording of an event. -/
def message : Event → Text
  | .pruned state position problem =>
      Text.concat [label state, " @", position.traceText, " malformed response pruned: ",
        problem.message]
  | .fellOff state position =>
      Text.concat [label state, " @", position.traceText,
        " wants to consume at end of input; path dies"]
  | .moved state position consumes successors target =>
      Text.concat [label state, " @", position.traceText,
        if consumes then " consume" else " epsilon", " -> [",
        Text.join ", " (successors.map label), "] @", target.traceText]
  | .expanding position length frontier =>
      Text.concat ["position ", position.traceText, " of ", Text.ofNat length, ", frontier [",
        Text.join ", " (frontier.map Number.toText), "]"]
  | .simulated verdict position queries =>
      Text.concat [verdict.name, " at position ", position.traceText, " after ",
        Text.ofNat queries, " queries"]
  | .pathSpent state position pending =>
      Text.concat ["exhausted at ", label state, " @", position.traceText, ", ", Text.ofNat pending,
        " entries pending"]
  | .pathAccepted queries => Text.concat ["accepted after ", Text.ofNat queries, " queries"]
  | .pathRejected queries =>
      Text.concat ["rejected after ", Text.ofNat queries, " queries, stack empty"]
  | .skipped start budget =>
      Text.concat ["attempt at ", start.traceText, " exhausted ", budget.toNumber.toSignedText,
        " queries; treated as no match"]

/-- The trace line of an event. -/
def line (e : Event) : Text :=
  Text.concat ["nfa-probe:", e.channel.name, " ", e.message]

end Event

end OracleNFA
