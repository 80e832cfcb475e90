/-
  OracleNFA.Configuration
  ───────────────────────
  **WHAT A CALLER HANDS OVER.**

  Input is a text, read as its code points, or a list of symbols, which must
  be exact natural numbers.  A `Budget` limits the queries of one attempt; a
  `Meter` is a budget and the queries already taken from it.  Once the limit
  is reached the meter grants nothing more, ever.

  A `ConfigError` is a fault in what a caller handed over: the input, the
  sentinels, the rule table or the options.  It holds what its wording needs;
  the code, the issues and the wording are read off it.  An error that names
  a value can be made only if the value has a plain form (`Raised`).
-/
import OracleNFA.Validation.Issue

namespace OracleNFA

/-! ## §1. Errors. -/

/-- What is raised where an error is due.  The wording is part of an error,
so one about a value that cannot be put in words is never made: the failure
to find words is raised in its place, and tells nothing of the error. -/
inductive Raised (ε : Type) where
  | error (e : ε)
  | wordless

/-- The error made from the words for a value, if there are any. -/
def Raised.worded {ε : Type} (make : Text → ε) : Option Text → Raised ε
  | some words => .error (make words)
  | none => .wordless

@[simp] theorem Raised.worded_eq_wordless {ε : Type} {make : Text → ε} {words : Option Text} :
    worded make words = .wordless ↔ words = none := by
  cases words <;> simp [worded]

/-- A fault in the input, an oracle's description or the options. -/
inductive ConfigError where
  /-- The sentinels are not a sound declaration. -/
  | sentinels (issues : List Issue)
  /-- The rule table is not a sound definition. -/
  | definition (issues : List Issue)
  /-- An element of the input is no symbol. -/
  | symbol (element : Text) (position : Nat)
  /-- The limit on queries is no limit. -/
  | maxCycles (given : Text)
  /-- There is no such strategy. -/
  | strategy (given : Text)

namespace ConfigError

/-- The code of an error. -/
def code : ConfigError → Text
  | .sentinels _ => "INVALID_SENTINELS"
  | .definition _ => "INVALID_ORACLE_DEFINITION"
  | .symbol _ _ => "INVALID_INPUT"
  | .maxCycles _ | .strategy _ => "INVALID_OPTIONS"

/-- The issues behind an error. -/
def issues : ConfigError → List Issue
  | .sentinels issues | .definition issues => issues
  | .symbol _ _ | .maxCycles _ | .strategy _ => []

/-- The wording of an error without its issues. -/
def summary : ConfigError → Text
  | .sentinels _ => "Invalid oracle sentinels"
  | .definition _ => "Invalid oracle definition"
  | .symbol element position =>
      Text.concat ["Invalid codepoint ", element, " at position ", Text.ofNat position]
  | .maxCycles given =>
      Text.concat ["maxCycles must be a non-negative integer or Infinity, got ", given]
  | .strategy given => Text.concat ["Unknown match strategy: ", given]

/-- The wording of an error: the summary, then the issues if there are any. -/
def message (e : ConfigError) : Text :=
  if e.issues.isEmpty then e.summary
  else Text.concat [e.summary, ": ", Text.join "; " (e.issues.map Issue.line)]

end ConfigError

/-! ## §2. The input. -/

/-- A symbol of the input. -/
abbrev Symbol := Nat

/-- Input as handed over. -/
inductive Input where
  | text (t : Text)
  | list (elements : List Value)

/-- The symbol a value denotes. -/
def Value.symbol? : Value → Option Symbol
  | .number x => x.safeNatural?
  | _ => none

/-- The symbols of a list, or its first element that is none; `position` is
that of the first element. -/
def symbolsFrom (position : Nat) : List Value → Except (Raised ConfigError) (List Symbol)
  | [] => .ok []
  | v :: rest =>
      match v.symbol? with
      | some s => (symbolsFrom (position + 1) rest).map (s :: ·)
      | none => .error (.worded (.symbol · position) v.toText?)

/-- The symbols of the input. -/
def Input.symbols : Input → Except (Raised ConfigError) (List Symbol)
  | .text t => .ok t.codePoints
  | .list elements => symbolsFrom 0 elements

/-! ## §3. The limit on queries. -/

/-- A limit on queries.  A zero with a minus sign is a limit of its own only
in trace lines: it grants nothing, as zero does. -/
inductive Budget where
  | atMost (n : Nat)
  | unlimited
  | negativeZero
  deriving DecidableEq

namespace Budget

/-- The limit when none is given. -/
def default : Budget := .atMost 50

/-- The largest number of queries, if there is one. -/
def limit? : Budget → Option Nat
  | .atMost n => some n
  | .unlimited => none
  | .negativeZero => some 0

/-- Whether another query is granted after `used` of them. -/
def allows (b : Budget) (used : Nat) : Bool :=
  match b.limit? with
  | some n => used < n
  | none => true

/-- The number a budget was given as. -/
def toNumber : Budget → Number
  | .atMost n => .ofNat n
  | .unlimited => .infinite false
  | .negativeZero => .negativeZero

/-- The budget a number stands for: positive infinity, or a natural number
that is exact. -/
def ofNumber? : Number → Option Budget
  | .infinite false => some .unlimited
  | .negativeZero => some .negativeZero
  | x => x.safeNatural?.map .atMost

/-- The budget that a caller's value stands for; nothing stands for the
default. -/
def ofValue : Value → Except (Raised ConfigError) Budget
  | .absent | .null => .ok default
  | .number x =>
      match ofNumber? x with
      | some b => .ok b
      | none => .error (.worded .maxCycles (Value.number x).toText?)
  | v => .error (.worded .maxCycles v.toText?)

end Budget

/-- A budget and what was taken from it. -/
structure Meter where
  budget : Budget
  used : Nat
  deriving DecidableEq

namespace Meter

/-- A meter from which nothing was taken. -/
def fresh (b : Budget) : Meter := ⟨b, 0⟩

/-- Whether the meter grants nothing more. -/
def spent (m : Meter) : Bool :=
  !m.budget.allows m.used

/-- Take one query; `none` when the meter is spent. -/
def take? (m : Meter) : Option Meter :=
  if m.budget.allows m.used then some { m with used := m.used + 1 } else none

/-- Try to take `n` queries one after the other; how many were granted, and
the meter after them. -/
def takeUpTo : Nat → Meter → Nat × Meter
  | 0, m => (0, m)
  | n + 1, m =>
      match m.take? with
      | some m' =>
          let (granted, last) := takeUpTo n m'
          (granted + 1, last)
      | none => (0, m)

end Meter

end OracleNFA
