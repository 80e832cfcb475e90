/-
  OracleNFA.Matching
  ──────────────────
  **MATCHES AND THEIR RECORD.**

  Whoever starts a match gets a result or an error, and beside either the
  queries that the oracle got and the events on the way.  Reports follow each
  other like steps: the records are joined, and the first error ends it.

      evaluate  — whether an oracle accepts the whole input, by moving a
                  frontier of states over it or following one path after the
                  other
      findFirst — the leftmost match inside an input
      findAll   — one match after the other, none overlapping; after an empty
                  match the search goes on one position later

  A `Matcher` is an oracle whose sentinels and options were found sound once.
  It can be used on any number of inputs and remembers nothing of them.
-/
import OracleNFA.Attempt

namespace OracleNFA

/-! ## §1. Reports. -/

/-- Why a match has no result.  Where no words were found, what is raised is
the same on both sides. -/
inductive MatchError where
  /-- What was handed over is not sound. -/
  | config (e : Raised ConfigError)
  /-- The oracle failed. -/
  | query (e : Raised QueryError)

/-- A result or an error, with the queries issued and the events noted. -/
structure Report (α : Type) where
  result : Except MatchError α
  queries : List Query
  events : List Event

namespace Report

variable {α β : Type}

/-- A result that took nothing. -/
def pure (a : α) : Report α := ⟨.ok a, [], []⟩

/-- Go on from the result, if there is one. -/
def bind (r : Report α) (f : α → Report β) : Report β :=
  match r.result with
  | .ok a =>
      let next := f a
      ⟨next.result, r.queries ++ next.queries, r.events ++ next.events⟩
  | .error e => ⟨.error e, r.queries, r.events⟩

instance : Monad Report where
  pure := pure
  bind := bind

/-- What was found sound, or why it was not. -/
def ofConfig : Except (Raised ConfigError) α → Report α
  | .ok a => ⟨.ok a, [], []⟩
  | .error e => ⟨.error (.config e), [], []⟩

/-- An event. -/
def event (e : Event) : Report Unit := ⟨.ok (), [], [e]⟩

/-- The record of a run from the start, with a result made from its own and
the last progress. -/
def ofRun (r : EStateM.Result (Raised QueryError) Progress α) (result : α → Progress → β) :
    Report β :=
  match r with
  | .ok a p => ⟨.ok (result a p), p.queries.toList, p.events.toList⟩
  | .error e p => ⟨.error (.query e), p.queries.toList, p.events.toList⟩

end Report

/-- The report of an attempt that runs one exploration from the start. -/
def Attempt.report {α β : Type} (a : Attempt) (x : Exploration α) (result : α → Progress → β) :
    Report β :=
  .ofRun ((a.run x).run (Progress.fresh a.budget)) result

/-! ## §2. Matching a whole input. -/

/-- A way of deciding a whole input. -/
inductive Strategy where
  | frontier
  | path
  deriving DecidableEq

namespace Strategy

/-- The strategy when none is given. -/
def default : Strategy := .frontier

/-- The name of a strategy. -/
def name : Strategy → Text
  | .frontier => "frontier"
  | .path => "path"

/-- The strategy a caller's value names; nothing names the default. -/
def ofValue (v : Value) : Except (Raised ConfigError) Strategy :=
  if v.isNothing then .ok default
  else if v.same (.text frontier.name) then .ok frontier
  else if v.same (.text path.name) then .ok path
  else .error (.worded .strategy v.toText?)

/-- The exploration a strategy makes of an input of the given length. -/
def exploration (ids : Numbering) (length : Nat) : Strategy → Exploration Ending
  | .frontier => Exploration.simulate ids length (.after 0) true
  | .path => Exploration.path ids length

end Strategy

/-- Options for a match, unchecked. -/
structure Options where
  maxCycles : Value
  strategy : Value

/-- Decide the input of an attempt. -/
def Attempt.evaluate (a : Attempt) (s : Strategy) : Report Outcome :=
  a.report (s.exploration a.ids a.length) a.outcome

/-- Decide an input with a given strategy. -/
def runStrategy (s : Strategy) (input : Input) (oracle : Oracle) (maxCycles : Value) :
    Report Outcome := do
  let a ← Report.ofConfig (Attempt.ofInput input oracle maxCycles)
  a.evaluate s

/-- Decide an input by moving a frontier over it. -/
def runFrontier : Input → Oracle → Value → Report Outcome :=
  runStrategy .frontier

/-- Decide an input by following one path after the other. -/
def runPath : Input → Oracle → Value → Report Outcome :=
  runStrategy .path

/-- Decide an input as the options say. -/
def evaluate (input : Input) (oracle : Oracle) (options : Options) : Report Outcome := do
  let s ← Report.ofConfig (Strategy.ofValue options.strategy)
  runStrategy s input oracle options.maxCycles

/-- Whether the whole input is accepted.  A spent budget counts as no. -/
def isMatch (input : Input) (oracle : Oracle) (options : Options) : Report Bool := do
  let outcome ← evaluate input oracle options
  return outcome.verdict == .accepted

/-! ## §3. Matches inside an input.

Every start position is tried with an attempt and a full budget of its own,
from left to right; the match there is the one that ends first.  An attempt
that spends its budget counts as no match.  The oracle sees the symbols behind
a match as they are. -/

/-- A part of the input: from `start` up to but without `stop`. -/
structure Span where
  start : Nat
  stop : Nat
  deriving DecidableEq

namespace Search

/-! ### One start position. -/

/-- The match at a start position, as an attempt finds it. -/
def matchAt (a : Attempt) (start : Nat) : Report (Option Span) := do
  let e ← a.report (Exploration.simulate a.ids a.length start false) fun e _ => e
  match e.verdict with
  | .accepted => return some ⟨start, e.position.count⟩
  | .rejected => return none
  | .exhausted => do
      Report.event (.skipped start a.budget)
      return none

/-- The match at a start position of an input.  The sentinels and the limit
are looked at for every position, so a search that tries none finds no fault
with them. -/
def tryAt (symbols : Array Symbol) (oracle : Oracle) (maxCycles : Value) (start : Nat) :
    Report (Option Span) := do
  let a ← Report.ofConfig (Attempt.ofSymbols symbols oracle maxCycles)
  matchAt a start

/-! ### Scanning. -/

/-- The first match at one of so many start positions from `start` on. -/
def scan (find : Nat → Report (Option Span)) : Nat → Nat → Report (Option Span)
  | 0, _ => return none
  | more + 1, start => do
      match ← find start with
      | some span => return some span
      | none => scan find more (start + 1)

/-- The matches from `start` on that begin before `stop`, in at most so many
trials. -/
def scanAll (find : Nat → Report (Option Span)) (stop : Nat) : Nat → Nat → Report (List Span)
  | 0, _ => return []
  | more + 1, start =>
      if stop ≤ start then return []
      else do
        match ← find start with
        | some span => do
            let rest ← scanAll find stop more (max span.stop (start + 1))
            return span :: rest
        | none => scanAll find stop more (start + 1)

end Search

/-! ### The searches. -/

/-- The leftmost match, ending as early as possible. -/
def findFirst (input : Input) (oracle : Oracle) (maxCycles : Value) : Report (Option Span) := do
  let symbols ← List.toArray <$> Report.ofConfig input.symbols
  Search.scan (Search.tryAt symbols oracle maxCycles) (symbols.size + 1) 0

/-- The matches from left to right.  None begins at the end of the input. -/
def findAll (input : Input) (oracle : Oracle) (maxCycles : Value) : Report (List Span) := do
  let symbols ← List.toArray <$> Report.ofConfig input.symbols
  Search.scanAll (Search.tryAt symbols oracle maxCycles) symbols.size symbols.size 0

/-! ## §4. Matchers. -/

/-- An oracle bound to a strategy and a budget. -/
structure Matcher where
  oracle : Oracle
  ids : Numbering
  strategy : Strategy
  budget : Budget

namespace Matcher

/-- Bind an oracle to options: its sentinels are looked at first, then the
strategy, then the limit on queries. -/
def create (oracle : Oracle) (options : Options) : Except (Raised ConfigError) Matcher := do
  let ids ← Numbering.ofValue oracle.sentinels
  let strategy ← Strategy.ofValue options.strategy
  let budget ← Budget.ofValue options.maxCycles
  return ⟨oracle, ids, strategy, budget⟩

/-- The attempt on an input; only the input can be at fault. -/
def attempt (m : Matcher) (input : Input) : Report Attempt :=
  (Report.ofConfig input.symbols).bind fun symbols =>
    .pure ⟨symbols.toArray, m.oracle, m.ids, m.budget⟩

/-- Decide a whole input. -/
def evaluate (m : Matcher) (input : Input) : Report Outcome := do
  let a ← m.attempt input
  a.evaluate m.strategy

/-- Whether a whole input is accepted. -/
def isMatch (m : Matcher) (input : Input) : Report Bool := do
  let outcome ← m.evaluate input
  return outcome.verdict == .accepted

/-- The leftmost match in an input. -/
def find (m : Matcher) (input : Input) : Report (Option Span) := do
  let a ← m.attempt input
  Search.scan (Search.matchAt a) (a.length + 1) 0

/-- The matches in an input from left to right. -/
def findAll (m : Matcher) (input : Input) : Report (List Span) := do
  let a ← m.attempt input
  Search.scanAll (Search.matchAt a) a.length a.length 0

end Matcher

/-! ## §5. The library. -/

/-- The version of the library. -/
def version : Text := "0.0.0"

end OracleNFA
