/-
  OracleNFA.Attempt
  ─────────────────
  **RUNNING AN EXPLORATION.**

  An attempt is an input, an oracle and a budget that were found sound
  together.  Its progress is what the budget has granted, which queries the
  oracle got, and what was noted on the way.  `Attempt.run` walks down an
  exploration: each question takes one query from the meter, goes to the
  oracle, and the answer is read; a failing oracle stops the run at once, a
  spent meter only refuses the question.

  Explorations run one after the other on the same progress, so the parts of
  a match can also be asked for one at a time and in any order.  An
  `Operation` names one of them; performing it moves the progress on.
-/
import OracleNFA.Exploration.Path

namespace OracleNFA

/-! ## §1. What a run can say. -/

/-- A fault that did not stop a match. -/
inductive Diagnostic where
  /-- An answer, or one of its successors, was dropped. -/
  | malformed (site : Site) (problem : Problem)
  /-- The budget was spent before a verdict. -/
  | budgetSpent (position : Position) (budget : Budget)

namespace Diagnostic

/-- The code of a diagnostic. -/
def code : Diagnostic → Text
  | .malformed _ _ => "MALFORMED_RESPONSE"
  | .budgetSpent _ _ => "CYCLE_LIMIT_EXCEEDED"

/-- The wording of a diagnostic. -/
def message : Diagnostic → Text
  | .malformed site problem =>
      Text.concat ["Malformed response for state ", site.state.toText, " at position ",
        site.position.text, ": ", problem.message]
  | .budgetSpent _ budget =>
      Text.concat ["Match attempt exceeded the limit of ", budget.toNumber.toText,
        " oracle queries"]

end Diagnostic

/-- The oracle failed to answer the question about a site, and this is what
its failure says. -/
structure QueryError where
  site : Site
  failure : Failure
  words : Text

namespace QueryError

/-- What is raised when a question fails. -/
def raise (site : Site) (failure : Failure) : Raised QueryError :=
  .worded (⟨site, failure, ·⟩) failure.describe?

theorem raise_eq_error {site : Site} {failure : Failure} {e : QueryError} :
    raise site failure = .error e ↔
      site = e.site ∧ failure = e.failure ∧ failure.describe? = some e.words := by
  obtain ⟨site', failure', words⟩ := e
  unfold raise
  cases failure.describe? <;> simp [Raised.worded]

theorem raise_eq_wordless {site : Site} {failure : Failure} :
    raise site failure = .wordless ↔ failure.describe? = none :=
  Raised.worded_eq_wordless

/-- The wording of a failed query. -/
def message (e : QueryError) : Text :=
  Text.concat ["Oracle failed to answer query for state ", e.site.state.toText,
    " at position ", e.site.position.text, ": ", e.words]

end QueryError

/-- The result of a match. -/
structure Outcome where
  verdict : Verdict
  queries : Nat
  position : Position
  diagnostics : List Diagnostic

/-! ## §2. Attempts and their progress. -/

/-- An input, an oracle and a budget, all of them sound. -/
structure Attempt where
  input : Array Symbol
  oracle : Oracle
  ids : Numbering
  budget : Budget

/-- How far an attempt has come. -/
structure Progress where
  meter : Meter
  queries : Array Query
  diagnostics : Array Diagnostic
  events : Array Event

namespace Progress

/-- Nothing done yet. -/
def fresh (b : Budget) : Progress :=
  ⟨Meter.fresh b, #[], #[], #[]⟩

/-- Note an event. -/
def noting (p : Progress) (e : Event) : Progress :=
  { p with events := p.events.push e }

end Progress

/-- Something that runs on an attempt: it moves the progress on, and may end
in a failed query. -/
abbrev Run := EStateM (Raised QueryError) Progress

namespace Attempt

/-- The attempt on symbols, if the oracle's sentinels and then the limit on
queries are sound. -/
def ofSymbols (symbols : Array Symbol) (oracle : Oracle) (maxCycles : Value) :
    Except (Raised ConfigError) Attempt := do
  let ids ← Numbering.ofValue oracle.sentinels
  let budget ← Budget.ofValue maxCycles
  return ⟨symbols, oracle, ids, budget⟩

/-- The attempt on an input, if the input is sound and everything else is. -/
def ofInput (input : Input) (oracle : Oracle) (maxCycles : Value) :
    Except (Raised ConfigError) Attempt := do
  let symbols ← input.symbols
  ofSymbols symbols.toArray oracle maxCycles

/-- How many symbols the input has. -/
def length (a : Attempt) : Nat :=
  a.input.size

/-! ## §3. One question. -/

/-- The query for a site. -/
def query (a : Attempt) (site : Site) : Query :=
  ⟨site.state, window a.input site.position (some (a.ids.endOfInput : Number))⟩

/-- What an oracle's answer to one question amounts to. -/
structure Reading where
  answer : Answer
  problems : List Problem
  /-- what is told once the problems are -/
  event? : Option Event

/-- Read the answer to the question about a site.  The dead state is no
successor, and neither is anything behind the end of the input. -/
def read (a : Attempt) (site : Site) (raw : Value) : Reading :=
  let state := a.ids.role site.state
  match Response.decode a.ids raw with
  | .error issues => ⟨⟨site.position, []⟩, [.unusable issues], none⟩
  | .ok decoded =>
      let live := decoded.successors.filter (· ≠ (a.ids.reject : StateId))
      if decoded.consumes ∧ site.position.reaches a.length then
        ⟨⟨site.position.next, []⟩, decoded.problems, some (.fellOff state site.position)⟩
      else
        let target := if decoded.consumes then site.position.next else site.position
        ⟨⟨target, live⟩, decoded.problems,
          some (.moved state site.position decoded.consumes (live.map a.ids.role) target)⟩

/-- The progress after a reading. -/
def record (a : Attempt) (site : Site) (r : Reading) (p : Progress) : Progress :=
  let pruned := r.problems.map (Event.pruned (a.ids.role site.state) site.position)
  { p with
    diagnostics := p.diagnostics ++ r.problems.map (Diagnostic.malformed site)
    events := p.events ++ (pruned ++ r.event?.toList) }

/-- Ask about a site.  A refused question leaves no mark; one that is put to
the oracle counts even if the oracle fails. -/
def ask (a : Attempt) (site : Site) : Run (Option Answer) := do
  let p ← get
  match p.meter.take? with
  | none => return none
  | some meter =>
      let query := a.query site
      set { p with meter := meter, queries := p.queries.push query }
      match a.oracle.answer query with
      | .error failure => throw (QueryError.raise site failure)
      | .ok raw =>
          let reading := a.read site raw
          modify (a.record site reading)
          return some reading.answer

/-! ## §4. Whole explorations. -/

/-- Run an exploration on an attempt. -/
def run {α : Type} (a : Attempt) : Exploration α → Run α
  | .done result => return result
  | .note event rest => do
      modify fun p => p.noting (event p.meter.used)
      a.run rest
  | .ask site next => do
      let reply ← a.ask site
      a.run (next reply)

/-- The outcome of an attempt that ended.  A spent budget is one more
diagnostic of the outcome, not of the attempt. -/
def outcome (a : Attempt) (e : Ending) (p : Progress) : Outcome :=
  let spent :=
    match e.verdict with
    | .exhausted => [.budgetSpent e.position a.budget]
    | .accepted | .rejected => []
  ⟨e.verdict, p.meter.used, e.position, p.diagnostics.toList ++ spent⟩

end Attempt

/-! ## §5. Step by step. -/

/-- One thing to do with an attempt. -/
inductive Operation where
  /-- Ask about a site. -/
  | query (site : Site)
  /-- Close a frontier at a position. -/
  | closure (frontier : List StateId) (position : Position) (accepting : Bool)
  /-- Move a frontier across the symbol at a position. -/
  | step (frontier : List StateId) (position : Position) (accepting : Bool)
  /-- Simulate the input from a position on. -/
  | simulate (start : Position) (anchored : Bool)
  /-- State the outcome, had the attempt ended so. -/
  | finish (ending : Ending)

/-- What an operation brings. -/
inductive Performed where
  | answered (reply : Option Answer)
  | closed (phase : Exploration.Phase Exploration.Settled)
  | stepped (phase : Exploration.Phase (List StateId))
  | simulated (ending : Ending)
  | finished (outcome : Outcome)

/-- Perform an operation.  A frontier is a set: a state named twice counts
once.  A zero names the same state with and without a sign. -/
def Attempt.perform (a : Attempt) : Operation → Run Performed
  | .query site => .answered <$> a.ask { site with state := site.state.unsigned }
  | .closure frontier position accepting =>
      .closed <$>
        a.run (Exploration.closure a.ids (Exploration.distinct frontier) position accepting)
  | .step frontier position accepting =>
      .stepped <$>
        a.run (Exploration.step a.ids (Exploration.distinct frontier) position accepting)
  | .simulate start anchored =>
      .simulated <$> a.run (Exploration.simulate a.ids a.length start anchored)
  | .finish ending => do return .finished (a.outcome ending (← get))

end OracleNFA
