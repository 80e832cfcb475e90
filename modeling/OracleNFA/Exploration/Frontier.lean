/-
  OracleNFA.Exploration.Frontier
  ──────────────────────────────
  **ALL PATHS AT ONCE.**

  A frontier of live states is moved over the input, one position after the
  other.  At each position transitions that consume nothing lead to more
  states.  They are asked in rounds: each round asks the states that the round
  before discovered, in ascending order, and the closure is complete when a
  round discovers nothing.  The accepting state is never asked.  Successors
  across a symbol are collected on the way; they are the frontier of the next
  position.

  A round that discovers something adds a state that was not live before, and
  an answer names only `Numbering.span` many states, so `span + 1` rounds
  reach the end of every closure.

  An anchored simulation accepts when the accepting state is live at the end
  of the input; one that is not anchored accepts at the first position where
  that state is live, which is the earliest end of a match.  Behind the last
  symbol nothing can be consumed, so the simulation is a recursion on how many
  moves are left.
-/
import OracleNFA.Exploration.Basic
import OracleNFA.Sorting.Rearrangement

namespace OracleNFA

/-- A verdict and where it was reached. -/
structure Ending where
  verdict : Verdict
  position : Position
  deriving DecidableEq

namespace Exploration

/-! ## §1. States in ascending order.

Among states that can be compared there is one ascending order, whatever way
it is found, so they are put into their places one after the other, each
before the first state that is not below it.

`nan` is below no number and no number is below it.  Where it is among the
states no order is ascending and the way of sorting decides: they are sorted
by runs. -/

/-- Put a state into its place in an ascending list. -/
def insertAscending (s : StateId) : List StateId → List StateId
  | [] => [s]
  | t :: rest => if s.atMost t then s :: t :: rest else t :: insertAscending s rest

/-- The states put into their places one after the other. -/
def byInsertion : List StateId → List StateId
  | [] => []
  | s :: rest => insertAscending s (byInsertion rest)

/-- The states in ascending order. -/
def ascending (states : List StateId) : List StateId :=
  if Number.nan ∈ states then Sorting.byRuns Number.lt states else byInsertion states

theorem insertAscending_perm (s : StateId) (states : List StateId) :
    (insertAscending s states).Perm (s :: states) := by
  induction states with
  | nil => exact .refl _
  | cons t rest ih =>
      rw [insertAscending]
      split
      · exact .refl _
      · exact (ih.cons t).trans (.swap s t rest)

theorem byInsertion_perm (states : List StateId) : (byInsertion states).Perm states := by
  induction states with
  | nil => exact .refl _
  | cons s rest ih => exact (insertAscending_perm s _).trans (ih.cons s)

/-- Whatever is among them, the same states are asked. -/
theorem ascending_perm (states : List StateId) : (ascending states).Perm states := by
  rw [ascending]
  split
  · exact Sorting.byRuns_perm Number.lt states
  · exact byInsertion_perm states

/-! ## §2. Sets of states. -/

/-- Add a state at the end, unless it is there. -/
def addState (s : StateId) (states : List StateId) : List StateId :=
  if s ∈ states then states else states ++ [s]

/-- The states of a list, each once, in the order of their first appearance.
A zero is the same state with and without a sign. -/
def distinct (states : List StateId) : List StateId :=
  states.foldl (fun seen s => addState s.unsigned seen) []

/-! ## §3. What one answer adds. -/

/-- A closure under construction. -/
structure Expansion where
  /-- the states live at the position, in order of discovery -/
  closure : List StateId
  /-- the states reached across the symbol at the position -/
  advanced : List StateId
  /-- the states that the current round has discovered -/
  discovered : List StateId

/-- Add successors at the same position; `none` if one of them is the goal. -/
def discover? (goal : Option StateId) : List StateId → Expansion → Option Expansion
  | [], w => some w
  | s :: rest, w =>
      if s ∈ w.closure then discover? goal rest w
      else if goal = some s then none
      else discover? goal rest
        { w with closure := w.closure ++ [s], discovered := w.discovered ++ [s] }

/-- Add the successors of an answer; `none` if they reach the goal here. -/
def absorb? (goal : Option StateId) (position : Position) (answer : Answer) (w : Expansion) :
    Option Expansion :=
  if answer.position.same position then discover? goal answer.successors w
  else some { w with
    advanced := answer.successors.foldl (fun seen s => addState s seen) w.advanced }

/-! ## §4. Rounds. -/

/-- Ask about the states of one round. -/
def sweep (ids : Numbering) (goal : Option StateId) (position : Position) :
    List StateId → Expansion → Exploration (Phase Expansion)
  | [], w => .done (.settled w)
  | s :: rest, w =>
      if s = ids.accept then sweep ids goal position rest w
      else .ask ⟨position, s⟩ fun reply =>
        match reply with
        | none => .done .exhausted
        | some answer =>
            match absorb? goal position answer w with
            | none => .done .accepted
            | some w' => sweep ids goal position rest w'

/-- Rounds until one discovers nothing, at most as many as given. -/
def rounds (ids : Numbering) (goal : Option StateId) (position : Position) :
    Nat → List StateId → Expansion → Exploration (Phase Expansion)
  | 0, _, _ => .done .exhausted
  | more + 1, pending, w =>
      (sweep ids goal position pending w).bind fun phase =>
        match phase with
        | .settled w' =>
            if w'.discovered.isEmpty then .done (.settled w')
            else rounds ids goal position more (ascending w'.discovered)
              { w' with discovered := [] }
        | other => .done other

/-! ## §5. Closure and step. -/

/-- A finished closure. -/
structure Settled where
  /-- the states live at the position -/
  closure : List StateId
  /-- the states reached across the symbol at the position -/
  advanced : List StateId

/-- The closure of a frontier at a position.  If the position is one where the
accepting state counts, reaching that state ends the exploration. -/
def closure (ids : Numbering) (frontier : List StateId) (position : Position) (accepting : Bool) :
    Exploration (Phase Settled) :=
  if accepting ∧ (ids.accept : StateId) ∈ frontier then .done .accepted
  else
    let goal : Option StateId := if accepting then some ids.accept else none
    (rounds ids goal position (ids.span + 1) (ascending frontier) ⟨frontier, [], []⟩).map
      (Phase.map fun w => ⟨w.closure, w.advanced⟩)

/-- The frontier of the next position. -/
def step (ids : Numbering) (frontier : List StateId) (position : Position) (accepting : Bool) :
    Exploration (Phase (List StateId)) :=
  (closure ids frontier position accepting).map (Phase.map Settled.advanced)

/-! ## §6. Simulation. -/

/-- The end of a simulation. -/
def endAt (verdict : Verdict) (position : Position) : Exploration Ending :=
  .note (Event.simulated verdict position) (.done ⟨verdict, position⟩)

/-- One position of a simulation; `next` goes on from the frontier behind it. -/
def visit (ids : Numbering) (length : Nat) (anchored : Bool) (position : Position)
    (frontier : List StateId) (next : List StateId → Exploration Ending) : Exploration Ending :=
  .note (fun _ => .expanding position length frontier) <|
    (step ids frontier position (!anchored || position.same length)).bind fun phase =>
      match phase with
      | .accepted => endAt .accepted position
      | .exhausted => endAt .exhausted position
      | .settled advanced => next advanced

/-- A simulation with so many moves left. -/
def simulateFrom (ids : Numbering) (length : Nat) (anchored : Bool) :
    Nat → Position → List StateId → Exploration Ending
  | 0, position, frontier =>
      visit ids length anchored position frontier fun _ => endAt .rejected position
  | left + 1, position, frontier =>
      visit ids length anchored position frontier fun advanced =>
        if advanced.isEmpty then endAt .rejected position
        else simulateFrom ids length anchored left position.next advanced

/-- The simulation of an input of the given length from a position on. -/
def simulate (ids : Numbering) (length : Nat) (start : Position) (anchored : Bool) :
    Exploration Ending :=
  simulateFrom ids length anchored (start.movesWithin length) start [ids.start]

end Exploration

end OracleNFA
