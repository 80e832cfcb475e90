/-
  OracleNFA.Exploration.Basic
  ───────────────────────────
  **EXPLORATIONS AS TREES OF QUESTIONS.**

  A way of exploring an automaton decides which state to ask about next from
  the answers so far.  `Exploration α` is that decision and nothing else: a
  tree whose inner nodes ask about a state at a position and whose leaves are
  results.  It knows neither the oracle nor the budget; both come in when the
  tree is run, where every question is answered or refused.

  So what holds of asking as such (how a budget cuts a run short, what a
  failure does, that only the questions asked matter) is a property of
  running, stated once for every exploration.
-/
import OracleNFA.Exploration.Event

namespace OracleNFA

/-- A position of the input and a state there. -/
structure Site where
  position : Position
  state : StateId
  deriving DecidableEq

/-- What a question brings: the live successors, in the order in which they
were given, and the position they live at. -/
structure Answer where
  position : Position
  successors : List StateId
  deriving DecidableEq

/-- A tree of questions with results of type `α` at its leaves. -/
inductive Exploration (α : Type) where
  /-- The result is known. -/
  | done (a : α)
  /-- Tell something, which may depend on how many questions were asked. -/
  | note (event : Nat → Event) (rest : Exploration α)
  /-- Ask about a site; the question is answered, or refused (`none`). -/
  | ask (site : Site) (next : Option Answer → Exploration α)

namespace Exploration

variable {α β : Type}

/-- Go on from the result. -/
def bind (f : α → Exploration β) : Exploration α → Exploration β
  | .done a => f a
  | .note e rest => .note e (bind f rest)
  | .ask site next => .ask site fun reply => bind f (next reply)

/-- Make the result into another. -/
def map (f : α → β) (x : Exploration α) : Exploration β :=
  x.bind fun a => .done (f a)

/-- How an exploration of a position can turn out. -/
inductive Phase (α : Type) where
  /-- The accepting state is live where it counts. -/
  | accepted
  /-- A question was refused. -/
  | exhausted
  /-- Everything was explored. -/
  | settled (a : α)

/-- The same turn with another result. -/
def Phase.map (f : α → β) : Phase α → Phase β
  | .accepted => .accepted
  | .exhausted => .exhausted
  | .settled a => .settled (f a)

end Exploration

end OracleNFA
