/-
  OracleNFA.Oracle
  ────────────────
  **AUTOMATA SEEN FROM OUTSIDE.**

  An oracle is an automaton that can only be asked: in this state, with this
  symbol ahead, what then?  Its answers are unchecked data, and it may fail
  to answer at all.  Asking is a function, so an oracle has no memory and no
  effect.

  A query shows at most two symbols: the one at the position and, if there is
  one, its successor.  From the end on it shows the end-of-input symbol alone
  (`window`).  What is shown is a number like any other, so an oracle can be
  asked about numbers that are no symbols; at a stray position there may be
  nothing to show.
-/
import OracleNFA.Sentinels
import OracleNFA.Configuration
import OracleNFA.Position

namespace OracleNFA

/-! ## §1. What a query shows of the input. -/

/-- What a query shows of the input: a first symbol and, if `hasSecond`, the
one after it.  Where the input has no symbol to show there is `none`. -/
structure Window where
  first : Option Number
  second : Option Number
  hasSecond : Bool
  deriving DecidableEq

namespace Window

/-- What a query shows at a position with these symbols next. -/
def ofNext (endOfInput : Option Number) : Option Symbol → Option Symbol → Window
  | none, _ => ⟨endOfInput, some (.ofNat 0), false⟩
  | some a, none => ⟨some a, some (.ofNat 0), false⟩
  | some a, some b => ⟨some a, some b, true⟩

/-- The symbol at a number, if it counts the symbols before one. -/
def symbolAt (input : Array Symbol) (x : Number) : Option Number :=
  (x.natural?.bind fun n => input[n]?).map Number.ofNat

/-- What a query shows at a number before the end of the input. -/
def around (input : Array Symbol) (x : Number) : Window :=
  let next := x.add (.ofNat 1)
  if next.lt (.ofNat input.size) then ⟨symbolAt input x, symbolAt input next, true⟩
  else ⟨symbolAt input x, some (.ofNat 0), false⟩

end Window

/-- What a query at a position shows of the input, with `endOfInput` from the
end on, if there is such a symbol. -/
def window (input : Array Symbol) (position : Position) (endOfInput : Option Number) : Window :=
  match position with
  | .after n => Window.ofNext endOfInput input[n]? input[n + 1]?
  | .astray x =>
      if position.reaches input.size then Window.ofNext endOfInput none none
      else Window.around input x

/-! ## §2. Oracles. -/

/-- One question: a state and what it sees of the input. -/
structure Query where
  state : StateId
  window : Window
  deriving DecidableEq

/-- Why an oracle gave no answer. -/
inductive Failure where
  /-- It reported an error with a message. -/
  | error (message : Text)
  /-- It gave up with a value. -/
  | thrown (v : Value)

/-- What a failure says, if it can be put in words. -/
def Failure.describe? : Failure → Option Text
  | .error message => some message
  | .thrown v => v.toText?

/-- An automaton that answers queries. -/
structure Oracle where
  /-- the declaration of its reserved states, unchecked -/
  sentinels : Value
  /-- its answers -/
  answer : Query → Except Failure Value

/-- What a well-behaved oracle answers: a successor, whether the symbol is
consumed on the way, and possibly a second successor. -/
structure Transition where
  next : Nat
  branch : Option Nat
  consumes : Bool
  deriving DecidableEq

/-- A transition as an oracle writes it. -/
def Transition.toValue (t : Transition) : Value :=
  let state (key : Text) (id : Nat) : Text × Value := (key, .number (.ofNat id))
  let flag (key : Text) (b : Bool) : Text × Value := (key, .bool b)
  .object ([state "nextState" t.next]
    ++ (t.branch.map (state "secondState")).toList
    ++ [flag "consumed" t.consumes, flag "enabled" t.branch.isSome])

/-- The declaration of an oracle's reserved states with its defaults filled
in, if it is sound. -/
def Numbering.ofValue (v : Value) : Except (Raised ConfigError) Numbering :=
  match Sentinels.ofValue v with
  | .ok s => .ok s.resolve
  | .error issues => .error (.error (.sentinels issues))

end OracleNFA
