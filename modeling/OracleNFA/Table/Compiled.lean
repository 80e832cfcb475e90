/-
  OracleNFA.Table.Compiled
  ────────────────────────
  **RULE TABLES AS ORACLES.**

  To answer a query, the table looks up the rules of the state and takes the
  first whose guards hold.  A state without such a rule, or without rules at
  all, answers with the dead state and consumes nothing.

  The table is compiled first: keys become states, and the texts of the
  guards become lists of symbols.  The end of the input is recognised by the
  end-of-input symbol with no symbol after it.
-/
import OracleNFA.Table.Definition
import OracleNFA.Oracle

namespace OracleNFA

/-- A rule ready to be applied: its guards over symbols, and its answer. -/
structure GuardedTransition where
  on : Option (List Symbol)
  notOn : Option (List Symbol)
  atEnd : Option Bool
  lookahead : Option (List Symbol)
  notLookahead : Option (List Symbol)
  answer : Transition

/-- The rules of every state that has any. -/
structure Table where
  reject : Nat
  endOfInput : Symbol
  rows : List (Nat × List GuardedTransition)

/-- The answer a rule gives when it applies. -/
def Rule.transition (r : Rule Nat) : Transition :=
  ⟨r.next, r.branch, r.consume.getD false⟩

/-- A rule made ready. -/
def Rule.compile (r : Rule Nat) : GuardedTransition where
  on := r.on.map Text.codePoints
  notOn := r.notOn.map Text.codePoints
  atEnd := r.atEnd
  lookahead := r.lookahead.map Text.codePoints
  notLookahead := r.notLookahead.map Text.codePoints
  answer := r.transition

/-- A definition made ready. -/
def Definition.compile (d : Definition Nat) : Table where
  reject := d.sentinels.reject
  endOfInput := d.sentinels.resolve.endOfInput
  rows := d.states.map fun (key, rules) => ((Number.ofText key).toNat, rules.map Rule.compile)

/-- Whether a guard that may be missing holds. -/
def guardHolds {α : Type} (holds : α → Bool) : Option α → Bool
  | some guard => holds guard
  | none => true

/-- Whether what a query shows is one of the symbols. -/
def isAmong (symbols : List Symbol) (shown : Option Number) : Bool :=
  match shown.bind Number.natural? with
  | some symbol => symbols.contains symbol
  | none => false

/-- Whether every guard of a rule holds. -/
def GuardedTransition.applies (g : GuardedTransition) (w : Window) (atEnd : Bool) : Bool :=
  guardHolds (· == atEnd) g.atEnd
    && guardHolds (fun symbols => !atEnd && isAmong symbols w.first) g.on
    && guardHolds (fun symbols => !atEnd && !isAmong symbols w.first) g.notOn
    && guardHolds (fun symbols => w.hasSecond && isAmong symbols w.second) g.lookahead
    && guardHolds (fun symbols => !(w.hasSecond && isAmong symbols w.second)) g.notLookahead

namespace Table

/-- Whether a window shows the end of the input. -/
def atEnd (t : Table) (w : Window) : Bool :=
  !w.hasSecond && w.first.bind Number.natural? == some t.endOfInput

/-- The rules of a state. -/
def rulesOf (t : Table) (s : StateId) : List GuardedTransition :=
  match s.natural? with
  | some id => (t.rows.lookup id).getD []
  | none => []

/-- The answer to a query. -/
def answer (t : Table) (q : Query) : Transition :=
  match (t.rulesOf q.state).find? fun g => g.applies q.window (t.atEnd q.window) with
  | some g => g.answer
  | none => ⟨t.reject, none, false⟩

end Table

/-- The oracle that a definition describes.  It never fails. -/
def Definition.oracle (d : Definition Nat) : Oracle :=
  let table := d.compile
  { sentinels := d.sentinels.toValue
    answer := fun q => .ok (table.answer q).toValue }

end OracleNFA
