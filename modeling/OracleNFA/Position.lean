/-
  OracleNFA.Position
  ──────────────────
  **POSITIONS IN AN INPUT.**

  A position counts the symbols before it.  A match starts behind no symbol
  and moves on by one, so all its positions are counts.  Whoever drives an
  attempt step by step may name any number instead, and a number that counts
  nothing is `astray`: below zero, between two counts, infinite, no number at
  all, or the zero with a minus sign, which is kept apart because trace lines
  show its sign.

      next      — one symbol further on; a stray number moves by a rounded
                  addition, which can bring it back to a count or leave it
                  where it is
      same      — numeric equality, so no-number is not even where it is
      reaches   — whether no symbol of an input is left
-/
import OracleNFA.Number.Shortest

namespace OracleNFA

/-- A position of the input. -/
inductive Position where
  /-- Behind so many symbols. -/
  | after (count : Nat)
  /-- At a number that counts no symbols. -/
  | astray (x : Number)
  deriving DecidableEq, Inhabited

namespace Position

instance : Coe Nat Position := ⟨after⟩

/-! ## §1. Positions and numbers. -/

/-- The position a number names. -/
def ofNumber (x : Number) : Position :=
  match x with
  | .finite _ =>
      match x.natural? with
      | some n => after n
      | none => astray x
  | _ => astray x

/-- The number a position is written as; a count too large for a binary64
number is written as the nearest one. -/
def toNumber : Position → Number
  | after n => .nearest (n : Int)
  | astray x => x

/-- The text of a position. -/
def text (p : Position) : Text :=
  p.toNumber.toText

/-- The text of a position in trace lines. -/
def traceText (p : Position) : Text :=
  p.toNumber.toSignedText

/-- How many symbols are before a position; none before a stray one. -/
def count : Position → Nat
  | after n => n
  | astray _ => 0

/-! ## §2. Moving. -/

/-- One symbol further on. -/
def next : Position → Position
  | after n => after (n + 1)
  | astray x => ofNumber (x.add (.ofNat 1))

/-- Whether two positions are the same one. -/
def same : Position → Position → Bool
  | after m, after n => m == n
  | p, q => p.toNumber.same q.toNumber

/-- Whether a position is behind every symbol of an input of the given
length. -/
def reaches (length : Nat) : Position → Bool
  | after n => length ≤ n
  | astray x => x.same (.ofNat length) || (Number.ofNat length).lt x

/-- So many moves from a position reach the end of an input of the given
length, or come to a number that addition leaves as it is.  No number of moves
does that from no-number; there it is one more than the largest budget. -/
def movesWithin (length : Nat) : Position → Nat
  | after n => length - n
  | astray x =>
      match x with
      | .nan => Number.maxSafe + 1
      | .infinite _ => 0
      | .negativeZero => length
      | .finite value => (length - value.floor).toNat

end Position

end OracleNFA
