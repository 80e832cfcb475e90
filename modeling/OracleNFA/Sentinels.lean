/-
  OracleNFA.Sentinels
  ───────────────────
  **THE RESERVED STATES OF AN ORACLE.**

  Every oracle numbers its states as it likes and says which three are
  reserved: the one to start in, the one that accepts and the dead one.  It
  may also say which symbol stands for the end of the input and which state
  is the largest.  `Sentinels` is that declaration as given, `Numbering` the
  same with every default filled in.

  A declaration is sound when its ids are non-negative integers, the three
  reserved ones are distinct, and none of them is above the largest state.
-/
import OracleNFA.Validation.Schema

namespace OracleNFA

/-- A state id.  The ids that oracles declare and answer with are natural
numbers; a caller may ask about any number. -/
abbrev StateId := Number

/-- The reserved states of an oracle and its optional limits, over whatever
ids are written in: `Number` while they are being checked, `Nat` after. -/
structure Sentinels (ι : Type) where
  start : ι
  accept : ι
  reject : ι
  endOfInput : Option ι
  maxStateId : Option ι
  deriving DecidableEq

/-- Sentinels with every optional part filled in. -/
structure Numbering where
  start : Nat
  accept : Nat
  reject : Nat
  endOfInput : Nat
  maxStateId : Nat
  deriving DecidableEq

/-- The symbol that stands for the end of the input by default. -/
def defaultEndOfInput : Nat := 0

namespace Sentinels

/-! ## §1. Checking a declaration. -/

variable {ι κ : Type}

/-- The same declaration over other ids. -/
def map (f : ι → κ) (s : Sentinels ι) : Sentinels κ :=
  ⟨f s.start, f s.accept, f s.reject, s.endOfInput.map f, s.maxStateId.map f⟩

/-- The three reserved states. -/
def reserved (s : Sentinels ι) : List ι :=
  [s.start, s.accept, s.reject]

/-- The reserved states must be distinct. -/
def distinctIssues (s : Sentinels Number) : List Issue :=
  if s.start.same s.accept || s.start.same s.reject || s.accept.same s.reject then
    [Check.here .reservedNotDistinct]
  else []

/-- The reserved states must not be above the largest state. -/
def rangeIssues (s : Sentinels Number) : List Issue :=
  match s.maxStateId with
  | some largest =>
      if s.reserved.any largest.lt then [⟨[.key "maxStateId"], .reservedOutOfRange⟩] else []
  | none => []

/-- The check for a declaration.  Fields it does not know are ignored. -/
def check : Check (Sentinels Number) :=
  Check.object fun fields =>
    let parts : Checked (Sentinels Number) := mk
      <$> Check.field fields "start" Check.natural
      <*> Check.field fields "match" Check.natural
      <*> Check.field fields "reject" Check.natural
      <*> Check.field fields "endOfInput" (Check.optional Check.natural)
      <*> Check.field fields "maxStateId" (Check.optional Check.natural)
    (parts.refine distinctIssues).refine rangeIssues

/-- The declaration a value makes, or what is wrong with it. -/
def ofValue (v : Value) : Except (List Issue) (Sentinels Nat) :=
  (check v).result.map (map Number.toNat)

/-! ## §2. Filling in. -/

/-- The numbering a declaration stands for. -/
def resolve (s : Sentinels Nat) : Numbering :=
  ⟨s.start, s.accept, s.reject, s.endOfInput.getD defaultEndOfInput,
    s.maxStateId.getD Number.maxSafe⟩

/-- A declaration as data. -/
def toValue (s : Sentinels Nat) : Value :=
  let given (key : Text) (id : Nat) : Text × Value := (key, .number (.ofNat id))
  .object ([given "start" s.start, given "match" s.accept, given "reject" s.reject]
    ++ (s.endOfInput.map (given "endOfInput")).toList
    ++ (s.maxStateId.map (given "maxStateId")).toList)

end Sentinels

/-! ## §3. The role of a state. -/

/-- The part a state plays for an oracle. -/
inductive Role (ι : Type) where
  | start
  | accept
  | reject
  | ordinary (id : ι)
  deriving DecidableEq

namespace Role

/-- The role of `state`, given the reserved ids and what counts as the same
id.  The reserved ids are tried in the order start, accept, reject. -/
def classify {ι : Type} (same : ι → ι → Bool) (start accept reject state : ι) : Role ι :=
  if same state start then .start
  else if same state accept then .accept
  else if same state reject then .reject
  else .ordinary state

/-- The role of a value under a declaration that nobody has checked. -/
def ofValue (sentinels state : Value) : Role Value :=
  classify Value.same (sentinels.field "start") (sentinels.field "match")
    (sentinels.field "reject") state

/-- The name of a role. -/
def name {ι : Type} : Role ι → Text
  | .start => "start"
  | .accept => "match"
  | .reject => "reject"
  | .ordinary _ => "ordinary"

/-- The short label of a role in trace lines, where an ordinary state shows
its id. -/
def label {ι : Type} (idText : ι → Text) : Role ι → Text
  | .start => "START"
  | .accept => "MATCH"
  | .reject => "REJECT"
  | .ordinary id => Text.concat ["#", idText id]

end Role

namespace Numbering

/-- The role of a state. -/
def role (ids : Numbering) (s : StateId) : Role StateId :=
  Role.classify (fun a b => a == b) (ids.start : StateId) ids.accept ids.reject s

/-- The states an answer may name: natural numbers up to the largest state
that are exact. -/
def validId? (ids : Numbering) (v : Value) : Option StateId :=
  match v with
  | .number x => (x.safeNatural?.filter (· ≤ ids.maxStateId)).map Number.ofNat
  | _ => none

/-- How many states an answer may name. -/
def span (ids : Numbering) : Nat :=
  min ids.maxStateId Number.maxSafe + 1

/-- A numbering as data. -/
def toValue (ids : Numbering) : Value :=
  Sentinels.toValue
    ⟨ids.start, ids.accept, ids.reject, some ids.endOfInput, some ids.maxStateId⟩

end Numbering

end OracleNFA
