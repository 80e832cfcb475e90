/-
  OracleNFA.Sorting.Runs
  ──────────────────────
  **SORTING BY RUNS.**

  A list is cut into runs from the front: each is the longest piece that goes
  up or down, turned round if it goes down, and a piece that is too short is
  filled up with the elements behind it, each put into its place by halving.
  The runs lie on a pile, the newest on top.  Each has to be longer than the
  two above it together; where one is not, neighbours are merged (`due?`).
  When the list is used up, all that is left on the pile is merged.

  Equal elements keep their order.  The comparison may be any: where it is no
  order, as when an element compares with nothing, the result is still fixed,
  by the comparisons that are made.
-/
import OracleNFA.Sorting.Merge

namespace OracleNFA.Sorting

variable {α : Type}

/-! ## §1. One run. -/

/-- How many elements at the front go on in one direction from `previous`. -/
def runLength (less : α → α → Bool) (descending : Bool) (previous : α) : List α → Nat
  | [] => 0
  | x :: rest =>
      if less x previous == descending then runLength less descending x rest + 1 else 0

/-- The run at the front of a list, going up, and the elements behind it. -/
def leadingRun (less : α → α → Bool) : List α → List α × List α
  | x :: y :: rest =>
      let descending := less y x
      let more := runLength less descending y rest
      let run := x :: y :: rest.take more
      (if descending then run.reverse else run, rest.drop more)
  | short => (short, [])

/-- Put an element into a run, behind the elements that it is not less than. -/
def insertByHalving (less : α → α → Bool) (run : List α) (x : α) : List α :=
  let place := halve .front (fun i => run[i]?.any fun y => !less x y) 0 run.length
  run.take place ++ x :: run.drop place

/-- The run at the front of a list, filled up to a length if it is shorter, and
the elements behind it. -/
def cutRun (less : α → α → Bool) (least : Nat) (xs : List α) : List α × List α :=
  let (run, rest) := leadingRun less xs
  let missing := least - run.length
  ((rest.take missing).foldl (insertByHalving less) run, rest.drop missing)

/-- The least length of a run in a list of so many elements: all of fewer than
64, and else between 32 and 64, so that there are about as many runs as a
power of two.  Halving adds 1 if it left a remainder `odd` anywhere. -/
def leastRun (count odd : Nat) : Nat :=
  if count < 64 then count + odd else leastRun (count / 2) (max odd (count % 2))

/-! ## §2. The pile. -/

/-- The runs that wait to be merged, the newest first. -/
structure Pile (α : Type) where
  runs : List (List α)
  /-- the patience of the next merge -/
  patience : Nat

/-- Two neighbours on a pile. -/
inductive Pair where
  /-- the newest run and the one below -/
  | top
  /-- the two runs below the newest -/
  | below

/-- The pair to merge when one has to be: the run in the middle with the
shorter of its neighbours. -/
def nextPair : List Nat → Pair
  | z :: _ :: x :: _ => if x < z then .below else .top
  | _ => .top

/-- The pair that is due, by the lengths of the runs: each run has to be longer
than the one above, and longer than the two above together.  The second is
looked at for the third and the fourth run only. -/
def due? : List Nat → Option Pair
  | z :: y :: rest =>
      let crowded :=
        match rest with
        | [] => false
        | [x] => x ≤ y + z
        | x :: w :: _ => x ≤ y + z || w ≤ x + y
      if crowded then some (nextPair (z :: y :: rest))
      else if y ≤ z then some .top
      else none
  | _ => none

namespace Pile

/-- The lengths of the runs. -/
def lengths (p : Pile α) : List Nat :=
  p.runs.map List.length

/-- Merge a pair of neighbours. -/
def join (less : α → α → Bool) (pair : Pair) (p : Pile α) : Pile α :=
  match pair, p.runs with
  | .top, z :: y :: rest =>
      let (merged, patience) := merge less p.patience y z
      ⟨merged :: rest, patience⟩
  | .below, z :: y :: x :: rest =>
      let (merged, patience) := merge less p.patience x y
      ⟨z :: merged :: rest, patience⟩
  | _, _ => p

/-- Merge pairs as long as one is due, at most so many. -/
def settle (less : α → α → Bool) : Nat → Pile α → Pile α
  | 0, p => p
  | more + 1, p =>
      match due? p.lengths with
      | some pair => settle less more (p.join less pair)
      | none => p

/-- Put a run on top. -/
def push (less : α → α → Bool) (run : List α) (p : Pile α) : Pile α :=
  settle less (p.runs.length + 1) { p with runs := run :: p.runs }

/-- Merge so many pairs, due or not. -/
def squeeze (less : α → α → Bool) : Nat → Pile α → Pile α
  | 0, p => p
  | more + 1, p => squeeze less more (p.join less (nextPair p.lengths))

/-- All elements, from the oldest run to the newest. -/
def elements (p : Pile α) : List α :=
  p.runs.reverse.flatten

end Pile

/-! ## §3. Sorting. -/

/-- The patience of the first merge. -/
def firstPatience : Nat := 7

/-- Cut at most so many runs off a list and put them on a pile. -/
def pileUp (less : α → α → Bool) (least : Nat) : Nat → List α → Pile α → Pile α
  | 0, _, p => p
  | _ + 1, [], p => p
  | more + 1, x :: xs, p =>
      let (run, rest) := cutRun less least (x :: xs)
      pileUp less least more rest (p.push less run)

/-- The elements of a list in ascending order. -/
def byRuns (less : α → α → Bool) (xs : List α) : List α :=
  let pile := pileUp less (leastRun xs.length 0) xs.length xs ⟨[], firstPatience⟩
  (pile.squeeze less (pile.runs.length - 1)).elements

end OracleNFA.Sorting
