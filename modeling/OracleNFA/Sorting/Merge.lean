/-
  OracleNFA.Sorting.Merge
  ───────────────────────
  **MERGING TWO RUNS.**

  Two neighbouring runs are merged from the end where the shorter one lies:
  from the front if that is the first run, else from the back.  What is in its
  place already at the outer ends of the two is left alone (`merge`).

      single   — the two foremost elements are compared and one is taken
      leaping  — all that one run has before the other's foremost element is
                 taken at once, in turns

  Merging goes over to leaping when one run has given so many elements in a
  row, its *patience*.  Every further leap lowers the patience, and going
  back, because both runs have given fewer than `longLeap` elements, raises
  it.  The patience at the end of one merge is the patience of the next.

  Merging from the back is merging from the front of the reversed runs in
  descending order, up to which run leaps first.
-/
namespace OracleNFA.Sorting

/-! ## §1. How many at the end of a run.

In a run that is in order, the elements that belong before a given one lie
together at one end.  `gallop` counts them without looking at each: it probes
at distances 1, 3, 7, 15, … from the end until a probe fails, and halves what
lies between the last two probes.

Runs are listed from the end that is being looked at, so that both ends are
counted alike.  The one thing that the end decides is the place halving looks
at: of two elements in the middle of a gap it is the one that stands further
back in the ascending run. -/

/-- An end of an ascending run. -/
inductive Side where
  /-- where the least elements are -/
  | front
  /-- where the greatest elements are -/
  | back

/-- The middle of the places from `low` to before `high`. -/
def Side.middle (low high : Nat) : Side → Nat
  | .front => low + (high - low) / 2
  | .back => high - 1 - (high - low) / 2

/-- The first place from `low` to before `high` where a test fails, or `high`:
right when the test fails everywhere behind a place where it fails. -/
def halve (side : Side) (test : Nat → Bool) (low high : Nat) : Nat :=
  if _h : low < high then
    let middle := side.middle low high
    if test middle then halve side test (middle + 1) high else halve side test low middle
  else high
termination_by high - low
decreasing_by all_goals (cases side <;> simp only [Side.middle] <;> omega)

/-- From the place `offset` on, ever further up to `limit`: the last place
where a test holds and the first probed one where it fails. -/
def stride (test : Nat → Bool) (limit last offset : Nat) : Nat × Nat :=
  if _h : offset < limit then
    if test offset then stride test limit offset (2 * offset + 1) else (last, offset)
  else (last, limit)
termination_by limit - offset

/-- How many elements pass a test, in a run listed from the given end. -/
def gallop {α : Type} (side : Side) (test : α → Bool) (run : List α) : Nat :=
  let passes := fun i => run[i]?.any test
  if passes 0 then
    let (last, offset) := stride passes run.length 0 1
    halve side passes (last + 1) offset
  else 0

variable {α : Type}

/-! ## §2. A merge on its way. -/

/-- Two runs on their way into one, listed from the end they are merged
from. -/
structure Merging (α : Type) where
  /-- what is left of the run that was the shorter one -/
  shorter : List α
  /-- what is left of the run that was the longer one -/
  longer : List α
  /-- what both have given, the last first -/
  merged : List α
  /-- how many elements the shorter one has given in a row -/
  shorterWins : Nat
  /-- how many elements the longer one has given in a row -/
  longerWins : Nat
  /-- whether merging is leaping -/
  leaping : Bool
  /-- how many elements in a row make merging leap -/
  patience : Nat

namespace Merging

/-- Take elements of the shorter run. -/
def takeShorter (count : Nat) (m : Merging α) : Merging α :=
  { m with
    shorter := m.shorter.drop count
    merged := (m.shorter.take count).reverse ++ m.merged }

/-- Take elements of the longer run. -/
def takeLonger (count : Nat) (m : Merging α) : Merging α :=
  { m with
    longer := m.longer.drop count
    merged := (m.longer.take count).reverse ++ m.merged }

/-- Nothing is left to compare.  One last element of the shorter run belongs
behind all of the longer one. -/
def isOver (m : Merging α) : Bool :=
  match m.shorter, m.longer with
  | [], _ | [_], _ | _, [] => true
  | _, _ => false

/-- Go on, unless merging is over. -/
def andThen (m : Merging α) (next : Merging α → Merging α) : Merging α :=
  if m.isOver then m else next m

/-- Everything in one run. -/
def result (m : Merging α) : List α :=
  m.merged.reverse ++ (m.longer ++ m.shorter)

/-! ## §3. One element at a time. -/

/-- Take the foremost element, the shorter run's if neither is less. -/
def takeOne (less : α → α → Bool) (m : Merging α) : Merging α :=
  match m.shorter, m.longer with
  | s :: _, l :: _ =>
      if less l s then
        { m.takeLonger 1 with shorterWins := 0, longerWins := m.longerWins + 1 }
      else
        { m.takeShorter 1 with shorterWins := m.shorterWins + 1, longerWins := 0 }
  | _, _ => m

/-- Start to leap when one run has won often enough. -/
def losePatience (m : Merging α) : Merging α :=
  if m.patience ≤ max m.shorterWins m.longerWins then { m with leaping := true } else m

/-! ## §4. Many elements at a time. -/

/-- Take what the shorter run has before the longer one's foremost element. -/
def leapShorter (side : Side) (less : α → α → Bool) (m : Merging α) : Merging α :=
  match m.longer with
  | [] => m
  | l :: _ =>
      let count := gallop side (fun s => !less l s) m.shorter
      { m.takeShorter count with shorterWins := count }

/-- Take what the longer run has before the shorter one's foremost element. -/
def leapLonger (side : Side) (less : α → α → Bool) (m : Merging α) : Merging α :=
  match m.shorter with
  | [] => m
  | s :: _ =>
      let count := gallop side (fun l => less l s) m.longer
      { m.takeLonger count with longerWins := count }

/-- One leap of each run, the first run's first.  The element that ended a leap
is the other run's next one. -/
def leapBoth (side : Side) (less : α → α → Bool) (m : Merging α) : Merging α :=
  match side with
  | .front =>
      (((m.leapShorter .front less).andThen (takeLonger 1)).andThen
        (leapLonger .front less)).andThen (takeShorter 1)
  | .back =>
      (((m.leapLonger .back less).andThen (takeShorter 1)).andThen
        (leapShorter .back less)).andThen (takeLonger 1)

/-- A leap of so many elements is worth another one. -/
def longLeap : Nat := 7

/-- Leap on after a long leap, and go back to single elements after two short
ones. -/
def weighLeaps (m : Merging α) : Merging α :=
  if longLeap ≤ max m.shorterWins m.longerWins then
    { m with patience := max 1 (m.patience - 1) }
  else
    { m with shorterWins := 0, longerWins := 0, leaping := false, patience := m.patience + 1 }

/-! ## §5. The whole way. -/

/-- One comparison or one leap of each run. -/
def step (side : Side) (less : α → α → Bool) (m : Merging α) : Merging α :=
  if m.leaping then (m.leapBoth side less).andThen weighLeaps
  else (m.takeOne less).andThen losePatience

/-- So many steps, or fewer if merging is over before. -/
def run (side : Side) (less : α → α → Bool) : Nat → Merging α → Merging α
  | 0, m => m
  | more + 1, m => m.andThen fun m => run side less more (m.step side less)

/-- The start: the longer run's foremost element is known to come first. -/
def start (patience : Nat) (shorter longer : List α) : Merging α :=
  takeLonger 1 ⟨shorter, longer, [], 0, 0, false, patience⟩

/-- Merge two runs from the given end.  Every step takes an element, so there
are no more steps than elements. -/
def between (side : Side) (less : α → α → Bool) (patience : Nat) (shorter longer : List α) :
    Merging α :=
  run side less (shorter.length + longer.length) (start patience shorter longer)

end Merging

/-! ## §6. Two runs into one. -/

/-- Merge two runs of which the first has an element that belongs behind the
second's least and the second one that belongs before the first's greatest;
also the patience that is left. -/
def mergeOverlap (less : α → α → Bool) (patience : Nat) (first second : List α) :
    List α × Nat :=
  if first.length ≤ second.length then
    let m := Merging.between .front less patience first second
    (m.result, m.patience)
  else
    let m := Merging.between .back (fun x y => less y x) patience second.reverse first.reverse
    (m.result.reverse, m.patience)

/-- Merge two neighbouring runs; also the patience that is left. -/
def merge (less : α → α → Bool) (patience : Nat) (first second : List α) : List α × Nat :=
  match second.head?, first.getLast? with
  | some least, some greatest =>
      let before := gallop .front (fun x => !less least x) first
      let behind := gallop .back (fun y => !less y greatest) second.reverse
      let inner := second.length - behind
      if before = first.length ∨ inner = 0 then (first ++ second, patience)
      else
        let (merged, patience) :=
          mergeOverlap less patience (first.drop before) (second.take inner)
        (first.take before ++ (merged ++ second.drop inner), patience)
  | _, _ => (first ++ second, patience)

end OracleNFA.Sorting
