/-
  OracleNFA.Proofs.Spelling
  ─────────────────────────
  **A TEXT AND ITS CODE POINTS ARE ONE THING.**

  Reading a text decides at every unit, by the one behind it, whether the two are a
  pair.  So not every list of code points is read from a text: where a high surrogate
  stood directly in front of a low one, they would have been joined.  That is the only
  loss there could be (`Text.Separated`):

      ofPoints_codePoints  — what was read spells the text again
      separated_codePoints — and is such a list
      codePoints_ofPoints  — each such list is read from the text that it spells

  A list of symbols may be handed over in place of a text.  An input enters a match only
  by its symbols (`Input.Interchangeable.of_symbols`), so a text and the list of its code
  points are the same input.
-/
import OracleNFA.Proofs.Search
import OracleNFA.Proofs.Validation

namespace OracleNFA

namespace Text

/-! ## §1. Surrogates as code points. -/

/-- The code point of a unit that opens a pair. -/
def IsHighPoint (c : Nat) : Prop :=
  0xD800 ≤ c ∧ c ≤ 0xDBFF

/-- The code point of a unit that closes a pair. -/
def IsLowPoint (c : Nat) : Prop :=
  0xDC00 ≤ c ∧ c ≤ 0xDFFF

/-- The largest code point. -/
def maxPoint : Nat := 0x10FFFF

/-- Code points among which no two neighbours would be taken for a pair. -/
structure Separated (points : List Nat) : Prop where
  inRange : ∀ c ∈ points, c ≤ maxPoint
  unpaired : points.IsChain fun b c => ¬ (IsHighPoint b ∧ IsLowPoint c)

variable {u v : UInt16} {c : Nat} {units : List UInt16} {points : List Nat}

theorem isHigh_iff : isHigh u = true ↔ IsHighPoint u.toNat := by
  simp [isHigh, IsHighPoint]

theorem isLow_iff : isLow u = true ↔ IsLowPoint u.toNat := by
  simp [isLow, IsLowPoint]

/-- The code point of a pair is above those of units, and no larger than the largest. -/
theorem joinPair_bounds (hu : isHigh u) (hv : isLow v) :
    0x10000 ≤ joinPair u v ∧ joinPair u v ≤ maxPoint := by
  obtain ⟨_, _⟩ := isHigh_iff.1 hu
  obtain ⟨_, _⟩ := isLow_iff.1 hv
  unfold joinPair maxPoint
  omega

/-- The largest code points below the pairs are those of units. -/
theorem toNat_le_maxPoint (u : UInt16) : u.toNat ≤ maxPoint := by
  have := u.toNat_lt
  unfold maxPoint
  omega

/-! ## §2. One code point. -/

/-- A unit is spelled by itself, -/
theorem unitsOfPoint_toNat (u : UInt16) : unitsOfPoint u.toNat = [u] := by
  unfold unitsOfPoint
  rw [if_pos u.toNat_lt, UInt16.ofNat_toNat]

/-- and a pair by its two units. -/
theorem unitsOfPoint_joinPair (hu : isHigh u) (hv : isLow v) :
    unitsOfPoint (joinPair u v) = [u, v] := by
  obtain ⟨hlarge, _⟩ := joinPair_bounds hu hv
  obtain ⟨_, _⟩ := isHigh_iff.1 hu
  obtain ⟨_, _⟩ := isLow_iff.1 hv
  have hhigh : 0xD800 + (joinPair u v - 0x10000) / 0x400 = u.toNat := by
    unfold joinPair
    omega
  have hlow : 0xDC00 + (joinPair u v - 0x10000) % 0x400 = v.toNat := by
    unfold joinPair
    omega
  unfold unitsOfPoint
  dsimp only
  rw [if_neg (Nat.not_lt.2 hlarge), hhigh, hlow, UInt16.ofNat_toNat, UInt16.ofNat_toNat]

/-- **A code point is spelled by the unit that it is, or by the pair that joins to it.** -/
theorem unitsOfPoint_cases (hc : c ≤ maxPoint) :
    (∃ u : UInt16, unitsOfPoint c = [u] ∧ u.toNat = c) ∨
      ∃ u v, unitsOfPoint c = [u, v] ∧ isHigh u = true ∧ isLow v = true ∧ joinPair u v = c := by
  unfold maxPoint at hc
  unfold unitsOfPoint
  by_cases hsmall : c < 0x10000
  · left
    rw [if_pos hsmall]
    exact ⟨_, rfl, UInt16.toNat_ofNat_of_lt' hsmall⟩
  · right
    rw [if_neg hsmall]
    have hhigh : (UInt16.ofNat (0xD800 + (c - 0x10000) / 0x400)).toNat =
        0xD800 + (c - 0x10000) / 0x400 :=
      UInt16.toNat_ofNat_of_lt' (by show _ < 65536; omega)
    have hlow : (UInt16.ofNat (0xDC00 + (c - 0x10000) % 0x400)).toNat =
        0xDC00 + (c - 0x10000) % 0x400 :=
      UInt16.toNat_ofNat_of_lt' (by show _ < 65536; omega)
    refine ⟨_, _, rfl, isHigh_iff.2 ?_, isLow_iff.2 ?_, ?_⟩
    · rw [hhigh]
      constructor <;> omega
    · rw [hlow]
      constructor <;> omega
    · unfold joinPair
      rw [hhigh, hlow]
      omega

/-! ## §3. Reading and spelling. -/

/-- A pair at the front is joined. -/
theorem pointsOfUnits_pair (hu : isHigh u) (hv : isLow v) :
    pointsOfUnits (u :: v :: units) = joinPair u v :: pointsOfUnits units := by
  rw [pointsOfUnits, if_pos (by simp [hu, hv])]

/-- A unit that opens no pair stands for itself. -/
theorem pointsOfUnits_alone (h : ∀ v ∈ units.head?, ¬ (isHigh u = true ∧ isLow v = true)) :
    pointsOfUnits (u :: units) = u.toNat :: pointsOfUnits units := by
  cases units with
  | nil => rfl
  | cons v rest =>
      have hnot := h v rfl
      rw [pointsOfUnits, if_neg (by simpa using hnot)]

/-- **What is read from units spells them.** -/
theorem flatMap_pointsOfUnits (units : List UInt16) :
    (pointsOfUnits units).flatMap unitsOfPoint = units := by
  fun_induction pointsOfUnits units with
  | case1 => rfl
  | case2 u => rw [List.flatMap_singleton, unitsOfPoint_toNat]
  | case3 u v rest hpair ih =>
      obtain ⟨hu, hv⟩ := Bool.and_eq_true_iff.1 hpair
      rw [List.flatMap_cons, unitsOfPoint_joinPair hu hv, ih]
      rfl
  | case4 u v rest _ ih =>
      rw [List.flatMap_cons, unitsOfPoint_toNat, ih]
      rfl

/-- A low surrogate is read first only where it stands first. -/
theorem isLow_of_head_pointsOfUnits (hc : c ∈ (pointsOfUnits (v :: units)).head?)
    (hlow : IsLowPoint c) : isLow v = true := by
  cases units with
  | nil =>
      obtain rfl := Option.some.inj hc
      exact isLow_iff.2 hlow
  | cons w rest =>
      rw [pointsOfUnits] at hc
      split at hc
      · next hpair =>
          -- a pair is no surrogate
          obtain ⟨hv, hw⟩ := Bool.and_eq_true_iff.1 hpair
          obtain rfl := Option.some.inj hc
          obtain ⟨_, _⟩ := joinPair_bounds hv hw
          obtain ⟨_, _⟩ := hlow
          omega
      · obtain rfl := Option.some.inj hc
        exact isLow_iff.2 hlow

/-- **Nothing that is read is left to be joined.** -/
theorem separated_pointsOfUnits (units : List UInt16) : Separated (pointsOfUnits units) := by
  fun_induction pointsOfUnits units with
  | case1 => exact ⟨by simp, List.isChain_nil⟩
  | case2 u => exact ⟨by simpa using toNat_le_maxPoint u, List.isChain_singleton _⟩
  | case3 u v rest hpair ih =>
      obtain ⟨hu, hv⟩ := Bool.and_eq_true_iff.1 hpair
      obtain ⟨hlarge, hmax⟩ := joinPair_bounds hu hv
      refine ⟨List.forall_mem_cons.2 ⟨hmax, ih.inRange⟩, List.isChain_cons.2 ⟨?_, ih.unpaired⟩⟩
      rintro c _ ⟨⟨_, _⟩, _⟩
      omega
  | case4 u v rest halone ih =>
      refine ⟨List.forall_mem_cons.2 ⟨toNat_le_maxPoint u, ih.inRange⟩,
        List.isChain_cons.2 ⟨?_, ih.unpaired⟩⟩
      rintro c hc ⟨hhigh, hlow⟩
      have hv := isLow_of_head_pointsOfUnits hc hlow
      exact halone (by rw [isHigh_iff.2 hhigh, hv]; rfl)

/-- The unit that a code point is spelled with first closes a pair only if the code point
is that unit. -/
theorem isLowPoint_of_head_unitsOfPoint {rest : List UInt16} (hc : c ≤ maxPoint)
    (hv : v ∈ (unitsOfPoint c ++ rest).head?) (hlow : isLow v = true) : IsLowPoint c := by
  rcases unitsOfPoint_cases hc with ⟨u, hunits, rfl⟩ | ⟨u, w, hunits, hhigh, _, _⟩
  · rw [hunits] at hv
    obtain rfl := Option.some.inj hv
    exact isLow_iff.1 hlow
  · rw [hunits] at hv
    obtain rfl := Option.some.inj hv
    obtain ⟨_, _⟩ := isHigh_iff.1 hhigh
    obtain ⟨_, _⟩ := isLow_iff.1 hlow
    omega

/-- **What separated code points spell is read as these code points.** -/
theorem pointsOfUnits_flatMap (h : Separated points) :
    pointsOfUnits (points.flatMap unitsOfPoint) = points := by
  induction points with
  | nil => rfl
  | cons c rest ih =>
      obtain ⟨hc, hrange⟩ := List.forall_mem_cons.1 h.inRange
      obtain ⟨hnext, hchain⟩ := List.isChain_cons.1 h.unpaired
      have hrest := ih ⟨hrange, hchain⟩
      rw [List.flatMap_cons]
      rcases unitsOfPoint_cases hc with ⟨u, hunits, rfl⟩ | ⟨u, v, hunits, hu, hv, hjoin⟩
      · rw [hunits, List.singleton_append, pointsOfUnits_alone, hrest]
        -- The unit behind `u` is the first one of the next code point.
        rintro v hv ⟨hhigh, hlow⟩
        cases rest with
        | nil => exact nomatch hv
        | cons next more =>
            have hnextRange := (List.forall_mem_cons.1 hrange).1
            exact hnext next rfl
              ⟨isHigh_iff.1 hhigh, isLowPoint_of_head_unitsOfPoint hnextRange hv hlow⟩
      · rw [hunits, List.cons_append, List.singleton_append, pointsOfUnits_pair hu hv, hjoin, hrest]

/-! ## §4. Texts. -/

/-- The code points of a text spell it. -/
theorem ofPoints_codePoints (t : Text) : ofPoints t.codePoints = t :=
  congrArg Text.mk (flatMap_pointsOfUnits t.units)

theorem separated_codePoints (t : Text) : Separated t.codePoints :=
  separated_pointsOfUnits t.units

/-- **Code points are those of the text that they spell exactly if they are separated.** -/
theorem codePoints_ofPoints : (ofPoints points).codePoints = points ↔ Separated points := by
  constructor
  · intro h
    rw [← h]
    exact separated_codePoints _
  · exact pointsOfUnits_flatMap

end Text

/-! ## §5. Symbols in place of a text. -/

namespace Input

variable {x y : Input} {symbols : List Symbol}

/-- Symbols handed over as a list of numbers. -/
def ofSymbols (symbols : List Symbol) : Input :=
  .list (symbols.map fun s => .number (.ofNat s))

theorem symbolsFrom_ofNat (h : ∀ s ∈ symbols, s ≤ Number.maxSafe) : ∀ position : Nat,
    symbolsFrom position (symbols.map fun s => .number (.ofNat s)) = .ok symbols := by
  induction symbols with
  | nil => intro position; rfl
  | cons s rest ih =>
      intro position
      obtain ⟨hs, hrest⟩ := List.forall_mem_cons.1 h
      have hsymbol : (Value.number (.ofNat s)).symbol? = some s := Number.safeNatural?_ofNat hs
      rw [List.map_cons, symbolsFrom, hsymbol]
      dsimp only
      rw [ih hrest]
      rfl

/-- Exact numbers are the symbols that they are handed over as. -/
theorem symbols_ofSymbols (h : ∀ s ∈ symbols, s ≤ Number.maxSafe) :
    (ofSymbols symbols).symbols = .ok symbols :=
  symbolsFrom_ofNat h 0

theorem maxPoint_le_maxSafe : Text.maxPoint ≤ Number.maxSafe := by
  decide

/-- No entry point tells one input from the other: results, errors, queries and events
are the same. -/
structure Interchangeable (x y : Input) : Prop where
  symbols : x.symbols = y.symbols
  attempt : ∀ oracle maxCycles,
    Attempt.ofInput x oracle maxCycles = Attempt.ofInput y oracle maxCycles
  run : ∀ s oracle maxCycles, runStrategy s x oracle maxCycles = runStrategy s y oracle maxCycles
  evaluate : ∀ oracle options,
    OracleNFA.evaluate x oracle options = OracleNFA.evaluate y oracle options
  isMatch : ∀ oracle options,
    OracleNFA.isMatch x oracle options = OracleNFA.isMatch y oracle options
  findFirst : ∀ oracle maxCycles,
    OracleNFA.findFirst x oracle maxCycles = OracleNFA.findFirst y oracle maxCycles
  findAll : ∀ oracle maxCycles,
    OracleNFA.findAll x oracle maxCycles = OracleNFA.findAll y oracle maxCycles
  matcher : ∀ m : Matcher, m.evaluate x = m.evaluate y ∧ m.isMatch x = m.isMatch y ∧
    m.find x = m.find y ∧ m.findAll x = m.findAll y

/-- **An input enters a match only by its symbols.** -/
theorem Interchangeable.of_symbols (h : x.symbols = y.symbols) : Interchangeable x y := by
  have hattempt : ∀ oracle maxCycles,
      Attempt.ofInput x oracle maxCycles = Attempt.ofInput y oracle maxCycles := by
    intro oracle maxCycles
    unfold Attempt.ofInput
    rw [h]
  have hrun : ∀ s oracle maxCycles,
      runStrategy s x oracle maxCycles = runStrategy s y oracle maxCycles := by
    intro s oracle maxCycles
    unfold runStrategy
    rw [hattempt]
  have hevaluate : ∀ oracle options,
      OracleNFA.evaluate x oracle options = OracleNFA.evaluate y oracle options := by
    intro oracle options
    unfold OracleNFA.evaluate
    simp only [hrun]
  have hmatcher : ∀ m : Matcher, m.attempt x = m.attempt y := by
    intro m
    unfold Matcher.attempt
    rw [h]
  constructor
  case symbols => exact h
  case attempt => exact hattempt
  case run => exact hrun
  case evaluate => exact hevaluate
  case isMatch =>
    intro oracle options
    unfold OracleNFA.isMatch
    rw [hevaluate]
  case findFirst =>
    intro oracle maxCycles
    unfold OracleNFA.findFirst
    rw [h]
  case findAll =>
    intro oracle maxCycles
    unfold OracleNFA.findAll
    rw [h]
  case matcher =>
    intro m
    unfold Matcher.isMatch Matcher.evaluate Matcher.find Matcher.findAll
    rw [hmatcher]
    exact ⟨rfl, rfl, rfl, rfl⟩

end Input

/-! ## §6. Nothing is lost. -/

/-- **A text is decoded without loss.**  The code points of any text are in range, no high
surrogate among them stands directly in front of a low one, and they spell the text.  Each
list of that kind is read from the text that it spells, and from no other kind of list does
that hold.  Handed over as numbers such a list is taken as it is, so no entry point tells it
from the text. -/
theorem text_decoded_losslessly :
    (∀ t : Text, Text.Separated t.codePoints ∧ Text.ofPoints t.codePoints = t ∧
      (Input.text t).Interchangeable (.ofSymbols t.codePoints)) ∧
    ∀ points : List Nat,
      ((Text.ofPoints points).codePoints = points ↔ Text.Separated points) ∧
      (Text.Separated points → (Input.ofSymbols points).symbols = .ok points) := by
  have taken : ∀ points, Text.Separated points → (Input.ofSymbols points).symbols = .ok points :=
    fun points h => Input.symbols_ofSymbols fun c hc =>
      (h.inRange c hc).trans Input.maxPoint_le_maxSafe
  refine ⟨fun t => ?_, fun points => ⟨Text.codePoints_ofPoints, taken points⟩⟩
  have hseparated := t.separated_codePoints
  exact ⟨hseparated, t.ofPoints_codePoints, .of_symbols (taken _ hseparated).symm⟩

/-- Two low surrogates, two high ones, of which the second stands in front of a pair, and a
low one behind the pair. -/
theorem text_decoded_losslessly_surrogates :
    let points := [0xDC00, 0xDC00, 0xD83D, 0xD83D, 0x1F4A9, 0xDCA9]
    Text.Separated points ∧
      (Text.ofPoints points).units =
        [0xDC00, 0xDC00, 0xD83D, 0xD83D, 0xD83D, 0xDCA9, 0xDCA9] ∧
      (Text.ofPoints points).codePoints = points ∧
      (Input.ofSymbols points).symbols = .ok points := by
  intro points
  obtain ⟨hread, htaken⟩ := text_decoded_losslessly.2 points
  have hunits : (Text.ofPoints points).codePoints = points := by rfl
  have hseparated := hread.1 hunits
  exact ⟨hseparated, by rfl, hunits, htaken hseparated⟩

end OracleNFA
