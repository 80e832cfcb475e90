/-
  OracleNFA.Proofs.EndSymbol
  ──────────────────────────
  **THE END-OF-INPUT SYMBOL OF A TABLE IS A FREE CHOICE.**

  A table recognises the end of the input by its end-of-input symbol with nothing
  behind it.  Take another symbol for it, and ask both tables at one position of an
  input that ends in neither symbol:

      windows_sameBut       — what the queries show differs at the end only, and there
                              in nothing that a guard looks at
      answer_congr          — so both tables answer alike
      Unmistaken.alikeWhile — attempts on the two are alike everywhere
      end_symbol_is_free    — and so are matches and searches

  Queries differ in the end-of-input symbol, so matches are compared by their results
  and by the states that were asked about (`Report.Parallel`).
-/
import OracleNFA.Proofs.Abreast
import OracleNFA.Proofs.Contract
import OracleNFA.Proofs.EndOfInput

namespace OracleNFA

/-! ## §1. One query. -/

/-- Two queries show the same, up to the first symbol if the input has ended. -/
structure Window.SameBut (ended : Bool) (w w' : Window) : Prop where
  hasSecond : w'.hasSecond = w.hasSecond
  second : w'.second = w.second
  first : ended = false → w'.first = w.first

/-- At the end no guard looks at the first symbol. -/
theorem Window.SameBut.applies_eq {ended : Bool} {w w' : Window} (h : w.SameBut ended w')
    (g : GuardedTransition) : g.applies w' ended = g.applies w ended := by
  unfold GuardedTransition.applies
  rw [h.hasSecond, h.second]
  cases ended with
  | false => rw [h.first rfl]
  | true => rfl

/-- Two tables of the same rules, which take their queries to be at the end or not alike,
answer alike. -/
theorem Table.answer_congr {t t' : Table} {q q' : Query} (hrows : t'.rows = t.rows)
    (hreject : t'.reject = t.reject) (hstate : q'.state = q.state)
    (hended : t'.atEnd q'.window = t.atEnd q.window)
    (hwindow : q.window.SameBut (t.atEnd q.window) q'.window) : t'.answer q' = t.answer q := by
  have hrules : t'.rulesOf q'.state = t.rulesOf q.state := by
    unfold rulesOf
    rw [hrows, hstate]
  -- The same rules apply, so the first one that does is the same.
  unfold answer
  rw [hrules, hreject, hended]
  simp only [hwindow.applies_eq]

theorem ne_of_last {input : Array Symbol} {n : Nat} {c c' : Symbol}
    (h : input.toList.getLast? ≠ some c') (hc : input[n]? = some c) (hlast : n + 1 = input.size) :
    c ≠ c' := by
  rintro rfl
  rw [List.getLast?_eq_getElem?, Array.getElem?_toList, Array.length_toList, ← hlast] at h
  exact h hc

/-- **Both tables see the end of an input that ends in neither symbol, and nothing
else for it.** -/
theorem Table.windows_sameBut (t t' : Table) (input : Array Symbol)
    (h : input.toList.getLast? ≠ some t.endOfInput)
    (h' : input.toList.getLast? ≠ some t'.endOfInput) (n : Nat) :
    let w := window input (.after n) (some (t.endOfInput : Number))
    let w' := window input (.after n) (some (t'.endOfInput : Number))
    t'.atEnd w' = t.atEnd w ∧ w.SameBut (t.atEnd w) w' := by
  intro w w'
  rcases window_cases input n with hend | ⟨c, hc, hlast⟩ | ⟨c, c', hc, hc'⟩
  · -- The queries show the two symbols, and each table knows its own.
    have hw : w = ⟨some (t.endOfInput : Number), some (.ofNat 0), false⟩ := window_at_end hend
    have hw' : w' = ⟨some (t'.endOfInput : Number), some (.ofNat 0), false⟩ := window_at_end hend
    have hended : t.atEnd w = true := by simp [hw, Table.atEnd]
    have hended' : t'.atEnd w' = true := by simp [hw', Table.atEnd]
    refine ⟨hended'.trans hended.symm, ⟨by rw [hw, hw'], by rw [hw, hw'], fun hnot => ?_⟩⟩
    exact absurd (hended.symm.trans hnot) (by decide)
  · -- The last symbol could be mistaken for the end, but it is neither symbol.
    have hw : w = ⟨some (.ofNat c), some (.ofNat 0), false⟩ := window_at_last hc hlast
    have hw' : w' = ⟨some (.ofNat c), some (.ofNat 0), false⟩ := window_at_last hc hlast
    have hended : t.atEnd w = false := by simp [hw, Table.atEnd, ne_of_last h hc hlast]
    have hended' : t'.atEnd w' = false := by simp [hw', Table.atEnd, ne_of_last h' hc hlast]
    exact ⟨hended'.trans hended.symm, by rw [hw, hw'], by rw [hw, hw'], fun _ => by rw [hw, hw']⟩
  · have hw : w = ⟨some (.ofNat c), some (.ofNat c'), true⟩ := window_inside hc hc'
    have hw' : w' = ⟨some (.ofNat c), some (.ofNat c'), true⟩ := window_inside hc hc'
    rw [hw, hw']
    exact ⟨rfl, rfl, rfl, fun _ => rfl⟩

/-! ## §2. Reports. -/

/-- Two reports that have the same result after questions about the same states. -/
structure Report.Parallel {α : Type} (r s : Report α) : Prop where
  result : s.result = r.result
  states : s.queries.map Query.state = r.queries.map Query.state

theorem Report.parallel_congruence : Report.Congruence fun _ => Report.Parallel where
  refl := fun _ _ => ⟨rfl, rfl⟩
  bind := fun _ _ r s f g h hnext => by
    show (Report.bind r f).Parallel (Report.bind s g)
    unfold Report.bind
    rw [h.result]
    cases r.result with
    | error e => exact ⟨rfl, h.states⟩
    | ok v =>
        refine ⟨(hnext v).result, ?_⟩
        dsimp only
        rw [List.map_append, List.map_append, h.states, (hnext v).states]

namespace Attempt

variable {a b : Attempt}

/-- **Attempts that are alike everywhere** have parallel reports. -/
theorem AlikeWhile.parallel (h : AlikeWhile (fun _ => True) a b) {x y : Exploration Ending}
    (hxy : a.Abreast (fun _ => True) x y) :
    (a.report x a.outcome).Parallel (b.report y b.outcome) := by
  rcases h.report hxy with ⟨⟨_, hfar⟩, _⟩ | ⟨hresult, sites, _, hqueries, hqueries'⟩
  · exact absurd trivial hfar
  · refine ⟨hresult, ?_⟩
    rw [hqueries, hqueries', List.map_map, List.map_map]
    rfl

/-- What is found at a start position is told by the simulation from there. -/
theorem AlikeWhile.matchAt_parallel (h : AlikeWhile (fun _ => True) a b) (start : Nat) :
    (Search.matchAt a start).Parallel (Search.matchAt b start) := by
  have hsimulations : (a.simulation start false).Parallel (b.simulation start false) :=
    h.parallel (h.abreast_simulate start false)
  obtain ⟨hqueries, hresult⟩ := Search.matchAt_eq a start
  obtain ⟨hqueries', hresult'⟩ := Search.matchAt_eq b start
  constructor
  · rw [hresult, hresult', Search.attemptAt_result, Search.attemptAt_result, hsimulations.result]
  · rw [hqueries, hqueries', Search.attemptAt_queries, Search.attemptAt_queries,
      hsimulations.states]

end Attempt

/-! ## §3. Tables. -/

namespace Definition

variable {d : Definition Nat} {e : Option Symbol} {v v' : Value}

/-- The same table with another end-of-input symbol, or with the one by default. -/
def endingWith (d : Definition Nat) (e : Option Symbol) : Definition Nat :=
  { d with sentinels := { d.sentinels with endOfInput := e } }

/-- The attempt of a table on symbols. -/
def attempt (d : Definition Nat) (b : Budget) (symbols : Array Symbol) : Attempt :=
  ⟨symbols, d.oracle, d.sentinels.resolve, b⟩

/-- Neither table can take the last of the symbols for the end. -/
structure Unmistaken (d : Definition Nat) (e : Option Symbol) (symbols : List Symbol) : Prop where
  given : symbols.getLast? ≠ some d.sentinels.resolve.endOfInput
  other : symbols.getLast? ≠ some (d.endingWith e).sentinels.resolve.endOfInput

/-- **Attempts on the two tables are alike everywhere.** -/
theorem Unmistaken.alikeWhile {symbols : List Symbol} (h : d.Unmistaken e symbols) (b : Budget) :
    Attempt.AlikeWhile (fun _ => True) (d.attempt b symbols.toArray)
      ((d.endingWith e).attempt b symbols.toArray) where
  budget := rfl
  start := rfl
  accept := rfl
  span := rfl
  down := fun _ _ _ _ => trivial
  length := fun _ _ => .inl rfl
  alike := fun n s _ => by
    obtain ⟨hended, hwindow⟩ := Table.windows_sameBut d.compile (d.endingWith e).compile
      symbols.toArray h.given h.other n
    constructor
    · -- The two oracles see their own symbols at the end, and answer alike.
      refine congrArg (fun answer => Except.ok (Transition.toValue answer)) ?_
      exact Table.answer_congr rfl rfl rfl hended hwindow
    · exact fun _ => rfl

/-- What an attempt of an accepted table is made of. -/
theorem ofSymbols_oracle (hd : ofValue v = .ok d) (symbols : Array Symbol) (maxCycles : Value) :
    Attempt.ofSymbols symbols d.oracle maxCycles =
      (Budget.ofValue maxCycles).map (d.attempt · symbols) := by
  unfold Attempt.ofSymbols
  rw [ofValue_oracle (sound_of_ofValue hd)]
  cases Budget.ofValue maxCycles <;> rfl

section Matches

variable (hd : ofValue v = .ok d) (hd' : ofValue v' = .ok (d.endingWith e))
include hd

theorem attempt_of_ofSymbols {symbols : Array Symbol} {maxCycles : Value} {a : Attempt}
    (ha : Attempt.ofSymbols symbols d.oracle maxCycles = .ok a) : ∃ b, a = d.attempt b symbols := by
  rw [ofSymbols_oracle hd] at ha
  cases hb : Budget.ofValue maxCycles with
  | error e => exact absurd (hb ▸ ha) (by simp [Except.map])
  | ok b =>
      rw [hb] at ha
      exact ⟨b, (Except.ok.inj ha).symm⟩

include hd'

/-- Attempts of the two tables are made of the same arguments. -/
theorem ofSymbols_endingWith (maxCycles : Value) (symbols : Array Symbol) :
    Attempt.ofSymbols symbols (d.endingWith e).oracle maxCycles =
      (Attempt.ofSymbols symbols d.oracle maxCycles).map
        fun a => (d.endingWith e).attempt a.budget a.input := by
  rw [ofSymbols_oracle hd, ofSymbols_oracle hd']
  cases Budget.ofValue maxCycles <;> rfl

theorem runStrategy_parallel {input : Input}
    (h : ∀ symbols, input.symbols = .ok symbols → d.Unmistaken e symbols) (s : Strategy)
    (maxCycles : Value) :
    (runStrategy s input d.oracle maxCycles).Parallel
      (runStrategy s input (d.endingWith e).oracle maxCycles) := by
  refine runStrategy_congr Report.parallel_congruence
    (Attempt.ofInput_map (ofSymbols_endingWith hd hd' maxCycles) input) fun a ha => ?_
  obtain ⟨symbols, hsymbols, hmade⟩ := Attempt.ofInput_eq_ok.1 ha
  obtain ⟨b, rfl⟩ := attempt_of_ofSymbols hd hmade
  have halike := (h symbols hsymbols).alikeWhile b
  exact halike.parallel (halike.abreast_strategy s)

theorem tryAt_parallel {symbols : List Symbol} (h : d.Unmistaken e symbols) (maxCycles : Value)
    (k : Nat) :
    (Search.tryAt symbols.toArray d.oracle maxCycles k).Parallel
      (Search.tryAt symbols.toArray (d.endingWith e).oracle maxCycles k) := by
  refine Search.tryAt_congr Report.parallel_congruence
    (ofSymbols_endingWith hd hd' maxCycles symbols.toArray) fun a ha => ?_
  obtain ⟨b, rfl⟩ := attempt_of_ofSymbols hd ha
  exact (h.alikeWhile b).matchAt_parallel k

end Matches

/-- **The end-of-input symbol of a table is a free choice.**  Of two accepted tables
that differ in it alone, on an input that ends in neither symbol, every match and
search has the same result, with the same verdict, count, position, diagnostics and
spans, or the same fault to find with its arguments; and it asks about the same
states, in the same order. -/
theorem end_symbol_is_free {input : Input} (hd : ofValue v = .ok d)
    (hd' : ofValue v' = .ok (d.endingWith e))
    (h : ∀ symbols, input.symbols = .ok symbols →
      symbols.getLast? ≠ some d.sentinels.resolve.endOfInput ∧
        symbols.getLast? ≠ some (d.endingWith e).sentinels.resolve.endOfInput) :
    (∀ options, (evaluate input d.oracle options).Parallel
        (evaluate input (d.endingWith e).oracle options)) ∧
      ∀ maxCycles, (findFirst input d.oracle maxCycles).Parallel
          (findFirst input (d.endingWith e).oracle maxCycles) ∧
        (findAll input d.oracle maxCycles).Parallel
          (findAll input (d.endingWith e).oracle maxCycles) := by
  have hunmistaken : ∀ symbols, input.symbols = .ok symbols → d.Unmistaken e symbols :=
    fun symbols hsymbols => ⟨(h symbols hsymbols).1, (h symbols hsymbols).2⟩
  refine ⟨fun options => ?_, fun maxCycles => ⟨?_, ?_⟩⟩
  · exact Report.parallel_congruence.bind _ _ _ _ _ _ (Report.parallel_congruence.refl _ _)
      fun s => runStrategy_parallel hd hd' hunmistaken s options.maxCycles
  · exact findFirst_congr Report.parallel_congruence fun symbols hsymbols k _ =>
      tryAt_parallel hd hd' (hunmistaken symbols hsymbols) maxCycles k
  · exact findAll_congr Report.parallel_congruence fun symbols hsymbols k _ =>
      tryAt_parallel hd hd' (hunmistaken symbols hsymbols) maxCycles k

/-- On `ab` the table `skipping` can as well take `a` for the end. -/
theorem end_symbol_is_free_skipping :
    ofValue skipping.toValue = .ok skipping ∧
      ofValue (skipping.endingWith (some 97)).toValue = .ok (skipping.endingWith (some 97)) ∧
      (∀ symbols, (Input.text "ab").symbols = .ok symbols →
        symbols.getLast? ≠ some skipping.sentinels.resolve.endOfInput ∧
          symbols.getLast? ≠ some (skipping.endingWith (some 97)).sentinels.resolve.endOfInput) ∧
      (evaluate (.text "ab") skipping.oracle ⟨.absent, .absent⟩).result =
        .ok ⟨.accepted, 3, .after 2, []⟩ ∧
      (evaluate (.text "ab") (skipping.endingWith (some 97)).oracle ⟨.absent, .absent⟩).result =
        .ok ⟨.accepted, 3, .after 2, []⟩ ∧
      (findAll (.text "ab") skipping.oracle .absent).Parallel
        (findAll (.text "ab") (skipping.endingWith (some 97)).oracle .absent) := by
  have hd : ofValue skipping.toValue = .ok skipping := by rfl
  have hd' : ofValue (skipping.endingWith (some 97)).toValue =
      .ok (skipping.endingWith (some 97)) := by rfl
  have hsymbols : (Input.text "ab").symbols = .ok [97, 98] := by rfl
  have hlast : ∀ symbols, (Input.text "ab").symbols = .ok symbols →
      symbols.getLast? ≠ some skipping.sentinels.resolve.endOfInput ∧
        symbols.getLast? ≠ some (skipping.endingWith (some 97)).sentinels.resolve.endOfInput := by
    intro symbols h
    obtain rfl : [97, 98] = symbols := Except.ok.inj (hsymbols.symm.trans h)
    decide
  have hrun : (evaluate (.text "ab") skipping.oracle ⟨.absent, .absent⟩).result =
      .ok ⟨.accepted, 3, .after 2, []⟩ := by rfl
  obtain ⟨hmatches, hsearches⟩ := end_symbol_is_free hd hd' hlast
  exact ⟨hd, hd', hlast, hrun, (hmatches _).result.trans hrun, (hsearches .absent).2⟩

end Definition

end OracleNFA
