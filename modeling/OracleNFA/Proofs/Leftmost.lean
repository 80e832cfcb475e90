/-
  OracleNFA.Proofs.Leftmost
  ─────────────────────────
  **THE MATCH THAT BEGINS FIRST AND ENDS FIRST.**

  What a start position brings is settled by the configuration graph and by the
  budget of the one attempt there:

      Earliest — a match, and none from the same start that ends before it
      Passed   — no match begins there, or the attempt spent a whole budget on it

  One of the two holds at every start position (`attemptAt_cases`).  The search
  for the first match goes on while positions are passed, so by induction on the
  trials left it stops at the first one that is not, with the match that ends
  first there.  Its queries are those of its attempts, one after the other: no
  attempt pays for another.
-/
import OracleNFA.Proofs.Discipline

namespace OracleNFA

namespace Search

variable {a : Attempt} {start : Nat}

/-! ## §1. One start position. -/

/-- The match from its start that ends first, as the attempt there finds it. -/
structure Earliest (a : Attempt) (m : Span) : Prop where
  start_le : m.start ≤ m.stop
  stop_le : m.stop ≤ a.length
  reached : a.Reaches (a.entry m.start) (a.exit m.stop)
  first : ∀ stop < m.stop, ¬ a.Reaches (a.entry m.start) (a.exit stop)
  attempt : (attemptAt a m.start).result = .ok ⟨.accepted, .after m.stop⟩

/-- The attempt at a start position gave up, and a whole budget was spent on it. -/
structure Spent (a : Attempt) (start : Nat) : Prop where
  exhausted : ∃ p, (attemptAt a start).result = .ok ⟨.exhausted, p⟩
  whole : a.budget.limit? = some (attemptAt a start).queries.length

/-- Nothing is found at a start position: the attempt there gave up, or no match
begins there. -/
def Passed (a : Attempt) (start : Nat) : Prop :=
  Spent a start ∨ ∀ stop, ¬ a.Reaches (a.entry start) (a.exit stop)

/-- **Each start position has its earliest match or is passed.** -/
theorem attemptAt_cases (hstart : start ≤ a.length)
    (hanswers : ∀ q, ∃ raw, a.oracle.answer q = .ok raw) :
    (∃ stop, Earliest a ⟨start, stop⟩) ∨
      Passed a start ∧ ∃ e, (attemptAt a start).result = .ok e ∧ e.verdict ≠ .accepted := by
  obtain ⟨⟨verdict, position⟩, i, ⟨_, hexplored⟩, hgrants, hqueries, hresult⟩ :=
    attemptAt_answered hstart hanswers
  cases verdict with
  | accepted =>
      obtain ⟨n, rfl, haccepted⟩ := hexplored
      obtain ⟨k, _, heq, hle, _⟩ := haccepted.reached.position hstart
      obtain rfl : n = k := Position.after.inj (congrArg Site.position heq)
      exact .inl ⟨n, hle, haccepted.inside, haccepted.reached,
        fun stop hlt => haccepted.first stop hlt (.inl rfl), hresult⟩
  | rejected =>
      obtain ⟨n, _, hrejected⟩ := hexplored
      exact .inr ⟨.inr fun stop => hrejected.unreached stop (.inl rfl), _, hresult, by simp⟩
  | exhausted =>
      refine .inr ⟨.inl ⟨⟨_, hresult⟩, ?_⟩, _, hresult, by simp⟩
      rw [hqueries, List.length_map]
      exact hgrants.spent hexplored

theorem spanOf_of_ne_accepted {e : Ending} (h : e.verdict ≠ .accepted) : spanOf start e = none := by
  unfold spanOf
  cases hverdict : e.verdict with
  | accepted => exact absurd hverdict h
  | rejected => rfl
  | exhausted => rfl

/-! ## §2. Scanning. -/

/-- What a scan of so many start positions finds, and what it asks. -/
def Leftmost (a : Attempt) (start more : Nat) (r : Report (Option Span)) : Option Span → Prop
  | some m => Earliest a m ∧ start ≤ m.start ∧ (∀ k, start ≤ k → k < m.start → Passed a k) ∧
      r.queries = (List.range' start (m.start + 1 - start)).flatMap fun k => (attemptAt a k).queries
  | none => (∀ k, start ≤ k → k < start + more → Passed a k) ∧
      r.queries = (List.range' start more).flatMap fun k => (attemptAt a k).queries

/-- A position that is passed is one more before what the rest of a scan finds. -/
theorem Leftmost.pass {more : Nat} {r s : Report (Option Span)} {found : Option Span}
    (hpassed : Passed a start) (h : Leftmost a (start + 1) more r found)
    (hs : s.queries = (attemptAt a start).queries ++ r.queries) :
    Leftmost a start (more + 1) s found := by
  have hbelow : ∀ {stop : Nat}, (∀ k, start + 1 ≤ k → k < stop → Passed a k) →
      ∀ k, start ≤ k → k < stop → Passed a k := by
    intro stop hrest k hle hlt
    rcases Nat.eq_or_lt_of_le hle with rfl | hlt'
    · exact hpassed
    · exact hrest k hlt' hlt
  cases found with
  | none =>
      obtain ⟨hrest, hqueries⟩ := h
      refine ⟨hbelow fun k hle hlt => hrest k hle (by omega), ?_⟩
      rw [hs, hqueries, List.range'_succ, List.flatMap_cons]
  | some m =>
      obtain ⟨hearliest, hle, hrest, hqueries⟩ := h
      refine ⟨hearliest, by omega, hbelow hrest, ?_⟩
      rw [hs, hqueries, show m.start + 1 - start = m.start + 1 - (start + 1) + 1 by omega,
        List.range'_succ, List.flatMap_cons]

/-- **A scan stops at the first position that is not passed.** -/
theorem scan_leftmost (hanswers : ∀ q, ∃ raw, a.oracle.answer q = .ok raw) (more : Nat) :
    ∀ start : Nat, start + more ≤ a.length + 1 →
      ∃ found, (scan (matchAt a) more start).result = .ok found ∧
        Leftmost a start more (scan (matchAt a) more start) found := by
  induction more with
  | zero => exact fun start _ => ⟨none, rfl, fun k _ _ => by omega, rfl⟩
  | succ more ih =>
      intro start hmore
      have hstart : start ≤ a.length := by omega
      obtain ⟨hqueries, _⟩ := matchAt_eq a start
      rw [scan]
      rcases attemptAt_cases hstart hanswers with
        ⟨stop, hearliest⟩ | ⟨hpassed, e, hresult, hverdict⟩
      · -- the scan stops here
        have hfound := matchAt_of_attemptAt hearliest.attempt
        refine ⟨some ⟨start, stop⟩, (Report.result_bind hfound _).trans rfl, hearliest,
          Nat.le_refl start, fun k hle hlt => absurd hlt (Nat.not_lt.2 hle), ?_⟩
        rw [Report.queries_bind hfound, hqueries, Nat.add_sub_cancel_left]
        rfl
      · -- the scan goes on behind this position
        have hfound := matchAt_of_attemptAt hresult
        rw [spanOf_of_ne_accepted hverdict] at hfound
        obtain ⟨found, hrest, hleftmost⟩ := ih (start + 1) (by omega)
        refine ⟨found, (Report.result_bind hfound _).trans hrest, hleftmost.pass hpassed ?_⟩
        rw [Report.queries_bind hfound, hqueries]

end Search

/-! ## §3. The first match. -/

variable {input : Input} {oracle : Oracle} {maxCycles : Value} {a : Attempt}

/-- **The first match is the leftmost one, and it ends as early as it can.**  With
an oracle that answers every query the search returns.  What it finds is a match,
none from the same start ends before it, and every start position before it was
passed; if it finds nothing, every position was.  Each attempt has a budget of its
own: the search asks what the attempts at the positions up to the match ask, one
after the other, and the match is the one that the attempt at its start finds. -/
theorem first_match_leftmost (h : Attempt.ofInput input oracle maxCycles = .ok a)
    (hanswers : ∀ q, ∃ raw, oracle.answer q = .ok raw) :
    ∃ found, (findFirst input oracle maxCycles).result = .ok found ∧
      match found with
      | some m => Search.Earliest a m ∧ (∀ k < m.start, Search.Passed a k) ∧
          (findFirst input oracle maxCycles).queries =
            (List.range (m.start + 1)).flatMap fun k => (Search.attemptAt a k).queries
      | none => (∀ k ≤ a.length, Search.Passed a k) ∧
          (findFirst input oracle maxCycles).queries =
            (List.range (a.length + 1)).flatMap fun k => (Search.attemptAt a k).queries := by
  obtain ⟨⟨symbols, hsymbols, hinput⟩, htry⟩ := Search.tryAt_of_ofInput h
  have hlength : symbols.length = a.length := congrArg Array.size hinput
  rw [findFirst_eq oracle maxCycles hsymbols, hinput, htry, hlength]
  rw [← (Attempt.of_ofInput h).1] at hanswers
  obtain ⟨found, hresult, hleftmost⟩ := Search.scan_leftmost hanswers (a.length + 1) 0 (by omega)
  refine ⟨found, hresult, ?_⟩
  cases found with
  | none =>
      obtain ⟨hpassed, hqueries⟩ := hleftmost
      refine ⟨fun k hk => hpassed k (Nat.zero_le k) (by omega), ?_⟩
      rw [hqueries, List.range_eq_range']
  | some m =>
      obtain ⟨hearliest, _, hpassed, hqueries⟩ := hleftmost
      refine ⟨hearliest, fun k hk => hpassed k (Nat.zero_le k) hk, ?_⟩
      rw [hqueries, List.range_eq_range']
      rfl

/-- An oracle that accepts one symbol and goes round at every other one. -/
def seeking : Oracle where
  sentinels := Sentinels.toValue ⟨0, 1, 2, none, none⟩
  answer := fun q => .ok (Transition.toValue
    (if q.window.first = some (98 : Nat) then ⟨1, none, true⟩ else ⟨3, none, false⟩))

/-- The start position before the match is passed with its budget spent. -/
theorem first_match_leftmost_seeking :
    (∀ q, ∃ raw, seeking.answer q = .ok raw) ∧
      ∃ a, Attempt.ofInput (.text "abb") seeking (.number (1 : Nat)) = .ok a ∧
        (findFirst (.text "abb") seeking (.number (1 : Nat))).result = .ok (some ⟨1, 2⟩) ∧
        Search.Earliest a ⟨1, 2⟩ ∧ Search.Passed a 0 := by
  have hanswers : ∀ q, ∃ raw, seeking.answer q = .ok raw := fun _ => ⟨_, rfl⟩
  have hmade : Attempt.ofInput (.text "abb") seeking (.number (1 : Nat)) =
      .ok ⟨#[97, 98, 98], seeking, ⟨0, 1, 2, 0, Number.maxSafe⟩, .atMost 1⟩ := by rfl
  have hfirst : (findFirst (.text "abb") seeking (.number (1 : Nat))).result =
      .ok (some ⟨1, 2⟩) := by rfl
  obtain ⟨found, hresult, hleftmost⟩ := first_match_leftmost hmade hanswers
  obtain rfl : some ⟨1, 2⟩ = found := Except.ok.inj (hfirst.symm.trans hresult)
  obtain ⟨hearliest, hpassed, _⟩ := hleftmost
  exact ⟨hanswers, _, hmade, hfirst, hearliest, hpassed 0 Nat.zero_lt_one⟩

end OracleNFA
