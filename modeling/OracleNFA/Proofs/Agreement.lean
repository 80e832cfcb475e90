/-
  OracleNFA.Proofs.Agreement
  ──────────────────────────
  **REPORTS THAT AGREE.**

  Two reports agree if they are of the same result after the same queries; what was
  told on the way may differ.  The reports of explorations in lockstep at the same
  sites agree, and scans agree where their attempts do:

      report_agrees_of_lockstep        — an exploration
      evaluate_alike_of_lockstep       — a strategy, diagnostics apart
      matchAt_agrees                   — the match at a start position
      findFirst_agrees, findAll_agrees — searches, from what is found at each position

  Of scans and searches this holds for agreement and for every other relation between
  reports that sequences keep (`Report.Congruence`), and so does it for what is made of
  the same arguments (`tryAt_congr`, `runStrategy_congr`).
-/
import OracleNFA.Proofs.Lockstep
import OracleNFA.Proofs.Search

namespace OracleNFA

/-! ## §1. Agreement. -/

/-- What an outcome says apart from what was wrong on the way. -/
def Outcome.finding (o : Outcome) : Verdict × Nat × Position :=
  (o.verdict, o.queries, o.position)

/-- Two reports of the same result after the same queries.  What they tell on the way
may differ. -/
structure Report.Agrees {α : Type} (r s : Report α) : Prop where
  queries : s.queries = r.queries
  result : s.result = r.result

namespace Report

variable {α β : Type} {r s : Report α}

theorem Agrees.refl (r : Report α) : r.Agrees r := ⟨rfl, rfl⟩

theorem Agrees.bind {f g : α → Report β} (h : r.Agrees s) (hf : ∀ v, (f v).Agrees (g v)) :
    (r >>= f).Agrees (s >>= g) := by
  show (Report.bind r f).Agrees (Report.bind s g)
  unfold Report.bind
  rw [h.queries, h.result]
  cases r.result with
  | error e => exact ⟨rfl, rfl⟩
  | ok v => exact ⟨congrArg (r.queries ++ ·) (hf v).queries, (hf v).result⟩

end Report

/-- A relation between reports that sequences keep. -/
structure Report.Congruence (R : ∀ α : Type, Report α → Report α → Prop) : Prop where
  refl : ∀ (α : Type) (r : Report α), R α r r
  bind : ∀ (α β : Type) (r s : Report α) (f g : α → Report β),
    R α r s → (∀ v, R β (f v) (g v)) → R β (r >>= f) (s >>= g)

theorem Report.agrees_congruence : Report.Congruence fun _ => Report.Agrees where
  refl := fun _ => .refl
  bind := fun _ _ _ _ _ _ => .bind

/-! ## §2. Scans. -/

section Scans

variable {R : ∀ α : Type, Report α → Report α → Prop} {find find' : Nat → Report (Option Span)}

/-- Scans are related where their attempts are. -/
theorem Search.scan_congr (hR : Report.Congruence R) {stop : Nat}
    (h : ∀ k < stop, R _ (find k) (find' k)) (more : Nat) : ∀ start : Nat, start + more ≤ stop →
      R _ (scan find more start) (scan find' more start) := by
  induction more with
  | zero => exact fun _ _ => hR.refl _ _
  | succ more ih =>
      intro start hstop
      rw [scan, scan]
      refine hR.bind _ _ _ _ _ _ (h start (by omega)) fun found => ?_
      cases found with
      | some m => exact hR.refl _ _
      | none => exact ih (start + 1) (by omega)

theorem Search.scanAll_congr (hR : Report.Congruence R) {stop : Nat}
    (h : ∀ k < stop, R _ (find k) (find' k)) (more : Nat) : ∀ start : Nat,
      R _ (scanAll find stop more start) (scanAll find' stop more start) := by
  induction more with
  | zero => exact fun _ => hR.refl _ _
  | succ more ih =>
      intro start
      rw [scanAll, scanAll]
      split
      · exact hR.refl _ _
      · next hstop =>
          refine hR.bind _ _ _ _ _ _ (h start (Nat.lt_of_not_le hstop)) fun found => ?_
          cases found with
          | none => exact ih (start + 1)
          | some m => exact hR.bind _ _ _ _ _ _ (ih _) fun rest => hR.refl _ _

variable {oracle other : Oracle} {maxCycles : Value} {input : Input}

/-- **Searches are related where their attempts are at every position that they try.** -/
theorem findFirst_congr (hR : Report.Congruence R)
    (h : ∀ symbols, input.symbols = .ok symbols → ∀ k ≤ symbols.length,
      R _ (Search.tryAt symbols.toArray oracle maxCycles k)
        (Search.tryAt symbols.toArray other maxCycles k)) :
    R _ (findFirst input oracle maxCycles) (findFirst input other maxCycles) := by
  cases hsymbols : input.symbols with
  | error e =>
      unfold findFirst
      rw [hsymbols]
      exact hR.refl _ _
  | ok symbols =>
      rw [findFirst_eq _ _ hsymbols, findFirst_eq _ _ hsymbols]
      refine Search.scan_congr hR (fun k hk => ?_) _ 0 (Nat.le_of_eq (Nat.zero_add _))
      exact h symbols hsymbols k (Nat.le_of_lt_succ hk)

theorem findAll_congr (hR : Report.Congruence R)
    (h : ∀ symbols, input.symbols = .ok symbols → ∀ k < symbols.length,
      R _ (Search.tryAt symbols.toArray oracle maxCycles k)
        (Search.tryAt symbols.toArray other maxCycles k)) :
    R _ (findAll input oracle maxCycles) (findAll input other maxCycles) := by
  cases hsymbols : input.symbols with
  | error e =>
      unfold findAll
      rw [hsymbols]
      exact hR.refl _ _
  | ok symbols =>
      rw [findAll_eq _ _ hsymbols, findAll_eq _ _ hsymbols]
      exact Search.scanAll_congr hR (h symbols hsymbols) _ 0

/-! ## §3. Arguments. -/

variable {symbols : Array Symbol} {φ : Attempt → Attempt}

/-- Where the same arguments are unsound, attempts at a start position are related if
those that can be made are. -/
theorem Search.tryAt_congr (hR : Report.Congruence R)
    (hmade : Attempt.ofSymbols symbols other maxCycles =
      (Attempt.ofSymbols symbols oracle maxCycles).map φ) {k : Nat}
    (h : ∀ a, Attempt.ofSymbols symbols oracle maxCycles = .ok a →
      R _ (matchAt a k) (matchAt (φ a) k)) :
    R _ (tryAt symbols oracle maxCycles k) (tryAt symbols other maxCycles k) := by
  rw [tryAt_eq, tryAt_eq, hmade]
  cases ha : Attempt.ofSymbols symbols oracle maxCycles with
  | error e => exact hR.refl _ _
  | ok a => exact h a ha

/-- So are runs. -/
theorem runStrategy_congr (hR : Report.Congruence R)
    (hmade : Attempt.ofInput input other maxCycles =
      (Attempt.ofInput input oracle maxCycles).map φ) {s : Strategy}
    (h : ∀ a, Attempt.ofInput input oracle maxCycles = .ok a →
      R _ (a.evaluate s) ((φ a).evaluate s)) :
    R _ (runStrategy s input oracle maxCycles) (runStrategy s input other maxCycles) := by
  rw [runStrategy_eq, runStrategy_eq, hmade]
  cases ha : Attempt.ofInput input oracle maxCycles with
  | error e => exact hR.refl _ _
  | ok a => exact h a ha

end Scans

/-! ## §4. Explorations in lockstep. -/

namespace Attempt

variable {α β : Type} {a b : Attempt}

/-- What explorations in lockstep come to, where the progress is left out of it. -/
theorem report_agrees_of_lockstep {x y : Exploration α} (hbudget : b.budget = a.budget)
    (hquery : ∀ u, b.query u = a.query u) (h : a.Lockstep b id Eq x y) (f : α → β) :
    (a.report x fun r _ => f r).Agrees (b.report y fun r _ => f r) := by
  obtain ⟨i, hqueries, hqueries', hresult⟩ :=
    report_lockstep hbudget h (fun r _ => f r) fun r _ => f r
  rw [Inquiry.map_id, funext hquery] at hqueries'
  refine ⟨hqueries'.trans hqueries.symm, ?_⟩
  rcases hresult with ⟨r, _, _, _, rfl, _, _, hleft, hright⟩ | ⟨site, failure, hleft, hright⟩
  · exact hright.trans hleft.symm
  · exact hright.trans hleft.symm

/-- **Strategies in lockstep ask the same and come to the same.** -/
theorem evaluate_alike_of_lockstep {s : Strategy} (hbudget : b.budget = a.budget)
    (hquery : ∀ u, b.query u = a.query u)
    (h : a.Lockstep b id Eq (s.exploration a.ids a.length) (s.exploration b.ids b.length)) :
    (b.evaluate s).queries = (a.evaluate s).queries ∧
      (b.evaluate s).result.map Outcome.finding = (a.evaluate s).result.map Outcome.finding := by
  obtain ⟨i, hqueries, hqueries', hresult⟩ := evaluate_lockstep hbudget h
  rw [Inquiry.map_id, funext hquery] at hqueries'
  refine ⟨hqueries'.trans hqueries.symm, ?_⟩
  rcases hresult with ⟨e, _, rfl, hleft, hright⟩ | ⟨site, failure, hleft, hright⟩
  · rw [hleft, hright, Inquiry.map_id]
    rfl
  · rw [hleft, hright]
    rfl

end Attempt

/-! ## §5. Searches. -/

namespace Search

open Exploration

/-- **Where simulations from a start position are in lockstep, the same is found
there.** -/
theorem matchAt_agrees {a b : Attempt} {start : Nat} (hbudget : b.budget = a.budget)
    (hquery : ∀ u, b.query u = a.query u)
    (h : a.Lockstep b id Eq (simulate a.ids a.length start false)
      (simulate b.ids b.length start false)) :
    (matchAt a start).Agrees (matchAt b start) := by
  have hattempt : (attemptAt a start).Agrees (attemptAt b start) :=
    Attempt.report_agrees_of_lockstep hbudget hquery h id
  obtain ⟨hqueries, hresult⟩ := matchAt_eq a start
  obtain ⟨hqueries', hresult'⟩ := matchAt_eq b start
  constructor
  · rw [hqueries, hqueries', hattempt.queries]
  · rw [hresult, hresult', hattempt.result]

end Search

variable {oracle other : Oracle} {maxCycles : Value}

/-- **Searches agree where they find the same at every position.** -/
theorem findFirst_agrees (h : ∀ symbols k, (Search.tryAt symbols oracle maxCycles k).Agrees
      (Search.tryAt symbols other maxCycles k)) (input : Input) :
    (findFirst input oracle maxCycles).Agrees (findFirst input other maxCycles) :=
  findFirst_congr Report.agrees_congruence fun symbols _ k _ => h symbols.toArray k

theorem findAll_agrees (h : ∀ symbols k, (Search.tryAt symbols oracle maxCycles k).Agrees
      (Search.tryAt symbols other maxCycles k)) (input : Input) :
    (findAll input oracle maxCycles).Agrees (findAll input other maxCycles) :=
  findAll_congr Report.agrees_congruence fun symbols _ k _ => h symbols.toArray k

end OracleNFA
