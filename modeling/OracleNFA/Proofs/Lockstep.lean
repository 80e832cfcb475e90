/-
  OracleNFA.Proofs.Lockstep
  ─────────────────────────
  **TWO RUNS THAT GO THE SAME WAY.**

  Two attempts go in lockstep through two explorations (`Attempt.Lockstep`) if
  these raise corresponding questions, both oracles answer them or both fail, and
  the replies let both go on in lockstep until they come to related results.  Which
  site corresponds to which is a map `σ`.  This is about trees and oracles alone: a
  refusal is one more reply.

  Under equal budgets the runs are refused together, so they come to one inquiry,
  seen through `σ` on the one side:

      Lockstep.bind        — sequences of explorations in lockstep are in lockstep
      lockstep_run_ensures — runs end alike, and as the one exploration ensures
      report_lockstep      — so do reports
      evaluate_lockstep    — and the outcomes of a strategy
-/
import OracleNFA.Proofs.Inquiry

namespace OracleNFA

namespace Inquiry

/-- The inquiry about the corresponding sites. -/
def map (σ : Site → Site) (i : Inquiry) : Inquiry :=
  ⟨i.asked.map σ, i.refused.map σ⟩

variable (σ : Site → Site) (i : Inquiry) (site : Site)

theorem map_id : i.map id = i := by
  unfold map
  simp

theorem map_ask : (i.ask site).map σ = (i.map σ).ask (σ site) := by
  unfold map ask
  simp

theorem map_refuse : (i.refuse site).map σ = (i.map σ).refuse (σ site) := by
  unfold map refuse
  cases i.refused <;> rfl

end Inquiry

namespace Attempt

variable {α β γ δ : Type} {a b : Attempt} {σ : Site → Site} {R : α → β → Prop}
  {x : Exploration α} {y : Exploration β}

/-! ## §1. Explorations in lockstep. -/

/-- Two explorations raise corresponding questions and come to related results,
whatever is refused. -/
inductive Lockstep (a b : Attempt) (σ : Site → Site) (R : α → β → Prop) :
    Exploration α → Exploration β → Prop
  | done {r : α} {r' : β} (related : R r r') : Lockstep a b σ R (.done r) (.done r')
  | note {event event' : Nat → Event} {x : Exploration α} {y : Exploration β}
      (rest : Lockstep a b σ R x y) : Lockstep a b σ R (.note event x) (.note event' y)
  /-- Both oracles answer. -/
  | answered {site : Site} {next : Option Answer → Exploration α}
      {next' : Option Answer → Exploration β} {raw raw' : Value}
      (refused : Lockstep a b σ R (next none) (next' none))
      (left : a.oracle.answer (a.query site) = .ok raw)
      (right : b.oracle.answer (b.query (σ site)) = .ok raw')
      (replied : Lockstep a b σ R (next (some (a.read site raw).answer))
        (next' (some (b.read (σ site) raw').answer))) :
      Lockstep a b σ R (.ask site next) (.ask (σ site) next')
  /-- Both oracles fail. -/
  | failed {site : Site} {next : Option Answer → Exploration α}
      {next' : Option Answer → Exploration β} {failure : Failure}
      (refused : Lockstep a b σ R (next none) (next' none))
      (left : a.oracle.answer (a.query site) = .error failure)
      (right : b.oracle.answer (b.query (σ site)) = .error failure) :
      Lockstep a b σ R (.ask site next) (.ask (σ site) next')

theorem Lockstep.mono {S : α → β → Prop} (h : a.Lockstep b σ R x y)
    (hRS : ∀ r r', R r r' → S r r') : a.Lockstep b σ S x y := by
  induction h with
  | done related => exact .done (hRS _ _ related)
  | note _ ih => exact .note ih
  | answered _ left right _ ihrefused ihreplied => exact .answered ihrefused left right ihreplied
  | failed _ left right ihrefused => exact .failed ihrefused left right

/-- **Sequences go in lockstep if their parts do.** -/
theorem Lockstep.bind {S : γ → δ → Prop} {f : α → Exploration γ} {g : β → Exploration δ}
    (h : a.Lockstep b σ R x y) (hnext : ∀ r r', R r r' → a.Lockstep b σ S (f r) (g r')) :
    a.Lockstep b σ S (x.bind f) (y.bind g) := by
  -- `bind` grafts onto the leaves, and there the results are related.
  induction h with
  | done related => exact hnext _ _ related
  | note _ ih => exact .note ih
  | answered _ left right _ ihrefused ihreplied => exact .answered ihrefused left right ihreplied
  | failed _ left right ihrefused => exact .failed ihrefused left right

theorem Lockstep.map {S : γ → δ → Prop} {f : α → γ} {g : β → δ} (h : a.Lockstep b σ R x y)
    (hresult : ∀ r r', R r r' → S (f r) (g r')) : a.Lockstep b σ S (x.map f) (y.map g) :=
  h.bind fun r r' hr => .done (hresult r r' hr)

/-- The result of the one exploration may be made into another. -/
theorem Lockstep.map_right {S : α → γ → Prop} {g : β → γ} (h : a.Lockstep b σ R x y)
    (hresult : ∀ r r', R r r' → S r (g r')) : a.Lockstep b σ S x (y.map g) := by
  induction h with
  | done related => exact .done (hresult _ _ related)
  | note _ ih => exact .note ih
  | answered _ left right _ ihrefused ihreplied => exact .answered ihrefused left right ihreplied
  | failed _ left right ihrefused => exact .failed ihrefused left right

/-! ## §2. Runs in lockstep. -/

/-- Two runs that ended alike: one inquiry accounts for both. -/
inductive EndAlike (a b : Attempt) (σ : Site → Site) (R : α → β → Prop) (i : Inquiry) :
    EStateM.Result (Raised QueryError) Progress α →
      EStateM.Result (Raised QueryError) Progress β → Prop
  | returned {r : α} {r' : β} {p q : Progress} (related : R r r') (left : a.Accounts i p)
      (right : b.Accounts (i.map σ) q) : EndAlike a b σ R i (.ok r p) (.ok r' q)
  | failed {site : Site} {failure : Failure} {e e' : Raised QueryError} {p q : Progress}
      (raised : QueryError.raise site failure = e)
      (raised' : QueryError.raise (σ site) failure = e')
      (left : a.Accounts i p) (right : b.Accounts (i.map σ) q) :
      EndAlike a b σ R i (.error e p) (.error e' q)

/-- The meter is a function of the inquiry. -/
theorem Accounts.meter_eq {i : Inquiry} {p : Progress} (h : a.Accounts i p) :
    p.meter = ⟨a.budget, i.asked.length⟩ := by
  rw [← h.budget, ← h.used]

/-- What is refused is refused for the corresponding site. -/
theorem Accounts.refuse_map {i : Inquiry} {q : Progress} (h : b.Accounts (i.map σ) q) (site : Site)
    (hm : q.meter.take? = none) : b.Accounts ((i.refuse site).map σ) q := by
  rw [Inquiry.map_refuse]
  exact h.refuse (σ site) hm

/-- What a run ended in, without its progress. -/
def ended : EStateM.Result (Raised QueryError) Progress α → Except (Raised QueryError) α
  | .ok r _ => .ok r
  | .error e _ => .error e

/-- **Runs in lockstep end alike**, and as the first exploration ensures. -/
theorem lockstep_run_ensures {Q : Except (Raised QueryError) α → Inquiry → Prop}
    (hbudget : b.budget = a.budget) (h : a.Lockstep b σ R x y) :
    ∀ (i : Inquiry) (p q : Progress), a.Accounts i p → b.Accounts (i.map σ) q → a.Ensures Q x i →
      ∃ i', a.EndAlike b σ R i' ((a.run x).run p) ((b.run y).run q) ∧
        Q (ended ((a.run x).run p)) i' := by
  -- Both meters count the same questions, so both grant the next one or neither.
  have hmeter : ∀ {i : Inquiry} {p q : Progress}, a.Accounts i p → b.Accounts (i.map σ) q →
      q.meter.take? = p.meter.take? := by
    intro i p q hp hq
    rw [hp.meter_eq, hq.meter_eq, hbudget, Inquiry.map, List.length_map]
  induction h with
  | done related => exact fun i p q hp hq hQ => ⟨i, .returned related hp hq, hQ⟩
  | note _ ih =>
      intro i p q hp hq hQ
      exact ih i (p.noting _) (q.noting _) { hp with } { hq with } hQ
  | @answered site next next' raw raw' _ left right _ ihrefused ihreplied =>
      intro i p q hp hq hQ
      rw [run_ask_next, run_ask_next, hmeter hp hq]
      cases hm : p.meter.take? with
      | none =>
          exact ihrefused _ p q (hp.refuse site hm)
            (hq.refuse_map site ((hmeter hp hq).trans hm)) hQ.1
      | some meter =>
          have hp' := hp.ask hm site
          have hq' := hq.ask ((hmeter hp hq).trans hm) (σ site)
          have hQ' := hQ.2 (hp.take hm).1
          rw [left] at hp' hQ'
          rw [right, ← Inquiry.map_ask] at hq'
          dsimp only
          rw [left, right]
          exact ihreplied _ _ _ hp' hq' hQ'
  | @failed site next next' failure _ left right ihrefused =>
      intro i p q hp hq hQ
      rw [run_ask_next, run_ask_next, hmeter hp hq]
      cases hm : p.meter.take? with
      | none =>
          exact ihrefused _ p q (hp.refuse site hm)
            (hq.refuse_map site ((hmeter hp hq).trans hm)) hQ.1
      | some meter =>
          have hp' := hp.ask hm site
          have hq' := hq.ask ((hmeter hp hq).trans hm) (σ site)
          have hQ' := hQ.2 (hp.take hm).1
          rw [left] at hp' hQ'
          rw [right, ← Inquiry.map_ask] at hq'
          dsimp only
          rw [left, right]
          exact ⟨i.ask site, .failed rfl rfl hp' hq', hQ'⟩

/-! ## §3. Reports. -/

/-- **Reports of explorations in lockstep.**  The queries are about corresponding
sites, and both return related results or both fail at corresponding sites; and the
inquiry is as the first exploration ensures. -/
theorem report_lockstep_ensures {Q : Except (Raised QueryError) α → Inquiry → Prop}
    (hbudget : b.budget = a.budget) (h : a.Lockstep b σ R x y) (hQ : a.Ensures Q x .start)
    (f : α → Progress → γ) (g : β → Progress → δ) :
    ∃ i, (a.report x f).queries = i.asked.map a.query ∧
      (b.report y g).queries = (i.map σ).asked.map b.query ∧
      ((∃ r r' p q, R r r' ∧ Q (.ok r) i ∧ a.Accounts i p ∧ b.Accounts (i.map σ) q ∧
          (a.report x f).result = .ok (f r p) ∧ (b.report y g).result = .ok (g r' q)) ∨
        ∃ site failure, Q (.error (QueryError.raise site failure)) i ∧
          (a.report x f).result = .error (.query (QueryError.raise site failure)) ∧
          (b.report y g).result = .error (.query (QueryError.raise (σ site) failure))) := by
  obtain ⟨i, halike, hensured⟩ := lockstep_run_ensures hbudget h .start (Progress.fresh a.budget)
    (Progress.fresh b.budget) a.accounts_fresh b.accounts_fresh hQ
  unfold report
  generalize (a.run x).run (Progress.fresh a.budget) = left at halike hensured
  generalize (b.run y).run (Progress.fresh b.budget) = right at halike
  cases halike with
  | returned related hp hq =>
      exact ⟨i, hp.queries, hq.queries, .inl ⟨_, _, _, _, related, hensured, hp, hq, rfl, rfl⟩⟩
  | failed raised raised' hp hq =>
      subst raised raised'
      exact ⟨i, hp.queries, hq.queries, .inr ⟨_, _, hensured, rfl, rfl⟩⟩

/-- Reports in lockstep, where nothing is known of the inquiry. -/
theorem report_lockstep (hbudget : b.budget = a.budget) (h : a.Lockstep b σ R x y)
    (f : α → Progress → γ) (g : β → Progress → δ) :
    ∃ i, (a.report x f).queries = i.asked.map a.query ∧
      (b.report y g).queries = (i.map σ).asked.map b.query ∧
      ((∃ r r' p q, R r r' ∧ a.Accounts i p ∧ b.Accounts (i.map σ) q ∧
          (a.report x f).result = .ok (f r p) ∧ (b.report y g).result = .ok (g r' q)) ∨
        ∃ site failure, (a.report x f).result = .error (.query (QueryError.raise site failure)) ∧
          (b.report y g).result = .error (.query (QueryError.raise (σ site) failure))) := by
  obtain ⟨i, hqueries, hqueries', hresult⟩ :=
    report_lockstep_ensures hbudget h (a.ensures_failure x .start) f g
  refine ⟨i, hqueries, hqueries', hresult.imp ?_ ?_⟩
  · rintro ⟨r, r', p, q, related, _, hends⟩
    exact ⟨r, r', p, q, related, hends⟩
  · rintro ⟨site, failure, _, hfails⟩
    exact ⟨site, failure, hfails⟩

/-- **Outcomes of a strategy in lockstep.** -/
theorem evaluate_lockstep {R : Ending → Ending → Prop} {s : Strategy}
    (hbudget : b.budget = a.budget)
    (h : a.Lockstep b σ R (s.exploration a.ids a.length) (s.exploration b.ids b.length)) :
    ∃ i, (a.evaluate s).queries = i.asked.map a.query ∧
      (b.evaluate s).queries = (i.map σ).asked.map b.query ∧
      ((∃ e e', R e e' ∧ (a.evaluate s).result = .ok (a.outcomeOf e i) ∧
          (b.evaluate s).result = .ok (b.outcomeOf e' (i.map σ))) ∨
        ∃ site failure, (a.evaluate s).result = .error (.query (QueryError.raise site failure)) ∧
          (b.evaluate s).result = .error (.query (QueryError.raise (σ site) failure))) := by
  obtain ⟨i, hqueries, hqueries', hresult⟩ := report_lockstep hbudget h a.outcome b.outcome
  refine ⟨i, hqueries, hqueries', hresult.imp_left ?_⟩
  rintro ⟨e, e', p, q, related, hp, hq, hleft, hright⟩
  refine ⟨e, e', related, ?_, ?_⟩
  · exact hleft.trans (congrArg Except.ok (hp.outcome_eq e))
  · exact hright.trans (congrArg Except.ok (hq.outcome_eq e'))

end Attempt

end OracleNFA
