/-
  OracleNFA.Proofs.Inquiry
  ────────────────────────
  **WHAT A RUN ASKS, AND WHAT FOLLOWS FOR ITS REPORT.**

  An `Inquiry` is the part of a run that properties speak about: the sites
  that were asked about, in order, and the first site whose question was
  refused.  Meter, queries and diagnostics are functions of it
  (`Attempt.Accounts`).

  `Attempt.Ensures` says that an exploration ends as `Q` wants, whatever the
  budget: at each question it may be refused, and if nothing was refused yet
  the oracle may answer or fail.  It is a predicate on the tree alone, so the
  properties of an exploration are proved without a meter in sight:

      Ensures Q x start  →  the report of x is the report of some inquiry
                            and some result that are as Q wants
-/
import OracleNFA.Matching

namespace OracleNFA

/-! ## §1. Inquiries. -/

/-- The sites a run asked about, in order, and the first one it was refused. -/
structure Inquiry where
  asked : List Site
  refused : Option Site

namespace Inquiry

/-- Nothing asked yet. -/
def start : Inquiry := ⟨[], none⟩

/-- One more question was put to the oracle. -/
def ask (i : Inquiry) (site : Site) : Inquiry :=
  { i with asked := i.asked ++ [site] }

/-- One more question was refused. -/
def refuse (i : Inquiry) (site : Site) : Inquiry :=
  { i with refused := i.refused.or (some site) }

/-- The sites a question was raised about, whether it was granted or not. -/
def touched (i : Inquiry) : List Site :=
  i.asked ++ i.refused.toList

@[simp] theorem asked_start : start.asked = [] := rfl

@[simp] theorem refused_start : start.refused = none := rfl

@[simp] theorem asked_ask (i : Inquiry) (site : Site) :
    (i.ask site).asked = i.asked ++ [site] := rfl

@[simp] theorem refused_ask (i : Inquiry) (site : Site) : (i.ask site).refused = i.refused := rfl

@[simp] theorem asked_refuse (i : Inquiry) (site : Site) : (i.refuse site).asked = i.asked := rfl

@[simp] theorem isSome_refused_refuse (i : Inquiry) (site : Site) :
    (i.refuse site).refused.isSome = true := by
  unfold refuse
  cases i.refused <;> rfl

/-- Where nothing was refused, only questions that were granted were raised. -/
theorem touched_of_refused_none {i : Inquiry} (h : i.refused = none) : i.touched = i.asked := by
  unfold touched
  rw [h]
  exact List.append_nil _

theorem touched_refuse {i : Inquiry} (h : i.refused = none) (site : Site) :
    (i.refuse site).touched = i.asked ++ [site] := by
  unfold touched refuse
  rw [h]
  rfl

end Inquiry

/-! ## §2. What an exploration ensures. -/

namespace Attempt

variable {α β : Type}

/-- Whatever the budget, the exploration goes on from an inquiry to a result
and an inquiry as wanted. -/
def Ensures (a : Attempt) (Q : Except (Raised QueryError) α → Inquiry → Prop) :
    Exploration α → Inquiry → Prop
  | .done r, i => Q (.ok r) i
  | .note _ rest, i => a.Ensures Q rest i
  | .ask site next, i =>
      a.Ensures Q (next none) (i.refuse site) ∧
      (i.refused = none →
        match a.oracle.answer (a.query site) with
        | .error failure => Q (.error (QueryError.raise site failure)) (i.ask site)
        | .ok raw => a.Ensures Q (next (some (a.read site raw).answer)) (i.ask site))

/-- What is wanted of an exploration that goes on from its result. -/
def andThen (f : α → Inquiry → Prop) (Q : Except (Raised QueryError) β → Inquiry → Prop) :
    Except (Raised QueryError) α → Inquiry → Prop
  | .ok r, i => f r i
  | .error e, i => Q (.error e) i

theorem ensures_mono (a : Attempt) {Q Q' : Except (Raised QueryError) α → Inquiry → Prop}
    (h : ∀ r i, Q r i → Q' r i) (x : Exploration α) :
    ∀ i : Inquiry, a.Ensures Q x i → a.Ensures Q' x i := by
  induction x with
  | done r => intro i; exact h (.ok r) i
  | note event rest ih => intro i; exact ih i
  | ask site next ih =>
      intro i hx
      refine ⟨ih none _ hx.1, fun hi => ?_⟩
      have answered := hx.2 hi
      cases ho : a.oracle.answer (a.query site) with
      | error failure =>
          rw [ho] at answered
          exact h _ _ answered
      | ok raw =>
          rw [ho] at answered
          exact ih _ _ answered

/-- A sequence ensures what its first part ensures the second part goes on to. -/
theorem ensures_bind (a : Attempt) (Q : Except (Raised QueryError) β → Inquiry → Prop)
    (f : α → Exploration β) (x : Exploration α) :
    ∀ i : Inquiry, a.Ensures (andThen (fun r => a.Ensures Q (f r)) Q) x i →
      a.Ensures Q (x.bind f) i := by
  -- `bind` grafts `f` onto the leaves, so the tree above them is the same.
  induction x with
  | done r => intro i hx; exact hx
  | note event rest ih => intro i hx; exact ih i hx
  | ask site next ih =>
      intro i hx
      refine ⟨ih none _ hx.1, fun hi => ?_⟩
      have answered := hx.2 hi
      cases ho : a.oracle.answer (a.query site) with
      | error failure =>
          rw [ho] at answered
          exact answered
      | ok raw =>
          rw [ho] at answered
          exact ih _ _ answered

theorem ensures_map (a : Attempt) (Q : Except (Raised QueryError) β → Inquiry → Prop) (f : α → β)
    (x : Exploration α) (i : Inquiry) (h : a.Ensures (fun r => Q (r.map f)) x i) :
    a.Ensures Q (x.map f) i := by
  apply ensures_bind
  refine ensures_mono a ?_ x i h
  intro r i hr
  cases r <;> exact hr

theorem ensures_and (a : Attempt) {Q Q' : Except (Raised QueryError) α → Inquiry → Prop}
    (x : Exploration α) :
    ∀ i : Inquiry, a.Ensures Q x i → a.Ensures Q' x i →
      a.Ensures (fun r j => Q r j ∧ Q' r j) x i := by
  induction x with
  | done r => intro i hx hx'; exact ⟨hx, hx'⟩
  | note event rest ih => intro i hx hx'; exact ih i hx hx'
  | ask site next ih =>
      intro i hx hx'
      refine ⟨ih none _ hx.1 hx'.1, fun hi => ?_⟩
      have answered := hx.2 hi
      have answered' := hx'.2 hi
      cases ho : a.oracle.answer (a.query site) with
      | error failure =>
          rw [ho] at answered answered'
          exact ⟨answered, answered'⟩
      | ok raw =>
          rw [ho] at answered answered'
          exact ih _ _ answered answered'

/-- The question about a site fails, and this is what is raised. -/
def Fails (a : Attempt) (u : Site) (e : Raised QueryError) : Prop :=
  ∃ failure, a.oracle.answer (a.query u) = .error failure ∧ QueryError.raise u failure = e

/-- An exploration that ends in an error ends in one of the oracle's. -/
theorem ensures_failure (a : Attempt) (x : Exploration α) :
    ∀ i : Inquiry, a.Ensures (fun r _ => ∀ e, r = .error e → ∃ u, a.Fails u e) x i := by
  induction x with
  | done r => intro i e he; exact absurd he (by simp)
  | note event rest ih => intro i; exact ih i
  | ask site next ih =>
      intro i
      refine ⟨ih none _, fun _ => ?_⟩
      cases ho : a.oracle.answer (a.query site) with
      | error failure =>
          intro e he
          exact ⟨site, failure, ho, Except.error.inj he⟩
      | ok raw => exact ih _ _

/-- Where every query is answered no question fails. -/
theorem not_fails {a : Attempt} (hanswers : ∀ q, ∃ raw, a.oracle.answer q = .ok raw) {u : Site}
    {e : Raised QueryError} : ¬ a.Fails u e := by
  rintro ⟨failure, hfailed, _⟩
  obtain ⟨raw, answered⟩ := hanswers (a.query u)
  exact absurd (hfailed.symm.trans answered) (by simp)

/-- Whatever is asked further, what was asked stays. -/
theorem ensures_extends (a : Attempt) (x : Exploration α) :
    ∀ i : Inquiry, a.Ensures (fun _ j => i.asked <+: j.asked) x i := by
  induction x with
  | done r => intro i; exact List.prefix_refl _
  | note event rest ih => intro i; exact ih i
  | ask site next ih =>
      intro i
      have hask : i.asked <+: (i.ask site).asked := List.prefix_append _ _
      refine ⟨ih none (i.refuse site), fun _ => ?_⟩
      cases a.oracle.answer (a.query site) with
      | error failure => exact hask
      | ok raw => exact ensures_mono a (fun _ _ h => hask.trans h) _ _ (ih _ (i.ask site))

/-! ## §3. Running. -/

/-- The diagnostics that asking about a site adds. -/
def faults (a : Attempt) (site : Site) : List Diagnostic :=
  match a.oracle.answer (a.query site) with
  | .ok raw => (a.read site raw).problems.map (Diagnostic.malformed site)
  | .error _ => []

/-- What the budget allows of an inquiry: no more questions than the limit, and
a refusal only at the limit. -/
structure Grants (a : Attempt) (i : Inquiry) : Prop where
  within : ∀ n, a.budget.limit? = some n → i.asked.length ≤ n
  spent : i.refused.isSome = true → a.budget.limit? = some i.asked.length

/-- The progress that comes of an inquiry. -/
structure Accounts (a : Attempt) (i : Inquiry) (p : Progress) : Prop extends a.Grants i where
  queries : p.queries.toList = i.asked.map a.query
  diagnostics : p.diagnostics.toList = i.asked.flatMap a.faults
  budget : p.meter.budget = a.budget
  used : p.meter.used = i.asked.length

theorem accounts_fresh (a : Attempt) : a.Accounts .start (Progress.fresh a.budget) where
  within := fun _ _ => Nat.zero_le _
  spent := fun h => absurd h (by simp)
  queries := rfl
  diagnostics := rfl
  budget := rfl
  used := rfl

theorem run_ask (a : Attempt) (site : Site) (p : Progress) :
    (a.ask site).run p =
      match p.meter.take? with
      | none => .ok none p
      | some meter =>
          let taken := { p with meter := meter, queries := p.queries.push (a.query site) }
          match a.oracle.answer (a.query site) with
          | .error failure => .error (QueryError.raise site failure) taken
          | .ok raw =>
              .ok (some (a.read site raw).answer) (a.record site (a.read site raw) taken) := by
  simp only [ask, EStateM.run_bind, EStateM.run_get]
  cases p.meter.take? with
  | none => rfl
  | some meter =>
      simp only [EStateM.run_bind, EStateM.run_set]
      cases a.oracle.answer (a.query site) <;> rfl

/-- A spent meter refuses at its limit. -/
theorem Accounts.refuse {a : Attempt} {i : Inquiry} {p : Progress} (h : a.Accounts i p)
    (site : Site) (hm : p.meter.take? = none) : a.Accounts (i.refuse site) p := by
  have hlimit : a.budget.limit? = some i.asked.length := by
    simp only [Meter.take?, Budget.allows, h.budget, h.used] at hm
    cases hn : a.budget.limit? with
    | none => simp [hn] at hm
    | some n =>
        have hge : n ≤ i.asked.length := by simpa [hn] using hm
        rw [Nat.le_antisymm (h.within n hn) hge]
  exact { h with spent := fun _ => hlimit }

/-- A meter that grants a question has refused none. -/
theorem Accounts.take {a : Attempt} {i : Inquiry} {p : Progress} {meter : Meter}
    (h : a.Accounts i p) (hm : p.meter.take? = some meter) :
    i.refused = none ∧ meter = ⟨a.budget, i.asked.length + 1⟩ ∧
      ∀ n, a.budget.limit? = some n → i.asked.length + 1 ≤ n := by
  simp only [Meter.take?, Budget.allows, h.budget, h.used, Option.ite_none_right_eq_some,
    Option.some.injEq] at hm
  obtain ⟨hallow, rfl⟩ := hm
  refine ⟨?_, rfl, fun n hn => Nat.succ_le_of_lt (by simpa [hn] using hallow)⟩
  cases hrefused : i.refused with
  | none => rfl
  | some site =>
      -- What was refused once was refused at the limit, which still holds.
      have hlimit := h.spent (by rw [hrefused]; rfl)
      simp [hlimit] at hallow

/-- A question that was granted is accounted for before the oracle sees it, and so
is its answer. -/
theorem Accounts.ask {a : Attempt} {i : Inquiry} {p : Progress} {meter : Meter}
    (h : a.Accounts i p) (hm : p.meter.take? = some meter) (site : Site) :
    let taken := { p with meter := meter, queries := p.queries.push (a.query site) }
    match a.oracle.answer (a.query site) with
    | .error _ => a.Accounts (i.ask site) taken
    | .ok raw => a.Accounts (i.ask site) (a.record site (a.read site raw) taken) := by
  obtain ⟨hi, rfl, hroom⟩ := h.take hm
  have hgrants : a.Grants (i.ask site) := ⟨by simpa using hroom, by simp [hi]⟩
  cases ho : a.oracle.answer (a.query site) with
  | error failure =>
      refine ⟨hgrants, ?_, ?_, rfl, ?_⟩
      · simp [h.queries]
      · simp [h.diagnostics, faults, ho]
      · simp
  | ok raw =>
      refine ⟨hgrants, ?_, ?_, rfl, ?_⟩
      · simp [record, h.queries]
      · simp [record, h.diagnostics, faults, ho]
      · simp [record]

/-- A run asks its next question and goes on from the reply, unless the oracle
fails. -/
theorem run_ask_next (a : Attempt) (site : Site) (next : Option Answer → Exploration α)
    (p : Progress) :
    (a.run (.ask site next)).run p =
      match p.meter.take? with
      | none => (a.run (next none)).run p
      | some meter =>
          let taken := { p with meter := meter, queries := p.queries.push (a.query site) }
          match a.oracle.answer (a.query site) with
          | .error failure => .error (QueryError.raise site failure) taken
          | .ok raw =>
              (a.run (next (some (a.read site raw).answer))).run
                (a.record site (a.read site raw) taken) := by
  have hrun : (a.run (.ask site next)).run p =
      match (a.ask site).run p with
      | .ok reply p' => (a.run (next reply)).run p'
      | .error e p' => .error e p' := by
    simp only [run, EStateM.run, bind, EStateM.bind]
    cases a.ask site p <;> rfl
  rw [hrun, run_ask]
  cases p.meter.take? with
  | none => rfl
  | some meter =>
      dsimp only
      cases a.oracle.answer (a.query site) <;> rfl

/-- **A run is an inquiry that the exploration ensures.** -/
theorem run_ensures (a : Attempt) {Q : Except (Raised QueryError) α → Inquiry → Prop}
    (x : Exploration α) :
    ∀ (i : Inquiry) (p : Progress), a.Ensures Q x i → a.Accounts i p →
      match (a.run x).run p with
      | .ok r p' => ∃ i', Q (.ok r) i' ∧ a.Accounts i' p'
      | .error e p' => ∃ i', Q (.error e) i' ∧ a.Accounts i' p' := by
  induction x with
  | done r => intro i p hx h; exact ⟨i, hx, h⟩
  | note event rest ih =>
      intro i p hx h
      exact ih i (p.noting (event p.meter.used)) hx { h with }
  | ask site next ih =>
      intro i p hx h
      rw [run_ask_next]
      cases hm : p.meter.take? with
      | none => exact ih none _ p hx.1 (h.refuse site hm)
      | some meter =>
          have answered := hx.2 (h.take hm).1
          have hask := h.ask hm site
          cases ho : a.oracle.answer (a.query site) with
          | error failure =>
              rw [ho] at answered hask
              exact ⟨i.ask site, answered, hask⟩
          | ok raw =>
              rw [ho] at answered hask
              exact ih _ _ _ answered hask

/-- The progress that a run came to, whether it failed or not. -/
def reached : EStateM.Result (Raised QueryError) Progress α → Progress
  | .ok _ p => p
  | .error _ p => p

/-- **A run adds to what was asked**, whether it comes to a result or the oracle
fails. -/
theorem Accounts.run {a : Attempt} {i : Inquiry} {p : Progress} (h : a.Accounts i p)
    (x : Exploration α) :
    ∃ j, i.asked <+: j.asked ∧ a.Accounts j (reached ((a.run x).run p)) := by
  have hrun := a.run_ensures x i p (a.ensures_extends x i) h
  cases hresult : (a.run x).run p with
  | ok r next =>
      rw [hresult] at hrun
      exact hrun
  | error e next =>
      rw [hresult] at hrun
      exact hrun

/-! ## §4. Reports. -/

/-- An exploration of an attempt finds no fault with what was handed over. -/
theorem report_ne_config (a : Attempt) (x : Exploration α) (result : α → Progress → β)
    (e : Raised ConfigError) : (a.report x result).result ≠ .error (.config e) := by
  unfold report Report.ofRun
  split <;> simp

/-- **The report of an exploration is that of an inquiry it ensures**, and its
result is made from the progress that comes of that inquiry. -/
theorem report_ensures (a : Attempt) (x : Exploration α) (result : α → Progress → β)
    {Q : Except (Raised QueryError) α → Inquiry → Prop} (hQ : a.Ensures Q x .start) :
    ∃ r i, Q r i ∧ a.Grants i ∧ (a.report x result).queries = i.asked.map a.query ∧
      match r with
      | .ok v => ∃ p, a.Accounts i p ∧ (a.report x result).result = .ok (result v p)
      | .error e => (a.report x result).result = .error (.query e) := by
  have hrun := a.run_ensures x .start (Progress.fresh a.budget) hQ a.accounts_fresh
  unfold report
  cases hres : (a.run x).run (Progress.fresh a.budget) with
  | ok v p =>
      rw [hres] at hrun
      obtain ⟨i, hi, h⟩ := hrun
      exact ⟨.ok v, i, hi, h.toGrants, h.queries, p, h, rfl⟩
  | error e p =>
      rw [hres] at hrun
      obtain ⟨i, hi, h⟩ := hrun
      exact ⟨.error e, i, hi, h.toGrants, h.queries, rfl⟩

/-- The outcome that an ending and an inquiry amount to. -/
def outcomeOf (a : Attempt) (e : Ending) (i : Inquiry) : Outcome where
  verdict := e.verdict
  queries := i.asked.length
  position := e.position
  diagnostics := i.asked.flatMap a.faults ++
    match e.verdict with
    | .exhausted => [.budgetSpent e.position a.budget]
    | .accepted | .rejected => []

theorem Accounts.outcome_eq {a : Attempt} {i : Inquiry} {p : Progress} (h : a.Accounts i p)
    (e : Ending) : a.outcome e p = a.outcomeOf e i := by
  unfold outcome outcomeOf
  cases e.verdict <;> simp [h.used, h.diagnostics]

/-- **The report of a strategy is that of an inquiry it ensures.** -/
theorem evaluate_ensures (a : Attempt) (s : Strategy)
    {Q : Except (Raised QueryError) Ending → Inquiry → Prop}
    (hQ : a.Ensures Q (s.exploration a.ids a.length) .start) :
    ∃ r i, Q r i ∧ a.Grants i ∧ (a.evaluate s).queries = i.asked.map a.query ∧
      (a.evaluate s).result =
        match r with
        | .ok e => .ok (a.outcomeOf e i)
        | .error e => .error (.query e) := by
  obtain ⟨r, i, hi, hgrants, hqueries, hresult⟩ := a.report_ensures _ a.outcome hQ
  refine ⟨r, i, hi, hgrants, hqueries, ?_⟩
  cases r with
  | ok e =>
      obtain ⟨p, h, hresult⟩ := hresult
      exact hresult.trans (congrArg Except.ok (h.outcome_eq e))
  | error e => exact hresult

end Attempt

end OracleNFA
