/-
  OracleNFA.Proofs.Account
  ────────────────────────
  **AN OUTCOME ACCOUNTS FOR ITS RUN.**

  Oracle and budget leave a run no choice in what it asks: the sites of its
  course, as many as the budget lasts for (`Attempt.inquired`).  Everything an
  outcome tells is read off these sites and the answers there:

      Cut.asked_eq_inquired — what was asked
      ensures_candid        — a failure is the last thing asked about
      faults_eq_complaints  — what there is to say about one answer
-/
import OracleNFA.Proofs.Contract
import OracleNFA.Proofs.Threshold

namespace OracleNFA

namespace Attempt

variable {α : Type} {a : Attempt}

/-! ## §1. What is asked. -/

/-- The sites that an exploration asks about, as many as the budget lasts for. -/
def inquired (a : Attempt) (x : Exploration α) : List Site :=
  match a.budget.limit? with
  | some n => (a.course x .start).2.asked.take n
  | none => (a.course x .start).2.asked

/-- **What is asked is settled by the budget and the course.** -/
theorem Cut.asked_eq_inquired {x : Exploration α} {r : Except (Raised QueryError) α} {i : Inquiry}
    (h : Cut (a.course x .start) r i) (hg : a.Grants i) : i.asked = a.inquired x := by
  unfold inquired
  cases hrefused : i.refused with
  | none =>
      -- The whole course was taken, and the budget lasted for it.
      have hwhole : i.asked = (a.course x .start).2.asked :=
        congrArg (fun w => w.2.asked) (h.eq_whole hrefused)
      rw [← hwhole]
      cases hn : a.budget.limit? with
      | none => rfl
      | some n => exact (List.take_of_length_le (hg.within n hn)).symm
  | some site =>
      have hspent : i.refused.isSome = true := by rw [hrefused]; rfl
      rw [hg.spent hspent]
      exact h.asked_eq hg hspent (hg.spent hspent)

/-! ## §2. What is answered. -/

/-- The oracle answers the question about a site. -/
def Answers (a : Attempt) (u : Site) : Prop :=
  ∃ raw, a.oracle.answer (a.query u) = .ok raw

/-- Everything asked was answered, but for the site of the error: it is the last one
that was asked about. -/
def Candid (a : Attempt) : Except (Raised QueryError) α → Inquiry → Prop
  | .ok _, i => ∀ u ∈ i.asked, a.Answers u
  | .error e, i =>
      ∃ before u, i.asked = before ++ [u] ∧ (∀ v ∈ before, a.Answers v) ∧ a.Fails u e

/-- **An exploration goes on only from answers.** -/
theorem ensures_candid (x : Exploration α) :
    ∀ i : Inquiry, (∀ u ∈ i.asked, a.Answers u) → a.Ensures a.Candid x i := by
  induction x with
  | done r => intro i hi; exact hi
  | note event rest ih => intro i hi; exact ih i hi
  | ask site next ih =>
      intro i hi
      refine ⟨ih none (i.refuse site) hi, fun _ => ?_⟩
      cases ho : a.oracle.answer (a.query site) with
      | error failure => exact ⟨i.asked, site, rfl, hi, failure, ho, rfl⟩
      | ok raw =>
          refine ih _ (i.ask site) fun u hu => ?_
          rcases List.mem_append.1 hu with hu | hu
          · exact hi u hu
          · obtain rfl := List.mem_singleton.1 hu
            exact ⟨raw, ho⟩

/-! ## §3. What is told. -/

/-- What there is to say about the answer at a site: each problem that decoding it
finds, or that it is unusable as a whole. -/
def complaints (a : Attempt) (u : Site) : List Diagnostic :=
  match a.oracle.answer (a.query u) with
  | .error _ => []
  | .ok raw =>
      match Response.decode a.ids raw with
      | .error issues => [.malformed u (.unusable issues)]
      | .ok d => d.problems.map (Diagnostic.malformed u)

/-- A run notes of an answer what decoding it finds. -/
theorem faults_eq_complaints : a.faults = a.complaints := by
  funext u
  unfold faults complaints
  cases a.oracle.answer (a.query u) with
  | error failure => rfl
  | ok raw =>
      dsimp only
      cases hdecode : Response.decode a.ids raw with
      | ok d => rw [read_problems hdecode]
      | error issues =>
          unfold read
          rw [hdecode]
          rfl

end Attempt

/-! ## §4. Outcomes. -/

/-- What is accepted ends with the input. -/
theorem Attempt.Explored.position_of_accepted {a : Attempt} {e : Ending} {i : Inquiry}
    (h : a.Explored (a.entry 0) true (.ok e) i) (he : e.verdict = .accepted) :
    e.position = .after a.length := by
  obtain ⟨verdict, position⟩ := e
  obtain rfl : verdict = .accepted := he
  obtain ⟨_, n, rfl, haccepted⟩ := h
  exact congrArg Position.after (haccepted.counts.resolve_left (by simp))

variable {input : Input} {oracle : Oracle} {maxCycles : Value}

/-- **An outcome accounts for its run.**  A run that returns asked about as many
sites as it says, no more than the limit, and got an answer about each.  It tells
what is wrong with these answers, in the order of the questions, and then whether
the budget was spent, which is so exactly if it is exhausted; the limit was reached
then.  What it accepts ends with the input, and what it rejects is rejected at the
furthest position that is reached. -/
theorem outcome_accounts {s : Strategy} {o : Outcome}
    (h : (runStrategy s input oracle maxCycles).result = .ok o) :
    ∃ a, Attempt.ofInput input oracle maxCycles = .ok a ∧
      let sites := a.inquired (s.exploration a.ids a.length)
      (runStrategy s input oracle maxCycles).queries = sites.map a.query ∧
      (∀ u ∈ sites, a.Answers u) ∧
      o.queries = (runStrategy s input oracle maxCycles).queries.length ∧
      a.budget.Covers o.queries ∧
      o.diagnostics = sites.flatMap a.complaints ++
        (if o.verdict = .exhausted then [.budgetSpent o.position a.budget] else []) ∧
      (o.verdict = .exhausted → a.budget.limit? = some o.queries) ∧
      (o.verdict = .accepted → o.position = .after a.length) ∧
      (o.verdict = .rejected → ∃ n, o.position = .after n ∧ a.Furthest (a.entry 0) n) := by
  have hrun := runStrategy_eq s input oracle maxCycles
  cases ha : Attempt.ofInput input oracle maxCycles with
  | error e =>
      rw [ha] at hrun
      rw [hrun] at h
      exact absurd h (by simp)
  | ok a =>
      rw [ha] at hrun
      dsimp only at hrun
      rw [hrun] at h ⊢
      obtain ⟨r, i, ⟨⟨hcut, hcandid⟩, hexplored⟩, hgrants, hqueries, hresult⟩ :=
        a.evaluate_ensures s (Attempt.ensures_and _ _ _
          (Attempt.ensures_and _ _ _ (Attempt.ensures_cut _ .start rfl)
            (Attempt.ensures_candid _ .start (by simp)))
          (Attempt.ensures_strategy (start_ne_accept ha) s))
      rw [hresult] at h
      cases r with
      | error e => exact absurd h (by simp)
      | ok e =>
          obtain rfl := Except.ok.inj h
          have hasked := hcut.asked_eq_inquired hgrants
          refine ⟨a, rfl, ?_⟩
          rw [← hasked]
          refine ⟨hqueries, hcandid, ?count, hgrants.within, ?told, ?spent, ?accepted, ?rejected⟩
          case count =>
            rw [hqueries, List.length_map]
            rfl
          case told =>
            rw [← Attempt.faults_eq_complaints]
            unfold Attempt.outcomeOf
            dsimp only
            cases e.verdict <;> rfl
          case spent => exact fun he => hgrants.spent (hexplored.of_exhausted he)
          case accepted => exact fun he => hexplored.position_of_accepted he
          case rejected =>
            intro he
            obtain ⟨n, hn, hrejected⟩ := hexplored.of_rejected he
            exact ⟨n, hn, hrejected.furthest⟩

theorem outcome_accounts_announcing :
    ∃ a o, Attempt.ofInput (.text "abc") announcing (.number (2 : Nat)) = .ok a ∧
      (runFrontier (.text "abc") announcing (.number (2 : Nat))).result = .ok o ∧
      o.verdict = .exhausted ∧ a.budget.limit? = some 2 ∧
      o.diagnostics =
        [.malformed ⟨.after 0, (0 : Nat)⟩ (.branch .absent),
          .malformed ⟨.after 1, (0 : Nat)⟩ (.branch .absent),
          .budgetSpent (.after 2) (.atMost 2)] := by
  have hreturned : (runFrontier (.text "abc") announcing (.number (2 : Nat))).result =
      .ok ⟨.exhausted, 2, .after 2,
        [.malformed ⟨.after 0, (0 : Nat)⟩ (.branch .absent),
          .malformed ⟨.after 1, (0 : Nat)⟩ (.branch .absent),
          .budgetSpent (.after 2) (.atMost 2)]⟩ := by rfl
  obtain ⟨a, ha, _, _, _, _, _, hlimit, _⟩ := outcome_accounts (s := .frontier) hreturned
  exact ⟨a, _, ha, hreturned, rfl, hlimit rfl, rfl⟩

end OracleNFA
