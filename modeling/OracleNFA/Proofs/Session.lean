/-
  OracleNFA.Proofs.Session
  ────────────────────────
  **AN ATTEMPT KEEPS ITS ACCOUNTS, HOWEVER IT IS DRIVEN.**

  The operations of an attempt may come in any order, also after a failed query
  and after the budget was spent.  Each but the last kind is an exploration that
  goes on from the progress so far (`perform_cases`), so it only adds to the
  sites that were asked about; stating an outcome adds nothing.

      Accounts.perform — one operation
      Accounts.session — operations one after the other

  The meter, the queries and the diagnostics are functions of these sites, and a
  budget that is spent leaves no room for one more.
-/
import OracleNFA.Proofs.Account

namespace OracleNFA

open Exploration

/-! ## §1. Sessions. -/

/-- An operation that names its position by the symbols before it. -/
def Operation.Counted : Operation → Prop
  | .query site => ∃ n, site.position = .after n
  | .closure _ position _ => ∃ n, position = .after n
  | .step _ position _ => ∃ n, position = .after n
  | .simulate start _ => ∃ n, start = .after n
  | .finish _ => True

/-- An operation could not be finished under the budget.  An outcome that is stated
is what the caller wants it to be. -/
def Performed.Exhausted : Performed → Prop
  | .answered reply => reply = none
  | .closed phase => phase = .exhausted
  | .stepped phase => phase = .exhausted
  | .simulated ending => ending.verdict = .exhausted
  | .finished _ => False

namespace Attempt

variable {α β : Type} {a : Attempt}

/-- The progress after an operation.  A query that fails undoes nothing. -/
def proceed (a : Attempt) (p : Progress) (op : Operation) : Progress :=
  match (a.perform op).run p with
  | .ok _ next => next
  | .error _ next => next

/-- The progress after operations on a new attempt. -/
def session (a : Attempt) (ops : List Operation) : Progress :=
  ops.foldl a.proceed (Progress.fresh a.budget)

/-! ## §2. Explorations that give up. -/

/-- Where the result is that the budget was spent, a question was refused. -/
def GivesUpOnly (exhausted : α → Prop) (r : Except (Raised QueryError) α) (i : Inquiry) : Prop :=
  ∀ v, r = .ok v → exhausted v → i.refused.isSome = true

theorem GivesUpOnly.map {exhausted : α → Prop} {exhausted' : β → Prop} {f : α → β}
    (hf : ∀ v, exhausted' (f v) → exhausted v) (r : Except (Raised QueryError) α) (i : Inquiry)
    (h : GivesUpOnly exhausted r i) : GivesUpOnly exhausted' (r.map f) i := by
  intro v hv hexhausted
  cases r with
  | error e => exact nomatch hv
  | ok w =>
      obtain rfl : f w = v := Except.ok.inj hv
      exact h w rfl (hf w hexhausted)

theorem PhaseEnds.givesUpOnly {n : Nat} {frontier : List StateId} {goal : Option StateId}
    {base : List Site} {good : List StateId → α → Prop} (r : Except (Raised QueryError) (Phase α))
    (i : Inquiry) (h : a.PhaseEnds n frontier goal base good r i) :
    GivesUpOnly (· = .exhausted) r i := by
  intro phase hphase hexhausted
  subst hphase hexhausted
  obtain ⟨_, _, hrefused⟩ := h
  exact hrefused

/-- The states of a frontier, each once. -/
theorem nodup_distinct (states : List StateId) : (distinct states).Nodup := by
  unfold distinct
  have hnodup := nodup_foldl_addState (states.map Number.unsigned) [] List.nodup_nil
  rwa [List.foldl_map] at hnodup

variable {anchored : Bool} {n : Nat} {frontier : List StateId} {i : Inquiry}

/-- **One position of a simulation gives up only where a question was refused.** -/
theorem ensures_visit_givesUp {next : List StateId → Exploration Ending} (hnodup : frontier.Nodup)
    (hi : i.refused = none)
    (hnext : ∀ advanced j, advanced.Nodup → j.refused = none →
      a.Ensures (GivesUpOnly (·.verdict = .exhausted)) (next advanced) j) :
    a.Ensures (GivesUpOnly (·.verdict = .exhausted))
      (visit a.ids a.length anchored (.after n) frontier next) i := by
  show a.Ensures _ (Exploration.bind _ (step a.ids frontier (.after n) _)) i
  apply ensures_bind
  refine ensures_mono a ?_ _ _ (ensures_step _ hnodup hi)
  intro r j hr
  obtain ⟨_, _, hr⟩ := hr
  match r with
  | .error e => exact fun v hv => nomatch hv
  | .ok .accepted =>
      intro v hv hexhausted
      obtain rfl := Except.ok.inj hv
      exact nomatch hexhausted
  | .ok .exhausted => exact fun _ _ _ => hr
  | .ok (.settled advanced) =>
      -- The frontier behind the symbol is again one without duplicates.
      obtain ⟨hj, c, hsettles, rfl⟩ := hr
      exact hnext _ j hsettles.advanced_nodup hj

theorem ensures_rejected (position : Position) (j : Inquiry) :
    a.Ensures (GivesUpOnly (·.verdict = .exhausted)) (endAt .rejected position) j := by
  intro v hv hexhausted
  obtain rfl := Except.ok.inj hv
  exact nomatch hexhausted

/-- **So does the whole simulation**, from any position on. -/
theorem ensures_simulateFrom_givesUp (left : Nat) :
    ∀ (n : Nat) (frontier : List StateId) (i : Inquiry), frontier.Nodup → i.refused = none →
      a.Ensures (GivesUpOnly (·.verdict = .exhausted))
        (simulateFrom a.ids a.length anchored left (.after n) frontier) i := by
  induction left with
  | zero =>
      intro n frontier i hnodup hi
      exact ensures_visit_givesUp hnodup hi fun _ j _ _ => ensures_rejected _ j
  | succ left ih =>
      intro n frontier i hnodup hi
      refine ensures_visit_givesUp hnodup hi fun advanced j hadvanced hj => ?_
      cases advanced with
      | nil => exact ensures_rejected _ j
      | cons s rest => exact ih (n + 1) (s :: rest) j hadvanced hj

/-! ## §3. Operations as explorations. -/

/-- Making the result of an exploration into another does not change its run. -/
theorem run_map (a : Attempt) (f : α → β) (x : Exploration α) :
    a.run (x.map f) = f <$> a.run x := by
  -- Only the leaves differ, and a run comes to one of them last.
  induction x with
  | done r => exact (map_pure f r).symm
  | note event rest ih =>
      show (do modify _; a.run (rest.map f)) = f <$> (do modify _; a.run rest)
      rw [ih, map_bind]
  | ask site next ih =>
      show (do let reply ← a.ask site; a.run ((next reply).map f)) =
        f <$> (do let reply ← a.ask site; a.run (next reply))
      rw [map_bind]
      exact bind_congr ih

/-- **An operation is an exploration or states an outcome.**  As an exploration it
gives up only where a question was refused. -/
theorem perform_cases (a : Attempt) (op : Operation) :
    (∃ e, op = .finish e) ∨ ∃ x : Exploration Performed, a.perform op = a.run x ∧
      (op.Counted → ∀ i : Inquiry, i.refused = none →
        a.Ensures (GivesUpOnly Performed.Exhausted) x i) := by
  cases op with
  | query site =>
      let asked : Site := { site with state := site.state.unsigned }
      refine .inr ⟨.ask asked fun reply => .done (.answered reply), map_eq_pure_bind _ _, ?_⟩
      intro _ i hi
      -- refused, or answered unless the oracle fails
      refine ⟨fun _ _ _ => Inquiry.isSome_refused_refuse i _, fun _ => ?_⟩
      cases a.oracle.answer (a.query asked) with
      | error failure => exact fun v hv => nomatch hv
      | ok raw =>
          intro v hv hexhausted
          obtain rfl := Except.ok.inj hv
          exact nomatch hexhausted
  | closure frontier position accepting =>
      refine .inr ⟨_, (a.run_map Performed.closed _).symm, ?_⟩
      intro hcounted i hi
      obtain ⟨n, rfl⟩ : ∃ n, position = .after n := hcounted
      apply ensures_map
      refine ensures_mono a ?_ _ _ (ensures_closure accepting (nodup_distinct frontier) hi)
      exact fun r j h => GivesUpOnly.map (fun _ => id) r j (h.givesUpOnly r j)
  | step frontier position accepting =>
      refine .inr ⟨_, (a.run_map Performed.stepped _).symm, ?_⟩
      intro hcounted i hi
      obtain ⟨n, rfl⟩ : ∃ n, position = .after n := hcounted
      apply ensures_map
      refine ensures_mono a ?_ _ _ (ensures_step accepting (nodup_distinct frontier) hi)
      exact fun r j h => GivesUpOnly.map (fun _ => id) r j (h.givesUpOnly r j)
  | simulate start anchored =>
      refine .inr ⟨_, (a.run_map Performed.simulated _).symm, ?_⟩
      intro hcounted i hi
      obtain ⟨n, rfl⟩ : ∃ n, start = .after n := hcounted
      apply ensures_map
      refine ensures_mono a ?_ _ _
        (ensures_simulateFrom_givesUp _ n _ i (List.nodup_singleton _) hi)
      exact fun r j h => GivesUpOnly.map (fun _ => id) r j h
  | finish e => exact .inl ⟨e, rfl⟩

/-- Stating an outcome changes nothing, whichever it is. -/
theorem perform_finish (a : Attempt) (e : Ending) (p : Progress) :
    (a.perform (.finish e)).run p = .ok (.finished (a.outcome e p)) p := rfl

/-! ## §4. Accounts. -/

variable {sites : List Site} {p : Progress}

/-- Between operations it does not matter whether a question was refused. -/
theorem Accounts.forget (h : a.Accounts i p) : a.Accounts ⟨i.asked, none⟩ p :=
  { h with spent := fun hrefused => nomatch hrefused }

/-- **An operation adds to what was asked**, whether it comes to a result or the
oracle fails. -/
theorem Accounts.perform (h : a.Accounts ⟨sites, none⟩ p) (op : Operation) :
    ∃ more, a.Accounts ⟨sites ++ more, none⟩ (a.proceed p op) := by
  rcases a.perform_cases op with ⟨e, rfl⟩ | ⟨x, hx, _⟩
  · refine ⟨[], ?_⟩
    rw [List.append_nil]
    exact h
  · obtain ⟨j, ⟨more, hmore⟩, hj⟩ := h.run x
    have hproceed : a.proceed p op = reached ((a.run x).run p) := by
      unfold proceed
      rw [hx]
      cases (a.run x).run p <;> rfl
    rw [hproceed]
    exact ⟨more, hmore ▸ hj.forget⟩

/-- **Operations one after the other** add to what was asked. -/
theorem Accounts.session (ops : List Operation) :
    ∀ {sites : List Site} {p : Progress}, a.Accounts ⟨sites, none⟩ p →
      ∃ more, a.Accounts ⟨sites ++ more, none⟩ (ops.foldl a.proceed p) := by
  induction ops with
  | nil => intro sites p h; exact ⟨[], by rwa [List.append_nil]⟩
  | cons op rest ih =>
      intro sites p h
      obtain ⟨first, hfirst⟩ := h.perform op
      obtain ⟨more, hmore⟩ := ih hfirst
      rw [List.append_assoc] at hmore
      exact ⟨first ++ more, hmore⟩

/-- Whatever was done with an attempt, its progress comes of what was asked. -/
theorem accounts_session (a : Attempt) (ops : List Operation) :
    ∃ sites, a.Accounts ⟨sites, none⟩ (a.session ops) := by
  have hfresh : a.Accounts ⟨[], none⟩ (Progress.fresh a.budget) := a.accounts_fresh
  obtain ⟨sites, h⟩ := hfresh.session ops
  exact ⟨sites, h⟩

/-- **An operation gives up only at the limit.** -/
theorem Accounts.limit_of_exhausted (h : a.Accounts ⟨sites, none⟩ p) {op : Operation}
    (hcounted : op.Counted) {result : Performed} {next : Progress}
    (hperform : (a.perform op).run p = .ok result next) (hexhausted : result.Exhausted) :
    a.budget.limit? = some next.meter.used := by
  rcases a.perform_cases op with ⟨e, rfl⟩ | ⟨x, hx, hgivesUp⟩
  · obtain ⟨rfl, _⟩ := EStateM.Result.ok.inj hperform
    exact hexhausted.elim
  · have hrun := a.run_ensures x ⟨sites, none⟩ p (hgivesUp hcounted _ rfl) h
    rw [← hx, hperform] at hrun
    obtain ⟨j, hrefused, hj⟩ := hrun
    rw [hj.used]
    exact hj.spent (hrefused result rfl hexhausted)

/-- Only malformed answers are complained about. -/
theorem malformed_of_mem_complaints {u : Site} {d : Diagnostic} (h : d ∈ a.complaints u) :
    ∃ problem, d = .malformed u problem := by
  unfold complaints at h
  split at h
  · exact nomatch h
  · split at h
    · exact ⟨_, List.mem_singleton.1 h⟩
    · obtain ⟨problem, _, rfl⟩ := List.mem_map.1 h
      exact ⟨problem, rfl⟩

/-! ## §5. Whole sessions. -/

/-- What holds of an attempt after operations, and after further ones. -/
structure Keeps (a : Attempt) (p later : Progress) : Prop where
  /-- the meter counts the queries that the oracle got -/
  counted : p.meter.used = p.queries.size
  /-- the limit stays what it was, and is not exceeded -/
  limit : p.meter.budget = a.budget
  within : a.budget.Covers p.meter.used
  /-- every query is about the input and under the sentinels of the attempt, and what is
  told is what is wrong with the answers -/
  asked : ∃ sites : List Site, p.queries.toList = sites.map a.query ∧
    p.diagnostics.toList = sites.flatMap a.complaints
  malformed : ∀ d ∈ p.diagnostics.toList, ∃ site problem, d = .malformed site problem
  /-- queries and diagnostics are only added -/
  queries_grow : p.queries.toList <+: later.queries.toList
  diagnostics_grow : p.diagnostics.toList <+: later.diagnostics.toList
  /-- stating an outcome, whichever it is, changes nothing -/
  finish : ∀ e, (a.perform (.finish e)).run p = .ok (.finished (a.outcome e p)) p
  /-- what gives up does so at the limit -/
  exhausted : ∀ (op : Operation) (result : Performed) (next : Progress), op.Counted →
    (a.perform op).run p = .ok result next → result.Exhausted →
    a.budget.limit? = some next.meter.used
  /-- at the limit the oracle is not asked any more -/
  spent : a.budget.limit? = some p.meter.used → later.queries = p.queries

/-- Accounts of more sites are later ones. -/
theorem Accounts.keeps {later : Progress} {more : List Site} (h : a.Accounts ⟨sites, none⟩ p)
    (hlater : a.Accounts ⟨sites ++ more, none⟩ later) : a.Keeps p later where
  counted := by
    rw [h.used, ← Array.length_toList, h.queries, List.length_map]
  limit := h.budget
  within := h.used ▸ h.within
  asked := ⟨sites, h.queries, faults_eq_complaints ▸ h.diagnostics⟩
  malformed := by
    intro d hd
    rw [h.diagnostics, faults_eq_complaints] at hd
    obtain ⟨u, _, hu⟩ := List.mem_flatMap.1 hd
    exact ⟨u, malformed_of_mem_complaints hu⟩
  queries_grow := by
    rw [h.queries, hlater.queries, List.map_append]
    exact List.prefix_append _ _
  diagnostics_grow := by
    rw [h.diagnostics, hlater.diagnostics, List.flatMap_append]
    exact List.prefix_append _ _
  finish := fun e => a.perform_finish e p
  exhausted := fun _ _ _ hcounted hperform => h.limit_of_exhausted hcounted hperform
  spent := by
    intro hlimit
    -- There is no room for one more site.
    have hroom : (sites ++ more).length ≤ p.meter.used := hlater.within _ hlimit
    have hused : p.meter.used = sites.length := h.used
    rw [List.length_append] at hroom
    have hnone : more = [] := List.eq_nil_of_length_eq_zero (by omega)
    subst hnone
    rw [← Array.toList_inj, h.queries, hlater.queries, List.append_nil]

end Attempt

/-- **An attempt keeps its accounts under any order of operations.**  Take any
operations, failed queries among them, and any further ones.  In between, the meter
counts the queries and stays within the limit, which is the one of the attempt; the
queries are about its input, and malformed answers are all that is told.  Queries and
diagnostics are only added, and stating an outcome adds neither.  What gives up does
so at the limit, and from there on the oracle is not asked any more. -/
theorem session_keeps_accounts (a : Attempt) (ops later : List Operation) :
    a.Keeps (a.session ops) (a.session (ops ++ later)) := by
  have hfresh : a.Accounts ⟨[], none⟩ (Progress.fresh a.budget) := a.accounts_fresh
  obtain ⟨sites, h⟩ := hfresh.session ops
  obtain ⟨more, hmore⟩ := h.session later
  rw [← List.foldl_append] at hmore
  exact h.keeps hmore

/-- An oracle that goes from every state to another one without reading a symbol, and
fails there. -/
def tripping : Oracle where
  sentinels := Sentinels.toValue ⟨0, 1, 2, none, none⟩
  answer := fun q =>
    if q.state = (3 : Nat) then .error (.thrown .null)
    else .ok (Transition.toValue ⟨3, none, false⟩)

/-- A failed query counts, the step after it spends the budget, and so nothing that
comes later is asked. -/
theorem session_keeps_accounts_tripping :
    ∃ a, Attempt.ofInput (.text "a") tripping (.number (2 : Nat)) = .ok a ∧
      let failing : Operation := .query ⟨.after 0, (3 : Nat)⟩
      let step : Operation := .step [(0 : Nat)] (.after 0) true
      let spent := a.session [failing, step]
      (a.session [failing]).meter.used = 1 ∧
      (a.perform step).run (a.session [failing]) = .ok (.stepped .exhausted) spent ∧
      a.budget.limit? = some spent.meter.used ∧
      (a.session ([failing, step] ++
        [.finish ⟨.exhausted, .after 0⟩, .simulate (.after 0) true])).queries =
        spent.queries := by
  have hmade : Attempt.ofInput (.text "a") tripping (.number (2 : Nat)) =
      .ok ⟨#[97], tripping, ⟨0, 1, 2, 0, Number.maxSafe⟩, .atMost 2⟩ := by rfl
  refine ⟨_, hmade, ?_⟩
  intro failing step spent
  have hfailed := session_keeps_accounts
    ⟨#[97], tripping, ⟨0, 1, 2, 0, Number.maxSafe⟩, .atMost 2⟩ [failing] []
  have hspent := session_keeps_accounts
    ⟨#[97], tripping, ⟨0, 1, 2, 0, Number.maxSafe⟩, .atMost 2⟩ [failing, step]
    [.finish ⟨.exhausted, .after 0⟩, .simulate (.after 0) true]
  have hlimit := hfailed.exhausted step (.stepped .exhausted) spent ⟨0, rfl⟩ (by rfl) rfl
  exact ⟨rfl, rfl, hlimit, hspent.spent hlimit⟩

end OracleNFA
