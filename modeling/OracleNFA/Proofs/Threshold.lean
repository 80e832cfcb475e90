/-
  OracleNFA.Proofs.Threshold
  ──────────────────────────
  **A BUDGET CUTS A RUN AND CHANGES NOTHING ELSE.**

  Without a budget an exploration has one course (`Attempt.course`): the oracle
  answers every question until the exploration ends or the oracle fails.  Under
  a budget it takes that course to its end, or up to the first question that is
  refused, after which nothing is asked any more (`Attempt.Cut`).  Which of the
  two happens depends on the length of the course and the limit alone, so two
  budgets differ only in where they cut.

      ensures_cut — every run is cut from the course
-/
import OracleNFA.Proofs.Verdict

namespace OracleNFA

/-! ## §1. Budgets. -/

namespace Budget

/-- A budget lasts for so many questions. -/
def Covers (b : Budget) (q : Nat) : Prop :=
  ∀ n, b.limit? = some n → q ≤ n

/-- A budget grants no more than another: it has a limit where the other has one,
and no higher one. -/
instance : LE Budget :=
  ⟨fun b c => ∀ n, c.limit? = some n → ∃ m ≤ n, b.limit? = some m⟩

theorem Covers.mono {b c : Budget} {q : Nat} (h : b.Covers q) (hle : b ≤ c) : c.Covers q := by
  intro n hn
  obtain ⟨m, hmn, hm⟩ := hle n hn
  exact Nat.le_trans (h m hm) hmn

end Budget

namespace Attempt

variable {α : Type} {a : Attempt}

/-! ## §2. The course of an exploration. -/

/-- What an exploration comes to from an inquiry if nothing is refused. -/
def course (a : Attempt) : Exploration α → Inquiry → Except (Raised QueryError) α × Inquiry
  | .done r, i => (.ok r, i)
  | .note _ rest, i => a.course rest i
  | .ask site next, i =>
      match a.oracle.answer (a.query site) with
      | .error failure => (.error (QueryError.raise site failure), i.ask site)
      | .ok raw => a.course (next (some (a.read site raw).answer)) (i.ask site)

/-- A course goes on from what was asked before. -/
theorem asked_prefix_course (x : Exploration α) :
    ∀ i : Inquiry, i.asked <+: (a.course x i).2.asked := by
  induction x with
  | done r => intro i; exact List.prefix_refl _
  | note event rest ih => intro i; exact ih i
  | ask site next ih =>
      intro i
      have hask : i.asked <+: (i.ask site).asked := List.prefix_append _ _
      rw [course]
      cases a.oracle.answer (a.query site) with
      | error failure => exact hask
      | ok raw => exact hask.trans (ih _ _)

/-- The first question of a course is the one the exploration begins with. -/
theorem ask_prefix_course (site : Site) (next : Option Answer → Exploration α) (i : Inquiry) :
    (i.ask site).asked <+: (a.course (.ask site next) i).2.asked := by
  rw [course]
  cases a.oracle.answer (a.query site) with
  | error failure => exact List.prefix_refl _
  | ok raw => exact asked_prefix_course _ _

/-! ## §3. Cuts. -/

/-- A run took the whole course, or was refused the question that comes next on
it and came to some result without asking any more. -/
def Cut (whole : Except (Raised QueryError) α × Inquiry) (r : Except (Raised QueryError) α)
    (i : Inquiry) : Prop :=
  i.refused = none ∧ (r, i) = whole ∨
    i.refused.isSome = true ∧ (∃ v, r = .ok v) ∧ i.touched <+: whole.2.asked

/-- Once a question is refused, nothing is asked and so the oracle cannot fail. -/
theorem ensures_refused (x : Exploration α) :
    ∀ i : Inquiry, i.refused.isSome = true →
      a.Ensures (fun r j => j = i ∧ ∃ v, r = .ok v) x i := by
  induction x with
  | done r => intro i _; exact ⟨rfl, r, rfl⟩
  | note event rest ih => intro i hi; exact ih i hi
  | ask site next ih =>
      intro i hi
      obtain ⟨first, hfirst⟩ := Option.isSome_iff_exists.1 hi
      have hrefuse : i.refuse site = i := by
        unfold Inquiry.refuse
        rw [hfirst, Option.some_or, ← hfirst]
      refine ⟨?_, fun hnone => absurd hi (by simp [hnone])⟩
      rw [hrefuse]
      exact ih none i hi

/-- **Whatever the budget, a run is cut from the course.** -/
theorem ensures_cut (x : Exploration α) :
    ∀ i : Inquiry, i.refused = none → a.Ensures (Cut (a.course x i)) x i := by
  induction x with
  | done r => intro i hi; exact .inl ⟨hi, rfl⟩
  | note event rest ih => intro i hi; exact ih i hi
  | ask site next ih =>
      intro i hi
      refine ⟨?refused, fun _ => ?asked⟩
      case refused =>
        -- The refused question is the next one on the course.
        refine ensures_mono a ?_ _ _
          (ensures_refused (next none) _ (Inquiry.isSome_refused_refuse i site))
        rintro r _ ⟨rfl, hr⟩
        refine .inr ⟨Inquiry.isSome_refused_refuse i site, hr, ?_⟩
        rw [Inquiry.touched_refuse hi]
        exact ask_prefix_course site next i
      case asked =>
        rw [course]
        cases a.oracle.answer (a.query site) with
        | error failure => exact .inl ⟨hi, rfl⟩
        | ok raw => exact ih _ _ hi

variable {whole : Except (Raised QueryError) α × Inquiry} {r : Except (Raised QueryError) α}
  {i : Inquiry}

theorem length_touched_of_refused (h : i.refused.isSome = true) :
    i.touched.length = i.asked.length + 1 := by
  obtain ⟨site, hsite⟩ := Option.isSome_iff_exists.1 h
  unfold Inquiry.touched
  rw [hsite, List.length_append]
  rfl

/-- **A run comes to its end exactly if the budget lasts for the course.** -/
theorem Cut.granted_iff (h : Cut whole r i) (hg : a.Grants i) :
    i.refused = none ↔ a.budget.Covers whole.2.asked.length := by
  rcases h with ⟨hnone, heq⟩ | ⟨hsome, _, hprefix⟩
  · refine iff_of_true hnone fun n hn => ?_
    rw [← heq]
    exact hg.within n hn
  · -- Refused at the limit, with one more question to come.
    refine iff_of_false (fun hnone => by simp [hnone] at hsome) fun hcovers => ?_
    have hlimit := hcovers _ (hg.spent hsome)
    have hlength := hprefix.length_le
    rw [length_touched_of_refused hsome] at hlength
    omega

/-- A run that was not refused took the whole course. -/
theorem Cut.eq_whole (h : Cut whole r i) (hi : i.refused = none) : (r, i) = whole := by
  rcases h with ⟨_, heq⟩ | ⟨hsome, _, _⟩
  · exact heq
  · simp [hi] at hsome

/-- A run that was refused asked the first questions of the course, as many as the
limit is. -/
theorem Cut.asked_eq (h : Cut whole r i) (hg : a.Grants i) (hi : i.refused.isSome = true) {n : Nat}
    (hn : a.budget.limit? = some n) : i.asked = whole.2.asked.take n := by
  obtain rfl : i.asked.length = n := Option.some.inj ((hg.spent hi).symm.trans hn)
  rcases h with ⟨hnone, _⟩ | ⟨_, _, hprefix⟩
  · simp [hnone] at hi
  · exact List.prefix_iff_eq_take.1 ((List.prefix_append _ _).trans hprefix)

/-- What was explored gave up exactly where a question was refused. -/
theorem Cut.refused_iff {whole : Except (Raised QueryError) Ending × Inquiry}
    {r : Except (Raised QueryError) Ending}
    {root : Site} {anchored : Bool} (h : Cut whole r i) (hexplored : a.Explored root anchored r i) :
    i.refused.isSome = true ↔ ∃ p, r = .ok ⟨.exhausted, p⟩ := by
  refine ⟨fun hsome => ?_, ?_⟩
  · -- What is accepted or rejected was not refused a question.
    rcases h with ⟨hnone, _⟩ | ⟨_, ⟨⟨verdict, p⟩, rfl⟩, _⟩
    · simp [hnone] at hsome
    · cases verdict with
      | exhausted => exact ⟨p, rfl⟩
      | accepted =>
          obtain ⟨_, _, haccepted⟩ := hexplored.2
          simp [haccepted.granted] at hsome
      | rejected =>
          obtain ⟨_, _, hrejected⟩ := hexplored.2
          simp [hrejected.granted] at hsome
  · rintro ⟨p, rfl⟩
    exact hexplored.2

/-- The same attempt with another budget. -/
def within (a : Attempt) (b : Budget) : Attempt :=
  { a with budget := b }

@[simp] theorem oracle_within (b : Budget) : (a.within b).oracle = a.oracle := rfl

@[simp] theorem query_within (b : Budget) (site : Site) :
    (a.within b).query site = a.query site := rfl

@[simp] theorem read_within (b : Budget) (site : Site) (raw : Value) :
    (a.within b).read site raw = a.read site raw := rfl

/-- The course is not about the budget. -/
theorem course_within (b : Budget) (x : Exploration α) :
    ∀ i : Inquiry, (a.within b).course x i = a.course x i := by
  induction x with
  | done r => intro i; rfl
  | note event rest ih => intro i; exact ih i
  | ask site next ih =>
      intro i
      simp only [course, oracle_within, query_within, read_within]
      cases a.oracle.answer (a.query site) with
      | error failure => rfl
      | ok raw => exact ih _ _

/-! ## §4. Runs of a strategy. -/

/-- The course of a strategy on the whole input. -/
def courseOf (a : Attempt) (s : Strategy) : Except (Raised QueryError) Ending × Inquiry :=
  a.course (s.exploration a.ids a.length) .start

/-- The report of a strategy under a budget is that of a cut of its course, and it
is one of a spent budget exactly if a question was refused. -/
theorem evaluate_cut (hdistinct : a.ids.start ≠ a.ids.accept) (s : Strategy) (b : Budget) :
    ∃ r i, Cut (a.courseOf s) r i ∧ (a.within b).Grants i ∧
      (i.refused.isSome = true ↔ ∃ p, r = .ok ⟨.exhausted, p⟩) ∧
      ((a.within b).evaluate s).queries = i.asked.map a.query ∧
      ((a.within b).evaluate s).result =
        match r with
        | .ok e => .ok ((a.within b).outcomeOf e i)
        | .error e => .error (.query e) := by
  obtain ⟨r, i, ⟨hcut, hexplored⟩, hgrants, hreport⟩ := (a.within b).evaluate_ensures s
    (ensures_and _ _ _ (ensures_cut _ .start rfl) (ensures_strategy (a := a.within b) hdistinct s))
  rw [course_within] at hcut
  exact ⟨r, i, hcut, hgrants, hcut.refused_iff hexplored, hreport⟩

/-- The result at the end of a course, in which no budget occurs. -/
def ending (a : Attempt) (whole : Except (Raised QueryError) Ending × Inquiry) :
    Except MatchError Outcome :=
  match whole.1 with
  | .ok e => .ok ⟨e.verdict, whole.2.asked.length, e.position, whole.2.asked.flatMap a.faults⟩
  | .error e => .error (.query e)

/-- Only a spent budget is told in an outcome. -/
theorem outcomeOf_within (b : Budget) (i : Inquiry) {e : Ending} (he : e.verdict ≠ .exhausted) :
    (a.within b).outcomeOf e i =
      ⟨e.verdict, i.asked.length, e.position, i.asked.flatMap a.faults⟩ := by
  have hfaults : i.asked.flatMap (a.within b).faults = i.asked.flatMap a.faults := rfl
  unfold outcomeOf
  cases hverdict : e.verdict with
  | exhausted => exact absurd hverdict he
  | accepted => rw [hfaults, List.append_nil]
  | rejected => rw [hfaults, List.append_nil]

theorem diagnostics_of_ending {whole : Except (Raised QueryError) Ending × Inquiry} {o : Outcome}
    (h : a.ending whole = .ok o) : o.diagnostics = whole.2.asked.flatMap a.faults := by
  unfold ending at h
  split at h
  · obtain rfl := Except.ok.inj h
    rfl
  · exact absurd h (by simp)

/-- **A budget that lasts for the course does not show in the report.** -/
theorem evaluate_of_covers (hdistinct : a.ids.start ≠ a.ids.accept) (s : Strategy) {b : Budget}
    (hb : b.Covers (a.courseOf s).2.asked.length) :
    ((a.within b).evaluate s).queries = (a.courseOf s).2.asked.map a.query ∧
      ((a.within b).evaluate s).result = a.ending (a.courseOf s) ∧
      ∀ e, (a.courseOf s).1 = .ok e → e.verdict ≠ .exhausted := by
  obtain ⟨r, i, hcut, hgrants, hspent, hqueries, hresult⟩ := evaluate_cut hdistinct s b
  have hnone : i.refused = none := (hcut.granted_iff hgrants).2 hb
  have hended : ∀ e, r = .ok e → e.verdict ≠ .exhausted := by
    rintro ⟨verdict, p⟩ rfl rfl
    simpa [hnone] using hspent.2 ⟨p, rfl⟩
  rw [← hcut.eq_whole hnone]
  refine ⟨hqueries, hresult.trans ?_, hended⟩
  cases r with
  | error e => rfl
  | ok e => exact congrArg Except.ok (outcomeOf_within b i (hended e rfl))

/-- **A budget that does not last cuts the course at its limit.** -/
theorem evaluate_of_limit (hdistinct : a.ids.start ≠ a.ids.accept) (s : Strategy) {b : Budget}
    {n : Nat}
    (hn : b.limit? = some n) (hlt : n < (a.courseOf s).2.asked.length) :
    ((a.within b).evaluate s).queries = ((a.courseOf s).2.asked.take n).map a.query ∧
      ∃ p, ((a.within b).evaluate s).result = .ok ⟨.exhausted, n, p,
        ((a.courseOf s).2.asked.take n).flatMap a.faults ++ [.budgetSpent p b]⟩ := by
  obtain ⟨r, i, hcut, hgrants, hspent, hqueries, hresult⟩ := evaluate_cut hdistinct s b
  have hsome : i.refused.isSome = true := by
    rw [Option.isSome_iff_ne_none]
    intro hnone
    exact absurd ((hcut.granted_iff hgrants).1 hnone n hn) (Nat.not_le.2 hlt)
  obtain ⟨p, rfl⟩ := hspent.1 hsome
  rw [← hcut.asked_eq hgrants hsome hn]
  refine ⟨hqueries, p, hresult.trans ?_⟩
  have hlength : i.asked.length = n := Option.some.inj ((hgrants.spent hsome).symm.trans hn)
  rw [← hlength]
  rfl

end Attempt

/-! ## §5. Two limits. -/

namespace Report

/-- A run came to its end: it has a verdict, or the oracle failed. -/
def Ends (r : Report Outcome) : Prop :=
  (∃ e, r.result = .error (.query e)) ∨ ∃ o, r.result = .ok o ∧ o.verdict ≠ .exhausted

/-- A run spent its budget. -/
def GivesUp (r : Report Outcome) : Prop :=
  ∃ o, r.result = .ok o ∧ o.verdict = .exhausted

theorem Ends.not_givesUp {r : Report Outcome} (h : r.Ends) : ¬ r.GivesUp := by
  rintro ⟨o, ho, hverdict⟩
  rcases h with ⟨e, he⟩ | ⟨o', ho', hne⟩
  · simp [ho] at he
  · obtain rfl : o = o' := Except.ok.inj (ho.symm.trans ho')
    exact hne hverdict

/-- A fault of what was handed over is neither an end nor a spent budget. -/
theorem not_ends_of_config {r : Report Outcome} {e : Raised ConfigError}
    (h : r.result = .error (.config e)) : ¬ r.Ends := by
  rintro (⟨e', he'⟩ | ⟨o, ho, _⟩)
  · simp [h] at he'
  · simp [h] at ho

theorem not_givesUp_of_config {r : Report Outcome} {e : Raised ConfigError}
    (h : r.result = .error (.config e)) : ¬ r.GivesUp := by
  rintro ⟨o, ho, _⟩
  simp [h] at ho

end Report

/-- **A run spends its budget exactly if that does not last for the course.** -/
theorem Attempt.givesUp_iff {a : Attempt} (hdistinct : a.ids.start ≠ a.ids.accept) (s : Strategy)
    (b : Budget) :
    ((a.within b).evaluate s).GivesUp ↔ ¬ b.Covers (a.courseOf s).2.asked.length := by
  constructor
  · rintro ⟨o, ho, hverdict⟩ hcovers
    obtain ⟨_, hresult, hended⟩ := evaluate_of_covers hdistinct s hcovers
    rw [ho] at hresult
    unfold ending at hresult
    split at hresult
    · next e he =>
        obtain rfl := Except.ok.inj hresult
        exact hended e he hverdict
    · exact absurd hresult (by simp)
  · intro hshort
    unfold Budget.Covers at hshort
    push Not at hshort
    obtain ⟨n, hn, hlt⟩ := hshort
    obtain ⟨_, p, hresult⟩ := evaluate_of_limit hdistinct s hn hlt
    exact ⟨_, hresult, rfl⟩

/-- A run that ends takes the whole course, so its questions are those of the
course. -/
theorem Attempt.evaluate_of_ends {a : Attempt} (hdistinct : a.ids.start ≠ a.ids.accept)
    {s : Strategy}
    {b : Budget} (h : ((a.within b).evaluate s).Ends) :
    ((a.within b).evaluate s).queries = (a.courseOf s).2.asked.map a.query ∧
      ((a.within b).evaluate s).result = a.ending (a.courseOf s) := by
  have hcovers : b.Covers (a.courseOf s).2.asked.length := by
    by_contra hshort
    exact h.not_givesUp ((givesUp_iff hdistinct s b).2 hshort)
  obtain ⟨hqueries, hresult, _⟩ := evaluate_of_covers hdistinct s hcovers
  exact ⟨hqueries, hresult⟩

variable {input : Input} {oracle : Oracle} {small large : Value} {b c : Budget}

/-- Attempts that differ in their limits alone. -/
theorem Attempt.ofInput_within (input : Input) (oracle : Oracle)
    (hb : Budget.ofValue small = .ok b) (hc : Budget.ofValue large = .ok c) :
    ofInput input oracle small = (ofInput input oracle large).map (·.within b) := by
  simp only [ofInput, ofSymbols, bind, Except.bind, pure, Except.pure, hb, hc]
  cases input.symbols <;> cases Numbering.ofValue oracle.sentinels <;> rfl

theorem Attempt.within_of_ofInput {a : Attempt} (hc : Budget.ofValue large = .ok c)
    (h : ofInput input oracle large = .ok a) : a.within c = a := by
  have hsame := ofInput_within input oracle hc hc
  rw [h] at hsame
  exact (Except.ok.inj hsame).symm

/-- **The budget is a sharp threshold.**  Take one run under two limits.  Where the
higher one does not last, neither does the lower.  Where the run ends under the
higher one, it ends in the same way under a lower one that lasts for its
questions; any lower one is spent on the first of them, with the faults of these
and a spent budget to report.  Unsound arguments are the same fault under both. -/
theorem budget_is_threshold (s : Strategy) (input : Input) (oracle : Oracle)
    (hb : Budget.ofValue small = .ok b) (hc : Budget.ofValue large = .ok c) (hle : b ≤ c) :
    let cut := runStrategy s input oracle small
    let whole := runStrategy s input oracle large
    (∀ e, whole.result = .error (.config e) → cut.result = .error (.config e)) ∧
    (whole.GivesUp → cut.GivesUp) ∧
    (whole.Ends → b.Covers whole.queries.length →
      cut.result = whole.result ∧ cut.queries = whole.queries) ∧
    (whole.Ends → ∀ n, b.limit? = some n → n < whole.queries.length →
      ∃ (a : Attempt) (sites : List Site) (position : Position),
        Attempt.ofInput input oracle large = .ok a ∧
        whole.queries = sites.map a.query ∧
        (∀ o, whole.result = .ok o → o.diagnostics = sites.flatMap a.faults) ∧
        cut.queries = whole.queries.take n ∧
        cut.result = .ok ⟨.exhausted, n, position,
          (sites.take n).flatMap a.faults ++ [.budgetSpent position b]⟩) := by
  intro cut whole
  have hcut := runStrategy_eq s input oracle small
  have hwhole := runStrategy_eq s input oracle large
  rw [Attempt.ofInput_within input oracle hb hc] at hcut
  cases ha : Attempt.ofInput input oracle large with
  | error e =>
      rw [ha] at hcut hwhole
      have hrefused : whole.result = .error (.config e) := congrArg Report.result hwhole
      refine ⟨fun e' he' => ?_, fun hgives => ?_, fun hends => ?_, fun hends => ?_⟩
      · exact (congrArg Report.result hcut).trans (hrefused.symm.trans he')
      · exact absurd hgives (Report.not_givesUp_of_config hrefused)
      · exact absurd hends (Report.not_ends_of_config hrefused)
      · exact absurd hends (Report.not_ends_of_config hrefused)
  | ok a =>
      have hdistinct := start_ne_accept ha
      rw [ha] at hcut hwhole
      have hcut : cut = (a.within b).evaluate s := hcut
      have hwhole : whole = (a.within c).evaluate s := by
        rw [Attempt.within_of_ofInput hc ha]
        exact hwhole
      rw [hcut, hwhole]
      refine ⟨fun e he => ?_, fun hgives => ?_, fun hends hcovers => ?_, fun hends n hn hlt => ?_⟩
      · exact absurd he ((a.within c).report_ne_config _ _ e)
      · rw [Attempt.givesUp_iff hdistinct] at hgives ⊢
        exact fun hcovers => hgives (hcovers.mono hle)
      · obtain ⟨hqueries, hresult⟩ := Attempt.evaluate_of_ends hdistinct hends
        rw [hqueries, List.length_map] at hcovers
        obtain ⟨hqueries', hresult', _⟩ := Attempt.evaluate_of_covers hdistinct s hcovers
        exact ⟨hresult'.trans hresult.symm, hqueries'.trans hqueries.symm⟩
      · obtain ⟨hqueries, hresult⟩ := Attempt.evaluate_of_ends hdistinct hends
        rw [hqueries, List.length_map] at hlt
        obtain ⟨hqueries', p, hresult'⟩ := Attempt.evaluate_of_limit hdistinct s hn hlt
        refine ⟨a, (a.courseOf s).2.asked, p, rfl, hqueries, fun o ho => ?_, ?_, hresult'⟩
        · exact Attempt.diagnostics_of_ending (hresult.symm.trans ho)
        · rw [hqueries', hqueries, List.map_take]

/-- An oracle that accepts every input but the empty one, and announces a second
successor that it never names. -/
def announcing : Oracle where
  sentinels := Sentinels.toValue ⟨0, 1, 2, none, none⟩
  answer := fun q => .ok (.object
    [("nextState", .number (if q.window.hasSecond then 0 else 1 : Nat)),
      ("consumed", .bool true), ("enabled", .bool true)])

theorem budget_is_threshold_announcing :
    Budget.ofValue (.number (2 : Nat)) = .ok (.atMost 2) ∧
      Budget.ofValue .absent = .ok .default ∧ Budget.atMost 2 ≤ Budget.default ∧
      (runFrontier (.text "abc") announcing .absent).Ends ∧
      (runFrontier (.text "abc") announcing .absent).queries.length = 3 ∧
      (runFrontier (.text "abc") announcing (.number (2 : Nat))).queries =
        (runFrontier (.text "abc") announcing .absent).queries.take 2 ∧
      ∃ o, (runFrontier (.text "abc") announcing (.number (2 : Nat))).result = .ok o ∧
        o.verdict = .exhausted ∧ o.queries = 2 := by
  have hsmall : Budget.ofValue (.number (2 : Nat)) = .ok (.atMost 2) := by rfl
  have hlarge : Budget.ofValue .absent = .ok .default := by rfl
  have hle : Budget.atMost 2 ≤ Budget.default := by
    intro n hn
    obtain rfl : 50 = n := Option.some.inj hn
    exact ⟨2, by decide, rfl⟩
  have hends : (runFrontier (.text "abc") announcing .absent).Ends :=
    .inr ⟨_, rfl, by decide⟩
  have hlength : (runFrontier (.text "abc") announcing .absent).queries.length = 3 := by rfl
  obtain ⟨_, _, _, hcut⟩ :=
    budget_is_threshold .frontier (.text "abc") announcing hsmall hlarge hle
  obtain ⟨_, _, _, _, _, _, hqueries, hresult⟩ :=
    hcut hends 2 rfl (Nat.lt_of_lt_of_eq (by decide) hlength.symm)
  exact ⟨hsmall, hlarge, hle, hends, hlength, hqueries, _, hresult, rfl, rfl⟩

end OracleNFA
