/-
  OracleNFA.Proofs.Relevance
  ──────────────────────────
  **ONLY WHAT IS ASKED MATTERS.**

  A run knows of its oracle what it has asked.  So whatever another oracle would
  answer elsewhere, if it answers the queries of the run alike then its run is the
  same one, up to the last event:

      run_asking            — an exploration
      evaluate_settles      — a strategy
      tryAt_settles         — an attempt at a start position
      findFirst_settles, findAll_settles
                            — hence searches

  No run asks about the accepting or the dead state, so the rules that a table has
  for these never matter (`SameWhereLive.answer_eq`).
-/
import OracleNFA.Proofs.Agreement
import OracleNFA.Proofs.Discipline
import OracleNFA.Proofs.Interpretation

namespace OracleNFA

/-! ## §1. Reports settled by answers. -/

/-- One report settles another if this is the same wherever all queries of the one are
as wanted. -/
def Report.Settles {α : Type} (P : Query → Prop) (r s : Report α) : Prop :=
  (∀ q ∈ r.queries, P q) → s = r

namespace Report

variable {α β : Type} {P : Query → Prop} {r s : Report α}

theorem Settles.refl (r : Report α) : r.Settles P r := fun _ => rfl

theorem Settles.bind {f g : α → Report β} (h : r.Settles P s) (hf : ∀ v, (f v).Settles P (g v)) :
    (r >>= f).Settles P (s >>= g) := by
  show (Report.bind r f).Settles P (Report.bind s g)
  intro hall
  unfold Report.bind at hall ⊢
  cases hresult : r.result with
  | error e =>
      rw [hresult] at hall
      rw [h hall, hresult]
  | ok v =>
      -- What is asked on the way is asked by the sequence.
      rw [hresult] at hall
      rw [h fun q hq => hall q (List.mem_append_left _ hq), hresult]
      dsimp only
      rw [hf v fun q hq => hall q (List.mem_append_right _ hq)]

theorem eq_congruence : Congruence fun _ r s => s = r where
  refl := fun _ _ => rfl
  bind := fun _ _ r s f g h hf => by rw [h, funext hf]

theorem settles_congruence (P : Query → Prop) : Congruence fun _ => Settles P where
  refl := fun _ => .refl
  bind := fun _ _ _ _ _ _ => .bind

end Report

/-! ## §2. Runs. -/

namespace Attempt

variable {α β : Type} {a : Attempt} {other : Oracle}

/-- What was asked stays asked. -/
theorem Accounts.mem_queries_run {i : Inquiry} {p : Progress} (h : a.Accounts i p)
    (x : Exploration α) {u : Site} (hu : u ∈ i.asked) :
    a.query u ∈ (reached ((a.run x).run p)).queries.toList := by
  -- The inquiry so far is the first part of the whole one.
  obtain ⟨j, hbegins, haccounts⟩ := h.run x
  rw [haccounts.queries]
  exact List.mem_map_of_mem (hbegins.subset hu)

/-- **A run on another oracle is the same if what it asks is answered alike.** -/
theorem run_asking (x : Exploration α) : ∀ (i : Inquiry) (p : Progress), a.Accounts i p →
    (∀ q ∈ (reached ((a.run x).run p)).queries.toList, other.answer q = a.oracle.answer q) →
      ((a.asking other).run x).run p = (a.run x).run p := by
  induction x with
  | done r => exact fun _ _ _ _ => rfl
  | note event rest ih =>
      intro i p h hall
      exact ih i (p.noting (event p.meter.used)) { h with } hall
  | ask site next ih =>
      intro i p h hall
      rw [run_ask_next] at hall
      rw [run_ask_next, run_ask_next]
      cases hm : p.meter.take? with
      | none =>
          rw [hm] at hall
          exact ih none _ p (h.refuse site hm) hall
      | some meter =>
          rw [hm] at hall
          have hask := h.ask hm site
          dsimp only at hall hask ⊢
          cases ho : a.oracle.answer (a.query site) with
          | error failure =>
              rw [ho] at hall
              -- The query was put before the oracle failed.
              have hsame : other.answer (a.query site) = .error failure :=
                (hall _ (by simp [reached])).trans ho
              rw [show (a.asking other).oracle.answer ((a.asking other).query site) = _ from hsame]
              rfl
          | ok raw =>
              rw [ho] at hall hask
              -- The query is among those of the whole run.
              have hsame : other.answer (a.query site) = .ok raw :=
                (hall _ (hask.mem_queries_run _ (by simp))).trans ho
              rw [show (a.asking other).oracle.answer ((a.asking other).query site) = _ from hsame]
              exact ih _ _ _ hask hall

theorem queries_report (a : Attempt) (x : Exploration α) (f : α → Progress → β) :
    (a.report x f).queries =
      (reached ((a.run x).run (Progress.fresh a.budget))).queries.toList := by
  unfold report
  cases (a.run x).run (Progress.fresh a.budget) <;> rfl

theorem report_settles (x : Exploration α) (f : α → Progress → β) :
    (a.report x f).Settles (fun q => other.answer q = a.oracle.answer q)
      ((a.asking other).report x f) := by
  intro hall
  rw [queries_report] at hall
  unfold report
  rw [show (a.asking other).budget = a.budget from rfl,
    run_asking x .start (Progress.fresh a.budget) a.accounts_fresh hall]

theorem evaluate_settles (s : Strategy) :
    (a.evaluate s).Settles (fun q => other.answer q = a.oracle.answer q)
      ((a.asking other).evaluate s) :=
  report_settles _ _

end Attempt

/-! ## §3. Entry points. -/

section EntryPoints

variable {oracle other : Oracle} {maxCycles : Value} {input : Input}

theorem runStrategy_settles (h : other.sentinels = oracle.sentinels) (s : Strategy) :
    (runStrategy s input oracle maxCycles).Settles (fun q => other.answer q = oracle.answer q)
      (runStrategy s input other maxCycles) := by
  refine runStrategy_congr (Report.settles_congruence _) (Attempt.ofInput_asking h input maxCycles)
    fun a ha => ?_
  rw [← (Attempt.of_ofInput ha).1]
  exact Attempt.evaluate_settles s

theorem Search.matchAt_settles (a : Attempt) (start : Nat) :
    (matchAt a start).Settles (fun q => other.answer q = a.oracle.answer q)
      (matchAt (a.asking other) start) := by
  unfold matchAt
  exact (Attempt.report_settles _ _).bind fun e => .refl _

theorem Search.tryAt_settles (h : other.sentinels = oracle.sentinels) (symbols : Array Symbol)
    (start : Nat) :
    (tryAt symbols oracle maxCycles start).Settles (fun q => other.answer q = oracle.answer q)
      (tryAt symbols other maxCycles start) := by
  refine tryAt_congr (Report.settles_congruence _) (Attempt.ofSymbols_asking h symbols maxCycles)
    fun a ha => ?_
  obtain ⟨_, _, _, _, rfl⟩ := Attempt.ofSymbols_eq_ok.1 ha
  exact matchAt_settles _ start

theorem findFirst_settles (h : other.sentinels = oracle.sentinels) :
    (findFirst input oracle maxCycles).Settles (fun q => other.answer q = oracle.answer q)
      (findFirst input other maxCycles) :=
  findFirst_congr (Report.settles_congruence _) fun _ _ k _ => Search.tryAt_settles h _ k

theorem findAll_settles (h : other.sentinels = oracle.sentinels) :
    (findAll input oracle maxCycles).Settles (fun q => other.answer q = oracle.answer q)
      (findAll input other maxCycles) :=
  findAll_congr (Report.settles_congruence _) fun _ _ k _ => Search.tryAt_settles h _ k

/-! ## §4. Which states are asked about. -/

/-- The query is about a natural number, and not about the accepting or the dead state. -/
def Query.Live (ids : Numbering) (q : Query) : Prop :=
  ∃ n : Nat, q.state = Number.ofNat n ∧ n ≠ ids.accept ∧ n ≠ ids.reject

variable {ids : Numbering}

theorem Attempt.Askable.live {a : Attempt} {start : Nat} {u : Site} (h : a.Askable start u) :
    (a.query u).Live a.ids := by
  have hnatural : ∃ n, u.state = Number.ofNat n := by
    rcases h.declared with hstart | ⟨k, _, _, hk⟩
    · exact ⟨_, hstart⟩
    · exact ⟨k, hk⟩
  obtain ⟨n, hn⟩ := hnatural
  refine ⟨n, hn, ?_, ?_⟩
  · rintro rfl
    exact h.ne_accept hn
  · rintro rfl
    exact h.ne_reject hn

theorem Attempt.Disciplined.live {a : Attempt} {start : Nat} {queries : List Query}
    (h : a.Disciplined start queries) : ∀ q ∈ queries, q.Live a.ids := by
  obtain ⟨sites, _, haskable, rfl⟩ := h
  intro q hq
  obtain ⟨u, hu, rfl⟩ := List.mem_map.1 hq
  exact (haskable u hu).live

theorem runStrategy_live (hids : Numbering.ofValue oracle.sentinels = .ok ids) (s : Strategy) :
    ∀ q ∈ (runStrategy s input oracle maxCycles).queries, q.Live ids := by
  obtain ⟨hdistinct, halive, _⟩ := Numbering.distinct_of_ofValue hids
  rw [runStrategy_eq]
  cases ha : Attempt.ofInput input oracle maxCycles with
  | error e => exact fun q hq => absurd hq (by simp)
  | ok a =>
      obtain rfl : a.ids = ids := Except.ok.inj ((Attempt.of_ofInput ha).2.symm.trans hids)
      exact (Attempt.evaluate_disciplined hdistinct halive s).live

theorem Search.tryAt_live (hids : Numbering.ofValue oracle.sentinels = .ok ids)
    {symbols : Array Symbol} {start : Nat} (hstart : start ≤ symbols.size) :
    ∀ q ∈ (tryAt symbols oracle maxCycles start).queries, q.Live ids := by
  obtain ⟨_, halive, _⟩ := Numbering.distinct_of_ofValue hids
  rw [tryAt_eq]
  cases ha : Attempt.ofSymbols symbols oracle maxCycles with
  | error e => exact fun q hq => absurd hq (by simp [Report.refusal])
  | ok a =>
      obtain ⟨ids', _, hids', _, rfl⟩ := Attempt.ofSymbols_eq_ok.1 ha
      obtain rfl := Except.ok.inj (hids'.symm.trans hids)
      exact (matchAt_disciplined hstart halive).live

end EntryPoints

/-! ## §5. Tables. -/

namespace Definition

variable {v v' : Value} {d d' : Definition Nat} {q : Query}

/-- The same sentinels, and the same rules under every key but those of the accepting
and the dead state. -/
structure SameWhereLive (d d' : Definition Nat) : Prop where
  sentinels : d'.sentinels = d.sentinels
  rules : ∀ key, key ≠ Text.ofDigits d.sentinels.accept → key ≠ Text.ofDigits d.sentinels.reject →
    d'.states.lookup key = d.states.lookup key

/-- **Tables answer alike about a state for which they have the same rules.** -/
theorem SameWhereLive.answer_eq (h : d.SameWhereLive d') (hd : ofValue v = .ok d)
    (hd' : ofValue v' = .ok d') (hq : q.Live d.sentinels.resolve) :
    d'.oracle.answer q = d.oracle.answer q := by
  obtain ⟨n, hstate, haccept, hreject⟩ := hq
  have hrules : d'.compile.rulesOf q.state = d.compile.rulesOf q.state := by
    unfold Table.rulesOf
    rw [hstate, Number.natural?_ofNat]
    dsimp only
    rw [(keyed_of_ofValue hd').lookup_rows, (keyed_of_ofValue hd).lookup_rows, h.rules]
    · exact fun heq => haccept (Text.ofDigits_inj.1 heq)
    · exact fun heq => hreject (Text.ofDigits_inj.1 heq)
  have hend : d'.compile.endOfInput = d.compile.endOfInput := by
    show d'.sentinels.resolve.endOfInput = d.sentinels.resolve.endOfInput
    rw [h.sentinels]
  have hdead : d'.compile.reject = d.compile.reject := by
    show d'.sentinels.reject = d.sentinels.reject
    rw [h.sentinels]
  show Except.ok (d'.compile.answer q).toValue = .ok (d.compile.answer q).toValue
  unfold Table.answer Table.atEnd
  rw [hrules, hend, hdead]

/-- **Only what is asked matters.**  If another oracle that declares the same answers,
or fails to answer, every query of a call as the first one does, the call on it is the
same: in its result or error, in its queries and in what it tells.  Of a rule table no
call asks for the rules of the accepting and the dead state, so these can be any. -/
theorem only_what_is_asked_matters (input : Input) (maxCycles : Value) :
    (∀ oracle other : Oracle, other.sentinels = oracle.sentinels →
      let alike := fun q => other.answer q = oracle.answer q
      (runFrontier input oracle maxCycles).Settles alike (runFrontier input other maxCycles) ∧
        (runPath input oracle maxCycles).Settles alike (runPath input other maxCycles) ∧
        (findFirst input oracle maxCycles).Settles alike (findFirst input other maxCycles) ∧
        (findAll input oracle maxCycles).Settles alike (findAll input other maxCycles)) ∧
    ∀ v v' d d', ofValue v = .ok d → ofValue v' = .ok d' → d.SameWhereLive d' →
      runFrontier input d'.oracle maxCycles = runFrontier input d.oracle maxCycles ∧
        runPath input d'.oracle maxCycles = runPath input d.oracle maxCycles ∧
        findFirst input d'.oracle maxCycles = findFirst input d.oracle maxCycles ∧
        findAll input d'.oracle maxCycles = findAll input d.oracle maxCycles := by
  refine ⟨fun oracle other h => ⟨runStrategy_settles h _, runStrategy_settles h _,
    findFirst_settles h, findAll_settles h⟩, fun v v' d d' hd hd' hsame => ?_⟩
  have hsentinels : d'.oracle.sentinels = d.oracle.sentinels :=
    congrArg Sentinels.toValue hsame.sentinels
  have hids := ofValue_oracle (sound_of_ofValue hd)
  have hrun : ∀ s,
      runStrategy s input d'.oracle maxCycles = runStrategy s input d.oracle maxCycles :=
    fun s => runStrategy_settles hsentinels s fun q hq =>
      hsame.answer_eq hd hd' (runStrategy_live hids s q hq)
  have htry : ∀ symbols : Array Symbol, ∀ k ≤ symbols.size,
      Search.tryAt symbols d'.oracle maxCycles k = Search.tryAt symbols d.oracle maxCycles k :=
    fun symbols k hk => Search.tryAt_settles hsentinels symbols k fun q hq =>
      hsame.answer_eq hd hd' (Search.tryAt_live hids hk q hq)
  refine ⟨hrun .frontier, hrun .path, ?_, ?_⟩
  · exact findFirst_congr Report.eq_congruence fun symbols _ k hk => htry symbols.toArray k hk
  · exact findAll_congr Report.eq_congruence fun symbols _ k hk =>
      htry symbols.toArray k (Nat.le_of_lt hk)

/-- An oracle that answers about the start as `oneSymbol` does, and fails elsewhere. -/
def startOnly : Oracle where
  sentinels := oneSymbol.sentinels
  answer := fun q =>
    if q.state = Number.ofNat 0 then oneSymbol.answer q else .error (.error "not the start")

/-- The table `skipping` with rules for the accepting and the dead state. -/
def skippingOn : Definition Nat :=
  ⟨⟨0, 1, 2, none, some 2⟩,
    [("0", [⟨none, some ⟨[]⟩, none, none, none, 0, none, some true⟩,
      ⟨none, none, some true, none, none, 1, none, none⟩]),
    ("1", [⟨none, none, none, none, none, 0, none, some true⟩]),
    ("2", [⟨none, none, none, none, none, 1, some 0, none⟩])]⟩

theorem only_what_is_asked_matters_skippingOn :
    startOnly.sentinels = oneSymbol.sentinels ∧
      (∀ q ∈ (runPath (.text "ab") oneSymbol .absent).queries,
        startOnly.answer q = oneSymbol.answer q) ∧
      runPath (.text "ab") startOnly .absent = runPath (.text "ab") oneSymbol .absent ∧
      ofValue skipping.toValue = .ok skipping ∧ ofValue skippingOn.toValue = .ok skippingOn ∧
      skipping.SameWhereLive skippingOn ∧
      findAll (.text "ab") skippingOn.oracle .absent =
        findAll (.text "ab") skipping.oracle .absent := by
  have hasked : ∀ q ∈ (runPath (.text "ab") oneSymbol .absent).queries,
      startOnly.answer q = oneSymbol.answer q := by
    have hqueries : (runPath (.text "ab") oneSymbol .absent).queries =
        [⟨Number.ofNat 0, ⟨some (Number.ofNat 97), some (Number.ofNat 98), true⟩⟩] := by rfl
    rw [hqueries]
    intro q hq
    obtain rfl := List.mem_singleton.1 hq
    rfl
  have hd : ofValue skipping.toValue = .ok skipping := by rfl
  have hd' : ofValue skippingOn.toValue = .ok skippingOn := by rfl
  have hsame : skipping.SameWhereLive skippingOn := by
    refine ⟨rfl, fun key haccept hreject => ?_⟩
    have haccept' : (key == ("1" : Text)) = false := beq_false_of_ne haccept
    have hreject' : (key == ("2" : Text)) = false := beq_false_of_ne hreject
    unfold skippingOn skipping
    simp only [List.lookup_cons, haccept', hreject', List.lookup_nil]
  obtain ⟨horacles, htables⟩ := only_what_is_asked_matters (.text "ab") .absent
  obtain ⟨_, hpath, _⟩ := horacles oneSymbol startOnly rfl
  obtain ⟨_, _, _, hall⟩ := htables _ _ _ _ hd hd' hsame
  exact ⟨rfl, hasked, hpath hasked, hd, hd', hsame, hall⟩

end Definition

end OracleNFA
