/-
  OracleNFA.Proofs.Verdict
  ────────────────────────
  **WHAT A VERDICT SAYS, WHICHEVER STRATEGY REACHED IT.**

  Both strategies owe the same to the configuration graph
  (`Attempt.Explored`), so what follows here follows for either.  Two facts
  settle everything:

      a rejecting run asked about the workload, each site of it once
      a run that was refused has part of the workload still before it

  Whether an attempt rejects is then a question about graph and budget alone
  (`rejected_iff`), and the strategies cannot differ in it.
-/
import Mathlib.Data.Set.Card
import OracleNFA.Proofs.Declaration
import OracleNFA.Proofs.Path

namespace OracleNFA

/-! ## §1. The whole input. -/

/-- A run on sound arguments is that of their attempt; unsound ones are reported
and the oracle is not asked. -/
theorem runStrategy_eq (s : Strategy) (input : Input) (oracle : Oracle) (maxCycles : Value) :
    runStrategy s input oracle maxCycles =
      match Attempt.ofInput input oracle maxCycles with
      | .ok a => a.evaluate s
      | .error e => ⟨.error (.config e), [], []⟩ := by
  unfold runStrategy
  cases Attempt.ofInput input oracle maxCycles <;> rfl

namespace Attempt

/-- An attempt is made of sound sentinels and a sound limit. -/
theorem ofSymbols_eq_ok {symbols : Array Symbol} {oracle : Oracle} {maxCycles : Value}
    {a : Attempt} :
    ofSymbols symbols oracle maxCycles = .ok a ↔
      ∃ ids b, Numbering.ofValue oracle.sentinels = .ok ids ∧ Budget.ofValue maxCycles = .ok b ∧
        ⟨symbols, oracle, ids, b⟩ = a := by
  simp only [ofSymbols, bind, Except.bind, pure, Except.pure]
  cases Numbering.ofValue oracle.sentinels <;> cases Budget.ofValue maxCycles <;> simp

/-- On an input, it is made of sound symbols too. -/
theorem ofInput_eq_ok {input : Input} {oracle : Oracle} {maxCycles : Value} {a : Attempt} :
    ofInput input oracle maxCycles = .ok a ↔
      ∃ symbols, input.symbols = .ok symbols ∧
        ofSymbols symbols.toArray oracle maxCycles = .ok a := by
  simp only [ofInput, bind, Except.bind]
  cases input.symbols <;> simp

theorem ofInput_eq_error {input : Input} {oracle : Oracle} {maxCycles : Value}
    {e : Raised ConfigError} :
    ofInput input oracle maxCycles = .error e ↔
      input.symbols = .error e ∨ ∃ symbols, input.symbols = .ok symbols ∧
        ofSymbols symbols.toArray oracle maxCycles = .error e := by
  simp only [ofInput, bind, Except.bind]
  cases input.symbols <;> simp

/-- The parts of an attempt are read off what it was made of. -/
theorem of_ofInput {input : Input} {oracle : Oracle} {maxCycles : Value} {a : Attempt}
    (h : ofInput input oracle maxCycles = .ok a) :
    a.oracle = oracle ∧ Numbering.ofValue oracle.sentinels = .ok a.ids := by
  obtain ⟨_, _, h⟩ := ofInput_eq_ok.1 h
  obtain ⟨_, _, hids, _, rfl⟩ := ofSymbols_eq_ok.1 h
  exact ⟨rfl, hids⟩

/-- The attempt with another oracle to ask. -/
def asking (a : Attempt) (o : Oracle) : Attempt :=
  { a with oracle := o }

/-- Oracles that declare the same are asked in the same attempts. -/
theorem ofSymbols_asking {oracle other : Oracle} (h : other.sentinels = oracle.sentinels)
    (symbols : Array Symbol) (maxCycles : Value) :
    ofSymbols symbols other maxCycles =
      (ofSymbols symbols oracle maxCycles).map (asking · other) := by
  simp only [ofSymbols, bind, Except.bind, pure, Except.pure, h]
  cases Numbering.ofValue oracle.sentinels <;> cases Budget.ofValue maxCycles <;> rfl

/-- What is made of the symbols of an input is made of the input. -/
theorem ofInput_map {oracle other : Oracle} {maxCycles : Value} {φ : Attempt → Attempt}
    (h : ∀ symbols, ofSymbols symbols other maxCycles = (ofSymbols symbols oracle maxCycles).map φ)
    (input : Input) : ofInput input other maxCycles = (ofInput input oracle maxCycles).map φ := by
  simp only [ofInput, bind, Except.bind]
  cases input.symbols with
  | error e => rfl
  | ok symbols => exact h symbols.toArray

theorem ofInput_asking {oracle other : Oracle} (h : other.sentinels = oracle.sentinels)
    (input : Input) (maxCycles : Value) :
    ofInput input other maxCycles = (ofInput input oracle maxCycles).map (asking · other) :=
  ofInput_map (fun symbols => ofSymbols_asking h symbols maxCycles) input

variable {a : Attempt}

/-- **Either strategy explores what is reached from the start.** -/
theorem ensures_strategy (hdistinct : a.ids.start ≠ a.ids.accept) (s : Strategy) :
    a.Ensures (a.Explored (a.entry 0) true) (s.exploration a.ids a.length) .start := by
  cases s with
  | frontier => exact ensures_simulate true (Nat.zero_le _)
  | path => exact ensures_path hdistinct

/-- The report of a strategy: an inquiry within the budget that explored what is
reached, and the outcome of its ending unless the oracle failed. -/
theorem evaluate_explored (hdistinct : a.ids.start ≠ a.ids.accept) (s : Strategy) :
    ∃ r i, a.Explored (a.entry 0) true r i ∧ a.Grants i ∧
      (∀ e, r = .error e → ∃ u, a.Fails u e) ∧
      (a.evaluate s).queries = i.asked.map a.query ∧
      (a.evaluate s).result =
        match r with
        | .ok e => .ok (a.outcomeOf e i)
        | .error e => .error (.query e) := by
  obtain ⟨r, i, ⟨hexplored, hfailure⟩, hgrants, hreport⟩ := a.evaluate_ensures s
    (ensures_and a _ _ (ensures_strategy hdistinct s) (ensures_failure a _ _))
  exact ⟨r, i, hexplored, hgrants, hfailure, hreport⟩

/-- An oracle that answers every query lets a strategy come to its end. -/
theorem evaluate_answered (hdistinct : a.ids.start ≠ a.ids.accept)
    (hanswers : ∀ q, ∃ raw, a.oracle.answer q = .ok raw) (s : Strategy) :
    ∃ e i, a.Explored (a.entry 0) true (.ok e) i ∧ a.Grants i ∧
      (a.evaluate s).queries = i.asked.map a.query ∧
      (a.evaluate s).result = .ok (a.outcomeOf e i) := by
  obtain ⟨r, i, hexplored, hgrants, hfailure, hqueries, hresult⟩ := evaluate_explored hdistinct s
  cases r with
  | ok e => exact ⟨e, i, hexplored, hgrants, hqueries, hresult⟩
  | error e =>
      obtain ⟨u, hfails⟩ := hfailure e rfl
      exact absurd hfails (not_fails hanswers)

/-! ## §2. The workload. -/

variable {r : Except (Raised QueryError) Ending} {i j : Inquiry}

/-- A duplicate-free list of the members of a set counts them. -/
theorem ncard_eq_length {α : Type} {l : List α} {S : Set α} (hnodup : l.Nodup)
    (hmem : ∀ u, u ∈ l ↔ u ∈ S) : S.ncard = l.length := by
  classical
  have hset : S = (l.toFinset : Set α) := by
    ext u
    rw [List.coe_toFinset]
    exact (hmem u).symm
  rw [hset, Set.ncard_coe_finset, List.toFinset_card_of_nodup hnodup]

/-- The questions raised are about part of the workload. -/
theorem Orderly.length_touched_le (h : a.Orderly (a.entry 0) i) :
    i.touched.length ≤ a.workload.ncard := by
  classical
  rw [← List.toFinset_card_of_nodup h.nodup, ← Set.ncard_coe_finset]
  refine Set.ncard_le_ncard ?_ a.finite_workload
  intro u hu
  exact h.reached u (by simpa using hu)

/-- A refused run has more work before it than it did. -/
theorem Orderly.length_asked_lt (h : a.Orderly (a.entry 0) i) (hrefused : i.refused.isSome = true) :
    i.asked.length < a.workload.ncard := by
  obtain ⟨site, hsite⟩ := Option.isSome_iff_exists.1 hrefused
  have hle := h.length_touched_le
  unfold Inquiry.touched at hle
  rw [hsite, List.length_append] at hle
  exact hle

theorem Furthest.unique {root : Site} {m n : Nat} (hm : a.Furthest root m)
    (hn : a.Furthest root n) :
    m = n := by
  obtain ⟨s, hs⟩ := hm.reached
  obtain ⟨t, ht⟩ := hn.reached
  exact Nat.le_antisymm (hn.le m s hs) (hm.le n t ht)

variable {n : Nat}

/-- A rejecting run asked about the workload, -/
theorem RejectedAt.mem_asked_iff (ho : a.Orderly (a.entry 0) i)
    (h : a.RejectedAt (a.entry 0) true n i) (u : Site) : u ∈ i.asked ↔ u ∈ a.workload := by
  constructor
  · intro hu
    exact ho.reached u (List.mem_append_left _ hu)
  · exact fun hu => h.complete u hu.1 hu.2

theorem Orderly.nodup_asked {root : Site} (h : a.Orderly root i) : i.asked.Nodup :=
  (List.nodup_append.1 h.nodup).1

/-- each site of it once. -/
theorem RejectedAt.length_asked (ho : a.Orderly (a.entry 0) i)
    (h : a.RejectedAt (a.entry 0) true n i) : i.asked.length = a.workload.ncard :=
  (ncard_eq_length ho.nodup_asked (h.mem_asked_iff ho)).symm

/-- Two rejecting runs asked the same in some order. -/
theorem RejectedAt.asked_perm {m : Nat} (hoi : a.Orderly (a.entry 0) i)
    (hi : a.RejectedAt (a.entry 0) true n i) (hoj : a.Orderly (a.entry 0) j)
    (hj : a.RejectedAt (a.entry 0) true m j) : i.asked.Perm j.asked := by
  rw [List.perm_ext_iff_of_nodup hoi.nodup_asked hoj.nodup_asked]
  intro u
  rw [hi.mem_asked_iff hoi, hj.mem_asked_iff hoj]

/-! ## §3. Verdicts. -/

/-- The budget lasts for the whole workload. -/
def Affordable (a : Attempt) : Prop :=
  ∀ n, a.budget.limit? = some n → a.workload.ncard ≤ n

variable {e f : Ending}

theorem Explored.of_accepted (h : a.Explored (a.entry 0) true (.ok e) i)
    (he : e.verdict = .accepted) : a.Reaches (a.entry 0) (a.exit a.length) := by
  obtain ⟨verdict, position⟩ := e
  obtain rfl : verdict = .accepted := he
  obtain ⟨_, n, rfl, haccepted⟩ := h
  have hend : n = a.length := haccepted.counts.resolve_left (by simp)
  exact hend ▸ haccepted.reached

theorem Explored.of_rejected (h : a.Explored (a.entry 0) true (.ok e) i)
    (he : e.verdict = .rejected) :
    ∃ n, e.position = .after n ∧ a.RejectedAt (a.entry 0) true n i := by
  obtain ⟨verdict, position⟩ := e
  obtain rfl : verdict = .rejected := he
  exact h.2

theorem RejectedAt.not_reaches (h : a.RejectedAt (a.entry 0) true n i) :
    ¬ a.Reaches (a.entry 0) (a.exit a.length) :=
  h.unreached a.length (.inr rfl)

theorem Explored.of_exhausted {root : Site} {anchored : Bool}
    (h : a.Explored root anchored (.ok e) i)
    (he : e.verdict = .exhausted) : i.refused.isSome = true := by
  obtain ⟨verdict, position⟩ := e
  obtain rfl : verdict = .exhausted := he
  exact h.2

/-- **An attempt rejects exactly when the accepting state is not reached at the
end of the input and the budget lasts to see that.** -/
theorem Explored.rejected_iff (h : a.Explored (a.entry 0) true (.ok e) i) (hg : a.Grants i) :
    e.verdict = .rejected ↔ ¬ a.Reaches (a.entry 0) (a.exit a.length) ∧ a.Affordable := by
  constructor
  · intro he
    obtain ⟨n, _, hrejected⟩ := h.of_rejected he
    refine ⟨hrejected.not_reaches, fun limit hlimit => ?_⟩
    rw [← hrejected.length_asked h.1]
    exact hg.within limit hlimit
  · rintro ⟨hunreached, haffordable⟩
    cases he : e.verdict with
    | rejected => rfl
    | accepted => exact absurd (h.of_accepted he) hunreached
    | exhausted =>
        -- Refused at the limit, with more of the workload to come.
        have hrefused := h.of_exhausted he
        have hle := haffordable _ (hg.spent hrefused)
        have hlt := h.1.length_asked_lt hrefused
        omega

/-- Two rejecting runs asked the same in some order and got equally far. -/
theorem Explored.alike (hi : a.Explored (a.entry 0) true (.ok e) i)
    (hj : a.Explored (a.entry 0) true (.ok f) j) (he : e.verdict = .rejected)
    (hf : f.verdict = .rejected) : i.asked.Perm j.asked ∧ e.position = f.position := by
  obtain ⟨n, hn, hrejected⟩ := hi.of_rejected he
  obtain ⟨m, hm, hrejected'⟩ := hj.of_rejected hf
  refine ⟨hrejected.asked_perm hi.1 hj.1 hrejected', ?_⟩
  rw [hn, hm, hrejected.furthest.unique hrejected'.furthest]

/-- **Runs over graphs that look the same from the start reject together**, after as
many queries and equally far: if the accepting state is reached at the end in both or
in neither, there is as much to ask and both go equally far. -/
theorem Explored.rejected_alike {b : Attempt} (hi : a.Explored (a.entry 0) true (.ok e) i)
    (hgi : a.Grants i) (hj : b.Explored (b.entry 0) true (.ok f) j) (hgj : b.Grants j)
    (hbudget : b.budget = a.budget)
    (hexit : b.Reaches (b.entry 0) (b.exit b.length) ↔ a.Reaches (a.entry 0) (a.exit a.length))
    (hworkload : b.workload.ncard = a.workload.ncard)
    (hfurthest : ∀ n, a.Furthest (a.entry 0) n → b.Furthest (b.entry 0) n) :
    (e.verdict = .rejected ↔ f.verdict = .rejected) ∧
      (e.verdict = .rejected → j.asked.length = i.asked.length ∧ f.position = e.position) := by
  have haffordable : b.Affordable ↔ a.Affordable := by
    unfold Affordable
    rw [hbudget, hworkload]
  have hverdict : e.verdict = .rejected ↔ f.verdict = .rejected := by
    rw [hi.rejected_iff hgi, hj.rejected_iff hgj, haffordable, hexit]
  refine ⟨hverdict, fun hrejected => ?_⟩
  obtain ⟨n, hn, hend⟩ := hi.of_rejected hrejected
  obtain ⟨m, hm, hend'⟩ := hj.of_rejected (hverdict.1 hrejected)
  constructor
  · rw [hend.length_asked hi.1, hend'.length_asked hj.1, hworkload]
  · rw [hn, hm, (hfurthest n hend.furthest).unique hend'.furthest]

/-- Where the accepting state is not reached, a run rejects after the workload or
gives up at the limit, as the budget lasts or not. -/
theorem Explored.of_unreached (h : a.Explored (a.entry 0) true (.ok e) i) (hg : a.Grants i)
    (hunreached : ¬ a.Reaches (a.entry 0) (a.exit a.length)) :
    (a.Affordable → e.verdict = .rejected ∧ i.asked.length = a.workload.ncard) ∧
      (¬ a.Affordable → e.verdict = .exhausted ∧ a.budget.limit? = some i.asked.length) := by
  constructor
  · intro haffordable
    have he := (h.rejected_iff hg).2 ⟨hunreached, haffordable⟩
    obtain ⟨n, _, hrejected⟩ := h.of_rejected he
    exact ⟨he, hrejected.length_asked h.1⟩
  · intro hshort
    have he : e.verdict = .exhausted := by
      cases hverdict : e.verdict with
      | accepted => exact absurd (h.of_accepted hverdict) hunreached
      | rejected => exact absurd ((h.rejected_iff hg).1 hverdict).2 hshort
      | exhausted => rfl
    exact ⟨he, hg.spent (h.of_exhausted he)⟩

theorem diagnostics_of_rejected (a : Attempt) (i : Inquiry) (he : e.verdict = .rejected) :
    (a.outcomeOf e i).diagnostics = i.asked.flatMap a.faults := by
  unfold outcomeOf
  rw [he]
  exact List.append_nil _

end Attempt

/-! ## §4. Runs. -/

variable {input : Input} {oracle : Oracle} {maxCycles : Value}

/-- Arguments that are found sound make an attempt whose start is not accepting. -/
theorem start_ne_accept {a : Attempt} (h : Attempt.ofInput input oracle maxCycles = .ok a) :
    a.ids.start ≠ a.ids.accept :=
  (Numbering.distinct_of_ofValue (Attempt.of_ofInput h).2).1

/-- A run that returns had sound arguments and came to its end. -/
theorem explored_of_returned {s : Strategy} {o : Outcome}
    (h : (runStrategy s input oracle maxCycles).result = .ok o) :
    ∃ a e i, Attempt.ofInput input oracle maxCycles = .ok a ∧
      a.Explored (a.entry 0) true (.ok e) i ∧ a.Grants i ∧ o = a.outcomeOf e i := by
  rw [runStrategy_eq] at h
  cases ha : Attempt.ofInput input oracle maxCycles with
  | error e => simp [ha] at h
  | ok a =>
      obtain ⟨r, i, hexplored, hgrants, _, _, hresult⟩ :=
        Attempt.evaluate_explored (start_ne_accept ha) s
      rw [ha] at h
      rw [hresult] at h
      cases r with
      | error e => simp at h
      | ok e => exact ⟨a, e, i, rfl, hexplored, hgrants, (Except.ok.inj h).symm⟩

/-- **Verdicts are sound and complete.**  Whatever the budget and whichever the
strategy, an input is accepted only if the accepting state is reached at its end,
and rejected only if it is not. -/
theorem verdict_sound_complete {o : Outcome}
    (h : (runFrontier input oracle maxCycles).result = .ok o ∨
      (runPath input oracle maxCycles).result = .ok o) :
    ∃ a, Attempt.ofInput input oracle maxCycles = .ok a ∧
      (o.verdict = .accepted → a.Reaches (a.entry 0) (a.exit a.length)) ∧
      (o.verdict = .rejected → ¬ a.Reaches (a.entry 0) (a.exit a.length)) := by
  have hreturned : ∃ s, (runStrategy s input oracle maxCycles).result = .ok o := by
    rcases h with h | h
    · exact ⟨.frontier, h⟩
    · exact ⟨.path, h⟩
  obtain ⟨s, hs⟩ := hreturned
  obtain ⟨a, e, i, ha, hexplored, _, rfl⟩ := explored_of_returned hs
  refine ⟨a, ha, fun he => hexplored.of_accepted he, fun he => ?_⟩
  obtain ⟨n, _, hrejected⟩ := hexplored.of_rejected he
  exact hrejected.not_reaches

/-- An oracle that accepts the inputs of one symbol. -/
def oneSymbol : Oracle where
  sentinels := Sentinels.toValue ⟨0, 1, 2, none, none⟩
  answer := fun _ => .ok (Transition.toValue ⟨1, none, true⟩)

theorem verdict_sound_complete_oneSymbol :
    (runFrontier (.text "a") oneSymbol .absent).result = .ok ⟨.accepted, 1, .after 1, []⟩ ∧
      (∃ a, Attempt.ofInput (.text "a") oneSymbol .absent = .ok a ∧
        a.Reaches (a.entry 0) (a.exit a.length)) ∧
      (runPath (.text "ab") oneSymbol .absent).result = .ok ⟨.rejected, 1, .after 1, []⟩ ∧
      ∃ a, Attempt.ofInput (.text "ab") oneSymbol .absent = .ok a ∧
        ¬ a.Reaches (a.entry 0) (a.exit a.length) := by
  have haccepted : (runFrontier (.text "a") oneSymbol .absent).result =
      .ok ⟨.accepted, 1, .after 1, []⟩ := by rfl
  have hrejected : (runPath (.text "ab") oneSymbol .absent).result =
      .ok ⟨.rejected, 1, .after 1, []⟩ := by rfl
  obtain ⟨a, ha, hreached, _⟩ := verdict_sound_complete (.inl haccepted)
  obtain ⟨b, hb, _, hunreached⟩ := verdict_sound_complete (.inr hrejected)
  exact ⟨haccepted, ⟨a, ha, hreached rfl⟩, hrejected, b, hb, hunreached rfl⟩

/-- **The strategies agree under one budget.**  On unsound arguments both report
the same fault.  Otherwise both return, and never with opposite verdicts; they
reject together, with the same count and position and the same queries and
diagnostics up to order; and where the accepting state is not reached, the budget
decides between rejecting after the workload and giving up at the limit. -/
theorem strategies_agree (input : Input) (oracle : Oracle) (maxCycles : Value)
    (hanswers : ∀ q, ∃ raw, oracle.answer q = .ok raw) :
    match Attempt.ofInput input oracle maxCycles with
    | .error e =>
        (runFrontier input oracle maxCycles).result = .error (.config e) ∧
          (runPath input oracle maxCycles).result = .error (.config e)
    | .ok a => a.workload.Finite ∧ ∃ f p,
        (runFrontier input oracle maxCycles).result = .ok f ∧
          (runPath input oracle maxCycles).result = .ok p ∧
        ¬ (f.verdict = .accepted ∧ p.verdict = .rejected) ∧
        ¬ (f.verdict = .rejected ∧ p.verdict = .accepted) ∧
        (f.verdict = .rejected ↔ p.verdict = .rejected) ∧
        (f.verdict = .rejected →
          f.queries = p.queries ∧ f.position = p.position ∧
            (runFrontier input oracle maxCycles).queries.Perm
              (runPath input oracle maxCycles).queries ∧
            f.diagnostics.Perm p.diagnostics) ∧
        (¬ a.Reaches (a.entry 0) (a.exit a.length) →
          f.verdict = p.verdict ∧ f.queries = p.queries ∧
            (a.Affordable → f.verdict = .rejected ∧ f.queries = a.workload.ncard) ∧
            (¬ a.Affordable → f.verdict = .exhausted ∧ a.budget.limit? = some f.queries)) := by
  have hfrontier := runStrategy_eq .frontier input oracle maxCycles
  have hpath := runStrategy_eq .path input oracle maxCycles
  unfold runFrontier runPath
  cases ha : Attempt.ofInput input oracle maxCycles with
  | error e =>
      rw [ha] at hfrontier hpath
      rw [hfrontier, hpath]
      exact ⟨rfl, rfl⟩
  | ok a =>
      rw [ha] at hfrontier hpath
      rw [hfrontier, hpath]
      have hdistinct := start_ne_accept ha
      rw [← (Attempt.of_ofInput ha).1] at hanswers
      obtain ⟨e, i, hi, hgi, hqi, hri⟩ := Attempt.evaluate_answered hdistinct hanswers .frontier
      obtain ⟨e', j, hj, hgj, hqj, hrj⟩ := Attempt.evaluate_answered hdistinct hanswers .path
      -- Rejecting depends on graph and budget alone, and both share these.
      have hverdict : e.verdict = .rejected ↔ e'.verdict = .rejected :=
        (hi.rejected_iff hgi).trans (hj.rejected_iff hgj).symm
      refine ⟨a.finite_workload, _, _, hri, hrj, ?_, ?_, hverdict, ?_, ?_⟩
      · rintro ⟨hacc, hrej⟩
        exact absurd (hacc.symm.trans (hverdict.2 hrej)) (by simp)
      · rintro ⟨hrej, hacc⟩
        exact absurd (hacc.symm.trans (hverdict.1 hrej)) (by simp)
      · intro hrej
        obtain ⟨hperm, hposition⟩ := hi.alike hj hrej (hverdict.1 hrej)
        refine ⟨hperm.length_eq, hposition, ?_, ?_⟩
        · rw [hqi, hqj]
          exact hperm.map _
        · rw [a.diagnostics_of_rejected i hrej, a.diagnostics_of_rejected j (hverdict.1 hrej)]
          exact hperm.flatMap_right _
      · intro hunreached
        obtain ⟨hlasts, hshort⟩ := hi.of_unreached hgi hunreached
        obtain ⟨hlasts', hshort'⟩ := hj.of_unreached hgj hunreached
        by_cases haffordable : a.Affordable
        · obtain ⟨hrej, hcount⟩ := hlasts haffordable
          obtain ⟨hrej', hcount'⟩ := hlasts' haffordable
          exact ⟨hrej.trans hrej'.symm, hcount.trans hcount'.symm, hlasts, hshort⟩
        · obtain ⟨hexh, hlimit⟩ := hshort haffordable
          obtain ⟨hexh', hlimit'⟩ := hshort' haffordable
          have hcount : i.asked.length = j.asked.length :=
            Option.some.inj (hlimit.symm.trans hlimit')
          exact ⟨hexh.trans hexh'.symm, hcount, hlasts, hshort⟩

theorem strategies_agree_oneSymbol :
    (∀ q, ∃ raw, oneSymbol.answer q = .ok raw) ∧
      ∃ f p, (runFrontier (.text "ab") oneSymbol .absent).result = .ok f ∧
        (runPath (.text "ab") oneSymbol .absent).result = .ok p ∧
        f.verdict = .rejected ∧ p.verdict = .rejected ∧ f.queries = p.queries ∧
        f.position = p.position := by
  have hanswers : ∀ q, ∃ raw, oneSymbol.answer q = .ok raw := fun _ => ⟨_, rfl⟩
  obtain ⟨_, f, p, hf, hp, _, _, hiff, halike, _⟩ :=
    strategies_agree (.text "ab") oneSymbol .absent hanswers
  have hrejected : f.verdict = .rejected := by
    obtain rfl : _ = f := Except.ok.inj hf
    rfl
  obtain ⟨hqueries, hposition, _⟩ := halike hrejected
  exact ⟨hanswers, f, p, hf, hp, hrejected, hiff.1 hrejected, hqueries, hposition⟩

end OracleNFA
