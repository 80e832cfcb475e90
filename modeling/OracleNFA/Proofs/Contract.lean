/-
  OracleNFA.Proofs.Contract
  ─────────────────────────
  **RULE TABLES SPEAK THE CONTRACT OF ANSWERS.**

  Two validators have to agree on what a state is: the one that accepts a
  definition, and the one that reads an answer.  They agree on everything but
  size.  A definition may hold natural numbers that are too large to be exact
  where it names no largest state, and an answer may not:

      answer_decoded  — every answer of an accepted table is a transition, and
                        all of it is kept exactly when its states are safe
      malformed_iff   — so a run notes a fault exactly when it is told of a
                        state that is not

  A run on a table never ends in a failed query.
-/
import OracleNFA.Proofs.Definition
import OracleNFA.Proofs.Verdict
import OracleNFA.Table.Compiled

namespace OracleNFA

/-! ## §1. Transitions as answers. -/

/-- The states a transition leads to. -/
def Transition.targets (t : Transition) : List Nat :=
  t.next :: t.branch.toList

/-- A natural number that an answer may name as a state. -/
def Numbering.Admits (ids : Numbering) (n : Nat) : Prop :=
  n ≤ ids.maxStateId ∧ n ≤ Number.maxSafe

theorem Numbering.validId?_ofNat (ids : Numbering) (n : Nat) :
    ids.validId? (.number (.ofNat n)) = none ↔ ¬ ids.Admits n := by
  simp only [validId?, Number.safeNatural?, Number.natural?_ofNat, Option.map_eq_none_iff,
    Option.filter_eq_none_iff, decide_eq_true_eq, Option.filter_eq_some_iff]
  unfold Admits
  constructor
  · rintro h ⟨hmax, hsafe⟩
    exact h n ⟨rfl, hsafe⟩ hmax
  · rintro h m ⟨hm, hsafe⟩ hmax
    obtain rfl := Option.some.inj hm
    exact h ⟨hmax, hsafe⟩

/-- A state that is written as a natural number is that number. -/
theorem Numbering.eq_ofNat_of_validId? {ids : Numbering} {n : Nat} {s : StateId}
    (h : ids.validId? (.number (.ofNat n)) = some s) : s = .ofNat n := by
  simp only [validId?, Number.safeNatural?, Number.natural?_ofNat, Option.map_eq_some_iff,
    Option.filter_eq_some_iff, Option.some.injEq] at h
  obtain ⟨k, ⟨⟨rfl, _⟩, _⟩, rfl⟩ := h
  rfl

/-- A reserved state is admitted unless it is too large to be exact. -/
theorem Numbering.admits_reserved {v : Value} {ids : Numbering} (h : ofValue v = .ok ids) {id : Nat}
    (hid : id ∈ [ids.start, ids.accept, ids.reject]) (hsafe : id ≤ Number.maxSafe) :
    ids.Admits id := by
  obtain ⟨s, hs, rfl⟩ := ofValue_eq_ok.1 h
  obtain ⟨_, _, _, sound⟩ := Sentinels.ofValue_eq_ok.1 hs
  refine ⟨?_, hsafe⟩
  show id ≤ s.maxStateId.getD Number.maxSafe
  cases hmax : s.maxStateId with
  | none => exact hsafe
  | some m => exact sound.inRange m hmax id hid

namespace Response

/-- An answer has a shape if it is an object that says both whether the symbol is
consumed and whether there is a second successor. -/
theorem result_check_eq_ok {raw : Value} {shape : Shape} : (check raw).result = .ok shape ↔
    ∃ fields, raw = .object fields ∧ shape.next = Value.lookup "nextState" fields ∧
      shape.branch = Value.lookup "secondState" fields ∧
      Value.lookup "consumed" fields = .bool shape.consumed ∧
      Value.lookup "enabled" fields = .bool shape.enabled := by
  rw [Checked.result_eq_ok]
  unfold check
  simp only [Check.passes_object, Checked.passes_ap, Checked.passes_fmap, Check.passes_field,
    Check.passes_bool]
  refine exists_congr fun fields => and_congr_right fun _ => ?_
  constructor
  · rintro ⟨_, enabled, ⟨consumed, hconsumed, rfl⟩, henabled, rfl⟩
    exact ⟨rfl, rfl, hconsumed, henabled⟩
  · obtain ⟨next, branch, consumed, enabled⟩ := shape
    rintro ⟨rfl, rfl, hconsumed, henabled⟩
    exact ⟨_, enabled, ⟨consumed, hconsumed, rfl⟩, henabled, rfl⟩

/-- A successor counts if it is a state. -/
theorem judge_eq_ok {ids : Numbering} {problem : Value → Problem} {v : Value} {s : StateId} :
    judge ids problem v = .ok s ↔ ids.validId? v = some s := by
  unfold judge
  cases ids.validId? v <;> simp

/-- A successor that is written as a natural number is a problem unless it is
admitted. -/
theorem problems_judge {ids : Numbering} {problem : Value → Problem} {n : Nat}
    {rest : List (Except Problem StateId)} :
    problems (judge ids problem (.number (.ofNat n)) :: rest) = [] ↔
      ids.Admits n ∧ problems rest = [] := by
  unfold judge
  cases hvalid : ids.validId? (.number (.ofNat n)) with
  | none => simp [problems, (Numbering.validId?_ofNat ids n).1 hvalid]
  | some s =>
      have hadmits : ids.Admits n := by
        by_contra habsurd
        rw [(Numbering.validId?_ofNat ids n).2 habsurd] at hvalid
        exact absurd hvalid (by simp)
      simp [problems, hadmits]

/-- A transition that was written is read, and all of it is kept exactly when its
states are admitted. -/
theorem decode_toValue (ids : Numbering) (t : Transition) :
    ∃ d, decode ids t.toValue = .ok d ∧ d.consumes = t.consumes ∧
      (d.problems = [] ↔ ∀ n ∈ t.targets, ids.Admits n) := by
  obtain ⟨next, branch, consumes⟩ := t
  cases branch with
  | none =>
      refine ⟨_, rfl, rfl, ?_⟩
      show problems [judge ids .next (.number (.ofNat next))] = [] ↔ _
      simp [problems_judge, problems, Transition.targets]
  | some branch =>
      refine ⟨_, rfl, rfl, ?_⟩
      show problems [judge ids .next (.number (.ofNat next)),
        judge ids .branch (.number (.ofNat branch))] = [] ↔ _
      simp [problems_judge, problems, Transition.targets]

end Response

/-! ## §2. What a table answers. -/

namespace Definition

variable {v : Value} {d : Definition Nat}

/-- An answer leads to the dead state or where a rule leads. -/
theorem answer_targets (d : Definition Nat) (q : Query) :
    ∀ n ∈ (d.compile.answer q).targets,
      n = d.sentinels.reject ∨ ∃ entry ∈ d.states, ∃ r ∈ entry.2, n ∈ r.targets := by
  intro n hn
  unfold Table.answer at hn
  split at hn
  · -- Some rule applied, and it stands in the table under some key.
    next g hg =>
      right
      have hmem := List.mem_of_find?_eq_some hg
      unfold Table.rulesOf at hmem
      split at hmem
      · next id _ =>
          cases hrow : d.compile.rows.lookup id with
          | none => simp [hrow] at hmem
          | some row =>
              obtain ⟨before, after, heq, _⟩ := List.lookup_eq_some_iff.1 hrow
              have hmemRow : (id, row) ∈ d.compile.rows := heq ▸ by simp
              obtain ⟨entry, hentry, hcompiled⟩ := List.mem_map.1 hmemRow
              obtain rfl : entry.2.map Rule.compile = row := congrArg Prod.snd hcompiled
              rw [hrow] at hmem
              obtain ⟨r, hr, rfl⟩ := List.mem_map.1 hmem
              exact ⟨entry, hentry, r, hr, hn⟩
      · exact absurd hmem (by simp)
  · -- No rule applied: the dead state is the only target.
    left
    exact List.mem_singleton.1 hn

/-- The numbering of a table's oracle is that of its sentinels. -/
theorem ofValue_oracle (h : d.Sound) :
    Numbering.ofValue d.oracle.sentinels = .ok d.sentinels.resolve := by
  refine Numbering.ofValue_eq_ok.2 ⟨d.sentinels, ?_, rfl⟩
  exact Sentinels.ofValue_toValue h.sentinels

/-- Where a table leads is admitted exactly if it is safe: the largest state was
looked at before, if there is one. -/
theorem admits_answer (h : d.Sound) (q : Query) {n : Nat} (hn : n ∈ (d.compile.answer q).targets) :
    d.sentinels.resolve.Admits n ↔ n ≤ Number.maxSafe := by
  refine ⟨fun hadmits => hadmits.2, fun hsafe => ⟨?_, hsafe⟩⟩
  show n ≤ d.sentinels.maxStateId.getD Number.maxSafe
  cases hmax : d.sentinels.maxStateId with
  | none => exact hsafe
  | some m =>
      rcases answer_targets d q n hn with rfl | ⟨entry, hentry, r, hr, hn⟩
      · exact h.sentinels.inRange m hmax _ (by simp [Sentinels.reserved])
      · exact h.targets m hmax entry hentry r hr n hn

/-- The answer to a query leads to states that are exact. -/
def SafeAnswer (d : Definition Nat) (q : Query) : Prop :=
  ∀ n ∈ (d.compile.answer q).targets, n ≤ Number.maxSafe

/-- **An answer of a table is a transition, and nothing of it is a problem exactly
when its states are safe.** -/
theorem answer_decoded (h : d.Sound) (q : Query) :
    ∃ t, Response.decode d.sentinels.resolve (d.compile.answer q).toValue = .ok t ∧
      (t.problems = [] ↔ d.SafeAnswer q) := by
  obtain ⟨t, ht, _, hproblems⟩ := Response.decode_toValue d.sentinels.resolve (d.compile.answer q)
  refine ⟨t, ht, hproblems.trans ?_⟩
  exact forall₂_congr fun n hn => admits_answer h q hn

end Definition

/-! ## §3. Runs on a table. -/

namespace Attempt

variable {a : Attempt}

/-- The diagnostics of an outcome blame an answer where one that was asked for is
at fault. -/
theorem malformed_mem_iff (e : Ending) (i : Inquiry) :
    (∃ site problem, Diagnostic.malformed site problem ∈ (a.outcomeOf e i).diagnostics) ↔
      ∃ site ∈ i.asked, a.faults site ≠ [] := by
  have faults_form : ∀ u, ∀ d ∈ a.faults u, ∃ problem, d = .malformed u problem := by
    intro u d hd
    unfold faults at hd
    split at hd
    · obtain ⟨problem, _, rfl⟩ := List.mem_map.1 hd
      exact ⟨problem, rfl⟩
    · exact absurd hd (by simp)
  unfold outcomeOf
  constructor
  · rintro ⟨site, problem, hmem⟩
    rcases List.mem_append.1 hmem with hmem | hmem
    · obtain ⟨u, hu, hd⟩ := List.mem_flatMap.1 hmem
      exact ⟨u, hu, List.ne_nil_of_mem hd⟩
    · -- A spent budget adds a diagnostic of another kind.
      split at hmem <;> simp at hmem
  · rintro ⟨u, hu, hfaults⟩
    obtain ⟨d, hd⟩ := List.exists_mem_of_ne_nil _ hfaults
    obtain ⟨problem, rfl⟩ := faults_form u d hd
    exact ⟨u, problem, List.mem_append_left _ (List.mem_flatMap.2 ⟨u, hu, hd⟩)⟩

/-- What reading a transition notes is what decoding it found. -/
theorem read_problems {site : Site} {raw : Value} {t : Decoded}
    (h : Response.decode a.ids raw = .ok t) : (a.read site raw).problems = t.problems := by
  unfold read
  rw [h]
  dsimp only
  split <;> rfl

/-- A table is at fault where its answer is not safe. -/
theorem faults_eq_nil_iff {d : Definition Nat} (h : d.Sound) (horacle : a.oracle = d.oracle)
    (hids : a.ids = d.sentinels.resolve) (site : Site) :
    a.faults site = [] ↔ d.SafeAnswer (a.query site) := by
  obtain ⟨t, ht, hsafe⟩ := Definition.answer_decoded h (a.query site)
  rw [← hids] at ht
  have hfaults : a.faults site = t.problems.map (Diagnostic.malformed site) := by
    unfold faults
    rw [horacle]
    show (a.read site _).problems.map _ = _
    rw [read_problems ht]
  rw [hfaults, List.map_eq_nil_iff, hsafe]

end Attempt

namespace Definition

variable {v : Value} {d : Definition Nat}

/-- A definition all of whose states are exact. -/
structure Safe (d : Definition Nat) : Prop where
  reject : d.sentinels.reject ≤ Number.maxSafe
  targets : ∀ entry ∈ d.states, ∀ r ∈ entry.2, ∀ n ∈ r.targets, n ≤ Number.maxSafe

theorem Safe.answer (h : d.Safe) (q : Query) : d.SafeAnswer q := by
  intro n hn
  rcases answer_targets d q n hn with rfl | ⟨entry, hentry, r, hr, hn⟩
  · exact h.reject
  · exact h.targets entry hentry r hr n hn

/-- A largest state that is exact makes all of them exact. -/
theorem Sound.safe {m : Nat} (h : d.Sound) (hmax : d.sentinels.maxStateId = some m)
    (hm : m ≤ Number.maxSafe) : d.Safe where
  reject := Nat.le_trans (h.sentinels.inRange m hmax _ (by simp [Sentinels.reserved])) hm
  targets := fun entry hentry r hr n hn => Nat.le_trans (h.targets m hmax entry hentry r hr n hn) hm

/-- A run on a table is refused for its arguments or comes to its end. -/
theorem runStrategy_oracle (h : d.Sound) (s : Strategy) (input : Input) (maxCycles : Value) :
    (∃ e, (runStrategy s input d.oracle maxCycles).result = .error (.config e)) ∨
      ∃ (a : Attempt) (e : Ending) (i : Inquiry),
        a.oracle = d.oracle ∧ a.ids = d.sentinels.resolve ∧
        (runStrategy s input d.oracle maxCycles).queries = i.asked.map a.query ∧
        (runStrategy s input d.oracle maxCycles).result = .ok (a.outcomeOf e i) := by
  rw [runStrategy_eq]
  cases ha : Attempt.ofInput input d.oracle maxCycles with
  | error e => exact .inl ⟨e, rfl⟩
  | ok a =>
      obtain ⟨horacle, hids⟩ := Attempt.of_ofInput ha
      rw [ofValue_oracle h] at hids
      have hanswers : ∀ q, ∃ raw, a.oracle.answer q = .ok raw := by
        rw [horacle]
        exact fun q => ⟨_, rfl⟩
      obtain ⟨e, i, _, _, hqueries, hresult⟩ :=
        Attempt.evaluate_answered (start_ne_accept ha) hanswers s
      exact .inr ⟨a, e, i, horacle, (Except.ok.inj hids).symm, hqueries, hresult⟩

/-- **Rule tables speak the contract, up to the size of states.**  Every answer
is read as a transition, without a problem exactly when the states it leads to
are safe.  So whichever the strategy, input and budget, a run on a table never
ends in a failed query, and it notes a malformed answer exactly when one that was
asked for leads to a state that is not safe.  All are safe where the states of
the definition are, and these are where it names a safe largest state. -/
theorem table_speaks_contract (hd : ofValue v = .ok d) :
    (∀ q, ∃ raw t, d.oracle.answer q = .ok raw ∧
      Response.decode d.sentinels.resolve raw = .ok t ∧ (t.problems = [] ↔ d.SafeAnswer q)) ∧
    (∀ s input maxCycles e,
      (runStrategy s input d.oracle maxCycles).result ≠ .error (.query e)) ∧
    (∀ s input maxCycles o, (runStrategy s input d.oracle maxCycles).result = .ok o →
      ((∃ site problem, Diagnostic.malformed site problem ∈ o.diagnostics) ↔
        ∃ q ∈ (runStrategy s input d.oracle maxCycles).queries, ¬ d.SafeAnswer q)) ∧
    (d.Safe → ∀ q, d.SafeAnswer q) ∧
    (∀ m, d.sentinels.maxStateId = some m → m ≤ Number.maxSafe → d.Safe) := by
  have h := sound_of_ofValue hd
  refine ⟨fun q => ?_, fun s input maxCycles e hfailed => ?_, fun s input maxCycles o ho => ?_,
    Safe.answer, fun m hmax hm => h.safe hmax hm⟩
  · obtain ⟨t, ht, hproblems⟩ := answer_decoded h q
    exact ⟨_, t, rfl, ht, hproblems⟩
  · rcases runStrategy_oracle h s input maxCycles with ⟨e', hconfig⟩ | ⟨_, _, _, _, _, _, hresult⟩
    · rw [hconfig] at hfailed
      exact absurd hfailed (by simp)
    · rw [hresult] at hfailed
      exact absurd hfailed (by simp)
  · rcases runStrategy_oracle h s input maxCycles with
      ⟨e', hconfig⟩ | ⟨a, e, i, horacle, hids, hqueries, hresult⟩
    · rw [hconfig] at ho
      exact absurd ho (by simp)
    · obtain rfl : a.outcomeOf e i = o := Except.ok.inj (hresult.symm.trans ho)
      rw [Attempt.malformed_mem_iff, hqueries]
      simp only [List.mem_map, exists_exists_and_eq_and]
      refine exists_congr fun site => and_congr_right fun _ => not_congr ?_
      exact Attempt.faults_eq_nil_iff h horacle hids site

/-- A table that skips over its input and names its largest state. -/
def skipping : Definition Nat :=
  ⟨⟨0, 1, 2, none, some 2⟩,
    [("0", [⟨none, some ⟨[]⟩, none, none, none, 0, none, some true⟩,
      ⟨none, none, some true, none, none, 1, none, none⟩])]⟩

theorem table_speaks_contract_skipping :
    ofValue skipping.toValue = .ok skipping ∧
      ∀ s input maxCycles o, (runStrategy s input skipping.oracle maxCycles).result = .ok o →
        ¬ ∃ site problem, Diagnostic.malformed site problem ∈ o.diagnostics := by
  have haccepted : ofValue skipping.toValue = .ok skipping := by rfl
  refine ⟨haccepted, fun s input maxCycles o ho => ?_⟩
  obtain ⟨_, _, hruns, hsafe, hmax⟩ := table_speaks_contract haccepted
  rw [hruns s input maxCycles o ho]
  rintro ⟨q, _, hunsafe⟩
  exact hunsafe (hsafe (hmax 2 rfl (by decide)) q)

/-- A table whose dead state is too large to be exact. -/
def largeReject : Definition Nat :=
  ⟨⟨0, 1, 9007199254740992, none, none⟩, []⟩

theorem largeReject_malformed :
    ofValue largeReject.toValue = .ok largeReject ∧
      (runFrontier (.text "") largeReject.oracle .absent).result =
        .ok ⟨.rejected, 1, .after 0,
          [.malformed ⟨.after 0, (0 : Nat)⟩ (.next (.number (9007199254740992 : Nat)))]⟩ := by
  refine ⟨?_, ?_⟩ <;> rfl

end Definition

end OracleNFA
