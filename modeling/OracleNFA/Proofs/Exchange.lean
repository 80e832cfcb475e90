/-
  OracleNFA.Proofs.Exchange
  ─────────────────────────
  **THE ORDER OF TWO BRANCHES.**

  An answer may name two successors, and an oracle may answer some of its queries
  with the two exchanged (`Oracle.Exchanges`).  What is read from such an answer is
  the same set of successors (`answer_exchanged`), so

      a simulation does not notice: attempts on both oracles correspond, with no
      symbols between them, and go in lockstep;

      a path search follows the branches in the order in which they are named and
      asks its queries in another order, but over the same graph (`edge_asking`),
      and a rejection depends on the graph alone.
-/
import OracleNFA.Proofs.Agreement
import OracleNFA.Proofs.Contract
import OracleNFA.Proofs.Correspondence

namespace OracleNFA

/-! ## §1. Exchanged answers. -/

/-- The same answer, enabled, with its two successors exchanged. -/
def Value.Exchanged (raw raw' : Value) : Prop :=
  ∃ fields fields', raw = .object fields ∧ raw' = .object fields' ∧
    lookup "enabled" fields = .bool true ∧ lookup "enabled" fields' = .bool true ∧
    lookup "consumed" fields' = lookup "consumed" fields ∧
    lookup "nextState" fields' = lookup "secondState" fields ∧
    lookup "secondState" fields' = lookup "nextState" fields

/-- An oracle declares what the other one declares, and answers each query as the
other one does or with the same answer exchanged. -/
structure Oracle.Exchanges (o other : Oracle) : Prop where
  sentinels : other.sentinels = o.sentinels
  answer : ∀ q, other.answer q = o.answer q ∨
    ∃ raw raw', o.answer q = .ok raw ∧ other.answer q = .ok raw' ∧ raw.Exchanged raw'

theorem Value.Exchanged.symm {raw raw' : Value} (h : raw.Exchanged raw') : raw'.Exchanged raw := by
  obtain ⟨fields, fields', hraw, hraw', henabled, henabled', hconsumed, hnext, hsecond⟩ := h
  exact ⟨fields', fields, hraw', hraw, henabled', henabled, hconsumed.symm, hsecond.symm,
    hnext.symm⟩

theorem Oracle.Exchanges.symm {o other : Oracle} (h : o.Exchanges other) : other.Exchanges o where
  sentinels := h.sentinels.symm
  answer := by
    intro q
    rcases h.answer q with hsame | ⟨raw, raw', hraw, hraw', hexchanged⟩
    · exact .inl hsame.symm
    · exact .inr ⟨raw', raw, hraw', hraw, hexchanged.symm⟩

namespace Response

variable {ids : Numbering} {raw raw' : Value}

/-- The shape of an exchanged answer is the exchanged shape. -/
theorem check_exchanged {shape : Shape} (h : raw.Exchanged raw')
    (hshape : (check raw).result = .ok shape) :
    shape.enabled = true ∧
      (check raw').result = .ok { shape with next := shape.branch, branch := shape.next } := by
  obtain ⟨_, fields', rfl, rfl, henabled, henabled', hconsumed, hnext, hsecond⟩ := h
  obtain ⟨fields, hfields, hnext', hbranch', hconsumed', henabled''⟩ := result_check_eq_ok.1 hshape
  obtain rfl := Value.object.inj hfields
  have hon : shape.enabled = true := (Value.bool.inj (henabled.symm.trans henabled'')).symm
  -- What the one answer has as its next state the other one has as its branch.
  refine ⟨hon, result_check_eq_ok.2 ⟨fields', rfl, ?_, ?_, ?_, ?_⟩⟩
  · exact hbranch'.trans hnext.symm
  · exact hnext'.trans hsecond.symm
  · exact hconsumed.trans hconsumed'
  · exact henabled'.trans (congrArg Value.bool hon.symm)

/-- **What is read from an exchanged answer**: as much is consumed, and the same
successors are named. -/
theorem decode_exchanged (h : raw.Exchanged raw') {d : Decoded} (hd : decode ids raw = .ok d) :
    ∃ d', decode ids raw' = .ok d' ∧ d'.consumes = d.consumes ∧
      ∀ s, s ∈ d'.successors ↔ s ∈ d.successors := by
  unfold decode at hd ⊢
  cases hshape : (check raw).result with
  | error issues => simp [hshape] at hd
  | ok shape =>
      rw [hshape] at hd
      obtain rfl := Except.ok.inj hd
      obtain ⟨henabled, hshape'⟩ := check_exchanged h hshape
      rw [hshape']
      refine ⟨_, rfl, rfl, fun s => ?_⟩
      simp only [mem_states, judged, henabled, if_true, List.mem_cons, List.not_mem_nil, or_false,
        eq_comm (a := Except.ok s), judge_eq_ok]
      exact or_comm

end Response

namespace Attempt

variable {a b : Attempt} {raw raw' : Value} {other : Oracle}

/-- **An exchanged answer brings the same.** -/
theorem answer_exchanged (h : raw.Exchanged raw') (n : Nat) (s : StateId) :
    (a.read ⟨.after n, s⟩ raw).answer.Alike 0 (a.read ⟨.after n, s⟩ raw').answer := by
  rw [read_answer, read_answer]
  cases hd : Response.decode a.ids raw with
  | error issues =>
      cases hd' : Response.decode a.ids raw' with
      | error issues' => exact ⟨⟨n, rfl, rfl⟩, fun _ => Iff.rfl⟩
      | ok d' =>
          obtain ⟨d, hdecode, _⟩ := Response.decode_exchanged h.symm hd'
          exact absurd (hd.symm.trans hdecode) (by simp)
  | ok d =>
      obtain ⟨d', hd', hconsumes, hsame⟩ := Response.decode_exchanged h hd
      have hlive : ∀ t, t ∈ d.successors.filter (· ≠ (a.ids.reject : StateId)) ↔
          t ∈ d'.successors.filter (· ≠ (a.ids.reject : StateId)) := by
        intro t
        rw [List.mem_filter, List.mem_filter, hsame]
      rw [hd']
      dsimp only
      rw [hconsumes]
      -- A symbol consumed behind the end leaves neither answer a successor.
      by_cases hconsuming : d.consumes = true
      · rw [if_pos hconsuming, if_pos hconsuming]
        by_cases inside : n < a.length
        · rw [if_pos inside, if_pos inside]
          exact ⟨⟨n + 1, rfl, rfl⟩, hlive⟩
        · rw [if_neg inside, if_neg inside]
          exact ⟨⟨n + 1, rfl, rfl⟩, fun _ => Iff.rfl⟩
      · rw [if_neg hconsuming, if_neg hconsuming]
        exact ⟨⟨n, rfl, rfl⟩, hlive⟩

/-! ## §2. Attempts on exchanged oracles. -/

/-- **An attempt corresponds to the one that asks the exchanged oracle**, position by
position. -/
theorem corresponds_asking (h : a.oracle.Exchanges other) :
    Corresponds 0 id a (a.asking other) where
  ids := rfl
  budget := rfl
  length := rfl
  moves := fun _ _ => rfl
  answered := by
    intro n s raw hraw
    show ∃ raw', other.answer (a.query ⟨.after n, s⟩) = .ok raw' ∧ _
    rcases h.answer (a.query ⟨.after n, s⟩) with hsame | ⟨raw₁, raw', hraw₁, hraw', hexchanged⟩
    · refine ⟨raw, hsame.trans hraw, ?_, fun _ => Iff.rfl⟩
      exact (read_position a n s raw).elim (fun hn => ⟨n, hn, hn⟩) fun hn => ⟨n + 1, hn, hn⟩
    · obtain rfl : raw₁ = raw := Except.ok.inj (hraw₁.symm.trans hraw)
      exact ⟨raw', hraw', answer_exchanged hexchanged n s⟩
  failed := by
    intro n s failure hfailure
    show other.answer (a.query ⟨.after n, s⟩) = .error failure
    rcases h.answer (a.query ⟨.after n, s⟩) with hsame | ⟨raw, _, hraw, _⟩
    · exact hsame.trans hfailure
    · exact absurd (hraw.symm.trans hfailure) (by simp)

/-- What corresponds at the same positions spans the same graph. -/
theorem Corresponds.edge {σ : Site → Site} {u v : Site} (h : Corresponds 0 σ a b)
    (hedge : a.Edge u v) : b.Edge u v := by
  -- Whether the edge stays or crosses, there is an answer that it was read off.
  have hanswered : ∃ n s raw, u = ⟨.after n, s⟩ ∧ s ≠ a.ids.accept ∧
      a.oracle.answer (a.query ⟨.after n, s⟩) = .ok raw := by
    cases hedge with
    | stays live answered => exact ⟨_, _, _, rfl, live, answered⟩
    | crosses live answered => exact ⟨_, _, _, rfl, live, answered⟩
  obtain ⟨n, s, raw, rfl, hlive, hraw⟩ := hanswered
  obtain ⟨raw', hraw', ⟨m, hposition, hposition'⟩, hsame⟩ := h.answered n s raw hraw
  have hlive' : s ≠ b.ids.accept := by
    rw [h.ids]
    exact hlive
  rw [edge_iff_of_answer hlive hraw, hposition, hsame] at hedge
  exact (edge_iff_of_answer hlive' hraw').2 ⟨hedge.1.trans hposition'.symm, hedge.2⟩

theorem edge_asking (h : a.oracle.Exchanges other) : (a.asking other).Edge = a.Edge := by
  have hback : Corresponds 0 id (a.asking other) a :=
    @corresponds_asking (a.asking other) a.oracle h.symm
  funext u v
  exact propext ⟨hback.edge, (corresponds_asking h).edge⟩

theorem reaches_asking (h : a.oracle.Exchanges other) : (a.asking other).Reaches = a.Reaches := by
  unfold Reaches
  rw [edge_asking h]

/-- **Simulations on exchanged oracles are in lockstep**, and end alike. -/
theorem lockstep_asking (h : a.oracle.Exchanges other) (start : Nat) (anchored : Bool) :
    a.Lockstep (a.asking other) id Eq (Exploration.simulate a.ids a.length (.after start) anchored)
      (Exploration.simulate a.ids a.length (.after start) anchored) := by
  refine ((corresponds_asking h).lockstep_simulate start anchored).mono fun e e' halike => ?_
  obtain ⟨verdict, position⟩ := e
  obtain ⟨verdict', position'⟩ := e'
  obtain ⟨rfl, n, rfl, rfl⟩ := halike
  rfl

/-- **Path searches on exchanged oracles reject together**: the sites to ask about are
the same. -/
theorem rejected_asking (h : a.oracle.Exchanges other) {e f : Ending} {i j : Inquiry}
    (hi : a.Explored (a.entry 0) true (.ok e) i) (hgi : a.Grants i)
    (hj : (a.asking other).Explored (a.entry 0) true (.ok f) j) (hgj : (a.asking other).Grants j) :
    (e.verdict = .rejected ↔ f.verdict = .rejected) ∧
      (e.verdict = .rejected → i.asked.Perm j.asked ∧ f.position = e.position) := by
  -- A rejection depends on the graph from the start on, and both have one.
  have hreaches := reaches_asking h
  have hworkload : (a.asking other).workload = a.workload := by
    unfold workload
    rw [hreaches]
    rfl
  have hfurthest : ∀ n, a.Furthest (a.entry 0) n → (a.asking other).Furthest (a.entry 0) n := by
    intro n hn
    exact ⟨hreaches ▸ hn.reached, hreaches ▸ hn.le⟩
  have hexit : (a.asking other).Reaches (a.entry 0) (a.exit a.length) ↔
      a.Reaches (a.entry 0) (a.exit a.length) := by rw [hreaches]
  obtain ⟨hverdict, halike⟩ := hi.rejected_alike hgi hj hgj rfl hexit
    (congrArg Set.ncard hworkload) hfurthest
  refine ⟨hverdict, fun hrejected => ⟨?_, (halike hrejected).2⟩⟩
  obtain ⟨_, _, hend⟩ := hi.of_rejected hrejected
  obtain ⟨_, _, hend'⟩ := hj.of_rejected (hverdict.1 hrejected)
  refine (List.perm_ext_iff_of_nodup hi.1.nodup_asked hj.1.nodup_asked).2 fun u => ?_
  rw [hend.mem_asked_iff hi.1, hend'.mem_asked_iff hj.1, hworkload]

end Attempt

/-! ## §3. Runs and searches. -/

variable {oracle other : Oracle}

theorem Search.tryAt_exchanged (h : oracle.Exchanges other) (symbols : Array Symbol)
    (maxCycles : Value) (k : Nat) :
    (tryAt symbols oracle maxCycles k).Agrees (tryAt symbols other maxCycles k) := by
  refine tryAt_congr Report.agrees_congruence
    (Attempt.ofSymbols_asking h.sentinels symbols maxCycles) fun a ha => ?_
  obtain ⟨ids, b, _, _, rfl⟩ := Attempt.ofSymbols_eq_ok.1 ha
  exact matchAt_agrees rfl (fun _ => rfl) (Attempt.lockstep_asking h k false)

/-- Path searches on exchanged oracles do not come to opposite verdicts. -/
theorem never_opposed (h : oracle.Exchanges other) {input : Input} {maxCycles : Value}
    {o o' : Outcome}
    (ho : (runPath input oracle maxCycles).result = .ok o)
    (ho' : (runPath input other maxCycles).result = .ok o') :
    ¬ (o.verdict = .accepted ∧ o'.verdict = .rejected) := by
  rintro ⟨haccepted, hrejected⟩
  obtain ⟨a, e, i, ha, hi, _, rfl⟩ := explored_of_returned ho
  obtain ⟨b, f, j, hb, hj, _, rfl⟩ := explored_of_returned ho'
  rw [Attempt.ofInput_asking h.sentinels, ha] at hb
  obtain rfl : a.asking other = b := Except.ok.inj hb
  rw [← (Attempt.of_ofInput ha).1] at h
  -- The accepting state is reached on the one graph and not on the other one.
  obtain ⟨_, _, hend⟩ := hj.of_rejected hrejected
  have hunreached := hend.not_reaches
  rw [Attempt.reaches_asking h] at hunreached
  exact hunreached (hi.of_accepted haccepted)

/-- **The order of two branches is invisible to a simulation, and a path search rejects
whatever the order.**  Exchange the two successors in any of an oracle's answers.
A simulation and both searches ask the same queries, in the same order, and come to
the same verdict, count, position and spans, or fail at the same query.  Path searches
never accept and reject; and if the oracle answers every query, either both have the
same fault to find with the arguments, or both return and they reject together, after
the same queries in some order and equally far. -/
theorem branch_order_invisible (h : oracle.Exchanges other) (input : Input) (maxCycles : Value) :
    ((runFrontier input other maxCycles).queries = (runFrontier input oracle maxCycles).queries ∧
      (runFrontier input other maxCycles).result.map Outcome.finding =
        (runFrontier input oracle maxCycles).result.map Outcome.finding) ∧
      (findFirst input oracle maxCycles).Agrees (findFirst input other maxCycles) ∧
      (findAll input oracle maxCycles).Agrees (findAll input other maxCycles) ∧
      (∀ o o', (runPath input oracle maxCycles).result = .ok o →
        (runPath input other maxCycles).result = .ok o' →
        ¬ (o.verdict = .accepted ∧ o'.verdict = .rejected) ∧
          ¬ (o.verdict = .rejected ∧ o'.verdict = .accepted)) ∧
      ((∀ q, ∃ raw, oracle.answer q = .ok raw) →
        match Attempt.ofInput input oracle maxCycles with
        | .error e => (runPath input oracle maxCycles).result = .error (.config e) ∧
            (runPath input other maxCycles).result = .error (.config e)
        | .ok _ => ∃ o o', (runPath input oracle maxCycles).result = .ok o ∧
            (runPath input other maxCycles).result = .ok o' ∧
            (o.verdict = .rejected ↔ o'.verdict = .rejected) ∧
            (o.verdict = .rejected → o'.queries = o.queries ∧ o'.position = o.position ∧
              (runPath input oracle maxCycles).queries.Perm
                (runPath input other maxCycles).queries)) := by
  refine ⟨?frontier, ?first, ?all, fun o o' ho ho' => ?opposed, fun hanswers => ?rejected⟩
  case frontier =>
    unfold runFrontier
    rw [runStrategy_eq, runStrategy_eq, Attempt.ofInput_asking h.sentinels]
    cases ha : Attempt.ofInput input oracle maxCycles with
    | error e => exact ⟨rfl, rfl⟩
    | ok a =>
        rw [← (Attempt.of_ofInput ha).1] at h
        exact Attempt.evaluate_alike_of_lockstep rfl (fun _ => rfl)
          (Attempt.lockstep_asking h 0 true)
  case first => exact findFirst_agrees (fun _ => Search.tryAt_exchanged h _ maxCycles) input
  case all => exact findAll_agrees (fun _ => Search.tryAt_exchanged h _ maxCycles) input
  case opposed =>
    exact ⟨never_opposed h ho ho', fun hrejected => never_opposed h.symm ho' ho hrejected.symm⟩
  case rejected =>
    have hanswers' : ∀ q, ∃ raw, other.answer q = .ok raw := by
      intro q
      rcases h.answer q with hsame | ⟨_, raw', _, hraw', _⟩
      · rw [hsame]
        exact hanswers q
      · exact ⟨raw', hraw'⟩
    unfold runPath
    rw [runStrategy_eq, runStrategy_eq, Attempt.ofInput_asking h.sentinels]
    cases ha : Attempt.ofInput input oracle maxCycles with
    | error e => exact ⟨rfl, rfl⟩
    | ok a =>
        have hdistinct := start_ne_accept ha
        rw [← (Attempt.of_ofInput ha).1] at h hanswers
        obtain ⟨e, i, hi, hgi, hqueries, hresult⟩ :=
          Attempt.evaluate_answered hdistinct hanswers .path
        obtain ⟨f, j, hj, hgj, hqueries', hresult'⟩ :=
          Attempt.evaluate_answered (a := a.asking other) hdistinct hanswers' .path
        obtain ⟨hverdict, halike⟩ := Attempt.rejected_asking h hi hgi hj hgj
        refine ⟨_, _, hresult, hresult', hverdict, fun hrejected => ?_⟩
        obtain ⟨hperm, hposition⟩ := halike hrejected
        refine ⟨hperm.length_eq.symm, hposition, ?_⟩
        show (a.evaluate .path).queries.Perm ((a.asking other).evaluate .path).queries
        rw [hqueries, hqueries']
        exact hperm.map a.query

/-- An oracle that goes two ways at the start without reading a symbol.  One of them
accepts one symbol and the other one is dead. -/
def branching (next branch : Nat) : Oracle where
  sentinels := Sentinels.toValue ⟨0, 1, 2, none, none⟩
  answer := fun q => .ok (Transition.toValue
    (if q.state = (0 : Nat) then ⟨next, some branch, false⟩
      else if q.state = (3 : Nat) then ⟨1, none, true⟩ else ⟨2, none, false⟩))

/-- The path search asks one query more if it takes the dead branch first. -/
theorem branch_order_invisible_branching :
    (branching 3 4).Exchanges (branching 4 3) ∧
      (∀ q, ∃ raw, (branching 3 4).answer q = .ok raw) ∧
      (runFrontier (.text "a") (branching 4 3) .absent).queries =
        (runFrontier (.text "a") (branching 3 4) .absent).queries ∧
      ((runPath (.text "a") (branching 3 4) .absent).queries.length = 3 ∧
        (runPath (.text "a") (branching 4 3) .absent).queries.length = 2) ∧
      ∃ o, (runPath (.text "") (branching 4 3) .absent).result = .ok o ∧ o.verdict = .rejected ∧
        o.queries = 3 ∧ o.position = .after 0 := by
  have hexchanges : (branching 3 4).Exchanges (branching 4 3) := by
    refine ⟨rfl, fun q => ?_⟩
    by_cases hstart : q.state = (0 : Nat)
    · refine .inr ⟨Transition.toValue ⟨3, some 4, false⟩, Transition.toValue ⟨4, some 3, false⟩,
        ?_, ?_, _, _, rfl, rfl, rfl, rfl, rfl, rfl, rfl⟩
      · simp [branching, hstart]
      · simp [branching, hstart]
    · left
      simp [branching, hstart]
  have hanswers : ∀ q, ∃ raw, (branching 3 4).answer q = .ok raw := fun _ => ⟨_, rfl⟩
  obtain ⟨⟨hqueries, _⟩, _⟩ := branch_order_invisible hexchanges (.text "a") .absent
  obtain ⟨_, _, _, _, hrejects⟩ := branch_order_invisible hexchanges (.text "") .absent
  obtain ⟨o, o', ho, ho', hverdict, halike⟩ := hrejects hanswers
  obtain rfl : _ = o := Except.ok.inj ho
  obtain ⟨hcount, hposition, _⟩ := halike rfl
  exact ⟨hexchanges, hanswers, hqueries, ⟨rfl, rfl⟩, o', ho', hverdict.1 rfl, hcount, hposition⟩

end OracleNFA
