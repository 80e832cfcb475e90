/-
  OracleNFA.Proofs.Mending
  ────────────────────────
  **A MALFORMED ANSWER IS A REJECTION.**

  Every fault of an answer can be mended (`Value.mended`): an answer that is no
  transition becomes the one to the dead state, and a successor that is no state
  becomes the dead state.  Nothing leads to the dead state, so mending adds no
  successor, and whether the symbol is consumed stays as it was:

      decode_mended — what is read from a mended answer
      read_mended   — the same successors live at the same position
      lockstep_self — an exploration goes in lockstep with itself on two oracles
                      that are read alike

  So a run on the mended oracle asks the same and comes to the same, and has no
  answer to complain about unless the dead state itself is too large to be read.
-/
import OracleNFA.Proofs.Agreement
import OracleNFA.Proofs.Contract
import OracleNFA.Proofs.Discipline

namespace OracleNFA

/-! ## §1. Mending answers. -/

/-- The transition to the dead state, as an oracle answers it. -/
def Numbering.rejection (ids : Numbering) : Value :=
  Transition.toValue ⟨ids.reject, none, false⟩

namespace Value

/-- A successor as it is if it is a state, and else the dead state. -/
def mendedId (ids : Numbering) (v : Value) : Value :=
  match ids.validId? v with
  | some _ => v
  | none => .number (.ofNat ids.reject)

/-- The fields of an answer with the successor under a key mended. -/
def mendedField (ids : Numbering) (key : Text) (fields : List (Text × Value)) :
    List (Text × Value) :=
  put key ((lookup key fields).mendedId ids) fields

/-- An answer without a fault.  The second successor counts where the answer says
that there is one. -/
def mended (ids : Numbering) : Value → Value
  | .object fields =>
      match lookup "consumed" fields, lookup "enabled" fields with
      | .bool _, .bool true =>
          .object (mendedField ids "secondState" (mendedField ids "nextState" fields))
      | .bool _, .bool false => .object (mendedField ids "nextState" fields)
      | _, _ => ids.rejection
  | _ => ids.rejection

@[simp] theorem lookup_put (key : Text) (v : Value) (fields : List (Text × Value)) :
    lookup key (put key v fields) = v := by
  induction fields with
  | nil => simp [put, lookup]
  | cons field rest ih =>
      obtain ⟨k, w⟩ := field
      by_cases hk : k = key
      · simp [put, lookup, hk]
      · simp [put, lookup, hk, ih]

theorem lookup_put_of_ne {key other : Text} (h : other ≠ key) (v : Value)
    (fields : List (Text × Value)) : lookup other (put key v fields) = lookup other fields := by
  induction fields with
  | nil => simp [put, lookup, h.symm]
  | cons field rest ih =>
      obtain ⟨k, w⟩ := field
      by_cases hk : k = key
      · simp [put, lookup, hk, h.symm]
      · simp [put, lookup, hk, ih]

end Value

namespace Numbering

variable {ids : Numbering}

theorem validId?_mendedId (hreject : ids.Admits ids.reject) (v : Value) :
    ∃ s, ids.validId? (v.mendedId ids) = some s := by
  unfold Value.mendedId
  cases hv : ids.validId? v with
  | some s => exact ⟨s, hv⟩
  | none =>
      refine Option.ne_none_iff_exists'.1 fun hnone => ?_
      exact (validId?_ofNat ids ids.reject).1 hnone hreject

end Numbering

theorem Numbering.admits_reject {v : Value} {ids : Numbering} (h : ofValue v = .ok ids)
    (hsafe : ids.reject ≤ Number.maxSafe) : ids.Admits ids.reject :=
  admits_reserved h (by simp) hsafe

/-- The successors of an answer that was read but for the dead state. -/
def Decoded.live (ids : Numbering) (d : Decoded) : List StateId :=
  d.successors.filter (· ≠ (ids.reject : StateId))

namespace Response

variable {ids : Numbering} {raw : Value} {shape : Shape}

/-- The shape of an answer with the successors that count mended. -/
def Shape.mended (ids : Numbering) (shape : Shape) : Shape :=
  { shape with
    next := shape.next.mendedId ids
    branch := if shape.enabled then shape.branch.mendedId ids else shape.branch }

/-- An answer that is a transition stays one. -/
theorem result_check_mended (h : (check raw).result = .ok shape) :
    (check (raw.mended ids)).result = .ok (shape.mended ids) := by
  obtain ⟨fields, rfl, hnext, hbranch, hconsumed, henabled⟩ := result_check_eq_ok.1 h
  obtain ⟨next, branch, consumed, enabled⟩ := shape
  dsimp only at hnext hbranch hconsumed henabled
  subst hnext hbranch
  -- Mending a successor leaves the other fields as they are.
  have hother : ∀ {key other : Text}, other ≠ key → ∀ fields,
      Value.lookup other (Value.mendedField ids key fields) = Value.lookup other fields :=
    fun hne fields => Value.lookup_put_of_ne hne _ fields
  have hsame : ∀ key fields, Value.lookup key (Value.mendedField ids key fields) =
      (Value.lookup key fields).mendedId ids := fun key fields => Value.lookup_put key _ fields
  refine result_check_eq_ok.2 ?_
  simp only [Value.mended, hconsumed, henabled]
  cases enabled with
  | false =>
      refine ⟨_, rfl, (hsame _ _).symm, (hother (by decide) _).symm, ?_, ?_⟩
      · rw [hother (by decide)]
        exact hconsumed
      · rw [hother (by decide)]
        exact henabled
  | true =>
      refine ⟨_, rfl, ?_, ?_, ?_, ?_⟩
      · rw [hother (by decide), hsame]
        rfl
      · rw [hsame, hother (by decide)]
        rfl
      · rw [hother (by decide), hother (by decide)]
        exact hconsumed
      · rw [hother (by decide), hother (by decide)]
        exact henabled

/-- An answer that is none becomes the rejection. -/
theorem mended_of_check_error {issues : List Issue} (h : (check raw).result = .error issues) :
    raw.mended ids = ids.rejection := by
  have hnone : ∀ shape, (check raw).result ≠ .ok shape := by simp [h]
  unfold Value.mended
  split
  · next fields =>
      split
      · next consumed hconsumed henabled =>
          exact absurd (result_check_eq_ok.2 ⟨fields, rfl, rfl, rfl, hconsumed, henabled⟩)
            (hnone ⟨_, _, consumed, true⟩)
      · next consumed hconsumed henabled =>
          exact absurd (result_check_eq_ok.2 ⟨fields, rfl, rfl, rfl, hconsumed, henabled⟩)
            (hnone ⟨_, _, consumed, false⟩)
      · rfl
  · rfl

/-- Mending a successor adds none but the dead state, -/
theorem live_mendedId (problem : Value → Problem) (v : Value)
    (rest rest' : List (Except Problem StateId))
    (hrest : (states rest').filter (· ≠ (ids.reject : StateId)) =
      (states rest).filter (· ≠ (ids.reject : StateId))) :
    (states (judge ids problem (v.mendedId ids) :: rest')).filter (· ≠ (ids.reject : StateId)) =
      (states (judge ids problem v :: rest)).filter (· ≠ (ids.reject : StateId)) := by
  unfold judge Value.mendedId
  cases hv : ids.validId? v with
  | some s => simp only [hv, states, List.filter_cons, hrest]
  | none =>
      dsimp only
      cases hreject : ids.validId? (.number (.ofNat ids.reject)) with
      | none => exact hrest
      | some s =>
          obtain rfl := Numbering.eq_ofNat_of_validId? hreject
          simp only [states, ne_eq, not_true_eq_false, decide_false, List.filter_cons_of_neg,
            Bool.false_eq_true, not_false_eq_true]
          exact hrest

/-- and no problem where the dead state is one that may be named. -/
theorem problems_mendedId (hreject : ids.Admits ids.reject) (problem : Value → Problem) (v : Value)
    (rest : List (Except Problem StateId)) :
    problems (judge ids problem (v.mendedId ids) :: rest) = problems rest := by
  obtain ⟨s, hs⟩ := Numbering.validId?_mendedId hreject v
  unfold judge
  rw [hs]
  rfl

/-- **What is read from a mended answer.**  It consumes a symbol if the answer did,
and has the same live successors; where the answer was none there are none. -/
theorem decode_mended (ids : Numbering) (raw : Value) :
    ∃ d, decode ids (raw.mended ids) = .ok d ∧ (ids.Admits ids.reject → d.problems = []) ∧
      match decode ids raw with
      | .ok d' => d.consumes = d'.consumes ∧ d.live ids = d'.live ids
      | .error _ => d.consumes = false ∧ d.live ids = [] := by
  unfold decode
  cases hraw : (check raw).result with
  | error issues =>
      -- The rejection is what mending makes of an answer that names nothing.
      rw [mended_of_check_error hraw]
      refine ⟨⟨false, states [judge ids .next (Value.mendedId ids .absent)],
        problems [judge ids .next (Value.mendedId ids .absent)]⟩, rfl, fun hreject => ?_, rfl, ?_⟩
      · exact problems_mendedId hreject _ _ _
      · exact live_mendedId _ _ [] [] rfl
  | ok shape =>
      rw [result_check_mended hraw]
      refine ⟨_, rfl, fun hreject => ?_, rfl, ?_⟩
      · show problems (judge ids .next (shape.next.mendedId ids) :: _) = []
        rw [problems_mendedId hreject]
        cases henabled : shape.enabled with
        | false => simp [Shape.mended, henabled, problems]
        | true =>
            simp only [Shape.mended, henabled, if_true]
            exact problems_mendedId hreject _ _ _
      · refine live_mendedId _ _ _ _ ?_
        cases henabled : shape.enabled with
        | false => simp [Shape.mended, henabled]
        | true =>
            simp only [Shape.mended, henabled, if_true]
            exact live_mendedId _ _ [] [] rfl

end Response

/-- An oracle with its answers mended.  Sentinels that are not sound name no dead
state, and an oracle that declares such is never asked. -/
def Oracle.mended (o : Oracle) : Oracle where
  sentinels := o.sentinels
  answer := fun q =>
    match Numbering.ofValue o.sentinels with
    | .ok ids => (o.answer q).map (Value.mended ids)
    | .error _ => o.answer q

theorem Oracle.answer_mended {o : Oracle} {ids : Numbering}
    (hids : Numbering.ofValue o.sentinels = .ok ids) (q : Query) :
    o.mended.answer q = (o.answer q).map (Value.mended ids) := by
  unfold mended
  rw [hids]

/-! ## §2. Oracles that are read alike. -/

namespace Attempt

variable {α : Type} {a b : Attempt}

/-- An attempt on the same input under the same budget, whose oracle fails where the
other one fails and answers what amounts to the same. -/
structure ReadAlike (a b : Attempt) : Prop where
  input : b.input = a.input
  budget : b.budget = a.budget
  ids : b.ids = a.ids
  answered : ∀ u raw, a.oracle.answer (a.query u) = .ok raw →
    ∃ raw', b.oracle.answer (b.query u) = .ok raw' ∧ (b.read u raw').answer = (a.read u raw).answer
  failed : ∀ u failure, a.oracle.answer (a.query u) = .error failure →
    b.oracle.answer (b.query u) = .error failure

theorem ReadAlike.query (h : ReadAlike a b) (u : Site) : b.query u = a.query u := by
  unfold Attempt.query
  rw [h.input, h.ids]

/-- **An exploration goes in lockstep with itself.** -/
theorem ReadAlike.lockstep_self (h : ReadAlike a b) (x : Exploration α) :
    a.Lockstep b id Eq x x := by
  -- Both trees are the same one, so the answers have to agree and nothing else.
  induction x with
  | done r => exact .done rfl
  | note event rest ih => exact .note ih
  | ask site next ih =>
      cases hraw : a.oracle.answer (a.query site) with
      | error failure => exact .failed (σ := id) (ih none) hraw (h.failed site failure hraw)
      | ok raw =>
          obtain ⟨raw', hraw', hread⟩ := h.answered site raw hraw
          refine .answered (σ := id) (ih none) hraw hraw' ?_
          rw [show b.read (id site) raw' = b.read site raw' from rfl, hread]
          exact ih _

/-- The attempt on the mended oracle. -/
def mended (a : Attempt) : Attempt :=
  { a with oracle := a.oracle.mended }

/-- **The same successors live at the same position.** -/
theorem read_mended (a : Attempt) (u : Site) (raw : Value) :
    (a.mended.read u (raw.mended a.ids)).answer = (a.read u raw).answer := by
  obtain ⟨d, hdecode, _, hsame⟩ := Response.decode_mended a.ids raw
  unfold read
  rw [show Response.decode a.mended.ids (raw.mended a.ids) = .ok d from hdecode]
  cases hraw : Response.decode a.ids raw with
  | error issues =>
      rw [hraw] at hsame
      obtain ⟨hconsumes, hlive⟩ := hsame
      dsimp only
      rw [if_neg (by simp [hconsumes]), hconsumes]
      exact congrArg (Answer.mk u.position) hlive
  | ok d' =>
      rw [hraw] at hsame
      obtain ⟨hconsumes, hlive⟩ := hsame
      have hlive : d.successors.filter (· ≠ (a.mended.ids.reject : StateId)) =
          d'.successors.filter (· ≠ (a.ids.reject : StateId)) := hlive
      dsimp only
      -- Whether the symbol is consumed decides between the branches of `read`.
      rw [hconsumes, hlive, show a.mended.length = a.length from rfl]
      by_cases hfell : d'.consumes ∧ u.position.reaches a.length
      · rw [if_pos hfell, if_pos hfell]
      · rw [if_neg hfell, if_neg hfell]

theorem readAlike_mended (hids : Numbering.ofValue a.oracle.sentinels = .ok a.ids) :
    ReadAlike a a.mended where
  input := rfl
  budget := rfl
  ids := rfl
  answered := by
    intro u raw hraw
    refine ⟨raw.mended a.ids, ?_, a.read_mended u raw⟩
    exact (Oracle.answer_mended hids _).trans (congrArg (Except.map _) hraw)
  failed := by
    intro u failure hfailure
    exact (Oracle.answer_mended hids _).trans (congrArg (Except.map _) hfailure)

/-- An answer that was mended is no fault where the dead state may be named. -/
theorem faults_mended (hids : Numbering.ofValue a.oracle.sentinels = .ok a.ids)
    (hreject : a.ids.Admits a.ids.reject) (u : Site) : a.mended.faults u = [] := by
  unfold faults
  rw [show a.mended.oracle.answer (a.mended.query u) =
    (a.oracle.answer (a.query u)).map (Value.mended a.ids) from Oracle.answer_mended hids _]
  cases a.oracle.answer (a.query u) with
  | error failure => rfl
  | ok raw =>
      obtain ⟨d, hdecode, hproblems, _⟩ := Response.decode_mended a.ids raw
      have hread : (a.mended.read u (raw.mended a.ids)).problems = d.problems :=
        read_problems hdecode
      exact List.map_eq_nil_iff.2 (hread.trans (hproblems hreject))

/-- Attempts on an oracle and on the mended one are made of the same arguments. -/
theorem ofSymbols_mended (symbols : Array Symbol) (oracle : Oracle) (maxCycles : Value) :
    ofSymbols symbols oracle.mended maxCycles =
      (ofSymbols symbols oracle maxCycles).map mended := by
  have hsentinels : oracle.mended.sentinels = oracle.sentinels := rfl
  rw [ofSymbols_asking hsentinels]
  cases ha : ofSymbols symbols oracle maxCycles with
  | error e => rfl
  | ok a =>
      obtain ⟨_, _, _, _, rfl⟩ := ofSymbols_eq_ok.1 ha
      rfl

theorem ofInput_mended (input : Input) (oracle : Oracle) (maxCycles : Value) :
    ofInput input oracle.mended maxCycles = (ofInput input oracle maxCycles).map mended :=
  ofInput_map (fun symbols => ofSymbols_mended symbols oracle maxCycles) input

end Attempt

/-! ## §3. Runs and searches. -/

namespace Attempt

variable {a b : Attempt}

theorem ReadAlike.length (h : ReadAlike a b) : b.length = a.length :=
  congrArg Array.size h.input

theorem ReadAlike.evaluate_alike (h : ReadAlike a b) (s : Strategy) :
    (b.evaluate s).queries = (a.evaluate s).queries ∧
      (b.evaluate s).result.map Outcome.finding = (a.evaluate s).result.map Outcome.finding := by
  refine evaluate_alike_of_lockstep h.budget h.query ?_
  rw [h.ids, h.length]
  exact h.lockstep_self _

end Attempt

theorem Attempt.ReadAlike.matchAt_agrees {a b : Attempt} (h : ReadAlike a b) (start : Nat) :
    (Search.matchAt a start).Agrees (Search.matchAt b start) := by
  refine Search.matchAt_agrees h.budget h.query ?_
  rw [h.ids, h.length]
  exact h.lockstep_self _

theorem Search.tryAt_agrees (symbols : Array Symbol) (oracle : Oracle) (maxCycles : Value)
    (k : Nat) :
    (tryAt symbols oracle maxCycles k).Agrees (tryAt symbols oracle.mended maxCycles k) := by
  refine tryAt_congr Report.agrees_congruence (Attempt.ofSymbols_mended symbols oracle maxCycles)
    fun a ha => ?_
  obtain ⟨ids, b, hids, _, rfl⟩ := Attempt.ofSymbols_eq_ok.1 ha
  exact (Attempt.readAlike_mended hids).matchAt_agrees k

/-- **A malformed answer is a rejection.**  Mend every answer of an oracle: what is no
transition becomes the one to the dead state, and a successor that is no state the
dead state.  Runs and searches on the mended oracle issue the same queries and come
to the same verdict, count, position and spans, or fail alike; and where the dead
state is one that is exact, no outcome on the mended oracle blames an answer. -/
theorem malformed_means_reject (input : Input) (oracle : Oracle) (maxCycles : Value) :
    (∀ s, (runStrategy s input oracle.mended maxCycles).queries =
          (runStrategy s input oracle maxCycles).queries ∧
        (runStrategy s input oracle.mended maxCycles).result.map Outcome.finding =
          (runStrategy s input oracle maxCycles).result.map Outcome.finding) ∧
      (findFirst input oracle maxCycles).Agrees (findFirst input oracle.mended maxCycles) ∧
      (findAll input oracle maxCycles).Agrees (findAll input oracle.mended maxCycles) ∧
      ∀ ids, Numbering.ofValue oracle.sentinels = .ok ids → ids.reject ≤ Number.maxSafe →
        ∀ s o, (runStrategy s input oracle.mended maxCycles).result = .ok o →
          ¬ ∃ site problem, Diagnostic.malformed site problem ∈ o.diagnostics := by
  refine ⟨fun s => ?runs, ?first, ?all, fun ids hids hsafe s o ho => ?clean⟩
  case runs =>
    rw [runStrategy_eq, runStrategy_eq, Attempt.ofInput_mended]
    cases ha : Attempt.ofInput input oracle maxCycles with
    | error e => exact ⟨rfl, rfl⟩
    | ok a =>
        obtain ⟨horacle, hids⟩ := Attempt.of_ofInput ha
        rw [← horacle] at hids
        exact (Attempt.readAlike_mended hids).evaluate_alike s
  case first => exact findFirst_agrees (fun _ => Search.tryAt_agrees _ oracle maxCycles) input
  case all => exact findAll_agrees (fun _ => Search.tryAt_agrees _ oracle maxCycles) input
  case clean =>
    obtain ⟨b, e, i, hb, _, _, rfl⟩ := explored_of_returned ho
    rw [Attempt.ofInput_mended] at hb
    cases ha : Attempt.ofInput input oracle maxCycles with
    | error e => simp [ha, Except.map] at hb
    | ok a =>
        rw [ha] at hb
        obtain rfl : a.mended = b := Except.ok.inj hb
        obtain ⟨horacle, hids'⟩ := Attempt.of_ofInput ha
        obtain rfl : ids = a.ids := Except.ok.inj (hids.symm.trans hids')
        rw [← horacle] at hids
        rw [Attempt.malformed_mem_iff]
        rintro ⟨u, _, hfaults⟩
        exact hfaults (Attempt.faults_mended hids (Numbering.admits_reject hids hsafe) u)

/-- An oracle that names no state but the one a state gives way to, and whose other
states answer nothing. -/
def garbling : Oracle where
  sentinels := Sentinels.toValue ⟨0, 1, 2, none, none⟩
  answer := fun q =>
    if q.state = (0 : Nat) then
      .ok (.object [("nextState", .text "x"), ("secondState", .number (3 : Nat)),
        ("consumed", .bool true), ("enabled", .bool true)])
    else .ok .null

theorem malformed_means_reject_garbling :
    Numbering.ofValue garbling.sentinels = .ok ⟨0, 1, 2, 0, Number.maxSafe⟩ ∧ 2 ≤ Number.maxSafe ∧
      (∃ o, (runPath (.text "a") garbling .absent).result = .ok o ∧ o.diagnostics.length = 2) ∧
      (runPath (.text "a") garbling.mended .absent).queries =
        (runPath (.text "a") garbling .absent).queries ∧
      ∃ o, (runPath (.text "a") garbling.mended .absent).result = .ok o ∧
        o.verdict = .rejected ∧
        ¬ ∃ site problem, Diagnostic.malformed site problem ∈ o.diagnostics := by
  have hids : Numbering.ofValue garbling.sentinels = .ok ⟨0, 1, 2, 0, Number.maxSafe⟩ := by rfl
  have hsafe : 2 ≤ Number.maxSafe := by decide
  obtain ⟨hruns, _, _, hclean⟩ := malformed_means_reject (.text "a") garbling .absent
  refine ⟨hids, hsafe, ⟨_, rfl, rfl⟩, (hruns .path).1, _, rfl, rfl, ?_⟩
  exact hclean _ hids hsafe .path _ rfl

end OracleNFA
