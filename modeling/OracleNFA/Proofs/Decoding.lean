/-
  OracleNFA.Proofs.Decoding
  ─────────────────────────
  **AN ANSWER IS SORTED INTO STATES AND PROBLEMS.**

  An answer is a transition if it tells two things by yes or no (`Value.Tells`).  What else
  it holds is offered as a successor, one value or two, and each offer goes to one side:

      validId?_eq_some_iff — a value is read as a state exactly if it names that state
      sorts_judged         — so the offers are sorted as they are judged, in their order
      Sorts.length_add     — none is lost,
      Sorts.unique         — and there is no other way to sort them

  The four fields that are looked at decide everything (`decode_congr`), and of these the
  second successor counts only where it is said to be there.
-/
import OracleNFA.Proofs.Grammar
import OracleNFA.Proofs.Resolution

namespace OracleNFA

/-! ## §1. Answers. -/

/-- An object that tells whether the symbol is consumed and whether there is a second
successor. -/
structure Value.Tells (raw : Value) (consumed enabled : Bool) : Prop where
  isObject : ∃ fields, raw = .object fields
  consumed : raw.field "consumed" = .bool consumed
  enabled : raw.field "enabled" = .bool enabled

/-- The value is a natural number that is exact and not above the largest state. -/
def Value.NamesState (v : Value) (ids : Numbering) (n : Nat) : Prop :=
  v.Gives (some n) ∧ ids.Admits n

namespace Response

/-- A successor that an answer offers, and what it is if it is no state. -/
structure Offer where
  value : Value
  problem : Value → Problem

/-- The offers of an answer, first one first. -/
def offers (raw : Value) (enabled : Bool) : List Offer :=
  ⟨raw.field "nextState", .next⟩ :: if enabled then [⟨raw.field "secondState", .branch⟩] else []

/-- Offers in order, the states among them and the problems that the others are. -/
inductive Sorts (ids : Numbering) : List Offer → List StateId → List Problem → Prop
  | nil : Sorts ids [] [] []
  | state {o : Offer} {n : Nat} {rest : List Offer} {states : List StateId}
      {problems : List Problem} (names : o.value.NamesState ids n)
      (sorted : Sorts ids rest states problems) :
      Sorts ids (o :: rest) (.ofNat n :: states) problems
  | problem {o : Offer} {rest : List Offer} {states : List StateId} {problems : List Problem}
      (nameless : ∀ n, ¬ o.value.NamesState ids n) (sorted : Sorts ids rest states problems) :
      Sorts ids (o :: rest) states (o.problem o.value :: problems)

/-- Objects that give the same answer: they agree on three fields, and on the second
successor where there is one. -/
structure SameAnswer (fields others : List (Text × Value)) : Prop where
  next : Value.lookup "nextState" fields = Value.lookup "nextState" others
  consumed : Value.lookup "consumed" fields = Value.lookup "consumed" others
  enabled : Value.lookup "enabled" fields = Value.lookup "enabled" others
  branch : Value.lookup "enabled" fields = .bool true →
    Value.lookup "secondState" fields = Value.lookup "secondState" others

end Response

/-! ## §2. One offer. -/

namespace Numbering

variable {ids : Numbering} {v : Value} {s : StateId}

/-- **A value is read as a state exactly if it names that state.** -/
theorem validId?_eq_some_iff :
    ids.validId? v = some s ↔ ∃ n, v.NamesState ids n ∧ s = .ofNat n := by
  constructor
  · intro h
    cases v with
    | number x =>
        simp only [validId?, Option.map_eq_some_iff, Option.filter_eq_some_iff,
          Number.safeNatural?_eq_some, decide_eq_true_eq] at h
        obtain ⟨n, ⟨⟨hx, hsafe⟩, hmax⟩, rfl⟩ := h
        exact ⟨n, ⟨⟨x, rfl, hx⟩, hmax, hsafe⟩, rfl⟩
    | _ => simp [validId?] at h
  · rintro ⟨n, ⟨⟨x, rfl, hx⟩, hmax, hsafe⟩, rfl⟩
    simp [validId?, Number.safeNatural?_eq_some.2 ⟨hx, hsafe⟩, hmax]

theorem validId?_eq_none_iff : ids.validId? v = none ↔ ∀ n, ¬ v.NamesState ids n := by
  rw [Option.eq_none_iff_forall_ne_some]
  constructor
  · exact fun h n hn => h _ (validId?_eq_some_iff.2 ⟨n, hn, rfl⟩)
  · intro h s hs
    obtain ⟨n, hn, _⟩ := validId?_eq_some_iff.1 hs
    exact h n hn

end Numbering

namespace Response

variable {ids : Numbering} {raw : Value} {consumed enabled : Bool} {os : List Offer}
  {ss : List StateId} {ps : List Problem}

/-- The judgement of an offer. -/
def Offer.judged (ids : Numbering) (o : Offer) : Except Problem StateId :=
  judge ids o.problem o.value

/-- **Judged offers are sorted.** -/
theorem sorts_judged (ids : Numbering) (os : List Offer) :
    Sorts ids os (states (os.map (Offer.judged ids))) (problems (os.map (Offer.judged ids))) := by
  induction os with
  | nil => exact .nil
  | cons o rest ih =>
      rw [List.map_cons, Offer.judged, judge]
      cases hvalid : ids.validId? o.value with
      | none => exact .problem (Numbering.validId?_eq_none_iff.1 hvalid) ih
      | some s =>
          obtain ⟨n, hnames, rfl⟩ := Numbering.validId?_eq_some_iff.1 hvalid
          exact .state hnames ih

/-- Every offer is on one side. -/
theorem Sorts.length_add (h : Sorts ids os ss ps) : ss.length + ps.length = os.length := by
  induction h with
  | nil => rfl
  | state _ _ ih =>
      simp only [List.length_cons]
      omega
  | problem _ _ ih =>
      simp only [List.length_cons]
      omega

/-- **Offers are sorted in one way.** -/
theorem Sorts.unique {ss' : List StateId} {ps' : List Problem} (h : Sorts ids os ss ps)
    (h' : Sorts ids os ss' ps') : ss = ss' ∧ ps = ps' := by
  induction h generalizing ss' ps' with
  | nil =>
      cases h'
      exact ⟨rfl, rfl⟩
  | @state o n rest states problems names _ ih =>
      cases h' with
      | @state _ m _ _ _ names' sorted' =>
          obtain ⟨rfl, rfl⟩ := ih sorted'
          obtain rfl : n = m := Option.some.inj (names.1.unique names'.1)
          exact ⟨rfl, rfl⟩
      | problem nameless _ => exact absurd names (nameless n)
  | @problem o rest states problems nameless _ ih =>
      cases h' with
      | @state _ m _ _ _ names _ => exact absurd names (nameless m)
      | problem _ sorted' =>
          obtain ⟨rfl, rfl⟩ := ih sorted'
          exact ⟨rfl, rfl⟩

/-! ## §3. Whole answers. -/

theorem length_offers : (offers raw enabled).length = if enabled then 2 else 1 := by
  cases enabled <;> rfl

/-- A value has a shape exactly if it tells both things. -/
theorem exists_shape_iff : (∃ shape, (check raw).result = .ok shape) ↔
    ∃ consumed enabled, raw.Tells consumed enabled := by
  simp only [result_check_eq_ok]
  constructor
  · rintro ⟨shape, fields, rfl, _, _, hconsumed, henabled⟩
    exact ⟨shape.consumed, shape.enabled, ⟨fields, rfl⟩, hconsumed, henabled⟩
  · rintro ⟨consumed, enabled, ⟨fields, rfl⟩, hconsumed, henabled⟩
    exact ⟨⟨_, _, consumed, enabled⟩, fields, rfl, rfl, rfl, hconsumed, henabled⟩

/-- The shape of an answer is judged as its offers are. -/
theorem judged_eq (ids : Numbering) {shape : Shape} (h : (check raw).result = .ok shape) :
    raw.Tells shape.consumed shape.enabled ∧
      judged ids shape = (offers raw shape.enabled).map (Offer.judged ids) := by
  obtain ⟨fields, rfl, hnext, hbranch, hconsumed, henabled⟩ := result_check_eq_ok.1 h
  refine ⟨⟨⟨fields, rfl⟩, hconsumed, henabled⟩, ?_⟩
  unfold judged offers
  rw [hnext, hbranch]
  cases shape.enabled <;> rfl

/-- **What tells both things is decoded, and its offers are sorted.** -/
theorem decode_of_tells (ids : Numbering) (h : raw.Tells consumed enabled) :
    ∃ d, decode ids raw = .ok d ∧ d.consumes = consumed ∧
      Sorts ids (offers raw enabled) d.successors d.problems := by
  obtain ⟨shape, hshape⟩ := exists_shape_iff.2 ⟨consumed, enabled, h⟩
  obtain ⟨htells, hjudged⟩ := judged_eq ids hshape
  obtain rfl := htells.consumed.symm.trans h.consumed |> Value.bool.inj
  obtain rfl := htells.enabled.symm.trans h.enabled |> Value.bool.inj
  have hsorts := sorts_judged ids (offers raw shape.enabled)
  rw [← hjudged] at hsorts
  unfold decode
  rw [hshape]
  exact ⟨_, rfl, rfl, hsorts⟩

/-- What does not is unusable for what its check complains about. -/
theorem decode_of_not_tells (ids : Numbering)
    (h : ¬ ∃ consumed enabled, raw.Tells consumed enabled) :
    decode ids raw = .error (check raw).issues := by
  rw [← exists_shape_iff] at h
  unfold decode
  cases hresult : (check raw).result with
  | ok shape => exact absurd ⟨shape, hresult⟩ h
  | error issues => rw [Checked.issues_eq_of_result hresult]

variable {fields others : List (Text × Value)}

theorem SameAnswer.symm (h : SameAnswer fields others) : SameAnswer others fields where
  next := h.next.symm
  consumed := h.consumed.symm
  enabled := h.enabled.symm
  branch := fun htrue => (h.branch (h.enabled.trans htrue)).symm

theorem SameAnswer.tells (h : SameAnswer fields others)
    (htells : (Value.object fields).Tells consumed enabled) :
    (Value.object others).Tells consumed enabled where
  isObject := ⟨others, rfl⟩
  consumed := h.consumed.symm.trans htells.consumed
  enabled := h.enabled.symm.trans htells.enabled

theorem SameAnswer.offers_eq (h : SameAnswer fields others)
    (htells : (Value.object fields).Tells consumed enabled) :
    offers (.object fields) enabled = offers (.object others) enabled := by
  unfold offers Value.field
  dsimp only
  rw [h.next]
  cases enabled with
  | false => rfl
  | true => rw [h.branch htells.enabled]

/-- What a check complains about is settled by the two flags alone. -/
theorem SameAnswer.issues_eq (h : SameAnswer fields others) :
    (check (.object fields)).issues = (check (.object others)).issues := by
  show (Check.field fields "consumed" Check.bool).issues ++
      (Check.field fields "enabled" Check.bool).issues =
    (Check.field others "consumed" Check.bool).issues ++
      (Check.field others "enabled" Check.bool).issues
  unfold Check.field
  rw [h.consumed, h.enabled]

/-- **Objects that give the same answer are decoded alike.** -/
theorem decode_congr (ids : Numbering) (h : SameAnswer fields others) :
    decode ids (.object fields) = decode ids (.object others) := by
  by_cases htells : ∃ consumed enabled, (Value.object fields).Tells consumed enabled
  · obtain ⟨consumed, enabled, htells⟩ := htells
    obtain ⟨d, hd, hconsumes, hsorts⟩ := decode_of_tells ids htells
    obtain ⟨d', hd', hconsumes', hsorts'⟩ := decode_of_tells ids (h.tells htells)
    -- The same offers are sorted in the same way.
    rw [← h.offers_eq htells] at hsorts'
    obtain ⟨hsuccessors, hproblems⟩ := hsorts.unique hsorts'
    obtain ⟨_, _, _⟩ := d
    obtain ⟨_, _, _⟩ := d'
    dsimp only at hconsumes hconsumes' hsuccessors hproblems
    rw [hd, hd', hconsumes, hconsumes', hsuccessors, hproblems]
  · have htells' : ¬ ∃ consumed enabled, (Value.object others).Tells consumed enabled := by
      rintro ⟨consumed, enabled, hothers⟩
      exact htells ⟨consumed, enabled, h.symm.tells hothers⟩
    rw [decode_of_not_tells ids htells, decode_of_not_tells ids htells', h.issues_eq]

end Response

/-! ## §4. The decoding of answers. -/

/-- **Decoding sorts every answer, and nothing but answers.**  A value is unusable exactly
if it is no object that tells both things by yes or no.  Of any other, whether the symbol is
consumed is read as it was said, and each successor that is offered is a state or a problem:
the states in the order of the offers, and one problem for each offer that names none.  So
states and problems are as many as the offers, two where a second successor is said to be
there, else one.  Nothing else in the object counts. -/
theorem decode_sorts_answers (ids : Numbering) (raw : Value) :
    ((∃ issues, Response.decode ids raw = .error issues) ↔
      ¬ ∃ consumed enabled, raw.Tells consumed enabled) ∧
    (∀ consumed enabled, raw.Tells consumed enabled →
      ∃ d, Response.decode ids raw = .ok d ∧ d.consumes = consumed ∧
        Response.Sorts ids (Response.offers raw enabled) d.successors d.problems ∧
        d.successors.length + d.problems.length = if enabled then 2 else 1) ∧
    ∀ fields others, raw = .object fields → Response.SameAnswer fields others →
      Response.decode ids raw = Response.decode ids (.object others) := by
  refine ⟨?unusable, ?sorted, ?same⟩
  case unusable =>
    constructor
    · rintro ⟨issues, hissues⟩ ⟨consumed, enabled, htells⟩
      obtain ⟨d, hd, _⟩ := Response.decode_of_tells ids htells
      exact nomatch hissues.symm.trans hd
    · exact fun h => ⟨_, Response.decode_of_not_tells ids h⟩
  case sorted =>
    intro consumed enabled htells
    obtain ⟨d, hd, hconsumes, hsorts⟩ := Response.decode_of_tells ids htells
    exact ⟨d, hd, hconsumes, hsorts, hsorts.length_add.trans Response.length_offers⟩
  case same =>
    rintro fields others rfl hsame
    exact Response.decode_congr ids hsame

/-- A zero with a sign names a state and not-a-number does not, unless nothing is said to be
there. -/
theorem decode_sorts_answers_signedZero :
    let ids : Numbering := ⟨0, 1, 2, 0, 2⟩
    let fields (enabled : Bool) (branch : Value) : List (Text × Value) :=
      [("nextState", .number .negativeZero), ("secondState", branch), ("consumed", .bool true),
        ("enabled", .bool enabled)]
    (∃ d, Response.decode ids (.object (fields true (.number .nan))) = .ok d ∧
      d.consumes = true ∧ d.successors.length + d.problems.length = 2) ∧
    Response.decode ids (.object (fields false (.number .nan))) =
      Response.decode ids (.object (("hint", .null) :: fields false .absent)) := by
  intro ids fields
  constructor
  · obtain ⟨d, hd, hconsumes, _, hlength⟩ :=
      (decode_sorts_answers ids (.object (fields true (.number .nan)))).2.1 true true
        ⟨⟨_, rfl⟩, rfl, rfl⟩
    exact ⟨d, hd, hconsumes, hlength⟩
  · exact (decode_sorts_answers ids (.object (fields false (.number .nan)))).2.2 _ _ rfl
      ⟨rfl, rfl, rfl, nofun⟩

end OracleNFA
