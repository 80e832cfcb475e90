/-
  OracleNFA.Proofs.Declaration
  ────────────────────────────
  **WHAT DECLARES AN ORACLE'S RESERVED STATES.**

  A value declares sentinels when it is an object whose fields give them
  (`Sentinels.Declares`) and no test complains about what they give
  (`Sentinels.Sound`).  `ofValue_eq_ok` says that this is exactly what is
  accepted, and the rest is read off it:

      a sound declaration written as data is read back as it was, and
      the reserved states of an accepted one are distinct
-/
import OracleNFA.Oracle
import OracleNFA.Proofs.Validation

namespace OracleNFA

/-! ## §1. Values that give natural numbers. -/

/-- The number denotes the natural number. -/
def Number.Denotes (x : Number) (n : Nat) : Prop :=
  x.natural? = some n

theorem Number.denotes_ofNat (n : Nat) : (ofNat n).Denotes n :=
  natural?_ofNat n

/-- The value is a number that denotes the given one, or is missing where none
is given. -/
def Value.Gives (v : Value) : Option Nat → Prop
  | some n => ∃ x, v = .number x ∧ x.Denotes n
  | none => v = .absent

theorem Value.gives_ofNat (n : Nat) : (Value.number (.ofNat n)).Gives (some n) :=
  ⟨_, rfl, Number.denotes_ofNat n⟩

namespace Check

/-- What passes as natural gives what it denotes. -/
theorem gives_of_natural {v : Value} {x : Number} (h : (natural v).Passes x) :
    x.Denotes x.toNat ∧ v.Gives (some x.toNat) := by
  obtain ⟨rfl, n, hn⟩ := passes_natural.1 h
  rw [Number.toNat_eq hn]
  exact ⟨hn, x, rfl, hn⟩

theorem natural_of_gives {v : Value} {n : Nat} (h : v.Gives (some n)) :
    ∃ x, (natural v).Passes x ∧ x.Denotes n := by
  obtain ⟨x, rfl, hx⟩ := h
  exact ⟨x, passes_natural.2 ⟨rfl, n, hx⟩, hx⟩

theorem gives_of_optional {v : Value} {o : Option Number} (h : (optional natural v).Passes o) :
    Option.Rel Number.Denotes o (o.map Number.toNat) ∧ v.Gives (o.map Number.toNat) := by
  rcases passes_optional.1 h with ⟨rfl, rfl⟩ | ⟨_, x, hx, rfl⟩
  · exact ⟨.none, rfl⟩
  · obtain ⟨hdenotes, hgives⟩ := gives_of_natural hx
    exact ⟨.some hdenotes, hgives⟩

theorem optional_of_gives {v : Value} {o : Option Nat} (h : v.Gives o) :
    ∃ x, (optional natural v).Passes x ∧ Option.Rel Number.Denotes x o := by
  cases o with
  | none => exact ⟨none, passes_optional.2 (.inl ⟨h, rfl⟩), .none⟩
  | some n =>
      obtain ⟨x, hx, hdenotes⟩ := natural_of_gives h
      have hne : v ≠ .absent := by
        rintro rfl
        obtain ⟨_, habsurd, _⟩ := h
        exact absurd habsurd (by simp)
      exact ⟨some x, passes_optional.2 (.inr ⟨hne, x, hx, rfl⟩), .some hdenotes⟩

end Check

namespace Sentinels

/-! ## §2. Declarations without a fault. -/

/-- A declaration that no test complains about. -/
structure Sound (s : Sentinels Nat) : Prop where
  start_ne_accept : s.start ≠ s.accept
  start_ne_reject : s.start ≠ s.reject
  accept_ne_reject : s.accept ≠ s.reject
  inRange : ∀ m, s.maxStateId = some m → ∀ id ∈ s.reserved, id ≤ m

/-- The fields of an object give the declaration. -/
structure Declares (fields : List (Text × Value)) (s : Sentinels Nat) : Prop where
  start : (Value.lookup "start" fields).Gives (some s.start)
  accept : (Value.lookup "match" fields).Gives (some s.accept)
  reject : (Value.lookup "reject" fields).Gives (some s.reject)
  endOfInput : (Value.lookup "endOfInput" fields).Gives s.endOfInput
  maxStateId : (Value.lookup "maxStateId" fields).Gives s.maxStateId

/-- A declaration in numbers that denote the given ones. -/
structure Denotes (r : Sentinels Number) (s : Sentinels Nat) : Prop where
  start : r.start.Denotes s.start
  accept : r.accept.Denotes s.accept
  reject : r.reject.Denotes s.reject
  endOfInput : Option.Rel Number.Denotes r.endOfInput s.endOfInput
  maxStateId : Option.Rel Number.Denotes r.maxStateId s.maxStateId

variable {r : Sentinels Number} {s : Sentinels Nat}

theorem Denotes.map_eq (h : r.Denotes s) : r.map Number.toNat = s := by
  have option_eq : ∀ {x : Option Number} {o : Option Nat}, Option.Rel Number.Denotes x o →
      x.map Number.toNat = o := by
    intro x o hx
    cases hx with
    | some hdenotes => exact congrArg some (Number.toNat_eq hdenotes)
    | none => rfl
  unfold map
  rw [Number.toNat_eq h.start, Number.toNat_eq h.accept, Number.toNat_eq h.reject,
    option_eq h.endOfInput, option_eq h.maxStateId]

theorem distinctIssues_eq_nil (h : r.Denotes s) :
    distinctIssues r = [] ↔
      s.start ≠ s.accept ∧ s.start ≠ s.reject ∧ s.accept ≠ s.reject := by
  unfold distinctIssues
  simp only [ite_eq_right_iff, Bool.or_eq_true, Number.same_iff h.start h.accept,
    Number.same_iff h.start h.reject, Number.same_iff h.accept h.reject]
  simp [and_assoc]

theorem rangeIssues_eq_nil (h : r.Denotes s) :
    rangeIssues r = [] ↔ ∀ m, s.maxStateId = some m → ∀ id ∈ s.reserved, id ≤ m := by
  have hmax := h.maxStateId
  unfold rangeIssues
  cases hr : r.maxStateId <;> cases hs : s.maxStateId <;> rw [hr, hs] at hmax <;> cases hmax
  · simp
  · next hm =>
      simp [reserved, Number.lt_iff hm h.start, Number.lt_iff hm h.accept,
        Number.lt_iff hm h.reject]

/-- No test complains about numbers that denote a sound declaration, and none
but these. -/
theorem issues_eq_nil (h : r.Denotes s) : distinctIssues r = [] ∧ rangeIssues r = [] ↔ s.Sound := by
  rw [distinctIssues_eq_nil h, rangeIssues_eq_nil h]
  constructor
  · rintro ⟨⟨hsa, hsr, har⟩, hrange⟩
    exact ⟨hsa, hsr, har, hrange⟩
  · intro hs
    exact ⟨⟨hs.start_ne_accept, hs.start_ne_reject, hs.accept_ne_reject⟩, hs.inRange⟩

/-! ## §3. What is accepted. -/

theorem passes_check {v : Value} :
    (check v).Passes r ↔ ∃ fields, v = .object fields ∧
      ((Check.natural (Value.lookup "start" fields)).Passes r.start ∧
        (Check.natural (Value.lookup "match" fields)).Passes r.accept ∧
        (Check.natural (Value.lookup "reject" fields)).Passes r.reject ∧
        (Check.optional Check.natural (Value.lookup "endOfInput" fields)).Passes r.endOfInput ∧
        (Check.optional Check.natural (Value.lookup "maxStateId" fields)).Passes r.maxStateId) ∧
      distinctIssues r = [] ∧ rangeIssues r = [] := by
  unfold check
  simp only [Check.passes_object, Checked.passes_refine, Checked.passes_ap, Checked.passes_fmap,
    Check.passes_field, and_assoc]
  refine exists_congr fun fields => and_congr_right fun _ => ?_
  constructor
  · rintro ⟨⟨_, _, ⟨_, _, ⟨_, _, ⟨_, _, ⟨_, hstart, rfl⟩, haccept, rfl⟩, hreject, rfl⟩, hend, rfl⟩,
      hmax, rfl⟩, hissues⟩
    exact ⟨hstart, haccept, hreject, hend, hmax, hissues⟩
  · rintro ⟨hstart, haccept, hreject, hend, hmax, hissues⟩
    exact ⟨⟨_, _, ⟨_, _, ⟨_, _, ⟨_, _, ⟨_, hstart, rfl⟩, haccept, rfl⟩, hreject, rfl⟩, hend, rfl⟩,
      hmax, rfl⟩, hissues⟩

/-- What passed declares what it denotes, and that is sound. -/
theorem declares_of_passes {v : Value} (h : (check v).Passes r) :
    ∃ fields, v = .object fields ∧ Declares fields (r.map Number.toNat) ∧
      r.Denotes (r.map Number.toNat) ∧ (r.map Number.toNat).Sound := by
  obtain ⟨fields, rfl, ⟨hstart, haccept, hreject, hend, hmax⟩, hissues⟩ := passes_check.1 h
  obtain ⟨hstart, gstart⟩ := Check.gives_of_natural hstart
  obtain ⟨haccept, gaccept⟩ := Check.gives_of_natural haccept
  obtain ⟨hreject, greject⟩ := Check.gives_of_natural hreject
  obtain ⟨hend, gend⟩ := Check.gives_of_optional hend
  obtain ⟨hmax, gmax⟩ := Check.gives_of_optional hmax
  have hdenotes : r.Denotes (r.map Number.toNat) := ⟨hstart, haccept, hreject, hend, hmax⟩
  exact ⟨fields, rfl, ⟨gstart, gaccept, greject, gend, gmax⟩, hdenotes,
    (issues_eq_nil hdenotes).1 hissues⟩

/-- The check is over numbers, the declaration over what they denote. -/
theorem ofValue_eq_ok_iff_passes {v : Value} :
    ofValue v = .ok s ↔ ∃ r, (check v).Passes r ∧ r.map Number.toNat = s := by
  unfold ofValue
  simp only [← Checked.result_eq_ok]
  cases (check v).result <;> simp [Except.map]

/-- **A value is accepted as a declaration exactly when its fields give one
that is sound.** -/
theorem ofValue_eq_ok {v : Value} :
    ofValue v = .ok s ↔ ∃ fields, v = .object fields ∧ Declares fields s ∧ s.Sound := by
  rw [ofValue_eq_ok_iff_passes]
  constructor
  · rintro ⟨r, hr, rfl⟩
    obtain ⟨fields, rfl, hdeclares, _, hs⟩ := declares_of_passes hr
    exact ⟨fields, rfl, hdeclares, hs⟩
  · rintro ⟨fields, rfl, h, hs⟩
    obtain ⟨start, pstart, hstart⟩ := Check.natural_of_gives h.start
    obtain ⟨accept, paccept, haccept⟩ := Check.natural_of_gives h.accept
    obtain ⟨reject, preject, hreject⟩ := Check.natural_of_gives h.reject
    obtain ⟨endOfInput, pend, hend⟩ := Check.optional_of_gives h.endOfInput
    obtain ⟨maxStateId, pmax, hmax⟩ := Check.optional_of_gives h.maxStateId
    have hdenotes : Denotes ⟨start, accept, reject, endOfInput, maxStateId⟩ s :=
      ⟨hstart, haccept, hreject, hend, hmax⟩
    exact ⟨_, passes_check.2 ⟨fields, rfl, ⟨pstart, paccept, preject, pend, pmax⟩,
      (issues_eq_nil hdenotes).2 hs⟩, hdenotes.map_eq⟩

/-! ## §4. Declarations as data. -/

/-- Data written from a declaration gives it. -/
theorem declares_toValue (s : Sentinels Nat) : ∃ fields, s.toValue = .object fields ∧
    Declares fields s := by
  obtain ⟨start, accept, reject, endOfInput, maxStateId⟩ := s
  refine ⟨_, rfl, ?_⟩
  -- Each key is looked up among at most five, so every field is a computation.
  cases endOfInput <;> cases maxStateId <;> constructor <;>
    first
      | exact Value.gives_ofNat _
      | rfl

/-- **A sound declaration is read back as it was written.** -/
theorem ofValue_toValue (h : s.Sound) : ofValue s.toValue = .ok s := by
  obtain ⟨fields, hfields, hdeclares⟩ := declares_toValue s
  exact ofValue_eq_ok.2 ⟨fields, hfields, hdeclares, h⟩

end Sentinels

namespace Numbering

theorem ofValue_eq_ok {v : Value} {ids : Numbering} :
    ofValue v = .ok ids ↔ ∃ s, Sentinels.ofValue v = .ok s ∧ s.resolve = ids := by
  unfold ofValue
  cases Sentinels.ofValue v <;> simp

/-- The reserved states of an oracle whose sentinels were accepted are distinct. -/
theorem distinct_of_ofValue {v : Value} {ids : Numbering} (h : ofValue v = .ok ids) :
    ids.start ≠ ids.accept ∧ ids.start ≠ ids.reject ∧ ids.accept ≠ ids.reject := by
  obtain ⟨s, hs, rfl⟩ := ofValue_eq_ok.1 h
  obtain ⟨_, _, _, sound⟩ := Sentinels.ofValue_eq_ok.1 hs
  exact ⟨sound.start_ne_accept, sound.start_ne_reject, sound.accept_ne_reject⟩

end Numbering

end OracleNFA
