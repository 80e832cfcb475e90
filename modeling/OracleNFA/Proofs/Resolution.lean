/-
  OracleNFA.Proofs.Resolution
  ───────────────────────────
  **RESOLVED SENTINELS UNDER THEIR OWN CONTRACT.**

  Three places say what a state is: the check of a declaration, the test against its
  largest state, which is made only where one is given, and the reading of an answer.
  A resolved declaration always has a largest state, so it meets the second one anew
  when it is resolved again:

      Declares.unique       — fields declare one thing
      ofValue_toValue_eq_ok — so a numbering is read back as it was written, or not at all
      sound_declaration_iff — and what the second test says where no largest state was given

  So the contract is kept as far as numbers are exact and no further.
-/
import OracleNFA.Proofs.Contract

namespace OracleNFA

/-! ## §1. A declaration is given by one value. -/

theorem Value.Gives.unique {v : Value} {o o' : Option Nat} (h : v.Gives o) (h' : v.Gives o') :
    o = o' := by
  cases o with
  | none =>
      obtain rfl : v = .absent := h
      cases o' with
      | none => rfl
      | some n =>
          obtain ⟨x, hx, _⟩ := h'
          exact nomatch hx
  | some n =>
      obtain ⟨x, rfl, hx⟩ := h
      cases o' with
      | none => exact nomatch h'
      | some m =>
          obtain ⟨y, hy, hm⟩ := h'
          obtain rfl := Value.number.inj hy
          exact hx.symm.trans hm

/-- **The fields of an object give one declaration.** -/
theorem Sentinels.Declares.unique {fields : List (Text × Value)} {s s' : Sentinels Nat}
    (h : Declares fields s) (h' : Declares fields s') : s = s' := by
  obtain ⟨start, accept, reject, endOfInput, maxStateId⟩ := s
  obtain ⟨start', accept', reject', endOfInput', maxStateId'⟩ := s'
  obtain rfl : start = start' := Option.some.inj (h.start.unique h'.start)
  obtain rfl : accept = accept' := Option.some.inj (h.accept.unique h'.accept)
  obtain rfl : reject = reject' := Option.some.inj (h.reject.unique h'.reject)
  obtain rfl : endOfInput = endOfInput' := h.endOfInput.unique h'.endOfInput
  obtain rfl : maxStateId = maxStateId' := h.maxStateId.unique h'.maxStateId
  rfl

namespace Numbering

variable {ids : Numbering} {n : Nat}

/-- An answer may name a state exactly where it is admitted. -/
theorem validId?_eq_some :
    ids.validId? (.number (.ofNat n)) = some (.ofNat n) ↔ ids.Admits n := by
  constructor
  · intro h
    by_contra habsurd
    rw [(validId?_ofNat ids n).2 habsurd] at h
    exact nomatch h
  · intro h
    cases hvalid : ids.validId? (.number (.ofNat n)) with
    | none => exact absurd h ((validId?_ofNat ids n).1 hvalid)
    | some s => rw [eq_ofNat_of_validId? hvalid]

end Numbering

/-! ## §2. Written and read again. -/

/-- What a declaration is read back as is the declaration itself, if that is sound. -/
theorem Sentinels.ofValue_toValue_eq_ok {s s' : Sentinels Nat} :
    ofValue s.toValue = .ok s' ↔ s' = s ∧ s.Sound := by
  constructor
  · intro h
    obtain ⟨fields, hfields, hread, hsound⟩ := ofValue_eq_ok.1 h
    obtain ⟨fields', hfields', hwritten⟩ := declares_toValue s
    obtain rfl : fields = fields' := Value.object.inj (hfields.symm.trans hfields')
    obtain rfl := hread.unique hwritten
    exact ⟨rfl, hsound⟩
  · rintro ⟨rfl, hsound⟩
    exact ofValue_toValue hsound

namespace Numbering

variable {v : Value} {ids again : Numbering}

/-- The declaration that leaves nothing to be filled in. -/
def declaration (ids : Numbering) : Sentinels Nat :=
  ⟨ids.start, ids.accept, ids.reject, some ids.endOfInput, some ids.maxStateId⟩

/-- So is a numbering. -/
theorem ofValue_toValue_eq_ok :
    ofValue ids.toValue = .ok again ↔ again = ids ∧ ids.declaration.Sound := by
  have hresolve : ids.declaration.resolve = ids := rfl
  rw [ofValue_eq_ok]
  constructor
  · rintro ⟨s, hs, rfl⟩
    obtain ⟨rfl, hsound⟩ := Sentinels.ofValue_toValue_eq_ok.1 hs
    exact ⟨hresolve, hsound⟩
  · rintro ⟨rfl, hsound⟩
    exact ⟨_, Sentinels.ofValue_toValue hsound, hresolve⟩

/-- **The test against the largest state** is passed by a resolved declaration where the
largest state was given, and else where the reserved states are exact. -/
theorem sound_declaration_iff (h : ofValue v = .ok ids) :
    ids.declaration.Sound ↔ v.field "maxStateId" ≠ .absent ∨
      ∀ id ∈ [ids.start, ids.accept, ids.reject], id ≤ Number.maxSafe := by
  obtain ⟨hsa, hsr, har⟩ := distinct_of_ofValue h
  have hsound : ids.declaration.Sound ↔
      ∀ id ∈ [ids.start, ids.accept, ids.reject], id ≤ ids.maxStateId := by
    constructor
    · exact fun hsound => hsound.inRange _ rfl
    · intro hrange
      refine ⟨hsa, hsr, har, fun m hm => ?_⟩
      obtain rfl := Option.some.inj hm
      exact hrange
  rw [hsound]
  obtain ⟨s, hs, rfl⟩ := ofValue_eq_ok.1 h
  obtain ⟨fields, rfl, hdeclares, sound⟩ := Sentinels.ofValue_eq_ok.1 hs
  have hgiven := hdeclares.maxStateId
  show (∀ id ∈ s.reserved, id ≤ s.maxStateId.getD Number.maxSafe) ↔
    Value.lookup "maxStateId" fields ≠ .absent ∨ ∀ id ∈ s.reserved, id ≤ Number.maxSafe
  cases hmax : s.maxStateId with
  | none =>
      rw [hmax] at hgiven
      exact (or_iff_right fun hne => hne hgiven).symm
  | some m =>
      rw [hmax] at hgiven
      obtain ⟨x, hx, _⟩ := hgiven
      refine iff_of_true (sound.inRange m hmax) (.inl ?_)
      rw [hx]
      exact nofun

end Numbering

/-! ## §3. The contract. -/

/-- **Resolved sentinels keep their contract up to the exact numbers.**  Take any
declaration that is accepted.  Its reserved states are distinct.  Each of them may be
named by an answer if it is exact, and only then.  Resolved once more, they are what
they were, or refused; and they are refused only where no largest state was declared
and one of them is not exact. -/
theorem resolved_sentinels_keep_contract {v : Value} {ids : Numbering}
    (h : Numbering.ofValue v = .ok ids) :
    (ids.start ≠ ids.accept ∧ ids.start ≠ ids.reject ∧ ids.accept ≠ ids.reject) ∧
    (∀ id ∈ [ids.start, ids.accept, ids.reject],
      ids.validId? (.number (.ofNat id)) = some (.ofNat id) ↔ id ≤ Number.maxSafe) ∧
    (Numbering.ofValue ids.toValue = .ok ids ↔ v.field "maxStateId" ≠ .absent ∨
      ∀ id ∈ [ids.start, ids.accept, ids.reject], id ≤ Number.maxSafe) ∧
    ∀ again, Numbering.ofValue ids.toValue = .ok again → again = ids := by
  refine ⟨Numbering.distinct_of_ofValue h, ?valid, ?resolved, ?same⟩
  case valid =>
    intro id hid
    rw [Numbering.validId?_eq_some]
    exact ⟨fun hadmits => hadmits.2, Numbering.admits_reserved h hid⟩
  case resolved =>
    rw [Numbering.ofValue_toValue_eq_ok, ← Numbering.sound_declaration_iff h]
    exact and_iff_right rfl
  case same => exact fun again hagain => (Numbering.ofValue_toValue_eq_ok.1 hagain).1

/-- A signed zero as start, and an accepting state that is exact beside a dead one that is
not, but stays below the largest state that was declared. -/
theorem resolved_sentinels_keep_contract_bounded :
    let v : Value := .object [("start", .number .negativeZero),
      ("match", .number (Number.maxSafe : Nat)), ("reject", .number (Number.maxSafe + 1 : Nat)),
      ("maxStateId", .number (Number.maxSafe + 1 : Nat))]
    let ids : Numbering := ⟨0, Number.maxSafe, Number.maxSafe + 1, 0, Number.maxSafe + 1⟩
    Numbering.ofValue v = .ok ids ∧
      ids.validId? (.number (.ofNat Number.maxSafe)) = some (.ofNat Number.maxSafe) ∧
      ids.validId? (.number (.ofNat (Number.maxSafe + 1))) ≠ some (.ofNat (Number.maxSafe + 1)) ∧
      Numbering.ofValue ids.toValue = .ok ids := by
  intro v ids
  have hread : Numbering.ofValue v = .ok ids := by rfl
  obtain ⟨_, hvalid, hagain, _⟩ := resolved_sentinels_keep_contract hread
  refine ⟨hread, (hvalid Number.maxSafe (by simp [ids])).2 le_rfl, fun habsurd => ?_,
    hagain.2 (.inl ?_)⟩
  · exact absurd ((hvalid (Number.maxSafe + 1) (by simp [ids])).1 habsurd) (by simp)
  · exact nofun

/-- Without a largest state, a start state that is too large to be exact is accepted.  No
answer may name it, and what it is resolved to is refused. -/
theorem largeStart_breaks_contract :
    let v := Sentinels.toValue ⟨Number.maxSafe + 1, 1, 2, none, none⟩
    let ids : Numbering := ⟨Number.maxSafe + 1, 1, 2, 0, Number.maxSafe⟩
    Numbering.ofValue v = .ok ids ∧
      ids.validId? (.number (.ofNat ids.start)) = none ∧
      ∀ again, Numbering.ofValue ids.toValue ≠ .ok again := by
  intro v ids
  have hlarge : ¬ Number.maxSafe + 1 ≤ Number.maxSafe := Nat.not_succ_le_self _
  refine ⟨by rfl, (Numbering.validId?_ofNat ids _).2 fun hadmits => hlarge hadmits.2, ?_⟩
  intro again hagain
  have hsound : ids.declaration.Sound := (Numbering.ofValue_toValue_eq_ok.1 hagain).2
  exact hlarge (hsound.inRange _ rfl _ List.mem_cons_self)

end OracleNFA
