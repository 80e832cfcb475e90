/-
  OracleNFA.Proofs.Definition
  ───────────────────────────
  **WHAT AN ACCEPTED RULE TABLE IS LIKE.**

  A definition that passes its check has sound sentinels, and where these name a
  largest state no rule leads above it (`Definition.Sound`).  Both are about
  natural numbers: whatever number a field held, it denoted one.

  The check itself is over numbers, so every step reads a fact about numbers off
  what passed and carries it over to what they denote.
-/
import OracleNFA.Proofs.Declaration
import OracleNFA.Table.Definition

namespace OracleNFA

/-! ## §1. Rules. -/

namespace Rule

variable {ι κ : Type}

/-- The states a rule leads to. -/
def targets (r : Rule ι) : List ι :=
  r.next :: r.branch.toList

theorem targets_map (f : ι → κ) (r : Rule ι) : (r.map f).targets = r.targets.map f := by
  cases h : r.branch <;> simp [targets, map, h]

/-- A rule passes when its fields do and it has no others. -/
theorem passes_check {v : Value} {r : Rule Number} :
    (check v).Passes r ↔ ∃ fields, v = .object fields ∧
      (Check.optional Check.someText (Value.lookup "on" fields)).Passes r.on ∧
      (Check.optional Check.text (Value.lookup "notOn" fields)).Passes r.notOn ∧
      (Check.optional Check.bool (Value.lookup "atEnd" fields)).Passes r.atEnd ∧
      (Check.optional Check.someText (Value.lookup "lookahead" fields)).Passes r.lookahead ∧
      (Check.optional Check.someText (Value.lookup "notLookahead" fields)).Passes r.notLookahead ∧
      (Check.natural (Value.lookup "next" fields)).Passes r.next ∧
      (Check.optional Check.natural (Value.lookup "branch" fields)).Passes r.branch ∧
      (Check.optional Check.bool (Value.lookup "consume" fields)).Passes r.consume ∧
      Check.strayKeys keys fields = [] := by
  unfold check
  simp only [Check.passes_object, Check.passes_closed, Checked.passes_ap, Checked.passes_fmap,
    Check.passes_field]
  refine exists_congr fun fields => and_congr_right fun _ => ?_
  constructor
  · rintro ⟨⟨_, _, ⟨_, _, ⟨_, _, ⟨_, _, ⟨_, _, ⟨_, _, ⟨_, _, ⟨_, hon, rfl⟩, hnotOn, rfl⟩,
      hatEnd, rfl⟩, hlook, rfl⟩, hnotLook, rfl⟩, hnext, rfl⟩, hbranch, rfl⟩, hconsume, rfl⟩, hkeys⟩
    exact ⟨hon, hnotOn, hatEnd, hlook, hnotLook, hnext, hbranch, hconsume, hkeys⟩
  · rintro ⟨hon, hnotOn, hatEnd, hlook, hnotLook, hnext, hbranch, hconsume, hkeys⟩
    exact ⟨⟨_, _, ⟨_, _, ⟨_, _, ⟨_, _, ⟨_, _, ⟨_, _, ⟨_, _, ⟨_, hon, rfl⟩, hnotOn, rfl⟩,
      hatEnd, rfl⟩, hlook, rfl⟩, hnotLook, rfl⟩, hnext, rfl⟩, hbranch, rfl⟩, hconsume, rfl⟩, hkeys⟩

/-- The states of a rule that passed denote natural numbers. -/
theorem denotes_of_passes {v : Value} {r : Rule Number} (h : (check v).Passes r) :
    ∀ x ∈ r.targets, x.Denotes x.toNat := by
  obtain ⟨fields, rfl, _, _, _, _, _, hnext, hbranch, _, _⟩ := passes_check.1 h
  intro x hx
  rcases List.mem_cons.1 hx with rfl | hx
  · exact (Check.gives_of_natural hnext).1
  · have hx : r.branch = some x := by simpa using hx
    obtain ⟨hdenotes, _⟩ := Check.gives_of_optional hbranch
    rw [hx] at hdenotes
    cases hdenotes with
    | some hdenotes => exact hdenotes

theorem targetIssues_eq_nil {l : Number} {r : Rule Number} :
    Definition.targetIssues l r = [] ↔
      l.lt r.next = false ∧ ∀ b, r.branch = some b → l.lt b = false := by
  unfold Definition.targetIssues
  cases r.branch <;> simp

/-- No target of a rule is above the largest state if no issue says so. -/
theorem targets_le {r : Rule Number} {largest : Number} {m : Nat} (hm : largest.Denotes m)
    (hr : ∀ x ∈ r.targets, x.Denotes x.toNat) (h : Definition.targetIssues largest r = []) :
    ∀ t ∈ (r.map Number.toNat).targets, t ≤ m := by
  have hle : ∀ x ∈ r.targets, largest.lt x = false := by
    obtain ⟨hnext, hbranch⟩ := targetIssues_eq_nil.1 h
    intro x hx
    rcases List.mem_cons.1 hx with rfl | hx
    · exact hnext
    · exact hbranch x (by simpa using hx)
  intro t ht
  rw [targets_map] at ht
  obtain ⟨x, hx, rfl⟩ := List.mem_map.1 ht
  have hnot := hle x hx
  rw [← Bool.not_eq_true, Number.lt_iff hm (hr x hx)] at hnot
  omega

end Rule

/-! ## §2. Definitions. -/

namespace Definition

/-- A definition that no test complains about. -/
structure Sound (d : Definition Nat) : Prop where
  sentinels : d.sentinels.Sound
  targets : ∀ m, d.sentinels.maxStateId = some m →
    ∀ entry ∈ d.states, ∀ r ∈ entry.2, ∀ t ∈ r.targets, t ≤ m

theorem passes_check {v : Value} {d : Definition Number} :
    (check v).Passes d ↔ ∃ fields, v = .object fields ∧
      (Sentinels.check (Value.lookup "sentinels" fields)).Passes d.sentinels ∧
      (checkStates (Value.lookup "states" fields)).Passes d.states ∧
      Check.strayKeys ["sentinels", "states"] fields = [] ∧ rangeIssues d = [] := by
  unfold check
  simp only [Check.passes_object, Checked.passes_refine, Check.passes_closed, Checked.passes_ap,
    Checked.passes_fmap, Check.passes_field, and_assoc]
  refine exists_congr fun fields => and_congr_right fun _ => ?_
  constructor
  · rintro ⟨⟨_, _, ⟨_, hsentinels, rfl⟩, hstates, rfl⟩, hissues⟩
    exact ⟨hsentinels, hstates, hissues⟩
  · rintro ⟨hsentinels, hstates, hissues⟩
    exact ⟨⟨_, _, ⟨_, hsentinels, rfl⟩, hstates, rfl⟩, hissues⟩

/-- The rules of a table that passed have passed. -/
theorem rule_passes {v : Value} {states : List (Text × List (Rule Number))}
    (h : (checkStates v).Passes states) :
    ∀ entry ∈ states, ∀ r ∈ entry.2, ∃ w, (Rule.check w).Passes r := by
  unfold checkStates at h
  simp only [Check.passes_object, Checked.passes_map, Checked.passes_all] at h
  obtain ⟨fields, rfl, entries, hentries, rfl⟩ := h
  intro entry hentry r hr
  -- From the entry back to the field it was read from, and on to its rules.
  obtain ⟨part, hpart, hpasses⟩ :=
    Checked.exists_of_mem_right hentries (List.mem_of_mem_filter hentry)
  obtain ⟨⟨key, value⟩, _, rfl⟩ := List.mem_map.1 hpart
  unfold checkEntry at hpasses
  simp only [Checked.passes_under, Checked.passes_ap, Checked.passes_fmap, Checked.passes_flagged,
    Check.passes_list] at hpasses
  obtain ⟨_, rules, ⟨_, _, rfl⟩, ⟨values, _, hrules⟩, rfl⟩ := hpasses
  obtain ⟨w, _, hw⟩ := Checked.exists_of_mem_right hrules hr
  exact ⟨w, hw⟩

theorem rulesIssues_eq_nil {l : Number} {rules : List (Rule Number)} : ∀ {i : Nat},
    rulesIssues l i rules = [] ↔ ∀ r ∈ rules, targetIssues l r = [] := by
  induction rules with
  | nil => simp [rulesIssues]
  | cons r rest ih => simp [rulesIssues, ih]

/-- Where no range issue arises, none arises at any rule. -/
theorem targetIssues_of_rangeIssues {d : Definition Number} {largest : Number}
    (hlargest : d.sentinels.maxStateId = some largest) (h : rangeIssues d = []) :
    ∀ entry ∈ d.states, ∀ r ∈ entry.2, targetIssues largest r = [] := by
  intro entry hentry
  have hissues := List.flatMap_eq_nil_iff.1 h entry hentry
  simp only [entryIssues, hlargest, Option.map_some, Option.getD_some, List.map_eq_nil_iff,
    List.append_eq_nil_iff] at hissues
  exact rulesIssues_eq_nil.1 hissues.2

/-- A value makes the definition that what passed of it denotes. -/
theorem ofValue_eq_ok {v : Value} {d : Definition Nat} :
    ofValue v = .ok d ↔ ∃ r, (check v).Passes r ∧ r.map Number.toNat = d := by
  unfold ofValue
  simp only [← Checked.result_eq_ok]
  cases (check v).result <;> simp

/-- **An accepted definition is sound.** -/
theorem sound_of_ofValue {v : Value} {d : Definition Nat} (h : ofValue v = .ok d) : d.Sound := by
  obtain ⟨r, hr, rfl⟩ := ofValue_eq_ok.1 h
  obtain ⟨fields, rfl, hsentinels, hstates, _, hissues⟩ := passes_check.1 hr
  obtain ⟨_, _, _, hdenotes, hsound⟩ := Sentinels.declares_of_passes hsentinels
  refine ⟨hsound, fun m hm entry hentry rule hrule => ?_⟩
  -- The largest state is one number before and one natural number after.
  obtain ⟨largest, hlargest, hlargest_denotes⟩ :
      ∃ largest, r.sentinels.maxStateId = some largest ∧ largest.Denotes m := by
    have hmax := hdenotes.maxStateId
    rw [show (r.sentinels.map Number.toNat).maxStateId = some m from hm] at hmax
    cases hlargest : r.sentinels.maxStateId <;> rw [hlargest] at hmax <;> cases hmax
    next hdenotes => exact ⟨_, rfl, hdenotes⟩
  obtain ⟨⟨key, rules⟩, hread, rfl⟩ := List.mem_map.1 hentry
  obtain ⟨source, hsource, rfl⟩ := List.mem_map.1 hrule
  obtain ⟨w, hw⟩ := rule_passes hstates _ hread source hsource
  exact Rule.targets_le hlargest_denotes (Rule.denotes_of_passes hw)
    (targetIssues_of_rangeIssues hlargest hissues _ hread source hsource)

end Definition

end OracleNFA
