/-
  OracleNFA.Proofs.Kinds
  ──────────────────────
  **WHAT IS READ OF A DEFINITION.**

  A definition is read, whatever else is wrong with it, exactly if every value in it is of
  the right kind.  The kinds are stated of the data alone, level by level:

      Rule.exists_reads             — the fields of a rule
      Sentinels.exists_reads        — the fields of sentinels, and the largest state they give
      Definition.exists_reads_entry — the rules under a key
      Definition.exists_reads       — a whole definition

  What is read keeps its place: the rules that are read of a table stand in the order of its
  entries, under the same keys, and lead where their fields say (`Definition.EntryLeadsTo`).
-/
import OracleNFA.Proofs.Grammar
import OracleNFA.Proofs.Reading

namespace OracleNFA

/-! ## §1. Values of the right kinds. -/

namespace Value

/-- A number; the infinities are numbers. -/
def IsNumber (v : Value) : Prop :=
  ∃ x, v = .number x ∧ x ≠ .nan

/-- The value is the given number, or is missing where none is given. -/
def Holds (v : Value) : Option Number → Prop
  | some x => v = .number x ∧ x ≠ .nan
  | none => v = .absent

end Value

/-- The fields of a rule are of the right kinds. -/
structure Rule.Typed (fields : List (Text × Value)) : Prop where
  on : (Value.lookup "on" fields).MissingOr Value.IsText
  notOn : (Value.lookup "notOn" fields).MissingOr Value.IsText
  atEnd : (Value.lookup "atEnd" fields).MissingOr Value.IsBool
  lookahead : (Value.lookup "lookahead" fields).MissingOr Value.IsText
  notLookahead : (Value.lookup "notLookahead" fields).MissingOr Value.IsText
  next : (Value.lookup "next" fields).IsNumber
  branch : (Value.lookup "branch" fields).MissingOr Value.IsNumber
  consume : (Value.lookup "consume" fields).MissingOr Value.IsBool

/-- The fields of sentinels are of the right kinds, and give this largest state. -/
structure Sentinels.Typed (fields : List (Text × Value)) (largest : Option Number) : Prop where
  start : (Value.lookup "start" fields).IsNumber
  accept : (Value.lookup "match" fields).IsNumber
  reject : (Value.lookup "reject" fields).IsNumber
  endOfInput : (Value.lookup "endOfInput" fields).MissingOr Value.IsNumber
  maxStateId : (Value.lookup "maxStateId" fields).Holds largest

/-- A value under a key is a list of rules of the right kinds. -/
def Definition.TypedRules (v : Value) : Prop :=
  ∃ values, v = .array values ∧ ∀ w ∈ values, ∃ fields, w = .object fields ∧ Rule.Typed fields

/-- A definition with this largest state and these entries, in which every value is of the
right kind, whatever else is wrong with it. -/
structure Definition.Typed (v : Value) (largest : Option Number) (entries : List (Text × Value)) :
    Prop where
  sentinels : ∃ fields, v.field "sentinels" = .object fields ∧ Sentinels.Typed fields largest
  states : v.field "states" = .object entries
  rules : ∀ entry ∈ entries, Definition.TypedRules entry.2

/-! ## §2. Reading simple values. -/

namespace Check

variable {v : Value}

theorem reads_number_iff {x : Number} : (natural v).Reads x ↔ v.Holds (some x) :=
  reads_natural

theorem reads_optional_number_iff {o : Option Number} :
    (optional natural v).Reads o ↔ v.Holds o := by
  rw [reads_optional]
  cases o with
  | none => simp [Value.Holds]
  | some x =>
      simp only [reads_number_iff, reduceCtorEq, and_false, false_or, Option.some.injEq,
        exists_eq_right']
      refine and_iff_right_of_imp fun h => ?_
      rw [h.1]
      exact nofun

theorem exists_reads_number : (∃ x, (natural v).Reads x) ↔ v.IsNumber := by
  simp only [reads_natural, Value.IsNumber]

theorem exists_reads_bool : (∃ b, (bool v).Reads b) ↔ v.IsBool := by
  simp only [reads_bool, Value.IsBool]

theorem exists_reads_text : (∃ t, (text v).Reads t) ↔ v.IsText := by
  simp only [reads_text, Value.IsText]

theorem exists_reads_someText : (∃ t, (someText v).Reads t) ↔ v.IsText := by
  simp only [reads_someText, Value.IsText]

/-- What may be missing is read if it is missing or of the right kind. -/
theorem exists_reads_optional {α : Type} {check : Check α} {p : Value → Prop}
    (h : (∃ a, (check v).Reads a) ↔ p v) : (∃ o, (optional check v).Reads o) ↔ v.MissingOr p := by
  simp only [reads_optional, Value.MissingOr, ← h]
  constructor
  · rintro ⟨o, ⟨hv, _⟩ | ⟨_, a, ha, _⟩⟩
    · exact .inl hv
    · exact .inr ⟨a, ha⟩
  · intro hor
    by_cases hv : v = .absent
    · exact ⟨none, .inl ⟨hv, rfl⟩⟩
    · obtain ⟨a, ha⟩ := hor.resolve_left hv
      exact ⟨some a, .inr ⟨hv, a, ha, rfl⟩⟩

end Check

/-! ## §3. Reading rules and sentinels. -/

namespace Rule

variable {v : Value} {r : Rule Number}

/-- A rule is read when its fields are. -/
theorem reads_check : (check v).Reads r ↔ ∃ fields, v = .object fields ∧
    (Check.optional Check.someText (Value.lookup "on" fields)).Reads r.on ∧
    (Check.optional Check.text (Value.lookup "notOn" fields)).Reads r.notOn ∧
    (Check.optional Check.bool (Value.lookup "atEnd" fields)).Reads r.atEnd ∧
    (Check.optional Check.someText (Value.lookup "lookahead" fields)).Reads r.lookahead ∧
    (Check.optional Check.someText (Value.lookup "notLookahead" fields)).Reads r.notLookahead ∧
    (Check.natural (Value.lookup "next" fields)).Reads r.next ∧
    (Check.optional Check.natural (Value.lookup "branch" fields)).Reads r.branch ∧
    (Check.optional Check.bool (Value.lookup "consume" fields)).Reads r.consume := by
  obtain ⟨on, notOn, atEnd, look, notLook, next, branch, consume⟩ := r
  unfold check
  simp only [Check.reads_object, Check.reads_closed, Checked.reads_ap, Checked.reads_fmap,
    Check.reads_field]
  refine exists_congr fun fields => and_congr_right fun _ => ?_
  constructor
  · rintro ⟨_, _, ⟨_, _, ⟨_, _, ⟨_, _, ⟨_, _, ⟨_, _, ⟨_, _, ⟨_, hon, rfl⟩, hnotOn, rfl⟩,
      hatEnd, rfl⟩, hlook, rfl⟩, hnotLook, rfl⟩, hnext, rfl⟩, hbranch, rfl⟩, hconsume, heq⟩
    obtain ⟨rfl, rfl, rfl, rfl, rfl, rfl, rfl, rfl⟩ := Rule.mk.inj heq
    exact ⟨hon, hnotOn, hatEnd, hlook, hnotLook, hnext, hbranch, hconsume⟩
  · rintro ⟨hon, hnotOn, hatEnd, hlook, hnotLook, hnext, hbranch, hconsume⟩
    exact ⟨_, _, ⟨_, _, ⟨_, _, ⟨_, _, ⟨_, _, ⟨_, _, ⟨_, _, ⟨_, hon, rfl⟩, hnotOn, rfl⟩,
      hatEnd, rfl⟩, hlook, rfl⟩, hnotLook, rfl⟩, hnext, rfl⟩, hbranch, rfl⟩, hconsume, rfl⟩

/-- **A rule is read exactly if its fields are of the right kinds.** -/
theorem exists_reads : (∃ r, (check v).Reads r) ↔ ∃ fields, v = .object fields ∧ Typed fields := by
  simp only [reads_check]
  constructor
  · rintro ⟨r, fields, rfl, hon, hnotOn, hatEnd, hlook, hnotLook, hnext, hbranch, hconsume⟩
    exact ⟨fields, rfl, {
      on := (Check.exists_reads_optional Check.exists_reads_someText).1 ⟨_, hon⟩
      notOn := (Check.exists_reads_optional Check.exists_reads_text).1 ⟨_, hnotOn⟩
      atEnd := (Check.exists_reads_optional Check.exists_reads_bool).1 ⟨_, hatEnd⟩
      lookahead := (Check.exists_reads_optional Check.exists_reads_someText).1 ⟨_, hlook⟩
      notLookahead := (Check.exists_reads_optional Check.exists_reads_someText).1 ⟨_, hnotLook⟩
      next := Check.exists_reads_number.1 ⟨_, hnext⟩
      branch := (Check.exists_reads_optional Check.exists_reads_number).1 ⟨_, hbranch⟩
      consume := (Check.exists_reads_optional Check.exists_reads_bool).1 ⟨_, hconsume⟩ }⟩
  · rintro ⟨fields, rfl, h⟩
    obtain ⟨on, hon⟩ := (Check.exists_reads_optional Check.exists_reads_someText).2 h.on
    obtain ⟨notOn, hnotOn⟩ := (Check.exists_reads_optional Check.exists_reads_text).2 h.notOn
    obtain ⟨atEnd, hatEnd⟩ := (Check.exists_reads_optional Check.exists_reads_bool).2 h.atEnd
    obtain ⟨look, hlook⟩ := (Check.exists_reads_optional Check.exists_reads_someText).2 h.lookahead
    obtain ⟨notLook, hnotLook⟩ :=
      (Check.exists_reads_optional Check.exists_reads_someText).2 h.notLookahead
    obtain ⟨next, hnext⟩ := Check.exists_reads_number.2 h.next
    obtain ⟨branch, hbranch⟩ := (Check.exists_reads_optional Check.exists_reads_number).2 h.branch
    obtain ⟨consume, hconsume⟩ := (Check.exists_reads_optional Check.exists_reads_bool).2 h.consume
    exact ⟨⟨on, notOn, atEnd, look, notLook, next, branch, consume⟩, fields, rfl, hon, hnotOn,
      hatEnd, hlook, hnotLook, hnext, hbranch, hconsume⟩

/-- What was read of a rule leads where its fields say. -/
def LeadsTo (w : Value) (r : Rule Number) : Prop :=
  ∃ fields, w = .object fields ∧ (Value.lookup "next" fields).Holds (some r.next) ∧
    (Value.lookup "branch" fields).Holds r.branch

theorem leadsTo_of_reads (h : (check v).Reads r) : LeadsTo v r := by
  obtain ⟨fields, rfl, _, _, _, _, _, hnext, hbranch, _⟩ := reads_check.1 h
  exact ⟨fields, rfl, Check.reads_number_iff.1 hnext, Check.reads_optional_number_iff.1 hbranch⟩

end Rule

namespace Sentinels

variable {v : Value} {s : Sentinels Number}

/-- Sentinels are read when their fields are. -/
theorem reads_check : (check v).Reads s ↔ ∃ fields, v = .object fields ∧
    (Check.natural (Value.lookup "start" fields)).Reads s.start ∧
    (Check.natural (Value.lookup "match" fields)).Reads s.accept ∧
    (Check.natural (Value.lookup "reject" fields)).Reads s.reject ∧
    (Check.optional Check.natural (Value.lookup "endOfInput" fields)).Reads s.endOfInput ∧
    (Check.optional Check.natural (Value.lookup "maxStateId" fields)).Reads s.maxStateId := by
  obtain ⟨start, accept, reject, endOfInput, maxStateId⟩ := s
  unfold check
  simp only [Check.reads_object, Checked.reads_refine, Checked.reads_ap, Checked.reads_fmap,
    Check.reads_field]
  refine exists_congr fun fields => and_congr_right fun _ => ?_
  constructor
  · rintro ⟨_, _, ⟨_, _, ⟨_, _, ⟨_, _, ⟨_, hstart, rfl⟩, haccept, rfl⟩, hreject, rfl⟩, hend, rfl⟩,
      hmax, heq⟩
    obtain ⟨rfl, rfl, rfl, rfl, rfl⟩ := Sentinels.mk.inj heq
    exact ⟨hstart, haccept, hreject, hend, hmax⟩
  · rintro ⟨hstart, haccept, hreject, hend, hmax⟩
    exact ⟨_, _, ⟨_, _, ⟨_, _, ⟨_, _, ⟨_, hstart, rfl⟩, haccept, rfl⟩, hreject, rfl⟩, hend, rfl⟩,
      hmax, rfl⟩

/-- **Sentinels are read exactly if their fields are of the right kinds.** -/
theorem exists_reads {largest : Option Number} :
    (∃ s, (check v).Reads s ∧ s.maxStateId = largest) ↔
      ∃ fields, v = .object fields ∧ Typed fields largest := by
  simp only [reads_check]
  constructor
  · rintro ⟨s, ⟨fields, rfl, hstart, haccept, hreject, hend, hmax⟩, rfl⟩
    exact ⟨fields, rfl, {
      start := Check.exists_reads_number.1 ⟨_, hstart⟩
      accept := Check.exists_reads_number.1 ⟨_, haccept⟩
      reject := Check.exists_reads_number.1 ⟨_, hreject⟩
      endOfInput := (Check.exists_reads_optional Check.exists_reads_number).1 ⟨_, hend⟩
      maxStateId := Check.reads_optional_number_iff.1 hmax }⟩
  · rintro ⟨fields, rfl, h⟩
    obtain ⟨start, hstart⟩ := Check.exists_reads_number.2 h.start
    obtain ⟨accept, haccept⟩ := Check.exists_reads_number.2 h.accept
    obtain ⟨reject, hreject⟩ := Check.exists_reads_number.2 h.reject
    obtain ⟨endOfInput, hend⟩ :=
      (Check.exists_reads_optional Check.exists_reads_number).2 h.endOfInput
    exact ⟨⟨start, accept, reject, endOfInput, largest⟩, ⟨fields, rfl, hstart, haccept, hreject,
      hend, Check.reads_optional_number_iff.2 h.maxStateId⟩, rfl⟩

end Sentinels

/-! ## §4. Reading definitions. -/

/-- A list is read if each of its members is. -/
theorem Checked.exists_each {α β : Type} {R : α → β → Prop} {as : List α} :
    (∃ bs, List.Forall₂ R as bs) ↔ ∀ a ∈ as, ∃ b, R a b := by
  simpa using @Checked.exists_forall₂ α β R (fun _ => True) as

namespace Definition

variable {v : Value} {d : Definition Number} {largest : Option Number}
  {entries : List (Text × Value)} {entry : Text × Value}

theorem reads_checkEntry {e : Text × List (Rule Number)} : (checkEntry entry).Reads e ↔
    entry.1 = e.1 ∧ ∃ values, entry.2 = .array values ∧
      List.Forall₂ (fun w r => (Rule.check w).Reads r) values e.2 := by
  obtain ⟨key, rules⟩ := e
  unfold checkEntry
  simp only [Checked.reads_under, Checked.reads_ap, Checked.reads_fmap, Checked.reads_flagged,
    Check.reads_list]
  constructor
  · rintro ⟨_, _, ⟨_, rfl, rfl⟩, hrules, heq⟩
    obtain ⟨rfl, rfl⟩ := Prod.mk.inj heq
    exact ⟨rfl, hrules⟩
  · rintro ⟨rfl, hrules⟩
    exact ⟨_, _, ⟨_, rfl, rfl⟩, hrules, rfl⟩

/-- A list of rules is read exactly if all of them are of the right kinds. -/
theorem exists_reads_entry : (∃ e, (checkEntry entry).Reads e) ↔ TypedRules entry.2 := by
  simp only [reads_checkEntry, TypedRules, ← Rule.exists_reads, ← Checked.exists_each]
  constructor
  · rintro ⟨⟨_, rules⟩, _, values, hvalues, hreads⟩
    exact ⟨values, hvalues, rules, hreads⟩
  · rintro ⟨values, hvalues, rules, hreads⟩
    exact ⟨⟨entry.1, rules⟩, rfl, values, hvalues, hreads⟩

/-- What was read of an entry has its key, and its rules lead where their fields say. -/
def EntryLeadsTo (entry : Text × Value) (e : Text × List (Rule Number)) : Prop :=
  entry.1 = e.1 ∧ ∃ values, entry.2 = .array values ∧ List.Forall₂ Rule.LeadsTo values e.2

theorem leadsTo_of_reads {e : Text × List (Rule Number)} (h : (checkEntry entry).Reads e) :
    EntryLeadsTo entry e := by
  obtain ⟨hkey, values, hvalues, hrules⟩ := reads_checkEntry.1 h
  exact ⟨hkey, values, hvalues, hrules.imp fun _ _ => Rule.leadsTo_of_reads⟩

/-- The entries that a table keeps. -/
def kept (entries : List (Text × Value)) : List (Text × Value) :=
  entries.filter fun entry => entry.1 ≠ droppedKey

theorem reads_checkStates {states : List (Text × List (Rule Number))} :
    (checkStates v).Reads states ↔ ∃ entries es, v = .object entries ∧
      List.Forall₂ (fun entry e => (checkEntry entry).Reads e) entries es ∧
      es.filter (fun e => e.1 ≠ droppedKey) = states := by
  unfold checkStates
  simp only [Check.reads_object, Checked.reads_map, Checked.reads_all, List.forall₂_map_left_iff,
    exists_and_left]

/-- Entries are dropped by their keys. -/
theorem leadsTo_of_reads_states {states : List (Text × List (Rule Number))}
    (h : (checkStates (.object entries)).Reads states) :
    List.Forall₂ EntryLeadsTo (kept entries) states := by
  obtain ⟨_, es, heq, hreads, rfl⟩ := reads_checkStates.1 h
  obtain rfl := Value.object.inj heq
  refine List.rel_filter ?_ (hreads.imp fun _ _ => leadsTo_of_reads)
  intro entry e he
  show decide (entry.1 ≠ droppedKey) = true ↔ decide (e.1 ≠ droppedKey) = true
  rw [he.1]

theorem reads_check : (check v).Reads d ↔ ∃ fields, v = .object fields ∧
    (Sentinels.check (Value.lookup "sentinels" fields)).Reads d.sentinels ∧
    (checkStates (Value.lookup "states" fields)).Reads d.states := by
  obtain ⟨sentinels, states⟩ := d
  unfold check
  simp only [Check.reads_object, Checked.reads_refine, Check.reads_closed, Checked.reads_ap,
    Checked.reads_fmap, Check.reads_field]
  refine exists_congr fun fields => and_congr_right fun _ => ?_
  constructor
  · rintro ⟨_, _, ⟨_, hsentinels, rfl⟩, hstates, heq⟩
    obtain ⟨rfl, rfl⟩ := Definition.mk.inj heq
    exact ⟨hsentinels, hstates⟩
  · rintro ⟨hsentinels, hstates⟩
    exact ⟨_, _, ⟨_, hsentinels, rfl⟩, hstates, rfl⟩

/-- **What was read of a definition** has the largest state and the entries that it gives, and
every value of it is of the right kind. -/
theorem typed_of_reads (h : (check v).Reads d) : ∃ entries,
    Typed v d.sentinels.maxStateId entries ∧ List.Forall₂ EntryLeadsTo (kept entries) d.states := by
  obtain ⟨fields, rfl, hsentinels, hstates⟩ := reads_check.1 h
  obtain ⟨entries, es, hentries, hreads, _⟩ := reads_checkStates.1 hstates
  refine ⟨entries, ⟨Sentinels.exists_reads.1 ⟨_, hsentinels, rfl⟩, hentries,
    fun entry hentry => ?_⟩, leadsTo_of_reads_states (hentries ▸ hstates)⟩
  exact exists_reads_entry.1 (Checked.exists_each.1 ⟨es, hreads⟩ entry hentry)

/-- **A definition is read exactly if every value in it is of the right kind.** -/
theorem exists_reads : (∃ d, (check v).Reads d ∧ d.sentinels.maxStateId = largest) ↔
    ∃ entries, Typed v largest entries := by
  constructor
  · rintro ⟨d, hd, rfl⟩
    obtain ⟨entries, h, _⟩ := typed_of_reads hd
    exact ⟨entries, h⟩
  · rintro ⟨entries, h⟩
    -- Only an object has an object for a field.
    obtain ⟨fields, rfl⟩ : ∃ fields, v = .object fields := by
      cases v with
      | object fields => exact ⟨fields, rfl⟩
      | _ => exact nomatch h.states
    obtain ⟨s, hs, hlargest⟩ := Sentinels.exists_reads.2 h.sentinels
    obtain ⟨es, hes⟩ := Checked.exists_each.2 fun entry he =>
      exists_reads_entry.2 (h.rules entry he)
    exact ⟨⟨s, _⟩, reads_check.2 ⟨fields, rfl, hs, reads_checkStates.2 ⟨_, es, h.states, hes, rfl⟩⟩,
      hlargest⟩

end Definition

end OracleNFA
