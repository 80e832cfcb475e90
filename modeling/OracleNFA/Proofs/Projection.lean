/-
  OracleNFA.Proofs.Projection
  ───────────────────────────
  **VALIDATION IS A PROJECTION.**

  An accepted value and the definition that is read of it, written as data again, differ in
  nothing but fields of the sentinels that mean nothing (`Definition.Keeps`).  What is kept
  passes once more as what it is, so reading twice is reading once.  The parts:

      Rule.sameFields_data     — of a rule every field is kept
      Sentinels.restricts_data — of sentinels every field that is known
      Value.arrange_map        — the order of fields is a matter of the keys alone, so a table
                                 that is built again entry by entry keeps its order
      validation_projects      — and all of it for a definition and its oracle
-/
import OracleNFA.Proofs.Contract
import OracleNFA.Proofs.Writing

namespace OracleNFA

/-! ## §1. What is kept of a value. -/

namespace Value

/-- Of the fields of an object, those under the given keys are kept as they were, and no
others. -/
def Restricts (keys : List Text) (v w : Value) : Prop :=
  ∃ given kept, v = .object given ∧ w = .object kept ∧
    ∀ key, lookup key kept = if key ∈ keys then lookup key given else .absent

/-- Under every key the two objects have the same. -/
def SameFields (v w : Value) : Prop :=
  ∃ given kept, v = .object given ∧ w = .object kept ∧
    ∀ key, lookup key kept = lookup key given

/-- Two lists of objects with the same fields, one by one. -/
def SameItems (v w : Value) : Prop :=
  ∃ given kept, v = .array given ∧ w = .array kept ∧ List.Forall₂ SameFields given kept

end Value

/-- What is kept of a definition: the fields of the sentinels that are known, every key of
the table in its place with every field of its rules, and nothing else, because there was
nothing else.  Where the table stands in the order in which objects keep their fields, so
does what is kept of it. -/
structure Definition.Keeps (v w : Value) : Prop where
  sentinels : Value.Restricts Sentinels.keys (v.field "sentinels") (w.field "sentinels")
  states : ∃ entries kept, v.field "states" = .object entries ∧ w.field "states" = .object kept ∧
    List.Forall₂ (fun e k => k.1 = e.1 ∧ Value.SameItems e.2 k.2) entries kept ∧
    (Value.arrange entries = entries → Value.arrange kept = kept)
  rest : ∀ key ∉ (["sentinels", "states"] : List Text),
    v.field key = .absent ∧ w.field key = .absent

/-! ## §2. Rules and sentinels. -/

/-- **Of a rule every field is kept.** -/
theorem Rule.sameFields_data {v : Value} {r : Rule Number} (h : (check v).Passes r) :
    v.SameFields r.data := by
  obtain ⟨given, rfl, hcarries, hkeys, _⟩ := passes_iff.1 h
  refine ⟨given, _, rfl, rfl, fun key => ?_⟩
  rw [Value.lookup_present r.nodup_fields]
  -- A key that is not known is in neither object.
  by_cases hkey : key ∈ keys
  · exact hcarries.lookup_eq hkey
  · have hgiven : key ∉ given.map Prod.fst := mt (Check.strayKeys_eq_nil.1 hkeys key) hkey
    rw [Value.lookup_of_not_mem hgiven]
    exact Value.lookup_of_not_mem hkey

/-- **Of sentinels every field is kept that is known.** -/
theorem Sentinels.restricts_data {v : Value} {s : Sentinels Number} (h : (check v).Passes s) :
    Value.Restricts keys v s.data := by
  obtain ⟨given, rfl, hcarries, _⟩ := passes_iff.1 h
  refine ⟨given, _, rfl, rfl, fun key => ?_⟩
  rw [Value.lookup_present s.nodup_fields]
  split
  · next hkey => exact hcarries.lookup_eq hkey
  · next hkey => exact Value.lookup_of_not_mem hkey

/-! ## §3. The order of fields. -/

namespace Value

variable (f : Text × Value → Value)

/-- Another value under the same key. -/
def revalue (e : Text × Value) : Text × Value :=
  (e.1, f e)

theorem put_map (e : Text × Value) (done : List (Text × Value)) :
    put e.1 (f e) (done.map (revalue f)) = (put e.1 e.2 done).map (revalue f) := by
  induction done with
  | nil => rfl
  | cons first rest ih =>
      obtain ⟨k, w⟩ := first
      show (if k = e.1 then _ else _) = (if k = e.1 then _ else _ : List (Text × Value)).map _
      split
      · next heq => subst heq; rfl
      · exact congrArg (_ :: ·) ih

theorem insertByIndex_map (i : Nat) (e : Text × Value) (done : List (Nat × (Text × Value))) :
    insertByIndex i (revalue f e) (done.map (Prod.map id (revalue f))) =
      (insertByIndex i e done).map (Prod.map id (revalue f)) := by
  induction done with
  | nil => rfl
  | cons first rest ih =>
      obtain ⟨j, other⟩ := first
      show (if i < j then _ else _) = (if i < j then _ else _ : List (Nat × _)).map _
      split
      · rfl
      · exact congrArg (_ :: ·) ih

/-- The fields of an object with each key once, where it was written first. -/
def merged (fields : List (Text × Value)) : List (Text × Value) :=
  fields.foldl (fun done e => put e.1 e.2 done) []

/-- A field is put in its place if its key is an index. -/
def fileIndexed (done : List (Nat × (Text × Value))) (e : Text × Value) :
    List (Nat × (Text × Value)) :=
  match index? e.1 with
  | some i => insertByIndex i e done
  | none => done

theorem arrange_eq (fields : List (Text × Value)) :
    arrange fields = ((merged fields).foldl fileIndexed []).map Prod.snd ++
      (merged fields).filter fun e => (index? e.1).isNone :=
  rfl

theorem merged_map (fields : List (Text × Value)) :
    merged (fields.map (revalue f)) = (merged fields).map (revalue f) := by
  unfold merged
  rw [List.foldl_map]
  show fields.foldl _ (List.map (revalue f) []) = _
  exact List.foldl_hom _ fun done e => put_map f e done

theorem fileIndexed_map (e : Text × Value) (done : List (Nat × (Text × Value))) :
    fileIndexed (done.map (Prod.map id (revalue f))) (revalue f e) =
      (fileIndexed done e).map (Prod.map id (revalue f)) := by
  have hkey : (revalue f e).1 = e.1 := rfl
  unfold fileIndexed
  rw [hkey]
  cases index? e.1 with
  | none => rfl
  | some i => exact insertByIndex_map f i e done

/-- **The order of fields is a matter of the keys alone.** -/
theorem arrange_map (fields : List (Text × Value)) :
    arrange (fields.map (revalue f)) = (arrange fields).map (revalue f) := by
  have hindexed (all : List (Text × Value)) : (all.map (revalue f)).foldl fileIndexed [] =
      (all.foldl fileIndexed []).map (Prod.map id (revalue f)) := by
    rw [List.foldl_map]
    show all.foldl _ (List.map (Prod.map id (revalue f)) []) = _
    exact List.foldl_hom _ fun done e => fileIndexed_map f e done
  rw [arrange_eq, arrange_eq, merged_map, hindexed, List.map_append, List.filter_map, List.map_map,
    List.map_map]
  rfl

end Value

/-! ## §4. Tables. -/

namespace Definition

/-- What is kept under a key of the table. -/
def keptUnder (entry : Text × Value) : Value :=
  ((checkEntry entry).value?.map fun e => (entryData e).2).getD .absent

variable {entry : Text × Value} {e : Text × List (Rule Number)}

theorem entryData_eq (h : (checkEntry entry).Passes e) :
    entryData e = Value.revalue keptUnder entry := by
  unfold Value.revalue keptUnder
  rw [h.2, (passes_checkEntry.1 h).2.1]
  rfl

theorem map_entryData_eq {entries : List (Text × Value)} {states : List (Text × List (Rule Number))}
    (h : List.Forall₂ (fun entry e => (checkEntry entry).Passes e) entries states) :
    states.map entryData = entries.map (Value.revalue keptUnder) := by
  induction h with
  | nil => rfl
  | cons he _ ih => rw [List.map_cons, List.map_cons, entryData_eq he, ih]

/-- **Of an entry every field of its rules is kept.** -/
theorem sameItems_entryData (h : (checkEntry entry).Passes e) :
    entry.2.SameItems (entryData e).2 := by
  obtain ⟨_, _, values, hvalues, hrules⟩ := passes_checkEntry.1 h
  refine ⟨values, _, hvalues, rfl, ?_⟩
  rw [List.forall₂_map_right_iff]
  exact hrules.imp fun w r hw => Rule.sameFields_data hw

variable {v : Value} {d : Definition Number}

/-- **A definition that passed is what is kept of the value.** -/
theorem keeps_data (h : (check v).Passes d) : Keeps v d.data := by
  obtain ⟨fields, rfl, hsentinels, hstates, hkeys, _⟩ := passes_check.1 h
  obtain ⟨entries, htable, hentries⟩ := passes_checkStates.1 hstates
  have hkept := map_entryData_eq hentries
  refine ⟨Sentinels.restricts_data hsentinels, ⟨entries, _, htable, rfl, ?_, ?_⟩, ?_⟩
  -- The entries one by one, then their order, then what is beside the two fields.
  · rw [List.forall₂_map_right_iff]
    exact hentries.imp fun entry e he => ⟨(passes_checkEntry.1 he).2.1.symm, sameItems_entryData he⟩
  · intro harranged
    rw [hkept, Value.arrange_map, harranged]
  · intro key hkey
    have hgiven : key ∉ fields.map Prod.fst := mt (Check.strayKeys_eq_nil.1 hkeys key) hkey
    exact ⟨Value.lookup_of_not_mem hgiven, Value.lookup_of_not_mem hkey⟩

end Definition

/-! ## §5. Definitions and their oracles. -/

/-- **Validation is a projection.**  Take any value that is accepted as a definition, and the
definition `kept` in the numbers that were given, which denote those of `d`.  Written as
data, it has all of the value but the fields of its sentinels that mean nothing.  Validated
once more it comes out as it is, in its own numbers and in natural ones.  And whichever of
the three the oracle is made from, the making succeeds, the sentinels are the same and sound,
and every query has the same answer. -/
theorem validation_projects {v : Value} {d : Definition Nat} (h : Definition.ofValue v = .ok d) :
    ∃ kept : Definition Number,
      (Definition.check v).result = .ok kept ∧ kept.map Number.toNat = d ∧
      Definition.Keeps v kept.data ∧
      (Definition.check kept.data).result = .ok kept ∧
      Definition.ofValue d.toValue = .ok d ∧
      ∃ oracle, (Definition.ofValue v).map Definition.oracle = .ok oracle ∧
        Numbering.ofValue oracle.sentinels = .ok d.sentinels.resolve ∧
        ∀ w ∈ [kept.data, d.toValue], ∃ again,
          (Definition.ofValue w).map Definition.oracle = .ok again ∧
          again.sentinels = oracle.sentinels ∧ ∀ q, again.answer q = oracle.answer q := by
  obtain ⟨kept, hkept, rfl⟩ := Definition.ofValue_eq_ok.1 h
  have hpasses : (Definition.check kept.data).Passes kept :=
    (Definition.clean_of_passes hkept).passes_data
  have hwritten := Definition.ofValue_toValue h
  refine ⟨kept, Checked.result_eq_ok.2 hkept, rfl, Definition.keeps_data hkept,
    Checked.result_eq_ok.2 hpasses, hwritten, (kept.map Number.toNat).oracle, ?made,
    Definition.ofValue_oracle (Definition.sound_of_ofValue h), ?again⟩
  case made => rw [h]; rfl
  case again =>
    -- Either way of writing is read as the one definition.
    have hread : ∀ w ∈ [kept.data, (kept.map Number.toNat).toValue],
        Definition.ofValue w = .ok (kept.map Number.toNat) :=
      List.forall_mem_cons.2 ⟨Definition.ofValue_eq_ok.2 ⟨kept, hpasses, rfl⟩,
        List.forall_mem_singleton.2 hwritten⟩
    intro w hw
    refine ⟨(kept.map Number.toNat).oracle, ?_, rfl, fun _ => rfl⟩
    rw [hread w hw]
    rfl

/-- A definition with a note among its sentinels, a signed zero, fields that hold nothing
and keys that are too large to be indices. -/
def annotated : Value :=
  let state (id : Nat) : Value := .number (.ofNat id)
  .object [("sentinels", .object [("note", .text "draft"), ("match", state 1),
      ("start", .number .negativeZero), ("reject", state 2), ("endOfInput", .absent)]),
    ("states", .object [
      ("0", .array [.object [("next", .number .negativeZero), ("on", .text "a"),
        ("branch", .absent), ("consume", .bool true)]]),
      ("7", .array [.object [("notOn", .text ""), ("next", state 1)]]),
      ("4294967296", .array []), ("4294967295", .array [])])]

theorem validation_projects_annotated :
    let d : Definition Nat := ⟨⟨0, 1, 2, none, none⟩,
      [("0", [⟨some (Text.ofString "a"), none, none, none, none, 0, none, some true⟩]),
        ("7", [⟨none, some Text.empty, none, none, none, 1, none, none⟩]),
        ("4294967296", []), ("4294967295", [])]⟩
    Definition.ofValue annotated = .ok d ∧ Definition.ofValue d.toValue = .ok d ∧
      ∃ kept : Definition Number, (Definition.check kept.data).result = .ok kept ∧
        Definition.Keeps annotated kept.data ∧
        (kept.data.field "sentinels").field "start" = .number .negativeZero ∧
        (kept.data.field "sentinels").field "note" = .absent ∧
        ∃ table, kept.data.field "states" = .object table ∧ Value.arrange table = table := by
  intro d
  have haccepted : Definition.ofValue annotated = .ok d := by rfl
  obtain ⟨kept, _, _, hkeeps, hagain, hwritten, _⟩ := validation_projects haccepted
  obtain ⟨given, _, hgiven, hdata, hlookup⟩ := hkeeps.sentinels
  obtain ⟨entries, table, hentries, htable, _, harranged⟩ := hkeeps.states
  obtain rfl := Value.object.inj hgiven
  obtain rfl := Value.object.inj hentries
  refine ⟨haccepted, hwritten, kept, hagain, hkeeps, ?_, ?_, table, htable, harranged (by rfl)⟩
  · rw [hdata]
    exact hlookup "start"
  · rw [hdata]
    exact hlookup "note"

end OracleNFA
