/-
  OracleNFA.Proofs.Writing
  ────────────────────────
  **WHAT PASSED, WRITTEN OUT AGAIN.**

  A definition is checked over numbers, so what passed can be written as data again in the
  numbers that were given (`Rule.data`, `Sentinels.data`, `Definition.data`).  A check is
  then no more than a comparison: an object passes with a value exactly if it carries what
  is written of that value, and the value meets the tests (`Clean`):

      Check.passes_optional_iff    — one field that may be missing
      Rule.passes_iff              — a rule
      Sentinels.passes_iff         — sentinels, whatever else their object carries
      Definition.Clean.passes_data — hence what is clean passes as what it is

  The data that a definition over natural numbers makes is the same writing
  (`Definition.toValue_eq`), without the signs of zeros.  No test sees these
  (`Definition.Clean.unsigned`), so natural numbers are read back as well
  (`Definition.ofValue_toValue`).
-/
import OracleNFA.Proofs.Grammar

namespace OracleNFA

/-! ## §1. Fields that are stated. -/

namespace Value

variable {fields stated : List (Text × Value)} {key : Text}

/-- A value that may be missing, written by `write` where it is there. -/
def ofOption {α : Type} (write : α → Value) : Option α → Value
  | some a => write a
  | none => .absent

/-- The fields that hold a value. -/
def present (fields : List (Text × Value)) : List (Text × Value) :=
  fields.filter fun e => e.2.kind ≠ .absent

/-- All of the stated fields are found in an object. -/
def Carries (fields stated : List (Text × Value)) : Prop :=
  ∀ e ∈ stated, lookup e.1 fields = e.2

theorem kind_eq_absent {v : Value} : v.kind = .absent ↔ v = .absent := by
  cases v with
  | number x => cases x <;> simp [kind]
  | _ => simp [kind]

theorem lookup_of_not_mem (h : key ∉ fields.map Prod.fst) : lookup key fields = .absent := by
  induction fields with
  | nil => rfl
  | cons e rest ih =>
      obtain ⟨k, v⟩ := e
      rw [List.map_cons, List.mem_cons, not_or] at h
      rw [lookup, if_neg (Ne.symm h.1), ih h.2]

/-- A field without a value reads like one that is not there. -/
theorem lookup_present (h : (fields.map Prod.fst).Nodup) :
    lookup key (present fields) = lookup key fields := by
  induction fields with
  | nil => rfl
  | cons e rest ih =>
      obtain ⟨k, v⟩ := e
      obtain ⟨hk, hrest⟩ := List.nodup_cons.1 h
      unfold present at ih ⊢
      by_cases hv : v = .absent
      · subst hv
        rw [List.filter_cons_of_neg (by simp [kind]), ih hrest, lookup]
        -- If the field that goes is the one looked up, no other has its key.
        split
        · next heq => exact lookup_of_not_mem (heq ▸ hk)
        · rfl
      · rw [List.filter_cons_of_pos (by simpa [kind_eq_absent] using hv), lookup, lookup, ih hrest]

theorem carries_self (h : (stated.map Prod.fst).Nodup) : Carries stated stated := by
  induction stated with
  | nil => exact fun e he => absurd he List.not_mem_nil
  | cons first rest ih =>
      obtain ⟨k, v⟩ := first
      obtain ⟨hk, hrest⟩ := List.nodup_cons.1 h
      refine List.forall_mem_cons.2 ⟨if_pos rfl, fun e he => ?_⟩
      have hne : k ≠ e.1 := fun heq => hk (List.mem_map.2 ⟨e, he, heq.symm⟩)
      rw [lookup, if_neg hne]
      exact ih hrest e he

/-- What is written is carried by what is written. -/
theorem carries_present (h : (stated.map Prod.fst).Nodup) : Carries (present stated) stated :=
  fun e he => (lookup_present h).trans (carries_self h e he)

/-- Under a key that is stated, there is what is stated. -/
theorem Carries.lookup_eq (h : Carries fields stated) (hkey : key ∈ stated.map Prod.fst) :
    lookup key stated = lookup key fields := by
  induction stated with
  | nil => exact absurd hkey List.not_mem_nil
  | cons e rest ih =>
      obtain ⟨k, v⟩ := e
      obtain ⟨hfirst, hrest⟩ := List.forall_mem_cons.1 h
      rw [lookup]
      split
      · next heq => rw [← heq, hfirst]
      · next hne =>
          refine ih hrest ((List.mem_cons.1 hkey).resolve_left ?_)
          exact fun heq => hne heq.symm

@[simp] theorem present_nil : present [] = [] :=
  rfl

theorem present_cons {v : Value} (hv : v ≠ .absent) (key : Text) (rest : List (Text × Value)) :
    present ((key, v) :: rest) = (key, v) :: present rest :=
  List.filter_cons_of_pos (by simpa [kind_eq_absent] using hv)

theorem present_cons_ofOption {α : Type} {write : α → Value} (hwrite : ∀ a, write a ≠ .absent)
    (key : Text) (o : Option α) (rest : List (Text × Value)) :
    present ((key, ofOption write o) :: rest) =
      (o.map fun a => (key, write a)).toList ++ present rest := by
  cases o with
  | none => exact List.filter_cons_of_neg (by simp [ofOption, kind])
  | some a => exact present_cons (hwrite a) key rest

end Value

/-! ## §2. Numbers and fields that may be missing. -/

namespace Number

variable {largest largest' : Option Number} {m : Option Nat}

theorem exists_denotes (h : Option.Rel Denotes largest m) :
    ∀ x, largest = some x → ∃ n, x.Denotes n := by
  cases h with
  | none => exact nofun
  | some hdenotes => exact fun _ hx => ⟨_, Option.some.inj hx ▸ hdenotes⟩

theorem denotes_option_ofNat : ∀ o : Option Nat, Option.Rel Denotes (o.map ofNat) o
  | none => .none
  | some n => .some (denotes_ofNat n)

/-- Whether a number is above the largest one can be told from what the two denote. -/
theorem within_unsigned (h : Option.Rel Denotes largest m) (h' : Option.Rel Denotes largest' m)
    {x : Number} (hx : ∃ n, x.Denotes n) (hwithin : ∀ l, largest = some l → l.lt x = false) :
    ∀ l, largest' = some l → l.lt (ofNat x.toNat) = false := by
  obtain ⟨n, hn⟩ := hx
  rw [toNat_eq hn]
  exact (within_iff h' (denotes_ofNat n)).2 ((within_iff h hn).1 hwithin)

end Number

namespace Check

section Optional

variable {α : Type} {check : Check α} {write : α → Value} {v : Value} {o : Option α}

/-- **What may be missing** passes as what it is written as, if what may be missing does. -/
theorem passes_optional_iff {ok : α → Prop} (hwrite : ∀ a, write a ≠ .absent)
    (hcheck : ∀ {v a}, (check v).Passes a ↔ v = write a ∧ ok a) :
    (optional check v).Passes o ↔ v = .ofOption write o ∧ ∀ a, o = some a → ok a := by
  rw [passes_optional]
  cases o with
  | none => simp [Value.ofOption]
  | some a =>
      simp only [hcheck, reduceCtorEq, and_false, false_or, Option.some.injEq, exists_eq_right',
        forall_eq', Value.ofOption]
      refine and_iff_right_of_imp ?_
      rintro ⟨rfl, _⟩
      exact hwrite a

theorem passes_optional_kind_iff (hwrite : ∀ a, write a ≠ .absent)
    (hcheck : ∀ {v a}, (check v).Passes a ↔ v = write a) :
    (optional check v).Passes o ↔ v = .ofOption write o := by
  have hall := passes_optional_iff (v := v) (o := o) hwrite fun {v a} =>
    (hcheck (v := v) (a := a)).trans (and_iff_left trivial).symm
  simpa using hall

end Optional

variable {v : Value}

theorem passes_optional_bool {o : Option Bool} :
    (optional bool v).Passes o ↔ v = .ofOption .bool o :=
  passes_optional_kind_iff nofun passes_bool

theorem passes_optional_text {o : Option Text} :
    (optional text v).Passes o ↔ v = .ofOption .text o :=
  passes_optional_kind_iff nofun passes_text

theorem passes_optional_someText {o : Option Text} : (optional someText v).Passes o ↔
    v = .ofOption .text o ∧ ∀ t, o = some t → t.isEmpty = false :=
  passes_optional_iff nofun passes_someText

theorem passes_optional_natural {o : Option Number} : (optional natural v).Passes o ↔
    v = .ofOption .number o ∧ ∀ x, o = some x → ∃ n, x.Denotes n :=
  passes_optional_iff nofun passes_natural

/-- Only the keys that are known are written. -/
theorem strayKeys_present {known : List Text} {stated : List (Text × Value)}
    (h : stated.map Prod.fst = known) : strayKeys known (Value.present stated) = [] := by
  subst h
  refine strayKeys_eq_nil.2 fun key hkey => ?_
  obtain ⟨e, he, rfl⟩ := List.mem_map.1 hkey
  exact List.mem_map_of_mem (List.mem_of_mem_filter he)

end Check

/-! ## §3. Rules. -/

namespace Rule

variable {v : Value} {r : Rule Number}

/-- What is stated of a rule, field by field. -/
def fields (r : Rule Number) : List (Text × Value) :=
  [("on", .ofOption .text r.on), ("notOn", .ofOption .text r.notOn),
    ("atEnd", .ofOption .bool r.atEnd), ("lookahead", .ofOption .text r.lookahead),
    ("notLookahead", .ofOption .text r.notLookahead), ("next", .number r.next),
    ("branch", .ofOption .number r.branch), ("consume", .ofOption .bool r.consume)]

/-- A rule as data, in its own numbers. -/
def data (r : Rule Number) : Value :=
  .object (Value.present r.fields)

/-- A rule that no test complains about. -/
structure Clean (r : Rule Number) : Prop where
  on : ∀ t, r.on = some t → t.isEmpty = false
  lookahead : ∀ t, r.lookahead = some t → t.isEmpty = false
  notLookahead : ∀ t, r.notLookahead = some t → t.isEmpty = false
  next : ∃ n, r.next.Denotes n
  branch : ∀ b, r.branch = some b → ∃ n, b.Denotes n

theorem keys_fields (r : Rule Number) : r.fields.map Prod.fst = keys :=
  rfl

theorem nodup_fields (r : Rule Number) : (r.fields.map Prod.fst).Nodup := by
  rw [keys_fields]
  decide

/-- **An object passes as a rule** if it carries what is stated of the rule and nothing
else, and the rule is clean. -/
theorem passes_iff : (check v).Passes r ↔ ∃ given, v = .object given ∧
    Value.Carries given r.fields ∧ Check.strayKeys keys given = [] ∧ r.Clean := by
  rw [passes_check]
  refine exists_congr fun given => and_congr_right fun _ => ?_
  simp only [Check.passes_optional_someText, Check.passes_optional_text,
    Check.passes_optional_bool, Check.passes_optional_natural, Check.passes_natural]
  -- Each field now says what it is and what it is tested for; the two lists are parted.
  constructor
  · rintro ⟨⟨hon, on⟩, hnotOn, hatEnd, ⟨hlook, look⟩, ⟨hnotLook, notLook⟩, ⟨hnext, next⟩,
      ⟨hbranch, branch⟩, hconsume, hkeys⟩
    refine ⟨?_, hkeys, on, look, notLook, next, branch⟩
    simp only [Value.Carries, fields, List.forall_mem_cons]
    exact ⟨hon, hnotOn, hatEnd, hlook, hnotLook, hnext, hbranch, hconsume, List.forall_mem_nil _⟩
  · rintro ⟨hcarries, hkeys, h⟩
    simp only [Value.Carries, fields, List.forall_mem_cons] at hcarries
    obtain ⟨hon, hnotOn, hatEnd, hlook, hnotLook, hnext, hbranch, hconsume, _⟩ := hcarries
    exact ⟨⟨hon, h.on⟩, hnotOn, hatEnd, ⟨hlook, h.lookahead⟩, ⟨hnotLook, h.notLookahead⟩,
      ⟨hnext, h.next⟩, ⟨hbranch, h.branch⟩, hconsume, hkeys⟩

/-- A clean rule passes as what it is. -/
theorem Clean.passes_data (h : r.Clean) : (check r.data).Passes r :=
  passes_iff.2 ⟨_, rfl, Value.carries_present r.nodup_fields,
    Check.strayKeys_present r.keys_fields, h⟩

/-- The signs of zeros make no rule unclean. -/
theorem Clean.unsigned (h : r.Clean) : ((r.map Number.toNat).map Number.ofNat).Clean where
  on := h.on
  lookahead := h.lookahead
  notLookahead := h.notLookahead
  next := ⟨_, Number.denotes_ofNat _⟩
  branch := by
    intro b hb
    obtain ⟨n, _, rfl⟩ := Option.map_eq_some_iff.1 hb
    exact ⟨n, Number.denotes_ofNat n⟩

/-- Nor do they lead it out of range. -/
theorem Clean.targetIssues_unsigned {largest largest' : Option Number} {m : Option Nat}
    (h : r.Clean) (hlargest : Option.Rel Number.Denotes largest m)
    (hlargest' : Option.Rel Number.Denotes largest' m)
    (hissues : ∀ l, largest = some l → Definition.targetIssues l r = []) :
    ∀ l, largest' = some l →
      Definition.targetIssues l ((r.map Number.toNat).map Number.ofNat) = [] := by
  simp only [targetIssues_eq_nil] at hissues ⊢
  intro l hl
  constructor
  · exact Number.within_unsigned hlargest hlargest' h.next (fun k hk => (hissues k hk).1) l hl
  · intro b' hb'
    obtain ⟨n, hn, rfl⟩ := Option.map_eq_some_iff.1 hb'
    obtain ⟨b, hb, rfl⟩ := Option.map_eq_some_iff.1 hn
    exact Number.within_unsigned hlargest hlargest' (h.branch b hb)
      (fun k hk => (hissues k hk).2 b hb) l hl

theorem map_ofNat_toNat (r : Rule Nat) : (r.map Number.ofNat).map Number.toNat = r := by
  obtain ⟨on, notOn, atEnd, look, notLook, next, branch, consume⟩ := r
  simp [map, Function.comp_def]

theorem toValue_eq (r : Rule Nat) : r.toValue = (r.map Number.ofNat).data := by
  have htext : ∀ t, Value.text t ≠ .absent := fun _ => nofun
  have hbool : ∀ b, Value.bool b ≠ .absent := fun _ => nofun
  have hnumber : ∀ x, Value.number x ≠ .absent := fun _ => nofun
  unfold toValue data fields map
  simp only [Value.present_cons_ofOption htext, Value.present_cons_ofOption hbool,
    Value.present_cons_ofOption hnumber, Value.present_cons (hnumber _)]
  simp only [List.append_assoc, List.cons_append, List.nil_append, Option.map_map,
    Value.present_nil, List.append_nil]
  rfl

end Rule

/-! ## §4. Sentinels. -/

namespace Sentinels

variable {v : Value} {s : Sentinels Number}

/-- The keys of sentinels. -/
def keys : List Text :=
  ["start", "match", "reject", "endOfInput", "maxStateId"]

/-- What is stated of sentinels, field by field. -/
def fields (s : Sentinels Number) : List (Text × Value) :=
  [("start", .number s.start), ("match", .number s.accept), ("reject", .number s.reject),
    ("endOfInput", .ofOption .number s.endOfInput),
    ("maxStateId", .ofOption .number s.maxStateId)]

/-- Sentinels as data, in their own numbers. -/
def data (s : Sentinels Number) : Value :=
  .object (Value.present s.fields)

/-- Sentinels that no test complains about. -/
def Clean (s : Sentinels Number) : Prop :=
  ∃ n, s.Denotes n ∧ n.Sound

theorem keys_fields (s : Sentinels Number) : s.fields.map Prod.fst = keys :=
  rfl

theorem nodup_fields (s : Sentinels Number) : (s.fields.map Prod.fst).Nodup := by
  rw [keys_fields]
  decide

/-- **An object passes as sentinels** if it carries what is stated of them, and they are
clean.  It may carry anything else. -/
theorem passes_iff : (check v).Passes s ↔ ∃ given, v = .object given ∧
    Value.Carries given s.fields ∧ s.Clean := by
  constructor
  · intro h
    obtain ⟨given, rfl, hparts, _⟩ := passes_check.1 h
    obtain ⟨_, _, _, hclean⟩ := declares_of_passes h
    simp only [Check.passes_natural, Check.passes_optional_natural] at hparts
    obtain ⟨⟨hstart, _⟩, ⟨haccept, _⟩, ⟨hreject, _⟩, ⟨hend, _⟩, hmax, _⟩ := hparts
    refine ⟨given, rfl, ?_, _, hclean⟩
    simp only [Value.Carries, fields, List.forall_mem_cons]
    exact ⟨hstart, haccept, hreject, hend, hmax, List.forall_mem_nil _⟩
  · rintro ⟨given, rfl, hcarries, n, hdenotes, hsound⟩
    simp only [Value.Carries, fields, List.forall_mem_cons] at hcarries
    obtain ⟨hstart, haccept, hreject, hend, hmax, _⟩ := hcarries
    refine passes_check.2 ⟨given, rfl, ?_, (issues_eq_nil hdenotes).2 hsound⟩
    simp only [Check.passes_natural, Check.passes_optional_natural]
    exact ⟨⟨hstart, _, hdenotes.start⟩, ⟨haccept, _, hdenotes.accept⟩,
      ⟨hreject, _, hdenotes.reject⟩, ⟨hend, Number.exists_denotes hdenotes.endOfInput⟩,
      hmax, Number.exists_denotes hdenotes.maxStateId⟩

/-- Clean sentinels pass as what they are. -/
theorem Clean.passes_data (h : s.Clean) : (check s.data).Passes s :=
  passes_iff.2 ⟨_, rfl, Value.carries_present s.nodup_fields, h⟩

theorem denotes_map_ofNat (n : Sentinels Nat) : (n.map Number.ofNat).Denotes n where
  start := Number.denotes_ofNat _
  accept := Number.denotes_ofNat _
  reject := Number.denotes_ofNat _
  endOfInput := Number.denotes_option_ofNat n.endOfInput
  maxStateId := Number.denotes_option_ofNat n.maxStateId

theorem Denotes.unsigned {n : Sentinels Nat} (h : s.Denotes n) :
    ((s.map Number.toNat).map Number.ofNat).Denotes n := by
  rw [h.map_eq]
  exact denotes_map_ofNat n

theorem toValue_eq (s : Sentinels Nat) : s.toValue = (s.map Number.ofNat).data := by
  have hnumber : ∀ x, Value.number x ≠ .absent := fun _ => nofun
  unfold toValue data fields map
  simp only [Value.present_cons_ofOption hnumber, Value.present_cons (hnumber _)]
  simp only [List.cons_append, List.nil_append, Option.map_map, Value.present_nil,
    List.append_nil]
  rfl

end Sentinels

/-! ## §5. Definitions. -/

namespace Definition

variable {v : Value} {d : Definition Number}

/-- An entry of the table as data. -/
def entryData (entry : Text × List (Rule Number)) : Text × Value :=
  (entry.1, .array (entry.2.map Rule.data))

/-- A definition as data, in its own numbers. -/
def data (d : Definition Number) : Value :=
  .object [("sentinels", d.sentinels.data), ("states", .object (d.states.map entryData))]

/-- A definition that no test complains about. -/
structure Clean (d : Definition Number) : Prop where
  sentinels : d.sentinels.Clean
  keys : ∀ entry ∈ d.states, keyIssues entry.1 = []
  rules : ∀ entry ∈ d.states, ∀ r ∈ entry.2, r.Clean
  ranges : rangeIssues d = []

/-- What passed is clean. -/
theorem clean_of_passes (h : (check v).Passes d) : d.Clean := by
  obtain ⟨_, rfl, hsentinels, hstates, _, hranges⟩ := passes_check.1 h
  obtain ⟨_, _, _, hclean⟩ := Sentinels.passes_iff.1 hsentinels
  obtain ⟨entries, _, hentries⟩ := passes_checkStates.1 hstates
  refine ⟨hclean, fun e he => ?_, fun e he r hr => ?_, hranges⟩
  · obtain ⟨_, _, hentry⟩ := Checked.exists_of_mem_right hentries he
    obtain ⟨hkey, hsame, _⟩ := passes_checkEntry.1 hentry
    rwa [← hsame]
  · obtain ⟨w, hw⟩ := rule_passes hstates e he r hr
    obtain ⟨_, _, _, _, hclean⟩ := Rule.passes_iff.1 hw
    exact hclean

theorem Clean.passes_entryData (h : d.Clean) {e : Text × List (Rule Number)} (he : e ∈ d.states) :
    (checkEntry (entryData e)).Passes e := by
  refine passes_checkEntry.2 ⟨h.keys e he, rfl, _, rfl, ?_⟩
  rw [List.forall₂_map_left_iff, List.forall₂_same]
  exact fun r hr => (h.rules e he r hr).passes_data

/-- **A clean definition passes as what it is.** -/
theorem Clean.passes_data (h : d.Clean) : (check d.data).Passes d := by
  refine passes_check.2 ⟨_, rfl, h.sentinels.passes_data, ?_, rfl, h.ranges⟩
  refine passes_checkStates.2 ⟨_, rfl, ?_⟩
  rw [List.forall₂_map_left_iff, List.forall₂_same]
  exact fun e he => h.passes_entryData he

/-- Nothing that is within range leaves it when the signs of zeros go. -/
theorem Clean.rangeIssues_unsigned (h : d.Clean) :
    rangeIssues ((d.map Number.toNat).map Number.ofNat) = [] := by
  -- With and without signs, the largest state and what is compared with it denote the same.
  obtain ⟨n, hdenotes, _⟩ := h.sentinels
  have hmax := hdenotes.maxStateId
  have hmax' := hdenotes.unsigned.maxStateId
  refine List.flatMap_eq_nil_iff.2 fun entry hentry => ?_
  obtain ⟨_, hmiddle, rfl⟩ := List.mem_map.1 hentry
  obtain ⟨⟨key, rules⟩, hread, rfl⟩ := List.mem_map.1 hmiddle
  obtain ⟨hcomplaint, htargets⟩ := entryIssues_eq_nil.1 (List.flatMap_eq_nil_iff.1 h.ranges _ hread)
  refine entryIssues_eq_nil.2 ⟨?_, fun rule hrule => ?_⟩
  · exact ((key_iff hmax').2 ((key_iff hmax).1 ⟨h.keys _ hread, hcomplaint⟩)).2
  · obtain ⟨_, hmiddle, rfl⟩ := List.mem_map.1 hrule
    obtain ⟨r, hr, rfl⟩ := List.mem_map.1 hmiddle
    exact (h.rules _ hread r hr).targetIssues_unsigned hmax hmax' (htargets r hr)

/-- The signs of zeros make no definition unclean. -/
theorem Clean.unsigned (h : d.Clean) : ((d.map Number.toNat).map Number.ofNat).Clean where
  sentinels := by
    obtain ⟨n, hdenotes, hsound⟩ := h.sentinels
    exact ⟨n, hdenotes.unsigned, hsound⟩
  keys := by
    simp only [map, List.forall_mem_map]
    exact h.keys
  rules := by
    simp only [map, List.forall_mem_map]
    exact fun entry hentry r hr => (h.rules entry hentry r hr).unsigned
  ranges := h.rangeIssues_unsigned

theorem map_ofNat_toNat (d : Definition Nat) : (d.map Number.ofNat).map Number.toNat = d := by
  obtain ⟨sentinels, states⟩ := d
  have hsentinels := (Sentinels.denotes_map_ofNat sentinels).map_eq
  simp [map, hsentinels, Rule.map_ofNat_toNat, Function.comp_def]

/-- Natural numbers make the same data. -/
theorem toValue_eq (d : Definition Nat) : d.toValue = (d.map Number.ofNat).data := by
  obtain ⟨sentinels, states⟩ := d
  simp [toValue, data, entryData, map, Sentinels.toValue_eq, Rule.toValue_eq, Function.comp_def]

/-- **An accepted definition is read back as it was written.** -/
theorem ofValue_toValue {d : Definition Nat} (h : ofValue v = .ok d) :
    ofValue d.toValue = .ok d := by
  obtain ⟨r, hr, rfl⟩ := ofValue_eq_ok.1 h
  refine ofValue_eq_ok.2 ⟨_, ?_, map_ofNat_toNat _⟩
  rw [toValue_eq]
  exact (clean_of_passes hr).unsigned.passes_data

end Definition

end OracleNFA
