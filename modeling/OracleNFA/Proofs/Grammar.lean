/-
  OracleNFA.Proofs.Grammar
  ────────────────────────
  **THE GRAMMAR OF RULE TABLES.**

  A table is checked in one pass that goes on after a fault, by a closed check for
  rules, one for keys, one for sentinels that lets further fields pass, and a last
  test across all of these.  Here the grammar is written down on the data itself,
  with no check in it:

      Rule.Grammatical       — the fields of a rule
      Definition.Entry       — a key and what is under it
      Definition.Grammatical — the fields of a whole table

  and a table is accepted exactly if it is in the grammar (`accepted_iff_table`).
  Each rule of the grammar is compared with its own check and with what the last
  test says of the part, so no part passes because another one failed.
-/
import OracleNFA.Proofs.Definition
import OracleNFA.Proofs.Numeral

namespace OracleNFA

/-! ## §1. The grammar. -/

namespace Value

/-- A value that may be missing. -/
def MissingOr (p : Value → Prop) (v : Value) : Prop :=
  v = .absent ∨ p v

def IsBool (v : Value) : Prop :=
  ∃ b, v = .bool b

def IsText (v : Value) : Prop :=
  ∃ t, v = .text t

/-- A text with at least one unit. -/
def IsSomeText (v : Value) : Prop :=
  ∃ t : Text, v = .text t ∧ t.units ≠ []

/-- A non-negative integer that is not above the largest state, if there is one. -/
def IsState (largest : Option Nat) (v : Value) : Prop :=
  ∃ n, v.Gives (some n) ∧ ∀ m, largest = some m → n ≤ m

end Value

/-- The fields of a rule. -/
structure Rule.Grammatical (largest : Option Nat) (fields : List (Text × Value)) : Prop where
  known : ∀ key ∈ fields.map Prod.fst, key ∈ Rule.keys
  on : (Value.lookup "on" fields).MissingOr Value.IsSomeText
  notOn : (Value.lookup "notOn" fields).MissingOr Value.IsText
  atEnd : (Value.lookup "atEnd" fields).MissingOr Value.IsBool
  lookahead : (Value.lookup "lookahead" fields).MissingOr Value.IsSomeText
  notLookahead : (Value.lookup "notLookahead" fields).MissingOr Value.IsSomeText
  next : (Value.lookup "next" fields).IsState largest
  branch : (Value.lookup "branch" fields).MissingOr (Value.IsState largest)
  consume : (Value.lookup "consume" fields).MissingOr Value.IsBool

namespace Definition

/-- An entry of the table of states: the decimal text of an exact state and a list
of rules. -/
structure Entry (largest : Option Nat) (entry : Text × Value) : Prop where
  key : ∃ n, entry.1 = Text.ofDigits n ∧ n ≤ Number.maxSafe ∧ ∀ m, largest = some m → n ≤ m
  rules : ∃ values, entry.2 = .array values ∧
    ∀ w ∈ values, ∃ fields, w = .object fields ∧ Rule.Grammatical largest fields

/-- The fields of a table that declares these sentinels. -/
structure Grammatical (fields : List (Text × Value)) (s : Sentinels Nat) : Prop where
  known : ∀ key ∈ fields.map Prod.fst, key ∈ (["sentinels", "states"] : List Text)
  sentinels : ∃ declared, Value.lookup "sentinels" fields = .object declared ∧
    Sentinels.Declares declared s
  sound : s.Sound
  states : ∃ entries, Value.lookup "states" fields = .object entries ∧
    ∀ entry ∈ entries, Entry s.maxStateId entry

end Definition

/-- A rule table as data. -/
def Value.IsTable (v : Value) : Prop :=
  ∃ fields s, v = .object fields ∧ Definition.Grammatical fields s

/-! ## §2. Checks against rules of the grammar. -/

/-- Related members can be chosen one by one. -/
theorem Checked.exists_forall₂ {α β : Type} {R : α → β → Prop} {q : β → Prop} {as : List α} :
    (∃ bs, List.Forall₂ R as bs ∧ ∀ b ∈ bs, q b) ↔ ∀ a ∈ as, ∃ b, R a b ∧ q b := by
  induction as with
  | nil => simp [List.forall₂_nil_left_iff]
  | cons a rest ih =>
      simp only [List.forall₂_cons_left_iff, List.forall_mem_cons, ← ih]
      constructor
      · rintro ⟨_, ⟨b, tail, hb, htail, rfl⟩, hq⟩
        obtain ⟨hqb, hqtail⟩ := List.forall_mem_cons.1 hq
        exact ⟨⟨b, hb, hqb⟩, tail, htail, hqtail⟩
      · rintro ⟨⟨b, hb, hqb⟩, tail, htail, hqtail⟩
        exact ⟨_, ⟨b, tail, hb, htail, rfl⟩, List.forall_mem_cons.2 ⟨hqb, hqtail⟩⟩

namespace Check

variable {α : Type} {v : Value}

theorem strayKeys_eq_nil {known : List Text} {fields : List (Text × Value)} :
    strayKeys known fields = [] ↔ ∀ key ∈ fields.map Prod.fst, key ∈ known := by
  unfold strayKeys
  simp [List.filter_eq_nil_iff]

theorem exists_bool : (∃ b, (bool v).Passes b) ↔ v.IsBool := by
  simp only [passes_bool, Value.IsBool]

theorem exists_text : (∃ t, (text v).Passes t) ↔ v.IsText := by
  simp only [passes_text, Value.IsText]

theorem exists_someText : (∃ t, (someText v).Passes t) ↔ v.IsSomeText := by
  simp only [passes_someText, Value.IsSomeText, Text.isEmpty, List.isEmpty_eq_false_iff]

/-- What may be missing, and what is asked of it where it is there. -/
theorem exists_optional {check : Check α} {q : α → Prop} {p : Value → Prop}
    (h : (∃ a, (check v).Passes a ∧ q a) ↔ p v) :
    (∃ o, (optional check v).Passes o ∧ ∀ a, o = some a → q a) ↔ v.MissingOr p := by
  simp only [passes_optional, Value.MissingOr, ← h]
  constructor
  · rintro ⟨o, ⟨hv, rfl⟩ | ⟨_, a, ha, rfl⟩, hq⟩
    · exact .inl hv
    · exact .inr ⟨a, ha, hq a rfl⟩
  · by_cases hv : v = .absent
    · exact fun _ => ⟨none, .inl ⟨hv, rfl⟩, fun _ h => absurd h (by simp)⟩
    · rintro (habsent | ⟨a, ha, hq⟩)
      · exact absurd habsent hv
      · refine ⟨some a, .inr ⟨hv, a, ha, rfl⟩, fun b hb => ?_⟩
        obtain rfl := Option.some.inj hb
        exact hq

theorem exists_guard {check : Check α} {p : Value → Prop} (h : (∃ a, (check v).Passes a) ↔ p v) :
    (∃ o, (optional check v).Passes o) ↔ v.MissingOr p := by
  have hall := exists_optional (q := fun _ => True) (by simpa using h)
  simpa using hall

end Check

section Largest

variable {largest : Option Number} {m : Option Nat}

/-- A number is not above the largest one, and so is what it denotes. -/
theorem Number.within_iff {x : Number} {n : Nat} (hlargest : Option.Rel Number.Denotes largest m)
    (hx : x.Denotes n) :
    (∀ l, largest = some l → l.lt x = false) ↔ ∀ k, m = some k → n ≤ k := by
  cases hlargest with
  | none => simp
  | @some l k hl =>
      have hlt := Number.lt_iff hl hx
      simp only [Option.some.injEq, forall_eq', ← Bool.not_eq_true, hlt, Nat.not_lt]

theorem Check.exists_state {v : Value} (hlargest : Option.Rel Number.Denotes largest m) :
    (∃ x, (natural v).Passes x ∧ ∀ l, largest = some l → l.lt x = false) ↔ v.IsState m := by
  constructor
  · rintro ⟨x, hx, hwithin⟩
    obtain ⟨hdenotes, hgives⟩ := gives_of_natural hx
    exact ⟨_, hgives, (Number.within_iff hlargest hdenotes).1 hwithin⟩
  · rintro ⟨n, hgives, hwithin⟩
    obtain ⟨x, hx, hdenotes⟩ := natural_of_gives hgives
    exact ⟨x, hx, (Number.within_iff hlargest hdenotes).2 hwithin⟩

/-! ## §3. Rules. -/

namespace Rule

/-- **A rule passes, and no target of it is above the largest state, exactly if it is
in the grammar.** -/
theorem passes_iff_grammatical {v : Value} (hlargest : Option.Rel Number.Denotes largest m) :
    (∃ r, (check v).Passes r ∧ ∀ l, largest = some l → Definition.targetIssues l r = []) ↔
      ∃ fields, v = .object fields ∧ Grammatical m fields := by
  simp only [passes_check, targetIssues_eq_nil]
  constructor
  · rintro ⟨r, ⟨fields, rfl, hon, hnotOn, hatEnd, hlook, hnotLook, hnext, hbranch, hconsume, hkeys⟩,
      hwithin⟩
    exact ⟨fields, rfl, {
      known := Check.strayKeys_eq_nil.1 hkeys
      on := (Check.exists_guard Check.exists_someText).1 ⟨_, hon⟩
      notOn := (Check.exists_guard Check.exists_text).1 ⟨_, hnotOn⟩
      atEnd := (Check.exists_guard Check.exists_bool).1 ⟨_, hatEnd⟩
      lookahead := (Check.exists_guard Check.exists_someText).1 ⟨_, hlook⟩
      notLookahead := (Check.exists_guard Check.exists_someText).1 ⟨_, hnotLook⟩
      next := (Check.exists_state hlargest).1 ⟨_, hnext, fun l hl => (hwithin l hl).1⟩
      branch := (Check.exists_optional (Check.exists_state hlargest)).1
        ⟨_, hbranch, fun b hb l hl => (hwithin l hl).2 b hb⟩
      consume := (Check.exists_guard Check.exists_bool).1 ⟨_, hconsume⟩ }⟩
  · rintro ⟨fields, rfl, h⟩
    obtain ⟨on, hon⟩ := (Check.exists_guard Check.exists_someText).2 h.on
    obtain ⟨notOn, hnotOn⟩ := (Check.exists_guard Check.exists_text).2 h.notOn
    obtain ⟨atEnd, hatEnd⟩ := (Check.exists_guard Check.exists_bool).2 h.atEnd
    obtain ⟨look, hlook⟩ := (Check.exists_guard Check.exists_someText).2 h.lookahead
    obtain ⟨notLook, hnotLook⟩ := (Check.exists_guard Check.exists_someText).2 h.notLookahead
    obtain ⟨next, hnext, hwithin⟩ := (Check.exists_state hlargest).2 h.next
    obtain ⟨branch, hbranch, hwithin'⟩ :=
      (Check.exists_optional (Check.exists_state hlargest)).2 h.branch
    obtain ⟨consume, hconsume⟩ := (Check.exists_guard Check.exists_bool).2 h.consume
    refine ⟨⟨on, notOn, atEnd, look, notLook, next, branch, consume⟩, ⟨fields, rfl, hon, hnotOn,
      hatEnd, hlook, hnotLook, hnext, hbranch, hconsume, Check.strayKeys_eq_nil.2 h.known⟩, ?_⟩
    exact fun l hl => ⟨hwithin l hl, fun b hb => hwithin' b hb l hl⟩

end Rule

/-! ## §4. Tables. -/

namespace Definition

theorem entryIssues_eq_nil {entry : Text × List (Rule Number)} :
    entryIssues largest entry = [] ↔ keyComplaint? largest entry.1 = none ∧
      ∀ r ∈ entry.2, ∀ l, largest = some l → targetIssues l r = [] := by
  unfold entryIssues
  cases largest with
  | none => simp
  | some l => simp [rulesIssues_eq_nil]

/-- **A key is a canonical decimal that the last test does not complain about exactly
if it is the text of an exact state in range.** -/
theorem key_iff {key : Text} (hlargest : Option.Rel Number.Denotes largest m) :
    keyIssues key = [] ∧ keyComplaint? largest key = none ↔
      ∃ n, key = Text.ofDigits n ∧ n ≤ Number.maxSafe ∧ ∀ k, m = some k → n ≤ k := by
  have hdecimal : keyIssues key = [] ↔ ∃ n, key = Text.ofDigits n := by
    unfold keyIssues
    simp only [← Text.decimal?_eq_some, ← Option.isSome_iff_exists]
    cases key.decimal? <;> simp
  rw [hdecimal]
  constructor
  · rintro ⟨⟨n, rfl⟩, hcomplaint⟩
    unfold keyComplaint? at hcomplaint
    dsimp only at hcomplaint
    by_cases hsafe : (Number.ofText (Text.ofDigits n)).isSafeInteger
    · have hn := (Number.isSafeInteger_ofText n).1 hsafe
      rw [hsafe, if_neg (by simp), Number.ofText_of_safe hn] at hcomplaint
      refine ⟨n, rfl, hn, (Number.within_iff hlargest (Number.denotes_ofNat n)).1 fun l hl => ?_⟩
      subst hl
      simpa using hcomplaint
    · -- a key that is too large is complained about whatever the largest state
      simp [hsafe] at hcomplaint
  · rintro ⟨n, rfl, hn, hwithin⟩
    refine ⟨⟨n, rfl⟩, ?_⟩
    have hlt := (Number.within_iff hlargest (Number.denotes_ofNat n)).2 hwithin
    unfold keyComplaint?
    dsimp only
    rw [(Number.isSafeInteger_ofText n).2 hn, if_neg (by simp), Number.ofText_of_safe hn]
    cases largest with
    | none => rfl
    | some l => simp [hlt l rfl]

theorem passes_checkEntry {entry : Text × Value} {e : Text × List (Rule Number)} :
    (checkEntry entry).Passes e ↔ keyIssues entry.1 = [] ∧ entry.1 = e.1 ∧
      ∃ values, entry.2 = .array values ∧
        List.Forall₂ (fun w r => (Rule.check w).Passes r) values e.2 := by
  unfold checkEntry
  simp only [Checked.passes_under, Checked.passes_ap, Checked.passes_fmap, Checked.passes_flagged,
    Check.passes_list]
  constructor
  · rintro ⟨_, rules, ⟨_, ⟨hkey, rfl⟩, rfl⟩, hrules, rfl⟩
    exact ⟨hkey, rfl, hrules⟩
  · rintro ⟨hkey, hsame, hrules⟩
    exact ⟨_, e.2, ⟨_, ⟨hkey, rfl⟩, rfl⟩, hrules, by rw [hsame]⟩

theorem entry_iff {entry : Text × Value} (hlargest : Option.Rel Number.Denotes largest m) :
    (∃ e, (checkEntry entry).Passes e ∧ entryIssues largest e = []) ↔ Entry m entry := by
  have hrules : ∀ values, (∃ rules,
      List.Forall₂ (fun w r => (Rule.check w).Passes r) values rules ∧
        ∀ r ∈ rules, ∀ l, largest = some l → targetIssues l r = []) ↔
      ∀ w ∈ values, ∃ fields, w = .object fields ∧ Rule.Grammatical m fields := by
    intro values
    rw [Checked.exists_forall₂]
    exact forall₂_congr fun w _ => Rule.passes_iff_grammatical hlargest
  simp only [passes_checkEntry, entryIssues_eq_nil]
  constructor
  · rintro ⟨⟨_, rules⟩, ⟨hkey, rfl, values, hvalues, hpasses⟩, hcomplaint, hissues⟩
    exact ⟨(key_iff hlargest).1 ⟨hkey, hcomplaint⟩, values, hvalues,
      (hrules values).1 ⟨rules, hpasses, hissues⟩⟩
  · rintro ⟨hkey, values, hvalues, hall⟩
    obtain ⟨hkey, hcomplaint⟩ := (key_iff hlargest).2 hkey
    obtain ⟨rules, hpasses, hissues⟩ := (hrules values).2 hall
    exact ⟨⟨entry.1, rules⟩, ⟨hkey, rfl, values, hvalues, hpasses⟩, hcomplaint, hissues⟩

/-- A table passes entry by entry: the key that no table keeps is no decimal, so
nothing that passed is dropped. -/
theorem passes_checkStates {v : Value} {states : List (Text × List (Rule Number))} :
    (checkStates v).Passes states ↔ ∃ entries, v = .object entries ∧
      List.Forall₂ (fun entry e => (checkEntry entry).Passes e) entries states := by
  have hdropped : keyIssues droppedKey ≠ [] := by decide
  -- All entries pass before one is dropped, and the entry to drop does not.
  unfold checkStates
  simp only [Check.passes_object, Checked.passes_map, Checked.passes_all, List.forall₂_map_left_iff]
  refine exists_congr fun entries => and_congr_right fun _ => ?_
  have hkept : ∀ es, List.Forall₂ (fun entry e => (checkEntry entry).Passes e) entries es →
      es.filter (fun e => e.1 ≠ droppedKey) = es := by
    intro es hes
    refine List.filter_eq_self.2 fun e he => ?_
    obtain ⟨entry, _, hentry⟩ := Checked.exists_of_mem_right hes he
    obtain ⟨hkey, hsame, _⟩ := passes_checkEntry.1 hentry
    have hne : e.1 ≠ droppedKey := by
      intro heq
      rw [hsame, heq] at hkey
      exact hdropped hkey
    simpa using hne
  constructor
  · rintro ⟨es, hes, rfl⟩
    rwa [hkept es hes]
  · exact fun hes => ⟨states, hes, hkept states hes⟩

end Definition

end Largest

namespace Definition

/-- **A value passes the check for definitions exactly if it is a rule table.** -/
theorem exists_passes {v : Value} : (∃ d, (check v).Passes d) ↔ v.IsTable := by
  simp only [passes_check, passes_checkStates]
  constructor
  · rintro ⟨d, fields, rfl, hsentinels, ⟨entries, hentries, hpasses⟩, hkeys, hissues⟩
    obtain ⟨declared, hdeclared, hdeclares, hdenotes, hsound⟩ :=
      Sentinels.declares_of_passes hsentinels
    refine ⟨fields, _, rfl, Check.strayKeys_eq_nil.1 hkeys, ⟨declared, hdeclared, hdeclares⟩,
      hsound, entries, hentries, fun entry hentry => ?_⟩
    -- The last test goes through all entries, so it says something of each.
    refine (entry_iff hdenotes.maxStateId).1 ?_
    exact Checked.exists_forall₂.1
      ⟨d.states, hpasses, List.flatMap_eq_nil_iff.1 hissues⟩ entry hentry
  · rintro ⟨fields, s, rfl, hkeys, ⟨declared, hdeclared, hdeclares⟩, hsound, entries, hentries,
      hall⟩
    -- The numbers under which the declaration passes are read off its acceptance.
    obtain ⟨r, hr, hmap⟩ := Sentinels.ofValue_eq_ok_iff_passes.1
      (Sentinels.ofValue_eq_ok.2 ⟨declared, rfl, hdeclares, hsound⟩)
    obtain ⟨_, _, _, hdenotes, _⟩ := Sentinels.declares_of_passes hr
    rw [hmap] at hdenotes
    obtain ⟨states, hpasses, hissues⟩ := Checked.exists_forall₂.2 fun entry hentry =>
      (entry_iff hdenotes.maxStateId).2 (hall entry hentry)
    exact ⟨⟨r, states⟩, fields, rfl, hdeclared ▸ hr, ⟨entries, hentries, hpasses⟩,
      Check.strayKeys_eq_nil.2 hkeys, List.flatMap_eq_nil_iff.2 hissues⟩

end Definition

/-- **A value is accepted as a definition exactly if it is a rule table.**  Any other
is refused as an unsound definition, with an issue at least. -/
theorem accepted_iff_table (v : Value) :
    match Definition.ofValue v with
    | .ok _ => v.IsTable
    | .error e => ¬ v.IsTable ∧ e.code = "INVALID_ORACLE_DEFINITION" ∧ e.issues ≠ [] := by
  rw [← Definition.exists_passes]
  unfold Definition.ofValue
  cases hresult : (Definition.check v).result with
  | ok d => exact ⟨d, Checked.result_eq_ok.1 hresult⟩
  | error issues =>
      refine ⟨?_, rfl, Checked.issues_of_result hresult⟩
      rintro ⟨d, hd⟩
      rw [Checked.result_eq_ok.2 hd] at hresult
      exact absurd hresult (by simp)

end OracleNFA
