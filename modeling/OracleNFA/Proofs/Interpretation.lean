/-
  OracleNFA.Proofs.Interpretation
  ───────────────────────────────
  **A COMPILED TABLE MEANS WHAT IT SAYS.**

  A rule table can be read without compiling anything: look under the text of
  the state, try the rules one after the other, and take the first whose guards
  hold of what the query shows (`Definition.Interprets`).  The compiled table
  files the rules under numbers and the guards as lists of symbols instead.
  Neither is seen in the answers:

      keyed_of_ofValue  — every key is the text of a safe natural number
      Keyed.lookup_rows — so nothing is lost or mixed up when keys become numbers
      rulesOf_eq        — a state has the rules under its text
      applies_iff_holds — a compiled rule applies exactly if its guards hold
      interprets_iff    — hence the answer is what the table is read as
-/
import OracleNFA.Proofs.Contract
import OracleNFA.Proofs.EndOfInput
import OracleNFA.Proofs.Grammar
import OracleNFA.Proofs.NumberText

namespace OracleNFA

/-! ## §1. The interpretation of a table. -/

/-- What a query shows is that symbol, as numbers are compared. -/
def Shows (shown : Option Number) (c : Symbol) : Prop :=
  ∃ x, shown = some x ∧ x.same (.ofNat c) = true

/-- The end-of-input symbol is shown, and nothing behind it. -/
def Window.Ended (w : Window) (endOfInput : Symbol) : Prop :=
  w.hasSecond = false ∧ Shows w.first endOfInput

/-- Every guard that a rule has holds of what a query shows. -/
structure Rule.Holds (r : Rule Nat) (w : Window) (ended : Prop) : Prop where
  atEnd : ∀ b, r.atEnd = some b → (b = true ↔ ended)
  on : ∀ t, r.on = some t → ¬ ended ∧ ∃ c ∈ t.codePoints, Shows w.first c
  notOn : ∀ t, r.notOn = some t → ¬ ended ∧ ∀ c ∈ t.codePoints, ¬ Shows w.first c
  lookahead : ∀ t, r.lookahead = some t →
    w.hasSecond = true ∧ ∃ c ∈ t.codePoints, Shows w.second c
  notLookahead : ∀ t, r.notLookahead = some t →
    w.hasSecond = false ∨ ∀ c ∈ t.codePoints, ¬ Shows w.second c

namespace Definition

/-- The rules under the text of a state; none if there is no such key. -/
def rulesUnder (d : Definition Nat) (s : StateId) : List (Rule Nat) :=
  (d.states.lookup s.toText).getD []

/-- The rule holds of what the query shows. -/
def Admits (d : Definition Nat) (q : Query) (r : Rule Nat) : Prop :=
  r.Holds q.window (q.window.Ended (d.sentinels.endOfInput.getD defaultEndOfInput))

/-- What a table says about a query. -/
inductive Interprets (d : Definition Nat) (q : Query) : Transition → Prop
  /-- The first rule in order that holds. -/
  | rule {before after : List (Rule Nat)} {r : Rule Nat}
      (rules : d.rulesUnder q.state = before ++ r :: after)
      (skipped : ∀ earlier ∈ before, ¬ d.Admits q earlier) (holds : d.Admits q r) :
      Interprets d q ⟨r.next, r.branch, r.consume.getD false⟩
  /-- No rule holds: the dead state. -/
  | none (skipped : ∀ r ∈ d.rulesUnder q.state, ¬ d.Admits q r) :
      Interprets d q ⟨d.sentinels.reject, none, false⟩

end Definition

/-- The value is a transition written out: a second state is there exactly if it is
enabled. -/
structure Value.Writes (v : Value) (t : Transition) : Prop where
  next : v.field "nextState" = .number (.ofNat t.next)
  branch : v.field "secondState" = (t.branch.elim .absent fun b => .number (.ofNat b))
  consumed : v.field "consumed" = .bool t.consumes
  enabled : v.field "enabled" = .bool t.branch.isSome

theorem Transition.writes_toValue (t : Transition) : t.toValue.Writes t := by
  obtain ⟨next, branch, consumes⟩ := t
  cases branch <;> constructor <;> rfl

/-! ## §2. Keys. -/

namespace Definition

variable {v : Value} {d : Definition Nat}

/-- Every key is the text of a safe natural number. -/
def Keyed (d : Definition Nat) : Prop :=
  ∀ entry ∈ d.states, ∃ n ≤ Number.maxSafe, entry.1 = Text.ofDigits n

/-- **The keys of an accepted definition name states.** -/
theorem keyed_of_ofValue (h : ofValue v = .ok d) : d.Keyed := by
  obtain ⟨r, hr, rfl⟩ := ofValue_eq_ok.1 h
  obtain ⟨fields, rfl, hsentinels, hstates, _, hissues⟩ := passes_check.1 hr
  obtain ⟨_, _, _, hdenotes, _⟩ := Sentinels.declares_of_passes hsentinels
  obtain ⟨entries, _, hentries⟩ := passes_checkStates.1 hstates
  intro entry hentry
  obtain ⟨⟨key, rules⟩, hread, rfl⟩ := List.mem_map.1 hentry
  obtain ⟨source, _, hpasses⟩ := Checked.exists_of_mem_right hentries hread
  obtain ⟨hkey, hsame, _⟩ := passes_checkEntry.1 hpasses
  -- The key passed the first test as a text and the last one as a state.
  have hcomplaint := (entryIssues_eq_nil.1 (List.flatMap_eq_nil_iff.1 hissues _ hread)).1
  rw [hsame] at hkey
  obtain ⟨n, hn, hsafe, _⟩ := (key_iff hdenotes.maxStateId).1 ⟨hkey, hcomplaint⟩
  exact ⟨n, hsafe, hn⟩

/-- Only texts of safe natural numbers are keys. -/
theorem Keyed.lookup_eq_none (h : d.Keyed) {key : Text}
    (hkey : ∀ n ≤ Number.maxSafe, key ≠ Text.ofDigits n) : d.states.lookup key = none := by
  refine List.lookup_eq_none_iff.2 fun entry hentry => ?_
  obtain ⟨n, hn, heq⟩ := h entry hentry
  rw [heq]
  simpa using hkey n hn

/-- **Under its number, a state has the rules that it has under its text.** -/
theorem Keyed.lookup_rows (h : d.Keyed) (n : Nat) :
    d.compile.rows.lookup n = (d.states.lookup (Text.ofDigits n)).map (List.map Rule.compile) := by
  -- Row by row: a number is that of a key exactly if its text is the key.
  obtain ⟨sentinels, states⟩ := d
  show (states.map _).lookup n = _
  unfold Keyed at h
  dsimp only at h ⊢
  induction states with
  | nil => rfl
  | cons entry rest ih =>
      obtain ⟨key, rules⟩ := entry
      obtain ⟨m, hm, rfl⟩ := h _ List.mem_cons_self
      have hid : (Number.ofText (Text.ofDigits m)).toNat = m := by
        rw [Number.ofText_of_safe hm, Number.toNat_ofNat]
      rw [List.map_cons, hid, List.lookup_cons, List.lookup_cons]
      by_cases hnm : n = m
      · subst hnm
        simp
      · have htext : Text.ofDigits n ≠ Text.ofDigits m := fun heq => hnm (Text.ofDigits_inj.1 heq)
        rw [beq_false_of_ne hnm, beq_false_of_ne htext]
        exact ih fun entry hentry => h entry (List.mem_cons_of_mem _ hentry)

/-- **A state has the rules under its text.** -/
theorem Keyed.rulesOf_eq (h : d.Keyed) {s : StateId} (hs : s.IsBinary64) :
    d.compile.rulesOf s = (d.rulesUnder s).map Rule.compile := by
  unfold Table.rulesOf rulesUnder
  by_cases hkey : ∃ n ≤ Number.maxSafe, s.toText = Text.ofDigits n
  · obtain ⟨n, hn, htext⟩ := hkey
    rw [(Number.toText_eq_ofDigits hs hn).1 htext, htext]
    dsimp only
    rw [h.lookup_rows]
    cases d.states.lookup (Text.ofDigits n) <;> rfl
  · -- A state without such a text is no key, and neither is its number.
    have hforeign : ∀ n ≤ Number.maxSafe, s.toText ≠ Text.ofDigits n :=
      fun n hn htext => hkey ⟨n, hn, htext⟩
    rw [h.lookup_eq_none hforeign]
    cases hnatural : s.natural? with
    | none => rfl
    | some n =>
        have hlarge : ∀ m ≤ Number.maxSafe, Text.ofDigits n ≠ Text.ofDigits m := by
          intro m hm heq
          obtain rfl := Text.ofDigits_inj.1 heq
          exact hforeign n hm ((Number.toText_eq_ofDigits hs hm).2 hnatural)
        dsimp only
        rw [h.lookup_rows, h.lookup_eq_none hlarge]
        rfl

end Definition

/-! ## §3. Guards. -/

theorem shows_iff {shown : Option Number} {c : Symbol} :
    Shows shown c ↔ shown.bind Number.natural? = some c := by
  have hsame : ∀ x : Number, x.same (.ofNat c) = true ↔ x.natural? = some c := by
    intro x
    rw [Number.natural?_eq_some]
    cases x <;> simp [Number.same, Number.rat?, Number.ofNat]
  unfold Shows
  cases shown with
  | none => simp
  | some x => simp [hsame]

theorem isAmong_iff {shown : Option Number} {symbols : List Symbol} :
    isAmong symbols shown = true ↔ ∃ c ∈ symbols, Shows shown c := by
  simp only [shows_iff]
  unfold isAmong
  cases shown.bind Number.natural? <;> simp

theorem Table.atEnd_iff_ended {t : Table} {w : Window} :
    t.atEnd w = true ↔ w.Ended t.endOfInput := by
  unfold Table.atEnd Window.Ended
  rw [shows_iff]
  simp

/-- **A compiled rule applies exactly if its guards hold.** -/
theorem Rule.applies_iff_holds (r : Rule Nat) (w : Window) (ended : Bool) :
    r.compile.applies w ended = true ↔ r.Holds w (ended = true) := by
  -- Both sides list the guards in one order; only the refuted ones are put differently.
  rw [applies_compile_iff]
  simp only [isAmong_iff, ← Bool.not_eq_true]
  constructor
  · rintro ⟨hatEnd, hon, hnotOn, hlookahead, hnotLookahead⟩
    refine ⟨fun b hb => ?_, hon, fun t ht => ?_, hlookahead, fun t ht => ?_⟩
    · rw [hatEnd b hb]
    · simpa using hnotOn t ht
    · simpa [or_iff_not_imp_left] using hnotLookahead t ht
  · intro h
    refine ⟨fun b hb => ?_, h.on, fun t ht => ?_, h.lookahead, fun t ht => ?_⟩
    · exact Bool.eq_iff_iff.2 (h.atEnd b hb)
    · simpa using h.notOn t ht
    · simpa [or_iff_not_imp_left] using h.notLookahead t ht

/-! ## §4. Answers. -/

namespace Definition

variable {v : Value} {d : Definition Nat} {q : Query}

/-- Whether a rule applies once it is compiled. -/
def applies (d : Definition Nat) (q : Query) (r : Rule Nat) : Bool :=
  r.compile.applies q.window (d.compile.atEnd q.window)

theorem applies_iff {r : Rule Nat} : d.applies q r = true ↔ d.Admits q r := by
  unfold applies
  rw [Rule.applies_iff_holds, Table.atEnd_iff_ended]
  rfl

theorem not_applies_iff {r : Rule Nat} : (!d.applies q r) = true ↔ ¬ d.Admits q r := by
  rw [← applies_iff]
  simp

/-- The first compiled rule that applies is compiled from the first rule that does. -/
theorem Keyed.find?_eq (h : d.Keyed) (hq : q.state.IsBinary64) :
    ((d.compile.rulesOf q.state).find? fun g => g.applies q.window (d.compile.atEnd q.window)) =
      ((d.rulesUnder q.state).find? (d.applies q)).map Rule.compile := by
  rw [h.rulesOf_eq hq, List.find?_map]
  rfl

/-- **A compiled table answers what the table is read as.** -/
theorem Keyed.interprets_iff (h : d.Keyed) (hq : q.state.IsBinary64) {t : Transition} :
    d.Interprets q t ↔ d.compile.answer q = t := by
  unfold Table.answer
  rw [h.find?_eq hq]
  constructor
  · intro hread
    cases hread with
    | @rule before after r rules skipped holds =>
        have hfound : (d.rulesUnder q.state).find? (d.applies q) = some r := by
          refine List.find?_eq_some_iff_append.2 ⟨applies_iff.2 holds, before, after, rules, ?_⟩
          exact fun earlier hearlier => not_applies_iff.2 (skipped earlier hearlier)
        rw [hfound]
        rfl
    | none skipped =>
        have hnone : (d.rulesUnder q.state).find? (d.applies q) = none :=
          List.find?_eq_none.2 fun r hr hholds => skipped r hr (applies_iff.1 hholds)
        rw [hnone]
        rfl
  · intro hanswer
    cases hfind : (d.rulesUnder q.state).find? (d.applies q) with
    | none =>
        rw [hfind] at hanswer
        subst hanswer
        exact .none fun r hr hholds => List.find?_eq_none.1 hfind r hr (applies_iff.2 hholds)
    | some r =>
        rw [hfind] at hanswer
        subst hanswer
        obtain ⟨holds, before, after, rules, skipped⟩ := List.find?_eq_some_iff_append.1 hfind
        exact .rule rules (fun earlier hearlier => not_applies_iff.1 (skipped earlier hearlier))
          (applies_iff.1 holds)

/-- **A rule table means what it says.**  Whatever a query asks about, under any number of
the binary64 format, the oracle of an accepted table writes the one transition that the
table is read as: that of the first rule under the text of the state whose guards hold of
what is shown, or else the way to the dead state.  No two keys name one state, so no list
of rules is hidden by another. -/
theorem compiled_table_interprets (hd : ofValue v = .ok d) :
    (∀ q, q.state.IsBinary64 → ∃ t raw, d.Interprets q t ∧
      (∀ other, d.Interprets q other → other = t) ∧
      d.oracle.answer q = .ok raw ∧ raw.Writes t) ∧
    (∀ first ∈ d.states, ∀ second ∈ d.states,
      (Number.ofText first.1).same (Number.ofText second.1) = true → first.1 = second.1) ∧
    ∀ key rules, d.states.lookup key = some rules →
      d.compile.rulesOf (Number.ofText key) = rules.map Rule.compile := by
  have h := keyed_of_ofValue hd
  refine ⟨fun q hq => ?_, fun first hfirst second hsecond hsame => ?_, fun key rules hkey => ?_⟩
  · refine ⟨d.compile.answer q, _, (h.interprets_iff hq).2 rfl, fun other hother => ?_, rfl,
      Transition.writes_toValue _⟩
    exact ((h.interprets_iff hq).1 hother).symm
  · obtain ⟨m, hm, hfirst⟩ := h first hfirst
    obtain ⟨n, hn, hsecond⟩ := h second hsecond
    rw [hfirst, hsecond, Number.ofText_of_safe hm, Number.ofText_of_safe hn,
      Number.same_iff (Number.natural?_ofNat m) (Number.natural?_ofNat n)] at hsame
    rw [hfirst, hsecond, hsame]
  · obtain ⟨before, after, heq, _⟩ := List.lookup_eq_some_iff.1 hkey
    obtain ⟨n, hn, rfl⟩ := h (key, rules) (by rw [heq]; simp)
    rw [Number.ofText_of_safe hn]
    unfold Table.rulesOf
    rw [Number.natural?_ofNat]
    dsimp only
    rw [h.lookup_rows, hkey]
    rfl

/-- A table that tells a surrogate from the pair it opens. -/
def surrogates : Definition Nat :=
  ⟨⟨0, 1, 2, none, none⟩,
    [("0", [⟨some ⟨[0xD83D]⟩, none, none, none, none, 1, none, some true⟩,
      ⟨some ⟨[0xD83D, 0xDCA9]⟩, none, none, none, none, 3, some 0, some true⟩])]⟩

theorem compiled_table_interprets_surrogates :
    ofValue surrogates.toValue = .ok surrogates ∧ (Number.ofNat 0).IsBinary64 ∧
      ∃ raw, surrogates.oracle.answer
          ⟨Number.ofNat 0, ⟨some (Number.ofNat 0x1F4A9), some (Number.ofNat 0), false⟩⟩ = .ok raw ∧
        raw.Writes ⟨3, some 0, true⟩ := by
  have haccepted : ofValue surrogates.toValue = .ok surrogates := by rfl
  have hstate : (Number.ofNat 0).IsBinary64 := Number.isBinary64_ofNat (by decide)
  obtain ⟨hanswers, _⟩ := compiled_table_interprets haccepted
  obtain ⟨t, raw, _, hunique, hanswer, hwrites⟩ :=
    hanswers ⟨Number.ofNat 0, ⟨some (Number.ofNat 0x1F4A9), some (Number.ofNat 0), false⟩⟩ hstate
  -- The first rule asks for half of what is shown.
  have hkeyed := keyed_of_ofValue haccepted
  obtain rfl := hunique ⟨3, some 0, true⟩ ((hkeyed.interprets_iff hstate).2 rfl)
  exact ⟨haccepted, hstate, raw, hanswer, hwrites⟩

end Definition

end OracleNFA
