/-
  OracleNFA.Proofs.Matcher
  ────────────────────────
  **A MATCHER STANDS FOR ITS ORACLE AND OPTIONS.**

  A matcher looks at everything but the input when it is made, and in an order of its own:
  sentinels, strategy, limit.  A direct match looks at the strategy, then at the input, and
  at the rest for each attempt.  So where several arguments are at fault the two may name
  different ones, but neither lets a fault pass.  Where one of these has no plain form, one
  of the two may find words where the other one finds none:

      refused_evaluate_iff — a matcher is refused exactly where a direct match is
      refusedInWords_evaluate_iff
                           — with an error, but for one pair of faults
      create_eq_ok         — what a matcher binds
      Binds.standsFor      — so its uses are direct matches with what it binds

  A matcher also binds the options that it is left with, so filling in what was missing
  changes nothing.
-/
import OracleNFA.Proofs.Configuration

namespace OracleNFA

/-! ## §1. Uses of a matcher. -/

/-- One use of a matcher, or one direct match. -/
inductive Use where
  | evaluate (input : Input)
  | isMatch (input : Input)
  | find (input : Input)
  | findAll (input : Input)

/-- What a use brings: a result or an error, with the queries and events on the way. -/
inductive Reply where
  | outcome (r : Report Outcome)
  | verdict (r : Report Bool)
  | first (r : Report (Option Span))
  | all (r : Report (List Span))

/-- A direct match.  A search takes the limit alone. -/
def Use.direct (oracle : Oracle) (options : Options) : Use → Reply
  | .evaluate input => .outcome (OracleNFA.evaluate input oracle options)
  | .isMatch input => .verdict (OracleNFA.isMatch input oracle options)
  | .find input => .first (findFirst input oracle options.maxCycles)
  | .findAll input => .all (OracleNFA.findAll input oracle options.maxCycles)

namespace Matcher

/-- A use of a matcher. -/
def reply (m : Matcher) : Use → Reply
  | .evaluate input => .outcome (m.evaluate input)
  | .isMatch input => .verdict (m.isMatch input)
  | .find input => .first (m.find input)
  | .findAll input => .all (m.findAll input)

/-- Whatever a matcher is used for, and in whatever order, each use brings what a direct
match does. -/
def StandsFor (m : Matcher) (oracle : Oracle) (options : Options) : Prop :=
  ∀ uses : List Use, uses.map m.reply = uses.map (Use.direct oracle options)

/-- What a matcher was made of: its oracle, and options that come to what it holds. -/
structure Binds (m : Matcher) (oracle : Oracle) (options : Options) : Prop where
  oracle_eq : m.oracle = oracle
  ids : Numbering.ofValue oracle.sentinels = .ok m.ids
  strategy : Strategy.ofValue options.strategy = .ok m.strategy
  budget : Budget.ofValue options.maxCycles = .ok m.budget

/-- The options that a matcher is left with. -/
def options (m : Matcher) : Options :=
  ⟨.number m.budget.toNumber, .text m.strategy.name⟩

end Matcher

/-! ## §2. Making a matcher. -/

namespace Matcher

variable {m : Matcher} {oracle : Oracle} {options : Options} {input : Input}

/-- A matcher is made of what it binds, -/
theorem create_eq_ok : create oracle options = .ok m ↔ m.Binds oracle options := by
  simp only [create, bind, Except.bind, pure, Except.pure]
  constructor
  · intro h
    cases hids : Numbering.ofValue oracle.sentinels with
    | error e => simp [hids] at h
    | ok ids =>
        cases hs : Strategy.ofValue options.strategy with
        | error e => simp [hids, hs] at h
        | ok s =>
            cases hb : Budget.ofValue options.maxCycles with
            | error e => simp [hids, hs, hb] at h
            | ok b =>
                rw [hids, hs, hb] at h
                obtain rfl := Except.ok.inj h
                exact ⟨rfl, hids, hs, hb⟩
  · rintro ⟨rfl, hids, hs, hb⟩
    rw [hids, hs, hb]

/-- and none is made of unsound sentinels, an unknown strategy or an unsound limit. -/
theorem create_refused_iff : (∃ e, create oracle options = .error e) ↔
    ¬ Sentinels.Valid oracle.sentinels ∨ ¬ Strategy.Valid options.strategy ∨
      ¬ Budget.Valid options.maxCycles := by
  rw [Sentinels.valid_iff, Strategy.valid_iff, Budget.valid_iff]
  simp only [create, bind, Except.bind, pure, Except.pure]
  cases Numbering.ofValue oracle.sentinels <;> cases Strategy.ofValue options.strategy <;>
    cases Budget.ofValue options.maxCycles <;> simp

/-- There are no words for the refusal if the first fault has no plain form; the sentinels
are looked at first, and there are words for what is wrong with them. -/
theorem create_wordless_iff : create oracle options = .error .wordless ↔
    Sentinels.Valid oracle.sentinels ∧ (options.strategy.toText? = none ∨
      Strategy.Valid options.strategy ∧ options.maxCycles.toText? = none) := by
  have hids := Numbering.ofValue_ne_wordless oracle.sentinels
  rw [Sentinels.valid_iff, Strategy.valid_iff, Strategy.wordless_iff, Budget.wordless_iff]
  simp only [create, bind, Except.bind, pure, Except.pure]
  cases hread : Numbering.ofValue oracle.sentinels <;> cases Strategy.ofValue options.strategy <;>
    cases Budget.ofValue options.maxCycles <;> simp_all

theorem create_refusedInWords_iff : (∃ e, create oracle options = .error (.error e)) ↔
    (∃ e, create oracle options = .error e) ∧ create oracle options ≠ .error .wordless := by
  rcases create oracle options with (e | _) | m <;> simp

/-- **A matcher is refused exactly where a direct match of a sound input is.** -/
theorem refused_evaluate_iff (h : input.Valid) :
    (OracleNFA.evaluate input oracle options).Refused ↔ ∃ e, create oracle options = .error e := by
  rw [(evaluate_raises input oracle options).refused_iff, ← unfit_to_decide_iff,
    create_refused_iff]
  unfold Attempt.Unfit
  tauto

/-- The two faults that a matcher and a direct match do not refuse alike. -/
def Discordant (oracle : Oracle) (options : Options) : Prop :=
  ¬ Sentinels.Valid oracle.sentinels ∧ options.strategy.toText? = none

/-- **Both are refused with an error**, but for two faults at once: unsound sentinels and a
strategy without a plain form. -/
theorem refusedInWords_evaluate_iff (hwords : ¬ Discordant oracle options) (h : input.Valid) :
    (OracleNFA.evaluate input oracle options).RefusedInWords ↔
      ∃ e, create oracle options = .error (.error e) := by
  have hinput : ¬ input.Wordless := by
    rw [Input.wordless_iff]
    obtain ⟨symbols, hsymbols⟩ := Input.valid_iff.1 h
    simp [hsymbols]
  rw [(evaluate_upFront input oracle options).refused_iff, create_refusedInWords_iff,
    create_refused_iff, ne_eq, create_wordless_iff]
  unfold Discordant at hwords
  unfold Attempt.Unfit Attempt.Wordless
  tauto

/-- Of these two the matcher names the sentinels, and a direct match finds no words for the
strategy. -/
theorem refused_of_discordant (h : Discordant oracle options) :
    (∃ issues, create oracle options = .error (.error (.sentinels issues))) ∧
      ∀ input, (OracleNFA.evaluate input oracle options).result = .error (.config .wordless) := by
  obtain ⟨hsentinels, hstrategy⟩ := h
  refine ⟨?_, fun input => (evaluate_upFront input oracle options).wordless_iff.2 (.inl hstrategy)⟩
  rw [Sentinels.valid_iff] at hsentinels
  unfold create
  unfold Numbering.ofValue at hsentinels ⊢
  cases hread : Sentinels.ofValue oracle.sentinels with
  | ok s => simp [hread] at hsentinels
  | error issues => exact ⟨issues, rfl⟩

/-- What holds of each sound input alike holds of one if it holds of every one. -/
theorem any_iff_every {p : Prop} {q : Input → Prop} (h : ∀ input, input.Valid → (q input ↔ p)) :
    (p ↔ ∃ input : Input, input.Valid ∧ q input) ∧
      (p ↔ ∀ input : Input, input.Valid → q input) := by
  have hempty : (Input.text Text.empty).Valid := trivial
  constructor
  · exact ⟨fun hp => ⟨_, hempty, (h _ hempty).2 hp⟩,
      fun ⟨input, hinput, hq⟩ => (h input hinput).1 hq⟩
  · exact ⟨fun hp input hinput => (h input hinput).2 hp, fun hq => (h _ hempty).1 (hq _ hempty)⟩

end Matcher

/-! ## §3. Settled options. -/

namespace Budget

/-- A limit that was read from a number is read from its own number again. -/
theorem ofNumber?_toNumber {x : Number} {b : Budget} (h : ofNumber? x = some b) :
    ofNumber? b.toNumber = some b := by
  unfold ofNumber? at h
  split at h
  · obtain rfl := Option.some.inj h
    rfl
  · obtain rfl := Option.some.inj h
    rfl
  · obtain ⟨n, hn, rfl⟩ := Option.map_eq_some_iff.1 h
    show (Number.ofNat n).safeNatural?.map atMost = some (.atMost n)
    rw [Number.safeNatural?_ofNat (Number.safeNatural?_eq_some.1 hn).2]
    rfl

/-- **A limit comes to itself.** -/
theorem ofValue_toNumber {v : Value} {b : Budget} (h : ofValue v = .ok b) :
    ofValue (.number b.toNumber) = .ok b := by
  have hread : ofNumber? b.toNumber = some b := by
    unfold ofValue at h
    split at h
    · obtain rfl := Except.ok.inj h
      rfl
    · obtain rfl := Except.ok.inj h
      rfl
    · next x =>
        cases hx : ofNumber? x with
        | none => simp [hx] at h
        | some b' =>
            rw [hx] at h
            obtain rfl := Except.ok.inj h
            exact ofNumber?_toNumber hx
    · exact nomatch h
  unfold ofValue
  dsimp only
  rw [hread]

end Budget

/-! ## §4. Using a matcher. -/

namespace Matcher.Binds

variable {m : Matcher} {oracle : Oracle} {options : Options}

/-- A matcher binds the options that it is left with. -/
theorem settled (h : m.Binds oracle options) : m.Binds oracle m.options where
  oracle_eq := h.oracle_eq
  ids := h.ids
  strategy := m.strategy.ofValue_name
  budget := Budget.ofValue_toNumber h.budget

/-- All attempts on the same symbols are one. -/
theorem ofSymbols_eq (h : m.Binds oracle options) (symbols : Array Symbol) :
    Attempt.ofSymbols symbols oracle options.maxCycles =
      .ok ⟨symbols, m.oracle, m.ids, m.budget⟩ :=
  Attempt.ofSymbols_eq_ok.2 ⟨m.ids, m.budget, h.ids, h.budget, by rw [h.oracle_eq]⟩

theorem attempt_eq (h : m.Binds oracle options) (input : Input) :
    m.attempt input = Report.ofConfig (Attempt.ofInput input oracle options.maxCycles) := by
  unfold attempt Attempt.ofInput
  cases input.symbols with
  | error e => rfl
  | ok symbols =>
      show _ = Report.ofConfig (Attempt.ofSymbols symbols.toArray oracle options.maxCycles)
      rw [h.ofSymbols_eq]
      rfl

theorem evaluate_eq (h : m.Binds oracle options) (input : Input) :
    m.evaluate input = OracleNFA.evaluate input oracle options := by
  unfold evaluate OracleNFA.evaluate runStrategy
  rw [h.attempt_eq, h.strategy]
  rfl

theorem isMatch_eq (h : m.Binds oracle options) (input : Input) :
    m.isMatch input = OracleNFA.isMatch input oracle options := by
  unfold isMatch OracleNFA.isMatch
  rw [h.evaluate_eq]

/-- A direct search makes the attempt of the matcher anew for each position. -/
theorem tryAt_eq (h : m.Binds oracle options) (symbols : Array Symbol) :
    Search.tryAt symbols oracle options.maxCycles =
      Search.matchAt ⟨symbols, m.oracle, m.ids, m.budget⟩ := by
  rw [Search.tryAt_eq, h.ofSymbols_eq]

theorem find_eq (h : m.Binds oracle options) (input : Input) :
    m.find input = findFirst input oracle options.maxCycles := by
  cases hsymbols : input.symbols with
  | error e =>
      unfold find attempt findFirst
      rw [hsymbols]
      rfl
  | ok symbols =>
      rw [findFirst_eq oracle options.maxCycles hsymbols, h.tryAt_eq]
      unfold find attempt
      rw [hsymbols]
      rfl

theorem findAll_eq (h : m.Binds oracle options) (input : Input) :
    m.findAll input = OracleNFA.findAll input oracle options.maxCycles := by
  cases hsymbols : input.symbols with
  | error e =>
      unfold findAll attempt OracleNFA.findAll
      rw [hsymbols]
      rfl
  | ok symbols =>
      rw [OracleNFA.findAll_eq oracle options.maxCycles hsymbols, h.tryAt_eq]
      unfold findAll attempt
      rw [hsymbols]
      rfl

/-- **A matcher stands for what it binds.** -/
theorem standsFor (h : m.Binds oracle options) : m.StandsFor oracle options := by
  intro uses
  refine List.map_congr_left fun use _ => ?_
  cases use with
  | evaluate input => exact congrArg Reply.outcome (h.evaluate_eq input)
  | isMatch input => exact congrArg Reply.verdict (h.isMatch_eq input)
  | find input => exact congrArg Reply.first (h.find_eq input)
  | findAll input => exact congrArg Reply.all (h.findAll_eq input)

end Matcher.Binds

/-! ## §5. Matchers and direct matches. -/

/-- **A matcher does what direct matches do.**  It is refused exactly if deciding some sound
input directly is, and exactly if deciding every sound input is.  That is so of refusals with
an error too, unless the sentinels are unsound and the strategy has no plain form: then the
matcher is refused for the sentinels, and a direct match without words.  Where a matcher is
made, each use of it brings the result or the error that the direct match brings, with the
same queries and events, whatever the input and the uses before; and so it is for the options
that it was left with when the missing ones were filled in. -/
theorem matcher_stands_for_direct (oracle : Oracle) (options : Options) :
    ((∃ e, Matcher.create oracle options = .error e) ↔
      ∃ input : Input, input.Valid ∧ (evaluate input oracle options).Refused) ∧
    ((∃ e, Matcher.create oracle options = .error e) ↔
      ∀ input : Input, input.Valid → (evaluate input oracle options).Refused) ∧
    (¬ Matcher.Discordant oracle options →
      ((∃ e, Matcher.create oracle options = .error (.error e)) ↔
        ∃ input : Input, input.Valid ∧ (evaluate input oracle options).RefusedInWords) ∧
      ((∃ e, Matcher.create oracle options = .error (.error e)) ↔
        ∀ input : Input, input.Valid → (evaluate input oracle options).RefusedInWords)) ∧
    (Matcher.Discordant oracle options →
      (∃ issues, Matcher.create oracle options = .error (.error (.sentinels issues))) ∧
      ∀ input, (evaluate input oracle options).result = .error (.config .wordless)) ∧
    ∀ m, Matcher.create oracle options = .ok m →
      m.StandsFor oracle options ∧ m.StandsFor oracle m.options := by
  have hrefused : ∀ input : Input, input.Valid →
      ((evaluate input oracle options).Refused ↔ ∃ e, Matcher.create oracle options = .error e) :=
    fun _ hinput => Matcher.refused_evaluate_iff hinput
  obtain ⟨hany, hevery⟩ := Matcher.any_iff_every hrefused
  refine ⟨hany, hevery, fun hwords => ?_, Matcher.refused_of_discordant, fun m hm => ?_⟩
  · exact Matcher.any_iff_every fun input hinput =>
      Matcher.refusedInWords_evaluate_iff hwords hinput
  · have hbinds := Matcher.create_eq_ok.1 hm
    exact ⟨hbinds.standsFor, hbinds.settled.standsFor⟩

/-- Unsound sentinels and a strategy without a plain form: a matcher is refused with an
error, and to decide an input directly is refused without one. -/
theorem strategy_masks_sentinels :
    let oracle : Oracle := ⟨Sentinels.toValue ⟨1, 1, 2, none, none⟩, fun _ => .ok .null⟩
    let options : Options := ⟨.absent, .object [("toString", .null)]⟩
    (∃ e, Matcher.create oracle options = .error (.error e)) ∧
      (Input.text "a").Valid ∧ ¬ (evaluate (.text "a") oracle options).RefusedInWords := by
  intro oracle options
  have hcreate : Matcher.create oracle options =
      .error (.error (.sentinels [⟨[], .reservedNotDistinct⟩])) := by rfl
  have hevaluate : (evaluate (.text "a") oracle options).result = .error (.config .wordless) := by
    rfl
  refine ⟨⟨_, hcreate⟩, trivial, ?_⟩
  rintro ⟨e, he⟩
  exact absurd (hevaluate.symm.trans he) (by simp)

/-- A matcher without a strategy, and with a limit of a signed zero: it asks nothing, also of
a list that is no input, and names the element at fault. -/
theorem matcher_stands_for_direct_signedZero :
    let options : Options := ⟨.number .negativeZero, .null⟩
    ∃ m, Matcher.create oneSymbol options = .ok m ∧
      m.options.strategy = .text "frontier" ∧
      (evaluate (.text "a") oneSymbol options).result = (m.evaluate (.text "a")).result ∧
      (evaluate (.text "a") oneSymbol m.options).queries = [] ∧
      (findAll (.list [.null]) oneSymbol options.maxCycles).result =
        .error (.config (.error (.symbol "null" 0))) ∧
      m.findAll (.list [.null]) = findAll (.list [.null]) oneSymbol m.options.maxCycles := by
  intro options
  have hmade : Matcher.create oneSymbol options =
      .ok ⟨oneSymbol, ⟨0, 1, 2, 0, Number.maxSafe⟩, .frontier, .negativeZero⟩ := by rfl
  obtain ⟨_, _, _, _, hstands⟩ := matcher_stands_for_direct oneSymbol options
  obtain ⟨hgiven, hleft⟩ := hstands _ hmade
  have heval := Reply.outcome.inj (List.singleton_inj.1 (hgiven [.evaluate (.text "a")]))
  have hall := Reply.all.inj (List.singleton_inj.1 (hleft [.findAll (.list [.null])]))
  exact ⟨_, hmade, rfl, by rw [heval], rfl, rfl, hall⟩

end OracleNFA
