/-
  OracleNFA.Proofs.Configuration
  ──────────────────────────────
  **WHAT IS REFUSED BEFORE ANYTHING IS ASKED.**

  An argument is valid by a description of it alone: an input of exact natural
  numbers, a sound declaration, a limit, a known strategy.  Each is found sound
  exactly when it is valid (`valid_iff`), and an attempt is made exactly when all
  of its arguments are (`Attempt.unfit_iff`).  The first argument at fault is the
  one that an error names, and there is no such error if it has no plain form
  (`Attempt.wordless_iff`).

  A report is refused up front (`Report.RefusedUpFront`) when it is a fault for
  unfit arguments and for no others, with an error unless there are no words for
  one, and nothing was asked where it is.  Every entry point makes its attempt
  before it asks, so all of them refuse up front.  The search for all matches
  makes an attempt for each position it tries, and so none in an empty input:
  there it refuses nothing.
-/
import OracleNFA.Proofs.Search

namespace OracleNFA

/-! ## §1. Valid arguments. -/

/-- A natural number that is exact; zero may have a sign. -/
def Value.IsExactNatural (v : Value) : Prop :=
  v = .number .negativeZero ∨ ∃ n ≤ Number.maxSafe, v = .number (.ofNat n)

/-- Input whose elements are symbols. -/
def Input.Valid : Input → Prop
  | .text _ => True
  | .list elements => ∀ v ∈ elements, v.IsExactNatural

/-- Input without a symbol. -/
def Input.Empty : Input → Prop
  | .text t => t.units = []
  | .list elements => elements = []

/-- An object whose fields give a declaration that is sound. -/
def Sentinels.Valid (v : Value) : Prop :=
  ∃ fields s, v = .object fields ∧ Declares fields s ∧ s.Sound

/-- A limit on queries, or nothing in its place. -/
def Budget.Valid (v : Value) : Prop :=
  v = .absent ∨ v = .null ∨ v = .number (.infinite false) ∨ v.IsExactNatural

/-- The name of a strategy, or nothing in its place. -/
def Strategy.Valid (v : Value) : Prop :=
  v = .absent ∨ v = .null ∨ ∃ s : Strategy, v = .text s.name

/-! ## §2. Valid arguments are found sound. -/

theorem Value.isExactNatural_number {x : Number} :
    (Value.number x).IsExactNatural ↔ ∃ n, x.safeNatural? = some n := by
  unfold IsExactNatural Number.safeNatural?
  simp only [Option.filter_eq_some_iff, Number.natural?_eq_some, decide_eq_true_eq,
    Value.number.injEq]
  constructor
  · rintro (rfl | ⟨n, hn, rfl⟩)
    · exact ⟨0, rfl, Nat.zero_le _⟩
    · exact ⟨n, rfl, hn⟩
  · rintro ⟨n, hx, hn⟩
    cases x with
    | nan => exact absurd hx (by simp [Number.rat?])
    | infinite negative => exact absurd hx (by simp [Number.rat?])
    | negativeZero => exact .inl rfl
    | finite value => exact .inr ⟨n, hn, congrArg Number.finite (Option.some.inj hx)⟩

/-- Only numbers are natural numbers. -/
theorem Value.IsExactNatural.number {v : Value} (h : v.IsExactNatural) : ∃ x, v = .number x := by
  rcases h with rfl | ⟨n, _, rfl⟩
  · exact ⟨_, rfl⟩
  · exact ⟨_, rfl⟩

theorem Value.isExactNatural_iff {v : Value} : v.IsExactNatural ↔ ∃ s, v.symbol? = some s := by
  cases v with
  | number x => exact isExactNatural_number
  | _ =>
      refine iff_of_false (fun h => ?_) (by simp [symbol?])
      obtain ⟨x, hx⟩ := h.number
      exact absurd hx (by simp)

theorem symbolsFrom_isOk (elements : List Value) : ∀ position : Nat,
    (∃ symbols, symbolsFrom position elements = .ok symbols) ↔
      ∀ v ∈ elements, v.IsExactNatural := by
  induction elements with
  | nil => intro position; simp [symbolsFrom]
  | cons v rest ih =>
      intro position
      rw [symbolsFrom, List.forall_mem_cons, ← ih (position + 1), Value.isExactNatural_iff]
      cases v.symbol? with
      | none => simp
      | some s => cases symbolsFrom (position + 1) rest <;> simp [Except.map]

theorem Input.valid_iff {input : Input} :
    input.Valid ↔ ∃ symbols, input.symbols = .ok symbols := by
  cases input with
  | text t => exact iff_of_true trivial ⟨_, rfl⟩
  | list elements => exact (symbolsFrom_isOk elements 0).symm

theorem Sentinels.valid_iff {v : Value} : Valid v ↔ ∃ ids, Numbering.ofValue v = .ok ids := by
  simp only [Numbering.ofValue_eq_ok, Sentinels.ofValue_eq_ok]
  constructor
  · rintro ⟨fields, s, h⟩
    exact ⟨s.resolve, s, ⟨fields, h⟩, rfl⟩
  · rintro ⟨_, s, ⟨fields, h⟩, _⟩
    exact ⟨fields, s, h⟩

theorem Budget.ofNumber?_isSome {x : Number} :
    (∃ b, ofNumber? x = some b) ↔ x = .infinite false ∨ (Value.number x).IsExactNatural := by
  rw [Value.isExactNatural_number]
  unfold ofNumber?
  split
  · exact iff_of_true ⟨_, rfl⟩ (.inl rfl)
  · exact iff_of_true ⟨_, rfl⟩ (.inr ⟨0, rfl⟩)
  · next hinfinite _ =>
      have hne : x ≠ .infinite false := fun h => hinfinite h
      cases x.safeNatural? <;> simp [hne]

theorem Budget.valid_iff {v : Value} : Valid v ↔ ∃ b, ofValue v = .ok b := by
  unfold Valid
  cases v with
  | absent => exact iff_of_true (.inl rfl) ⟨_, rfl⟩
  | null => exact iff_of_true (.inr (.inl rfl)) ⟨_, rfl⟩
  | number x =>
      have h := ofNumber?_isSome (x := x)
      unfold ofValue
      cases hx : ofNumber? x <;> simp_all
  | _ =>
      refine iff_of_false ?_ (by simp [ofValue])
      rintro (h | h | h | h)
      · exact absurd h (by simp)
      · exact absurd h (by simp)
      · exact absurd h (by simp)
      · obtain ⟨x, hx⟩ := h.number
        exact absurd hx (by simp)

/-- A strategy is known by its name. -/
theorem Strategy.ofValue_name (s : Strategy) : ofValue (.text s.name) = .ok s := by
  cases s <;> rfl

theorem Strategy.valid_iff {v : Value} : Valid v ↔ ∃ s, ofValue v = .ok s := by
  constructor
  · rintro (rfl | rfl | ⟨s, rfl⟩)
    · exact ⟨default, rfl⟩
    · exact ⟨default, rfl⟩
    · exact ⟨s, s.ofValue_name⟩
  · rintro ⟨s, hs⟩
    unfold Valid
    cases v with
    | absent => exact .inl rfl
    | null => exact .inr (.inl rfl)
    | text t =>
        simp only [ofValue, Value.isNothing, Value.same, beq_iff_eq, Bool.false_eq_true,
          if_false] at hs
        split_ifs at hs with hfrontier hpath
        · exact .inr (.inr ⟨frontier, congrArg _ hfrontier⟩)
        · exact .inr (.inr ⟨path, congrArg _ hpath⟩)
    | _ => exact absurd hs (by simp [ofValue, Value.isNothing, Value.same])

theorem Input.empty_iff {input : Input} : input.Empty ↔ input.symbols = .ok [] := by
  cases input with
  | text t =>
      obtain ⟨units⟩ := t
      match units with
      | [] => exact iff_of_true rfl rfl
      | [u] => simp [Empty, symbols, Text.codePoints, Text.pointsOfUnits]
      | u :: v :: rest =>
          simp only [Empty, symbols, Text.codePoints, Text.pointsOfUnits]
          split <;> simp
  | list elements =>
      cases elements with
      | nil => exact iff_of_true rfl rfl
      | cons v rest =>
          refine iff_of_false (by simp [Empty]) ?_
          rw [symbols, symbolsFrom]
          cases v.symbol? with
          | none => simp
          | some s => cases symbolsFrom (0 + 1) rest <;> simp [Except.map]

/-! ## §3. Faults without words. -/

/-- The first of the values that is no exact natural number has no plain form. -/
def Value.FirstWordless (values : List Value) : Prop :=
  ∃ before v after, values = before ++ v :: after ∧ (∀ w ∈ before, w.IsExactNatural) ∧
    v.toText? = none

/-- The first element that is no symbol has no plain form. -/
def Input.Wordless : Input → Prop
  | .text _ => False
  | .list elements => Value.FirstWordless elements

/-- A natural number has a plain form. -/
theorem Value.IsExactNatural.worded {v : Value} (h : v.IsExactNatural) : v.toText? ≠ none := by
  obtain ⟨x, rfl⟩ := h.number
  simp [toText?]

theorem Value.firstWordless_cons {v : Value} {rest : List Value} :
    FirstWordless (v :: rest) ↔ v.toText? = none ∨ v.IsExactNatural ∧ FirstWordless rest := by
  constructor
  · rintro ⟨before, w, after, hvalues, hbefore, hw⟩
    rcases List.cons_eq_append_iff.1 hvalues with ⟨rfl, hw'⟩ | ⟨before', rfl, rfl⟩
    · exact .inl ((List.cons.inj hw').1 ▸ hw)
    · rw [List.forall_mem_cons] at hbefore
      exact .inr ⟨hbefore.1, before', w, after, rfl, hbefore.2, hw⟩
  · rintro (hv | ⟨hv, before, w, after, rfl, hbefore, hw⟩)
    · exact ⟨[], v, rest, rfl, List.forall_mem_nil _, hv⟩
    · exact ⟨v :: before, w, after, rfl, List.forall_mem_cons.2 ⟨hv, hbefore⟩, hw⟩

theorem symbolsFrom_wordless (elements : List Value) : ∀ position : Nat,
    symbolsFrom position elements = .error .wordless ↔ Value.FirstWordless elements := by
  induction elements with
  | nil => intro position; simp [symbolsFrom, Value.FirstWordless]
  | cons v rest ih =>
      intro position
      rw [symbolsFrom, Value.firstWordless_cons, ← ih (position + 1), Value.isExactNatural_iff]
      cases hv : v.symbol? with
      | none => simp
      | some s =>
          have hworded : v.toText? ≠ none := (Value.isExactNatural_iff.2 ⟨s, hv⟩).worded
          cases symbolsFrom (position + 1) rest <;> simp [Except.map, hworded]

theorem Input.wordless_iff {input : Input} :
    input.Wordless ↔ input.symbols = .error .wordless := by
  cases input with
  | text t => simp [Wordless, symbols]
  | list elements => exact (symbolsFrom_wordless elements 0).symm

/-- What is wrong with a declaration can always be said. -/
theorem Numbering.ofValue_ne_wordless (v : Value) : ofValue v ≠ .error .wordless := by
  unfold ofValue
  cases Sentinels.ofValue v <;> simp

theorem Budget.wordless_iff {v : Value} : v.toText? = none ↔ ofValue v = .error .wordless := by
  cases v with
  | absent => simp [Value.toText?, ofValue]
  | null => simp [Value.toText?, ofValue]
  | number x =>
      simp only [Value.toText?, ofValue, Raised.worded]
      split <;> simp
  | _ => simp [ofValue]

theorem Strategy.wordless_iff {v : Value} : v.toText? = none ↔ ofValue v = .error .wordless := by
  cases v with
  | absent => simp [Value.toText?, ofValue, Value.isNothing]
  | null => simp [Value.toText?, ofValue, Value.isNothing]
  | text t =>
      simp only [Value.toText?, ofValue, Value.isNothing, Value.same, beq_iff_eq,
        Bool.false_eq_true, if_false, Raised.worded]
      split_ifs <;> simp
  | _ => simp [ofValue, Value.isNothing, Value.same]

/-! ## §4. Refusals. -/

namespace Report

variable {α β : Type}

/-- A report that ends in a fault of what was handed over. -/
def Refused (r : Report α) : Prop :=
  ∃ e, r.result = .error (.config e)

/-- A report that ends in an error about what was handed over. -/
def RefusedInWords (r : Report α) : Prop :=
  ∃ e, r.result = .error (.config (.error e))

theorem not_refused_pure (v : α) : ¬ (Pure.pure v : Report α).Refused := by
  rintro ⟨e, he⟩
  exact absurd he (by simp [Pure.pure, Report.pure])

theorem refused_bind {r : Report α} {f : α → Report β} :
    (r >>= f).Refused ↔ r.Refused ∨ ∃ v, r.result = .ok v ∧ (f v).Refused := by
  show (Report.bind r f).Refused ↔ _
  unfold Report.bind Refused
  cases r.result <;> simp

end Report

namespace Search

theorem not_refused_matchAt (a : Attempt) (start : Nat) : ¬ (matchAt a start).Refused := by
  rintro ⟨e, he⟩
  obtain ⟨_, hresult⟩ := matchAt_eq a start
  have hsound : (attemptAt a start).result ≠ .error (.config e) := a.report_ne_config _ _ e
  rw [hresult] at he
  revert he hsound
  cases (attemptAt a start).result with
  | ok v => simp [Except.map]
  | error e' => simp [Except.map]

variable {find : Nat → Report (Option Span)} {stop : Nat}

/-- A step of a search is refused only where an attempt is, -/
theorem not_refused_bind {α : Type} {f : Option Span → Report α} {start : Nat}
    (h : ∀ k, ¬ (find k).Refused) (hf : ∀ found, ∃ next > start, ¬ (f found).Refused) :
    ¬ (find start >>= f).Refused := by
  intro hrefused
  rcases Report.refused_bind.1 hrefused with hfind | ⟨found, _, hrest⟩
  · exact h start hfind
  · obtain ⟨_, _, hnot⟩ := hf found
    exact hnot hrest

/-- and so is a scan. -/
theorem not_refused_scan (h : ∀ k, ¬ (find k).Refused) (more start : Nat) :
    ¬ (scan find more start).Refused :=
  scan_keeps (P := fun _ r => ¬ r.Refused) (fun _ v => Report.not_refused_pure v)
    (fun _ _ _ hf => not_refused_bind h hf) more start rfl

theorem not_refused_scanAll (h : ∀ k, ¬ (find k).Refused) (more start : Nat) :
    ¬ (scanAll find stop more start).Refused := by
  refine scanAll_keeps (P := fun _ r => ¬ r.Refused) (fun _ v => Report.not_refused_pure v)
    (fun _ r m hr hrefused => ?_) (fun _ _ _ hf => not_refused_bind h hf) more start
  rcases Report.refused_bind.1 hrefused with hrest | ⟨rest, _, hlast⟩
  · exact hr hrest
  · exact Report.not_refused_pure _ hlast

end Search

/-! ## §5. What is refused. -/

variable {input : Input} {oracle : Oracle} {maxCycles : Value}

/-- Arguments of which no attempt is made. -/
def Attempt.Unfit (input : Input) (oracle : Oracle) (maxCycles : Value) : Prop :=
  ¬ input.Valid ∨ ¬ Sentinels.Valid oracle.sentinels ∨ ¬ Budget.Valid maxCycles

/-- Arguments of which the first at fault has no plain form. -/
def Attempt.Wordless (input : Input) (oracle : Oracle) (maxCycles : Value) : Prop :=
  input.Wordless ∨
    input.Valid ∧ Sentinels.Valid oracle.sentinels ∧ maxCycles.toText? = none

theorem Attempt.unfit_iff :
    Unfit input oracle maxCycles ↔ ∃ e, ofInput input oracle maxCycles = .error e := by
  unfold Unfit
  rw [Input.valid_iff, Sentinels.valid_iff, Budget.valid_iff]
  simp only [ofInput, ofSymbols, bind, Except.bind, pure, Except.pure]
  cases input.symbols <;> cases Numbering.ofValue oracle.sentinels <;>
    cases Budget.ofValue maxCycles <;> simp

theorem Attempt.wordless_iff :
    Wordless input oracle maxCycles ↔ ofInput input oracle maxCycles = .error .wordless := by
  have hids := Numbering.ofValue_ne_wordless oracle.sentinels
  unfold Wordless
  rw [Input.wordless_iff, Input.valid_iff, Sentinels.valid_iff, Budget.wordless_iff]
  simp only [ofInput, ofSymbols, bind, Except.bind, pure, Except.pure]
  cases input.symbols <;> cases hread : Numbering.ofValue oracle.sentinels <;>
    cases Budget.ofValue maxCycles <;> simp_all

/-- A report raises exactly these faults of what was handed over, and nothing was
asked where it does. -/
structure Report.Raises {α : Type} (r : Report α) (fault : Raised ConfigError → Prop) : Prop where
  raised_iff : ∀ e, r.result = .error (.config e) ↔ fault e
  queries_eq : r.Refused → r.queries = []

/-- A report is refused with an error for unfit arguments and for no others, but for
those that there are no words for; and nothing was asked where it is. -/
structure Report.RefusedUpFront {α : Type} (r : Report α) (unfit wordless : Prop) : Prop where
  refused_iff : r.RefusedInWords ↔ unfit ∧ ¬ wordless
  wordless_iff : r.result = .error (.config .wordless) ↔ wordless
  queries_eq : r.Refused → r.queries = []

namespace Report

variable {α β : Type} {r : Report α} {fault : Raised ConfigError → Prop}

/-- A refusal raises the one fault there is, -/
theorem Raises.of_refusal {e : Raised ConfigError} (hfault : ∀ e', fault e' ↔ e = e') :
    (refusal e : Report α).Raises fault where
  raised_iff := by simp [refusal, hfault]
  queries_eq := fun _ => rfl

/-- and where there is none, it is enough not to refuse. -/
theorem Raises.of_sound (hfault : ∀ e, ¬ fault e) (h : ¬ r.Refused) : r.Raises fault where
  raised_iff := fun e => iff_of_false (fun he => h ⟨e, he⟩) (hfault e)
  queries_eq := fun hr => absurd hr h

theorem Raises.refused_iff (h : r.Raises fault) : r.Refused ↔ ∃ e, fault e :=
  exists_congr h.raised_iff

/-- A step that refuses nothing leaves a refusal, and its queries, as they are. -/
theorem Raises.bind {f : α → Report β} (h : r.Raises fault) (hf : ∀ v, ¬ (f v).Refused) :
    (r >>= f).Raises fault := by
  have hresult : ∀ e, (r >>= f).result = .error (.config e) ↔ r.result = .error (.config e) := by
    intro e
    cases hr : r.result with
    | ok v =>
        rw [result_bind hr]
        exact iff_of_false (fun he => hf v ⟨e, he⟩) (by simp)
    | error e' => simp [bind_error hr]
  refine ⟨fun e => (hresult e).trans (h.raised_iff e), ?_⟩
  rintro ⟨e, he⟩
  have hr := (hresult e).1 he
  rw [bind_error hr]
  exact h.queries_eq ⟨e, hr⟩

/-- What a report raises is an error but for the fault without words. -/
theorem Raises.refusedUpFront {unfit wordless : Prop} (h : r.Raises fault)
    (hunfit : unfit ↔ ∃ e, fault e) (hwordless : wordless ↔ fault .wordless) :
    r.RefusedUpFront unfit wordless where
  refused_iff := by
    unfold RefusedInWords
    simp only [hunfit, hwordless, h.raised_iff]
    refine ⟨fun ⟨e, he⟩ => ⟨⟨_, he⟩, fun hw => ?_⟩, ?_⟩
    · -- Only one fault is raised.
      have hboth := ((h.raised_iff _).2 he).symm.trans ((h.raised_iff _).2 hw)
      exact absurd hboth (by simp)
    · rintro ⟨⟨e, he⟩, hw⟩
      cases e with
      | error e => exact ⟨e, he⟩
      | wordless => exact absurd he hw
  wordless_iff := (h.raised_iff _).trans hwordless.symm
  queries_eq := h.queries_eq

end Report

theorem runStrategy_raises (s : Strategy) (input : Input) (oracle : Oracle) (maxCycles : Value) :
    (runStrategy s input oracle maxCycles).Raises
      (Attempt.ofInput input oracle maxCycles = .error ·) := by
  rw [runStrategy_eq]
  cases Attempt.ofInput input oracle maxCycles with
  | error e => exact .of_refusal (by simp)
  | ok a => exact .of_sound (by simp) fun ⟨e, he⟩ => a.report_ne_config _ _ e he

/-- The strategy is looked at before everything else. -/
theorem evaluate_raises (input : Input) (oracle : Oracle) (options : Options) :
    (evaluate input oracle options).Raises fun e =>
      Strategy.ofValue options.strategy = .error e ∨
        Strategy.Valid options.strategy ∧
          Attempt.ofInput input oracle options.maxCycles = .error e := by
  rw [Strategy.valid_iff]
  unfold evaluate
  cases Strategy.ofValue options.strategy with
  | error e => exact .of_refusal (by simp)
  | ok s =>
      show (runStrategy s input oracle options.maxCycles).Raises _
      simpa using runStrategy_raises s input oracle options.maxCycles

/-- Where no attempt is made of its arguments, those of a search are all refused for
the same fault; otherwise none is. -/
theorem Search.tryAt_cases {symbols : List Symbol} (h : input.symbols = .ok symbols) :
    (∃ e, tryAt symbols.toArray oracle maxCycles = (fun _ => .refusal e) ∧
        Attempt.ofInput input oracle maxCycles = .error e) ∨
      (∀ k, ¬ (tryAt symbols.toArray oracle maxCycles k).Refused) ∧
        ∀ e, Attempt.ofInput input oracle maxCycles ≠ .error e := by
  rw [tryAt_eq]
  simp only [ne_eq, Attempt.ofInput_eq_error]
  cases hmade : Attempt.ofSymbols symbols.toArray oracle maxCycles with
  | error e => exact .inl ⟨e, rfl, .inr ⟨symbols, h, hmade⟩⟩
  | ok a => exact .inr ⟨fun k => not_refused_matchAt a k, by simp [h, hmade]⟩

theorem findFirst_raises (input : Input) (oracle : Oracle) (maxCycles : Value) :
    (findFirst input oracle maxCycles).Raises
      (Attempt.ofInput input oracle maxCycles = .error ·) := by
  cases hsymbols : input.symbols with
  | error e =>
      rw [Attempt.ofInput_eq_error.2 (.inl hsymbols)]
      unfold findFirst
      rw [hsymbols]
      exact .of_refusal (by simp)
  | ok symbols =>
      rw [findFirst_eq oracle maxCycles hsymbols]
      rcases Search.tryAt_cases hsymbols with ⟨e, hrefused, hfault⟩ | ⟨hmade, hfit⟩
      · rw [hrefused, hfault]
        exact .of_refusal (by simp)
      · exact .of_sound hfit (Search.not_refused_scan hmade _ _)

/-- Where there is no position to try, nothing is looked at. -/
theorem findAll_raises (input : Input) (oracle : Oracle) (maxCycles : Value) :
    (findAll input oracle maxCycles).Raises fun e =>
      ¬ input.Empty ∧ Attempt.ofInput input oracle maxCycles = .error e := by
  rw [Input.empty_iff]
  cases hsymbols : input.symbols with
  | error e =>
      rw [Attempt.ofInput_eq_error.2 (.inl hsymbols)]
      unfold findAll
      rw [hsymbols]
      exact .of_refusal (by simp)
  | ok symbols =>
      rw [findAll_eq oracle maxCycles hsymbols]
      cases symbols with
      | nil => exact .of_sound (by simp) (Report.not_refused_pure [])
      | cons first rest =>
          rcases Search.tryAt_cases hsymbols with ⟨e, hrefused, hfault⟩ | ⟨hmade, hfit⟩
          · rw [hrefused, hfault]
            exact .of_refusal (by simp)
          · exact .of_sound (fun e he => hfit e he.2) (Search.not_refused_scanAll hmade _ _)

/-- Unfit arguments are refused for some fault, and unknown strategies too. -/
theorem unfit_to_decide_iff {options : Options} :
    Attempt.Unfit input oracle options.maxCycles ∨ ¬ Strategy.Valid options.strategy ↔
      ∃ e, Strategy.ofValue options.strategy = .error e ∨
        Strategy.Valid options.strategy ∧
          Attempt.ofInput input oracle options.maxCycles = .error e := by
  have hunknown : ¬ Strategy.Valid options.strategy ↔
      ∃ e, Strategy.ofValue options.strategy = .error e := by
    rw [Strategy.valid_iff]
    cases Strategy.ofValue options.strategy <;> simp
  rw [exists_or, exists_and_left, ← Attempt.unfit_iff, ← hunknown]
  tauto

/-- The first fault is the strategy's, if that is unknown. -/
theorem wordless_to_decide_iff {options : Options} :
    (options.strategy.toText? = none ∨
        Strategy.Valid options.strategy ∧ Attempt.Wordless input oracle options.maxCycles) ↔
      Strategy.ofValue options.strategy = .error .wordless ∨
        Strategy.Valid options.strategy ∧
          Attempt.ofInput input oracle options.maxCycles = .error .wordless :=
  or_congr Strategy.wordless_iff (and_congr_right fun _ => Attempt.wordless_iff)

/-- Deciding an input refuses unfit arguments and unknown strategies. -/
theorem evaluate_upFront (input : Input) (oracle : Oracle) (options : Options) :
    (evaluate input oracle options).RefusedUpFront
      (Attempt.Unfit input oracle options.maxCycles ∨ ¬ Strategy.Valid options.strategy)
      (options.strategy.toText? = none ∨
        Strategy.Valid options.strategy ∧ Attempt.Wordless input oracle options.maxCycles) :=
  (evaluate_raises input oracle options).refusedUpFront unfit_to_decide_iff wordless_to_decide_iff

/-- **Unfit arguments are refused before anything is asked.**  Deciding an input
refuses unfit arguments and unknown strategies, the search for the first match
unfit arguments, and nothing else.  The search for all matches does so wherever
there is a symbol to search, and refuses no empty input.  The refusal is an error,
unless the first argument at fault has no plain form: then there are no words for
one.  The strategy comes first among the arguments, then the input, the sentinels
and the limit. -/
theorem refused_up_front (input : Input) (oracle : Oracle) (options : Options) :
    let unfit := Attempt.Unfit input oracle options.maxCycles
    let wordless := Attempt.Wordless input oracle options.maxCycles
    let undecidable := unfit ∨ ¬ Strategy.Valid options.strategy
    let undecidableWordless :=
      options.strategy.toText? = none ∨ Strategy.Valid options.strategy ∧ wordless
    (evaluate input oracle options).RefusedUpFront undecidable undecidableWordless ∧
      (isMatch input oracle options).RefusedUpFront undecidable undecidableWordless ∧
      (findFirst input oracle options.maxCycles).RefusedUpFront unfit wordless ∧
      (findAll input oracle options.maxCycles).RefusedUpFront (¬ input.Empty ∧ unfit)
        (¬ input.Empty ∧ wordless) := by
  intro unfit wordless undecidable undecidableWordless
  refine ⟨evaluate_upFront input oracle options, ?isMatch, ?findFirst, ?findAll⟩
  case isMatch =>
    have hevaluate := evaluate_raises input oracle options
    exact (hevaluate.bind fun _ => Report.not_refused_pure _).refusedUpFront
      unfit_to_decide_iff wordless_to_decide_iff
  case findFirst =>
    exact (findFirst_raises input oracle options.maxCycles).refusedUpFront
      Attempt.unfit_iff Attempt.wordless_iff
  case findAll =>
    refine (findAll_raises input oracle options.maxCycles).refusedUpFront ?_
      (and_congr_right fun _ => Attempt.wordless_iff)
    rw [exists_and_left]
    exact and_congr_right fun _ => Attempt.unfit_iff

/-- Two faults that bring no error.  A limit below zero is refused by a search for the
first match in an empty input, and goes by in a search for all matches; and a limit
without a plain form is refused without words. -/
theorem faults_without_error :
    let belowZero : Value := .number (.finite (-1))
    let speechless : Value := .object [("toString", .null)]
    ¬ Budget.Valid belowZero ∧ ¬ Budget.Valid speechless ∧
      (findFirst (.text "") oneSymbol belowZero).result =
        .error (.config (.error (.maxCycles "-1"))) ∧
      (findAll (.text "") oneSymbol belowZero).result = .ok [] ∧
      (findFirst (.text "") oneSymbol speechless).result = .error (.config .wordless) := by
  intro belowZero speechless
  have hbelow : Budget.ofValue belowZero = .error (.error (.maxCycles "-1")) := by rfl
  have hspeechless : Budget.ofValue speechless = .error .wordless := by rfl
  refine ⟨?_, ?_, by rfl, by rfl, by rfl⟩
  · rw [Budget.valid_iff, hbelow]
    simp
  · rw [Budget.valid_iff, hspeechless]
    simp

end OracleNFA
