/-
  OracleNFA.Proofs.Search
  ───────────────────────
  **WHAT A SEARCH FINDS FIRST.**

  A search makes one attempt for each start position it tries, and what it finds
  depends on what these find and on nothing else:

      attemptAt_explored — an attempt explores what is reached from its start
      scan_result        — the first match at one of so many positions
      scanAll_result     — the matches before a position, and the first of them
      scan_keeps, scanAll_keeps
                         — what every step of a scan keeps, the scan keeps

  Both searches try the same positions in the same order, so they find the same
  match first.  Only the end of the input is tried by one of them alone.
-/
import OracleNFA.Proofs.Verdict

namespace OracleNFA

/-! ## §1. One start position. -/

namespace Report

variable {α β : Type}

/-- What follows a result is what it is followed by. -/
theorem result_bind {r : Report α} {a : α} (h : r.result = .ok a) (f : α → Report β) :
    (r >>= f).result = (f a).result := by
  show (Report.bind r f).result = _
  unfold Report.bind
  rw [h]

/-- It is asked after what brought the result. -/
theorem queries_bind {r : Report α} {a : α} (h : r.result = .ok a) (f : α → Report β) :
    (r >>= f).queries = r.queries ++ (f a).queries := by
  show (Report.bind r f).queries = _
  unfold Report.bind
  rw [h]

/-- Nothing follows an error. -/
theorem bind_error {r : Report α} {e : MatchError} (h : r.result = .error e) (f : α → Report β) :
    r >>= f = ⟨.error e, r.queries, r.events⟩ := by
  show Report.bind r f = _
  unfold Report.bind
  rw [h]

/-- A result that is made from another is that of the other, made into it, -/
theorem result_bind_pure (r : Report α) (f : α → β) :
    (r >>= fun v => Pure.pure (f v)).result = r.result.map f := by
  show (Report.bind r _).result = _
  unfold Report.bind
  cases r.result <;> rfl

/-- and takes no more queries. -/
theorem queries_bind_pure (r : Report α) (f : α → β) :
    (r >>= fun v => Pure.pure (f v)).queries = r.queries := by
  show (Report.bind r _).queries = r.queries
  unfold Report.bind
  cases r.result with
  | error e => rfl
  | ok v => exact List.append_nil _

end Report

/-- A match that begins at a position and ends inside an input of that length. -/
structure Span.Within (start length : Nat) (m : Span) : Prop where
  start_eq : m.start = start
  start_le : start ≤ m.stop
  stop_le : m.stop ≤ length

namespace Search

variable {a : Attempt} {start : Nat}

/-- The attempt at a start position: the simulation from there on, with a meter of
its own. -/
def attemptAt (a : Attempt) (start : Nat) : Report Ending :=
  a.report (Exploration.simulate a.ids a.length start false) fun e _ => e

/-- The match that the end of a simulation is. -/
def spanOf (start : Nat) (e : Ending) : Option Span :=
  match e.verdict with
  | .accepted => some ⟨start, e.position.count⟩
  | .rejected | .exhausted => none

/-- What is found at a start position is the match that the attempt there ends in,
and nothing more is asked. -/
theorem matchAt_eq (a : Attempt) (start : Nat) :
    (matchAt a start).queries = (attemptAt a start).queries ∧
      (matchAt a start).result = (attemptAt a start).result.map (spanOf start) := by
  show (Report.bind (attemptAt a start) _).queries = _ ∧
    (Report.bind (attemptAt a start) _).result = _
  unfold Report.bind
  cases (attemptAt a start).result with
  | error e => exact ⟨rfl, rfl⟩
  | ok e =>
      obtain ⟨verdict, position⟩ := e
      -- Whichever the verdict, nothing more is asked.
      cases verdict <;> exact ⟨List.append_nil _, rfl⟩

/-- **An attempt at a start position explores what is reached from there.** -/
theorem attemptAt_explored (hstart : start ≤ a.length) :
    ∃ r i, a.Explored (a.entry start) false r i ∧ a.Grants i ∧
      (∀ e, r = .error e → ∃ u, a.Fails u e) ∧
      (attemptAt a start).queries = i.asked.map a.query ∧
      (attemptAt a start).result =
        match r with
        | .ok e => .ok e
        | .error e => .error (.query e) := by
  obtain ⟨r, i, ⟨hexplored, hfailure⟩, hgrants, hasked, hreport⟩ :=
    a.report_ensures _ (fun e _ => e)
      (a.ensures_and _ _ (Attempt.ensures_simulate false hstart) (a.ensures_failure _ _))
  refine ⟨r, i, hexplored, hgrants, hfailure, hasked, ?_⟩
  cases r with
  | ok e =>
      obtain ⟨p, _, hreport⟩ := hreport
      exact hreport
  | error e => exact hreport

/-- Where the oracle answers every query, an attempt comes to its end. -/
theorem attemptAt_answered (hstart : start ≤ a.length)
    (hanswers : ∀ q, ∃ raw, a.oracle.answer q = .ok raw) :
    ∃ e i, a.Explored (a.entry start) false (.ok e) i ∧ a.Grants i ∧
      (attemptAt a start).queries = i.asked.map a.query ∧ (attemptAt a start).result = .ok e := by
  obtain ⟨r, i, hexplored, hgrants, hfailure, hqueries, hresult⟩ := attemptAt_explored hstart
  cases r with
  | ok e => exact ⟨e, i, hexplored, hgrants, hqueries, hresult⟩
  | error e =>
      obtain ⟨u, hfails⟩ := hfailure e rfl
      exact absurd hfails (Attempt.not_fails hanswers)

theorem matchAt_of_attemptAt {e : Ending} (h : (attemptAt a start).result = .ok e) :
    (matchAt a start).result = .ok (spanOf start e) := by
  rw [(matchAt_eq a start).2, h]
  rfl

/-- Where the oracle answers every query, a match from the start position on is found
or none. -/
theorem matchAt_answered (hstart : start ≤ a.length)
    (hanswers : ∀ q, ∃ raw, a.oracle.answer q = .ok raw) :
    ∃ found, (matchAt a start).result = .ok found ∧
      ∀ m, found = some m → Span.Within start a.length m := by
  obtain ⟨⟨verdict, position⟩, i, hexplored, _, _, hresult⟩ := attemptAt_answered hstart hanswers
  refine ⟨_, matchAt_of_attemptAt hresult, fun m hm => ?_⟩
  cases verdict with
  | rejected => exact absurd hm (by simp [spanOf])
  | exhausted => exact absurd hm (by simp [spanOf])
  | accepted =>
      obtain rfl : (⟨start, position.count⟩ : Span) = m := Option.some.inj hm
      obtain ⟨n, rfl, haccepted⟩ := hexplored.2
      obtain ⟨k, _, heq, hle, _⟩ := haccepted.reached.position hstart
      obtain rfl : n = k := Position.after.inj (congrArg Site.position heq)
      exact ⟨rfl, hle, haccepted.inside⟩

/-! ## §2. Scanning. -/

variable {find : Nat → Report (Option Span)} {found : Nat → Option Span} {stop : Nat} {m : Span}

/-- **What every step of a scan keeps, the scan keeps.**  A step is one attempt, and
whatever follows it begins further on. -/
theorem scan_keeps {P : Nat → Report (Option Span) → Prop}
    (hdone : ∀ start v, P start (Pure.pure v))
    (hstep : ∀ start < stop, ∀ f : Option Span → Report (Option Span),
      (∀ found, ∃ next > start, P next (f found)) → P start (find start >>= f))
    (more : Nat) : ∀ start : Nat, start + more = stop → P start (scan find more start) := by
  induction more with
  | zero => intro start _; exact hdone start none
  | succ more ih =>
      intro start hmore
      rw [scan]
      refine hstep start (by omega) _ fun found => ⟨start + 1, Nat.lt_succ_self start, ?_⟩
      cases found with
      | some m => exact hdone _ (some m)
      | none => exact ih (start + 1) (by omega)

/-- A scan for all matches also puts each match in front of those behind it. -/
theorem scanAll_keeps {P : Nat → Report (List Span) → Prop}
    (hdone : ∀ start v, P start (Pure.pure v))
    (hput : ∀ start r (m : Span), P start r → P start (r >>= fun rest => Pure.pure (m :: rest)))
    (hstep : ∀ start < stop, ∀ f : Option Span → Report (List Span),
      (∀ found, ∃ next > start, P next (f found)) → P start (find start >>= f))
    (more : Nat) : ∀ start : Nat, P start (scanAll find stop more start) := by
  induction more with
  | zero => intro start; exact hdone start []
  | succ more ih =>
      intro start
      rw [scanAll]
      split
      · exact hdone start []
      · next hstop =>
          refine hstep start (Nat.lt_of_not_le hstop) _ fun found => ?_
          cases found with
          | none => exact ⟨start + 1, Nat.lt_succ_self start, ih (start + 1)⟩
          | some m => exact ⟨max m.stop (start + 1), by omega, hput _ _ m (ih _)⟩

/-- **A scan finds the first match there is.** -/
theorem scan_result (more : Nat) : ∀ start : Nat,
    (∀ k, start ≤ k → k < start + more → (find k).result = .ok (found k)) →
    (scan find more start).result = .ok ((List.range' start more).findSome? found) := by
  induction more with
  | zero => intro start _; rfl
  | succ more ih =>
      intro start h
      rw [scan, Report.result_bind (h start (Nat.le_refl _) (by omega)), List.range'_succ,
        List.findSome?_cons]
      cases found start with
      | some m => rfl
      | none => exact ih (start + 1) fun k hk hlt => h k (by omega) (by omega)

/-- A scan that found a match found it at its first position, or found nothing there and
went on. -/
theorem scan_eq_some {more start : Nat} :
    (scan find (more + 1) start).result = .ok (some m) ↔
      (find start).result = .ok (some m) ∨
        (find start).result = .ok none ∧ (scan find more (start + 1)).result = .ok (some m) := by
  show (Report.bind (find start) _).result = _ ↔ _
  unfold Report.bind
  cases (find start).result with
  | error e => simp
  | ok found =>
      cases found with
      | some m' =>
          show Except.ok (some m') = Except.ok (some m) ↔ _
          simp
      | none => simp

/-- What a scan found was found at some start position. -/
theorem exists_of_scan (more : Nat) : ∀ start : Nat, (scan find more start).result = .ok (some m) →
    ∃ k, start ≤ k ∧ k < start + more ∧ (find k).result = .ok (some m) := by
  induction more with
  | zero => exact fun start h => nomatch h
  | succ more ih =>
      intro start h
      rcases scan_eq_some.1 h with hfound | ⟨_, hrest⟩
      · exact ⟨start, Nat.le_refl start, by omega, hfound⟩
      · obtain ⟨k, hle, hlt, hk⟩ := ih (start + 1) hrest
        exact ⟨k, by omega, by omega, hk⟩

/-- **The matches before a position begin with the first one there is.**  After a
match the scan goes on behind its start, so the trials last. -/
theorem scanAll_result (more : Nat) : ∀ start : Nat,
    (∀ k, start ≤ k → k < stop → (find k).result = .ok (found k)) → stop ≤ start + more →
    ∃ spans, (scanAll find stop more start).result = .ok spans ∧
      spans.head? = (List.range' start (stop - start)).findSome? found := by
  induction more with
  | zero =>
      intro start _ hmore
      rw [show stop - start = 0 by omega]
      exact ⟨[], rfl, rfl⟩
  | succ more ih =>
      intro start h hmore
      rw [scanAll]
      by_cases hstop : stop ≤ start
      · rw [if_pos hstop, show stop - start = 0 by omega]
        exact ⟨[], rfl, rfl⟩
      · rw [if_neg hstop, Report.result_bind (h start (Nat.le_refl _) (by omega)),
          show stop - start = stop - (start + 1) + 1 by omega, List.range'_succ,
          List.findSome?_cons]
        cases found start with
        | none => exact ih (start + 1) (fun k hk hlt => h k (by omega) hlt) (by omega)
        | some m =>
            obtain ⟨rest, hrest, _⟩ := ih (max m.stop (start + 1))
              (fun k hk hlt => h k (by omega) hlt) (by omega)
            refine ⟨m :: rest, ?_, rfl⟩
            dsimp only
            rw [Report.result_bind hrest]
            rfl

end Search

/-! ## §3. Whole searches. -/

/-- The report of a search whose arguments are not sound. -/
def Report.refusal {α : Type} (e : Raised ConfigError) : Report α :=
  ⟨.error (.config e), [], []⟩

variable {input : Input} {oracle : Oracle} {maxCycles : Value} {symbols : List Symbol} {a : Attempt}
  {e : Raised ConfigError}

/-- The attempts of a search are the same but for their start, or are refused for
the same fault. -/
theorem Search.tryAt_eq (symbols : Array Symbol) (oracle : Oracle) (maxCycles : Value) :
    tryAt symbols oracle maxCycles =
      match Attempt.ofSymbols symbols oracle maxCycles with
      | .ok a => matchAt a
      | .error e => fun _ => .refusal e := by
  funext start
  unfold tryAt
  cases Attempt.ofSymbols symbols oracle maxCycles <;> rfl

/-- A search for the first match tries every position, and the end. -/
theorem findFirst_eq (oracle : Oracle) (maxCycles : Value) (h : input.symbols = .ok symbols) :
    findFirst input oracle maxCycles =
      Search.scan (Search.tryAt symbols.toArray oracle maxCycles) (symbols.length + 1) 0 := by
  unfold findFirst
  rw [h]
  rfl

/-- A search for all matches tries positions before the end. -/
theorem findAll_eq (oracle : Oracle) (maxCycles : Value) (h : input.symbols = .ok symbols) :
    findAll input oracle maxCycles =
      Search.scanAll (Search.tryAt symbols.toArray oracle maxCycles) symbols.length
        symbols.length 0 := by
  unfold findAll
  rw [h]
  rfl

/-! ## §4. The first match. -/

/-- What is found first up to the end, against what is found first before it. -/
theorem Search.head_of_found {found : Nat → Option Span} {n : Nat} {spans : List Span}
    (hwithin : ∀ k ≤ n, ∀ m, found k = some m → Span.Within k n m)
    (hhead : spans.head? = (List.range' 0 n).findSome? found) :
    (spans = [] ↔ (List.range' 0 (n + 1)).findSome? found = none ∨
        (List.range' 0 (n + 1)).findSome? found = some ⟨n, n⟩) ∧
      (spans ≠ [] → spans.head? = (List.range' 0 (n + 1)).findSome? found) := by
  have hlast : (List.range' 0 (n + 1)).findSome? found =
      ((List.range' 0 n).findSome? found).or (found n) := by
    rw [List.range'_1_concat, List.findSome?_append]
    simp
  rw [hlast, ← hhead]
  cases spans with
  | nil =>
      -- Nothing before the end: what is found at the end is empty.
      refine ⟨iff_of_true rfl ?_, fun hne => absurd rfl hne⟩
      show found n = none ∨ found n = some ⟨n, n⟩
      cases hfound : found n with
      | none => exact .inl rfl
      | some m =>
          obtain ⟨hstart, hle, hge⟩ := hwithin n (Nat.le_refl n) m hfound
          obtain ⟨start, stop⟩ := m
          obtain rfl : start = n := hstart
          exact .inr (congrArg some (congrArg _ (Nat.le_antisymm hge hle)))
  | cons m rest =>
      -- What is found before the end does not begin there.
      obtain ⟨k, hk, hfound⟩ := List.exists_of_findSome?_eq_some hhead.symm
      have hlt : k < n := by simpa using hk
      have hstart := (hwithin k (Nat.le_of_lt hlt) m hfound).start_eq
      refine ⟨iff_of_false (by simp) ?_, fun _ => rfl⟩
      rintro (hnone | hsome)
      · exact absurd hnone (by simp)
      · obtain rfl : m = ⟨n, n⟩ := Option.some.inj hsome
        have : n = k := hstart
        omega

/-- **Both searches find the same match first, but for one at the end.**  On sound
arguments and with an oracle that answers every query, both return.  No match is
found exactly if there is no first one, or it is the empty one at the end of the
input, which only the search for the first match tries; else the matches begin
with the first one.  An unsound input is the same fault for both. -/
theorem first_match_shared (input : Input) {ids : Numbering} {b : Budget}
    (hids : Numbering.ofValue oracle.sentinels = .ok ids)
    (hbudget : Budget.ofValue maxCycles = .ok b)
    (hanswers : ∀ q, ∃ raw, oracle.answer q = .ok raw) :
    match input.symbols with
    | .error e =>
        (findFirst input oracle maxCycles).result = .error (.config e) ∧
          (findAll input oracle maxCycles).result = .error (.config e)
    | .ok symbols => ∃ first spans,
        (findFirst input oracle maxCycles).result = .ok first ∧
          (findAll input oracle maxCycles).result = .ok spans ∧
          (spans = [] ↔ first = none ∨ first = some ⟨symbols.length, symbols.length⟩) ∧
          (spans ≠ [] → spans.head? = first) := by
  cases hsymbols : input.symbols with
  | error e =>
      unfold findFirst findAll
      rw [hsymbols]
      exact ⟨rfl, rfl⟩
  | ok symbols =>
      dsimp only
      -- The attempts are all on one sound input.
      have hmade : Attempt.ofSymbols symbols.toArray oracle maxCycles =
          .ok ⟨symbols.toArray, oracle, ids, b⟩ :=
        Attempt.ofSymbols_eq_ok.2 ⟨ids, b, hids, hbudget, rfl⟩
      have htry : ∀ k ≤ symbols.length, ∃ found,
          (Search.tryAt symbols.toArray oracle maxCycles k).result = .ok found ∧
            ∀ m, found = some m → Span.Within k symbols.length m := by
        intro k hk
        rw [Search.tryAt_eq, hmade]
        exact Search.matchAt_answered hk hanswers
      choose! found hfound hwithin using htry
      have hfirst := Search.scan_result (symbols.length + 1) 0 fun k _ hk => hfound k (by omega)
      obtain ⟨spans, hall, hhead⟩ := Search.scanAll_result symbols.length 0
        (fun k _ hk => hfound k (Nat.le_of_lt hk)) (by omega)
      rw [findFirst_eq _ _ hsymbols, findAll_eq _ _ hsymbols]
      exact ⟨_, spans, hfirst, hall, Search.head_of_found hwithin hhead⟩

/-- An oracle that accepts the empty word alone. -/
def emptyWord : Oracle where
  sentinels := Sentinels.toValue ⟨0, 1, 2, none, none⟩
  answer := fun _ => .ok (Transition.toValue ⟨1, none, false⟩)

theorem first_match_shared_emptyWord :
    Numbering.ofValue emptyWord.sentinels = .ok ⟨0, 1, 2, 0, Number.maxSafe⟩ ∧
      Budget.ofValue .absent = .ok .default ∧
      (∀ q, ∃ raw, emptyWord.answer q = .ok raw) ∧
      ∃ first spans, (findFirst (.text "ab") emptyWord .absent).result = .ok first ∧
        (findAll (.text "ab") emptyWord .absent).result = .ok spans ∧
        spans = [⟨0, 0⟩, ⟨1, 1⟩] ∧ spans.head? = first := by
  have hids : Numbering.ofValue emptyWord.sentinels = .ok ⟨0, 1, 2, 0, Number.maxSafe⟩ := by rfl
  have hbudget : Budget.ofValue .absent = .ok .default := by rfl
  have hanswers : ∀ q, ∃ raw, emptyWord.answer q = .ok raw := fun _ => ⟨_, rfl⟩
  obtain ⟨first, spans, hfirst, hall, _, hhead⟩ :=
    first_match_shared (.text "ab") hids hbudget hanswers
  have hspans : spans = [⟨0, 0⟩, ⟨1, 1⟩] := by
    obtain rfl : _ = spans := Except.ok.inj hall
    rfl
  exact ⟨hids, hbudget, hanswers, first, spans, hfirst, hall, hspans, hhead (by simp [hspans])⟩

/-- The empty match at the end of the input is found as the first match, and is not
among all matches. -/
theorem last_position_untried :
    (∀ q, ∃ raw, emptyWord.answer q = .ok raw) ∧
      Numbering.ofValue emptyWord.sentinels = .ok ⟨0, 1, 2, 0, Number.maxSafe⟩ ∧
      Budget.ofValue .absent = .ok .default ∧
      (findFirst (.text "") emptyWord .absent).result = .ok (some ⟨0, 0⟩) ∧
      (findAll (.text "") emptyWord .absent).result = .ok [] := by
  refine ⟨fun _ => ⟨_, rfl⟩, ?_, ?_, ?_, ?_⟩ <;> rfl

end OracleNFA
