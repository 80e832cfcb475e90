/-
  OracleNFA.Proofs.Discipline
  ───────────────────────────
  **WHICH QUERIES AN ORACLE GETS.**

  An oracle is asked about the part of its configuration graph that an attempt
  reaches from its start position, and about nothing else:

      Askable     — what is known of a site before it is asked about
      Disciplined — queries about such sites, no two of them about one site

  The run of a strategy is one attempt from the first symbol on.  A search is an
  attempt for each of some start positions, from left to right and one after the
  other (`Search.Tries`), so the queries of a search are those of its attempts.
-/
import OracleNFA.Proofs.Search

namespace OracleNFA

/-! ## §1. Sites to ask about. -/

theorem Numbering.Names.exact {ids : Numbering} {s : StateId} (h : ids.Names s) :
    ∃ k ≤ ids.maxStateId, k ≤ Number.maxSafe ∧ s = Number.ofNat k := by
  obtain ⟨k, hk, rfl⟩ := h
  unfold span at hk
  exact ⟨k, by omega, by omega, rfl⟩

namespace Attempt

variable {a : Attempt} {start : Nat}

/-- Nothing leads to the dead state. -/
theorem Edge.alive {u v : Site} (h : a.Edge u v) : v.state ≠ a.ids.reject := by
  cases h <;> assumption

/-- What is known of a site that an attempt from a start position asks about. -/
structure Askable (a : Attempt) (start : Nat) (u : Site) : Prop where
  ne_accept : u.state ≠ a.ids.accept
  ne_reject : u.state ≠ a.ids.reject
  declared : u.state = a.ids.start ∨
    ∃ k ≤ a.ids.maxStateId, k ≤ Number.maxSafe ∧ u.state = Number.ofNat k
  inside : ∃ n, u.position = .after n ∧ start ≤ n ∧ n ≤ a.length
  reached : a.Reaches (a.entry start) u

/-- **What is reached can be asked about unless it is accepting.** -/
theorem Reaches.askable {u : Site} (h : a.Reaches (a.entry start) u) (hstart : start ≤ a.length)
    (halive : a.ids.start ≠ a.ids.reject) (hu : u.state ≠ a.ids.accept) : a.Askable start u := by
  obtain ⟨n, s, rfl, hle, hn⟩ := h.position hstart
  -- It is the start itself, or an edge leads to it and an answer names it.
  have hstate : s ≠ a.ids.reject ∧ (s = a.ids.start ∨
      ∃ k ≤ a.ids.maxStateId, k ≤ Number.maxSafe ∧ s = Number.ofNat k) := by
    rcases Relation.ReflTransGen.cases_tail h with heq | ⟨v, _, hedge⟩
    · obtain rfl : s = a.ids.start := congrArg Site.state heq
      exact ⟨fun hdead => halive (Number.ofNat_inj.1 hdead), .inl rfl⟩
    · exact ⟨hedge.alive, .inr hedge.names.exact⟩
  exact ⟨hu, hstate.1, hstate.2, ⟨n, rfl, hle, hn⟩, h⟩

/-! ## §2. Attempts. -/

/-- Queries about sites to ask about, no two about the same one.  A query shows the
state of its site and the input at its position. -/
def Disciplined (a : Attempt) (start : Nat) (queries : List Query) : Prop :=
  ∃ sites : List Site, sites.Nodup ∧ (∀ u ∈ sites, a.Askable start u) ∧
    queries = sites.map fun u =>
      ⟨u.state, window a.input u.position (some (a.ids.endOfInput : Number))⟩

/-- **An orderly inquiry is disciplined.** -/
theorem Orderly.disciplined {i : Inquiry} (h : a.Orderly (a.entry start) i)
    (hstart : start ≤ a.length) (halive : a.ids.start ≠ a.ids.reject) :
    a.Disciplined start (i.asked.map a.query) := by
  refine ⟨i.asked, h.nodup_asked, fun u hu => ?_, rfl⟩
  obtain ⟨hreached, hlive⟩ := h.reached u (List.mem_append_left _ hu)
  exact hreached.askable hstart halive hlive

theorem evaluate_disciplined (hdistinct : a.ids.start ≠ a.ids.accept)
    (halive : a.ids.start ≠ a.ids.reject) (s : Strategy) :
    a.Disciplined 0 (a.evaluate s).queries := by
  obtain ⟨_, i, hexplored, _, _, hqueries, _⟩ := evaluate_explored hdistinct s
  rw [hqueries]
  exact hexplored.1.disciplined (Nat.zero_le _) halive

end Attempt

namespace Search

variable {a : Attempt} {find : Nat → Report (Option Span)} {start stop : Nat}

theorem matchAt_disciplined (hstart : start ≤ a.length) (halive : a.ids.start ≠ a.ids.reject) :
    a.Disciplined start (matchAt a start).queries := by
  obtain ⟨_, i, hexplored, _, _, hqueries, _⟩ := attemptAt_explored hstart
  rw [(matchAt_eq a start).1, hqueries]
  exact hexplored.1.disciplined hstart halive

/-! ## §3. Searches. -/

/-- The queries of attempts at some of the positions from `start` up to but without
`stop`, from left to right. -/
def Tries (find : Nat → Report (Option Span)) (start stop : Nat) (queries : List Query) : Prop :=
  ∃ starts : List Nat, starts.Pairwise (· < ·) ∧ (∀ k ∈ starts, start ≤ k ∧ k < stop) ∧
    queries = starts.flatMap fun k => (find k).queries

theorem Tries.none : Tries find start stop [] :=
  ⟨[], .nil, by simp, rfl⟩

/-- A start position in front of others further on. -/
theorem ascending_cons {starts : List Nat} {next : Nat} (hascending : starts.Pairwise (· < ·))
    (hwithin : ∀ k ∈ starts, next ≤ k ∧ k < stop) (hnext : start < next) (hstop : start < stop) :
    (start :: starts).Pairwise (· < ·) ∧ ∀ k ∈ start :: starts, start ≤ k ∧ k < stop := by
  refine ⟨List.pairwise_cons.2 ⟨fun k hk => ?_, hascending⟩, fun k hk => ?_⟩
  · exact Nat.lt_of_lt_of_le hnext (hwithin k hk).1
  · rcases List.mem_cons.1 hk with rfl | hk
    · exact ⟨Nat.le_refl _, hstop⟩
    · have := hwithin k hk
      omega

/-- One attempt, and others further on. -/
theorem Tries.cons {next : Nat} {queries : List Query} (h : Tries find next stop queries)
    (hnext : start < next) (hstop : start < stop) :
    Tries find start stop ((find start).queries ++ queries) := by
  obtain ⟨starts, hascending, hwithin, rfl⟩ := h
  obtain ⟨hascending, hwithin⟩ := ascending_cons hascending hwithin hnext hstop
  exact ⟨start :: starts, hascending, hwithin, rfl⟩

/-- A step of a search is one attempt, and whatever follows is further on. -/
theorem Tries.bind {α : Type} {f : Option Span → Report α} (hstop : start < stop)
    (h : ∀ found, ∃ next > start, Tries find next stop (f found).queries) :
    Tries find start stop (find start >>= f).queries := by
  show Tries find start stop (Report.bind (find start) f).queries
  unfold Report.bind
  cases (find start).result with
  | error e =>
      -- Nothing follows an attempt that failed.
      simpa using Tries.none.cons (Nat.lt_succ_self start) hstop
  | ok found =>
      obtain ⟨next, hnext, hrest⟩ := h found
      exact hrest.cons hnext hstop

theorem scan_tries (find : Nat → Report (Option Span)) (more start : Nat) :
    Tries find start (start + more) (scan find more start).queries :=
  scan_keeps (P := fun k r => Tries find k (start + more) r.queries) (fun _ _ => .none)
    (fun _ hk _ hf => .bind hk hf) more start rfl

theorem scanAll_tries (find : Nat → Report (Option Span)) (more start : Nat) :
    Tries find start stop (scanAll find stop more start).queries := by
  refine scanAll_keeps (P := fun k r => Tries find k stop r.queries) (fun _ _ => .none)
    (fun k r m h => ?_) (fun _ hk _ hf => .bind hk hf) more start
  rw [Report.queries_bind_pure]
  exact h

end Search

variable {input : Input} {oracle : Oracle} {maxCycles : Value} {a : Attempt}

/-- A search makes its attempts on the symbols of its input. -/
theorem Search.tryAt_of_ofInput (h : Attempt.ofInput input oracle maxCycles = .ok a) :
    (∃ symbols, input.symbols = .ok symbols ∧ symbols.toArray = a.input) ∧
      tryAt a.input oracle maxCycles = matchAt a := by
  obtain ⟨symbols, hsymbols, hmade⟩ := Attempt.ofInput_eq_ok.1 h
  have hinput : symbols.toArray = a.input := by
    obtain ⟨_, _, _, _, rfl⟩ := Attempt.ofSymbols_eq_ok.1 hmade
    rfl
  refine ⟨⟨symbols, hsymbols, hinput⟩, ?_⟩
  rw [tryAt_eq, ← hinput, hmade]

/-- A search for the first match is a scan of the attempts on its input. -/
theorem findFirst_of_ofInput (h : Attempt.ofInput input oracle maxCycles = .ok a) :
    findFirst input oracle maxCycles = Search.scan (Search.matchAt a) (a.length + 1) 0 := by
  obtain ⟨⟨symbols, hsymbols, hinput⟩, htry⟩ := Search.tryAt_of_ofInput h
  have hlength : symbols.length = a.length := congrArg Array.size hinput
  rw [findFirst_eq oracle maxCycles hsymbols, hinput, htry, hlength]

/-- **Queries are disciplined.**  In a run of either strategy and in an attempt at
any start position, each query is about a site to ask about, and no two are about
one site.  The search for the first match makes such attempts up to the end of the
input, the search for all matches up to before it, each from left to right. -/
theorem queries_disciplined (h : Attempt.ofInput input oracle maxCycles = .ok a) :
    let tryAt := Search.tryAt a.input oracle maxCycles
    a.Disciplined 0 (runFrontier input oracle maxCycles).queries ∧
      a.Disciplined 0 (runPath input oracle maxCycles).queries ∧
      (∀ start ≤ a.length, a.Disciplined start (tryAt start).queries) ∧
      Search.Tries tryAt 0 (a.length + 1) (findFirst input oracle maxCycles).queries ∧
      Search.Tries tryAt 0 a.length (findAll input oracle maxCycles).queries := by
  intro tryAt
  obtain ⟨hdistinct, halive, _⟩ := Numbering.distinct_of_ofValue (Attempt.of_ofInput h).2
  have hrun : ∀ s, a.Disciplined 0 (runStrategy s input oracle maxCycles).queries := by
    intro s
    rw [runStrategy_eq, h]
    exact Attempt.evaluate_disciplined hdistinct halive s
  obtain ⟨⟨symbols, hsymbols, hinput⟩, htry⟩ := Search.tryAt_of_ofInput h
  have hlength : symbols.length = a.length := congrArg Array.size hinput
  refine ⟨hrun .frontier, hrun .path, fun start hstart => ?_, ?_, ?_⟩
  · rw [show tryAt = Search.matchAt a from htry]
    exact Search.matchAt_disciplined hstart halive
  · rw [findFirst_eq oracle maxCycles hsymbols, hinput, hlength]
    have hscan := Search.scan_tries tryAt (a.length + 1) 0
    rw [Nat.zero_add] at hscan
    exact hscan
  · rw [findAll_eq oracle maxCycles hsymbols, hinput, hlength]
    exact Search.scanAll_tries _ _ 0

/-- An oracle that goes from every state to the start and to another one without
reading a symbol. -/
def circling : Oracle where
  sentinels := Sentinels.toValue ⟨0, 1, 2, none, none⟩
  answer := fun _ => .ok (Transition.toValue ⟨0, some 3, false⟩)

/-- Going in circles brings no query twice. -/
theorem queries_disciplined_circling :
    ∃ a, Attempt.ofInput (.text "a") circling .absent = .ok a ∧
      a.Disciplined 0 (runPath (.text "a") circling .absent).queries ∧
      (runPath (.text "a") circling .absent).queries.map Query.state =
        [Number.ofNat 0, Number.ofNat 3] ∧
      Search.Tries (Search.tryAt a.input circling .absent) 0 2
        (findFirst (.text "a") circling .absent).queries := by
  have hmade : Attempt.ofInput (.text "a") circling .absent =
      .ok ⟨#[97], circling, ⟨0, 1, 2, 0, Number.maxSafe⟩, .default⟩ := by rfl
  obtain ⟨_, hpath, _, hfirst, _⟩ := queries_disciplined hmade
  exact ⟨_, hmade, hpath, by rfl, hfirst⟩

end OracleNFA
