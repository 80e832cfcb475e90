/-
  OracleNFA.Proofs.Suffix
  ───────────────────────
  **FROM AN OFFSET ON, AN INPUT IS ITS SUFFIX.**

  A simulation that starts behind some symbols never looks back: what it is asked,
  shown and told depends on the symbols ahead, and on how far away the end is.  So
  the attempt on the symbols ahead corresponds to the attempt on all of them
  (`corresponds_behind`), and

      simulation_behind — from the offset on, a simulation comes to what it comes to
                          on the suffix, moved on by the offset

  Positions are moved on in all that an outcome or an error says (`further`).
-/
import OracleNFA.Proofs.Anchoring
import OracleNFA.Proofs.Contract
import OracleNFA.Proofs.Correspondence
import OracleNFA.Proofs.Leftmost

namespace OracleNFA

/-! ## §1. So many symbols further on. -/

variable (k : Nat)

/-- A position so many symbols further on. -/
def Position.further : Position → Position
  | .after n => .after (n + k)
  | .astray x => .ofNumber (x.add (.ofNat k))

/-- The same state there. -/
def Site.further (u : Site) : Site :=
  ⟨u.position.further k, u.state⟩

/-- What was wrong, told of the positions further on. -/
def Diagnostic.further : Diagnostic → Diagnostic
  | .malformed site problem => .malformed (site.further k) problem
  | .budgetSpent position budget => .budgetSpent (position.further k) budget

/-- The same outcome at the positions further on. -/
def Outcome.further (o : Outcome) : Outcome where
  verdict := o.verdict
  queries := o.queries
  position := o.position.further k
  diagnostics := o.diagnostics.map (Diagnostic.further k)

/-- A failed query that fails further on; without words nothing is told of its place. -/
def QueryError.further : Raised QueryError → Raised QueryError
  | .error e => .error { e with site := e.site.further k }
  | .wordless => .wordless

theorem QueryError.further_raise (u : Site) (failure : Failure) :
    further k (raise u failure) = raise (u.further k) failure := by
  unfold raise
  cases failure.describe? <;> rfl

/-- The same error; a failed query fails further on. -/
def MatchError.further : MatchError → MatchError
  | .config e => .config e
  | .query e => .query (QueryError.further k e)

/-- An outcome or an error, so many symbols further on. -/
def movedOn : Except MatchError Outcome → Except MatchError Outcome
  | .ok o => .ok (o.further k)
  | .error e => .error (e.further k)

namespace Attempt

variable {k} {a : Attempt}

/-! ## §2. The symbols ahead. -/

/-- The attempt on the symbols behind the first ones. -/
def behind (a : Attempt) (k : Nat) : Attempt :=
  { a with input := (a.input.toList.drop k).toArray }

theorem length_behind (hk : k ≤ a.length) : a.length = (a.behind k).length + k := by
  have hdrop : (a.behind k).length = a.length - k := by
    unfold behind length
    rw [List.size_toArray, List.length_drop, Array.length_toList]
  omega

/-- **A query shows what it shows of the symbols ahead.** -/
theorem query_behind (a : Attempt) (k n : Nat) (s : StateId) :
    a.query ⟨.after (n + k), s⟩ = (a.behind k).query ⟨.after n, s⟩ := by
  have hahead : ∀ m, a.input[m + k]? = ((a.input.toList.drop k).toArray)[m]? := by
    intro m
    simp [Nat.add_comm]
  unfold query
  show Query.mk s (Window.ofNext _ a.input[n + k]? a.input[n + k + 1]?) = _
  rw [hahead n, Nat.add_right_comm, hahead (n + 1)]
  rfl

/-- What is wrong with an answer does not depend on where it is given. -/
theorem problems_behind (a : Attempt) (k : Nat) (u v : Site) (raw : Value) :
    (a.read u raw).problems = ((a.behind k).read v raw).problems := by
  have hids : (a.behind k).ids = a.ids := rfl
  cases hd : Response.decode a.ids raw with
  | error issues =>
      unfold read
      rw [hids, hd]
  | ok d => rw [read_problems hd, read_problems (hids ▸ hd)]

/-- **An answer to the one leads where it leads the other one.**  The end of the input
is as far away from both. -/
theorem answer_behind (hk : k ≤ a.length) (n : Nat) (s : StateId) (raw : Value) :
    ((a.behind k).read ⟨.after n, s⟩ raw).answer.Alike k
      (a.read ⟨.after (n + k), s⟩ raw).answer := by
  have hinside : n < (a.behind k).length ↔ n + k < a.length := by
    have := length_behind hk
    omega
  have hids : (a.behind k).ids = a.ids := rfl
  rw [read_answer, read_answer, hids]
  cases Response.decode a.ids raw with
  | error issues => exact ⟨⟨n, rfl, rfl⟩, fun _ => Iff.rfl⟩
  | ok d =>
      dsimp only
      by_cases hconsuming : d.consumes = true
      · rw [if_pos hconsuming, if_pos hconsuming]
        have hcrossed : n + k + 1 = n + 1 + k := by omega
        refine ⟨⟨n + 1, rfl, congrArg Position.after hcrossed⟩, fun t => ?_⟩
        dsimp only
        by_cases inside : n + k < a.length
        · rw [if_pos inside, if_pos (hinside.2 inside)]
        · rw [if_neg inside, if_neg (mt hinside.1 inside)]
      · rw [if_neg hconsuming, if_neg hconsuming]
        exact ⟨⟨n, rfl, rfl⟩, fun _ => Iff.rfl⟩

/-- **The attempt on the symbols ahead corresponds to the attempt on all of them.** -/
theorem corresponds_behind (hk : k ≤ a.length) :
    Corresponds k (Site.further k) (a.behind k) a where
  ids := rfl
  budget := rfl
  length := length_behind hk
  moves := fun _ _ => rfl
  answered := by
    intro n s raw hraw
    refine ⟨raw, ?_, answer_behind hk n s raw⟩
    rw [query_behind]
    exact hraw
  failed := by
    intro n s failure hfailure
    rw [query_behind]
    exact hfailure

/-! ## §3. Simulations. -/

/-- The same is wrong there, told of the position further on. -/
theorem faults_behind (a : Attempt) (k n : Nat) (s : StateId) :
    a.faults ⟨.after (n + k), s⟩ =
      ((a.behind k).faults ⟨.after n, s⟩).map (Diagnostic.further k) := by
  have horacle : (a.behind k).oracle = a.oracle := rfl
  unfold faults
  rw [query_behind, horacle]
  cases a.oracle.answer ((a.behind k).query ⟨.after n, s⟩) with
  | error failure => rfl
  | ok raw =>
      dsimp only
      rw [problems_behind a k _ ⟨.after n, s⟩, List.map_map]
      rfl

/-- Every site that was asked about is behind some symbols. -/
theorem Orderly.counted {i : Inquiry} (h : a.Orderly (a.entry 0) i) :
    ∀ u ∈ i.asked, ∃ n s, u = ⟨.after n, s⟩ := by
  -- A path that begins at a count never leaves the counts.
  intro u hu
  have hreached := (h.reached u (List.mem_append_left _ hu)).1
  obtain ⟨n, s, hu, _⟩ := hreached.position (Nat.zero_le _)
  exact ⟨n, s, hu⟩

/-- **Endings that correspond are the same outcome, moved on.** -/
theorem outcomeOf_behind {i : Inquiry} {e e' : Ending}
    (hi : ∀ u ∈ i.asked, ∃ n s, u = ⟨.after n, s⟩)
    (he : e.Alike k e') :
    a.outcomeOf e' (i.map (Site.further k)) = ((a.behind k).outcomeOf e i).further k := by
  obtain ⟨verdict, position⟩ := e
  obtain ⟨verdict', position'⟩ := e'
  obtain ⟨hverdict, n, rfl, rfl⟩ := he
  obtain rfl : verdict = verdict' := hverdict.symm
  have hfaults : (i.asked.map (Site.further k)).flatMap a.faults =
      (i.asked.flatMap (a.behind k).faults).map (Diagnostic.further k) := by
    rw [List.flatMap_map, List.map_flatMap]
    refine List.flatMap_congr fun u hu => ?_
    obtain ⟨m, s, rfl⟩ := hi u hu
    exact faults_behind a k m s
  unfold outcomeOf Outcome.further Inquiry.map
  rw [hfaults, List.length_map, List.map_append]
  -- A spent budget is told of at the position moved on.
  cases verdict <;> rfl

/-- **From an offset on, a simulation comes to what it comes to on the suffix**, moved
on by the offset, and it asks the same. -/
theorem simulation_behind (hk : k ≤ a.length) (anchored : Bool) :
    (a.simulation k anchored).queries = ((a.behind k).simulation 0 anchored).queries ∧
      (a.simulation k anchored).result = movedOn k ((a.behind k).simulation 0 anchored).result := by
  have hcorresponds := corresponds_behind hk
  have hlockstep := hcorresponds.lockstep_simulate 0 anchored
  rw [Nat.zero_add] at hlockstep
  obtain ⟨i, hqueries, hqueries', hresult⟩ := report_lockstep_ensures hcorresponds.budget hlockstep
    (ensures_simulate anchored (Nat.zero_le _)) (a.behind k).outcome a.outcome
  -- However the run ended, it asked about reachable sites only, and these are counted.
  have hcounted : ∀ u ∈ i.asked, ∃ n s, u = ⟨.after n, s⟩ := by
    rcases hresult with ⟨_, _, _, _, _, hexplored, _⟩ | ⟨_, _, hexplored, _⟩
    · exact hexplored.1.counted
    · exact hexplored.1.counted
  unfold simulation
  constructor
  · rw [hqueries, hqueries', Inquiry.map, List.map_map]
    refine List.map_congr_left fun u hu => ?_
    obtain ⟨n, s, rfl⟩ := hcounted u hu
    exact query_behind a k n s
  · rcases hresult with ⟨e, e', p, q, halike, _, hp, hq, hleft, hright⟩ |
      ⟨site, failure, _, hleft, hright⟩
    · rw [hleft, hright, hp.outcome_eq, hq.outcome_eq, outcomeOf_behind hcounted halike]
      rfl
    · rw [hleft, hright, movedOn, MatchError.further, QueryError.further_raise]

end Attempt

/-! ## §4. Matches up to the end of the input. -/

variable {input : Input} {oracle : Oracle} {maxCycles : Value} {a : Attempt} {start stop : Nat}

/-- A match that was found is where a simulation accepted. -/
theorem simulation_of_findFirst (h : Attempt.ofInput input oracle maxCycles = .ok a)
    (hfound : (findFirst input oracle maxCycles).result = .ok (some ⟨start, stop⟩)) :
    ∃ o, (a.simulation start false).result = .ok o ∧ o.ending = ⟨.accepted, .after stop⟩ := by
  rw [findFirst_of_ofInput h] at hfound
  obtain ⟨k, _, hlt, hmatch⟩ := Search.exists_of_scan _ _ hfound
  have hk : k ≤ a.length := by omega
  rw [(Search.matchAt_eq a k).2, Search.attemptAt_result] at hmatch
  cases ho : (a.simulation k false).result with
  | error e =>
      rw [ho] at hmatch
      exact absurd hmatch (by simp [Except.map])
  | ok o =>
      rw [ho] at hmatch
      have hspan : Search.spanOf k o.ending = some ⟨start, stop⟩ := Except.ok.inj hmatch
      have haccepted : o.verdict = .accepted := by
        by_contra hother
        rw [Search.spanOf_of_ne_accepted hother] at hspan
        exact absurd hspan (by simp)
      obtain ⟨n, _, hn⟩ := Attempt.simulation_accepted hk ho haccepted
      have hending : o.ending = ⟨.accepted, .after n⟩ := by
        unfold Outcome.ending
        rw [haccepted, hn]
      rw [hending] at hspan
      obtain ⟨rfl, rfl⟩ := Span.mk.inj (Option.some.inj hspan)
      exact ⟨o, ho, hending⟩

/-- **Searching from an offset is matching the suffix.**  Take an input with its attempt,
an offset inside it, and another input of the symbols behind the offset.  Under one
budget, anchored or not, the simulation of the one from the offset and that of the other
one from its first symbol ask the same queries, and the outcome or error of the one is
that of the other one, with every position moved on by the offset.  So if the first match
reaches from the offset to the end of the input, the suffix is accepted. -/
theorem suffix_simulation (h : Attempt.ofInput input oracle maxCycles = .ok a)
    (hstart : start ≤ a.length) {suffix : Input}
    (hsuffix : suffix.symbols = .ok (a.input.toList.drop start)) :
    ∃ b, Attempt.ofInput suffix oracle maxCycles = .ok b ∧
      (∀ anchored, (a.simulation start anchored).queries = (b.simulation 0 anchored).queries ∧
        (a.simulation start anchored).result = movedOn start (b.simulation 0 anchored).result) ∧
      ((findFirst input oracle maxCycles).result = .ok (some ⟨start, a.length⟩) →
        ∃ o, (runFrontier suffix oracle maxCycles).result = .ok o ∧ o.verdict = .accepted) := by
  have hbehind : Attempt.ofInput suffix oracle maxCycles = .ok (a.behind start) := by
    obtain ⟨_, _, hmade⟩ := Attempt.ofInput_eq_ok.1 h
    obtain ⟨ids, budget, hids, hbudget, rfl⟩ := Attempt.ofSymbols_eq_ok.1 hmade
    exact Attempt.ofInput_eq_ok.2
      ⟨_, hsuffix, Attempt.ofSymbols_eq_ok.2 ⟨ids, budget, hids, hbudget, rfl⟩⟩
  refine ⟨_, hbehind, fun anchored => Attempt.simulation_behind hstart anchored, fun hfound => ?_⟩
  obtain ⟨o, ho, hending⟩ := simulation_of_findFirst h hfound
  -- The match ends at the end of the input, so the simulation did not stop early.
  have hanchored : (a.simulation start true).result = .ok o := by
    rcases Attempt.simulation_anchored hstart with ⟨_, o', ho', _, n, hn, hposition⟩ | hagrees
    · obtain rfl : o = o' := Except.ok.inj (ho.symm.trans ho')
      rw [hending] at hposition
      have hend : a.length = n := Position.after.inj hposition
      omega
    · exact hagrees.result.symm.trans ho
  rw [(Attempt.simulation_behind hstart true).2] at hanchored
  rw [runFrontier_eq_simulation hbehind]
  cases ho' : ((a.behind start).simulation 0 true).result with
  | error e =>
      rw [ho'] at hanchored
      exact nomatch hanchored
  | ok o' =>
      rw [ho'] at hanchored
      obtain rfl : o'.further start = o := Except.ok.inj hanchored
      exact ⟨o', rfl, congrArg Ending.verdict hending⟩

/-- The match in the input is the whole of the suffix. -/
theorem suffix_simulation_seeking :
    ∃ a, Attempt.ofInput (.text "ab") seeking .absent = .ok a ∧ 1 ≤ a.length ∧
      (Input.text "b").symbols = .ok (a.input.toList.drop 1) ∧
      (findFirst (.text "ab") seeking .absent).result = .ok (some ⟨1, 2⟩) ∧
      (∃ b, Attempt.ofInput (.text "b") seeking .absent = .ok b ∧
        (b.simulation 0 false).result = .ok ⟨.accepted, 1, .after 1, []⟩ ∧
        (a.simulation 1 false).result = .ok ⟨.accepted, 1, .after 2, []⟩) ∧
      ∃ o, (runFrontier (.text "b") seeking .absent).result = .ok o ∧ o.verdict = .accepted := by
  have hmade : Attempt.ofInput (.text "ab") seeking .absent =
      .ok ⟨#[97, 98], seeking, ⟨0, 1, 2, 0, Number.maxSafe⟩, .default⟩ := by rfl
  have hsuffix : (Input.text "b").symbols = .ok [98] := by rfl
  have hfound : (findFirst (.text "ab") seeking .absent).result = .ok (some ⟨1, 2⟩) := by rfl
  have hinside : 1 ≤ 2 := by decide
  obtain ⟨b, hb, hsimulations, haccepts⟩ := suffix_simulation hmade hinside hsuffix
  have hshort : (b.simulation 0 false).result = .ok ⟨.accepted, 1, .after 1, []⟩ := by
    obtain rfl : _ = b := Except.ok.inj hb
    rfl
  refine ⟨_, hmade, hinside, hsuffix, hfound, ⟨b, hb, hshort, ?_⟩, haccepts hfound⟩
  rw [(hsimulations false).2, hshort]
  rfl

end OracleNFA
