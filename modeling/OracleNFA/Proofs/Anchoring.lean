/-
  OracleNFA.Proofs.Anchoring
  ──────────────────────────
  **AN ANCHORED SIMULATION GOES ON WHERE ANOTHER ONE ACCEPTS.**

  Before the end of the input, whether a simulation is anchored matters in one way
  only: one that is not stops as soon as the accepting state is live.  Until then
  both ask the same and know the same.  So the tree of the one is the tree of the
  other one, cut off at some places (`Shortcut`):

      Shortcut.bind     — so are sequences of such trees
      shortcut_rounds   — closing a frontier with and without a goal
      shortcut_simulate — simulations
      shortcut_run      — the runs end alike, unless the one stopped before

  A simulation that accepts at the end of the input has not stopped before.
-/
import OracleNFA.Proofs.Agreement
import OracleNFA.Proofs.Discipline

namespace OracleNFA

open Exploration

variable {α β γ : Type}

/-! ## §1. Trees that are cut off. -/

namespace Exploration

/-- The first exploration asks what the second one asks and comes to the same, unless
it stops on the way with a result of the kind `stop`. -/
inductive Shortcut (stop : α → Prop) : Exploration α → Exploration α → Prop
  | stopped {r : α} {y : Exploration α} (result : stop r) : Shortcut stop (.done r) y
  | done (r : α) : Shortcut stop (.done r) (.done r)
  | noteLeft {event : Nat → Event} {x y : Exploration α} (rest : Shortcut stop x y) :
      Shortcut stop (.note event x) y
  | noteRight {event : Nat → Event} {x y : Exploration α} (rest : Shortcut stop x y) :
      Shortcut stop x (.note event y)
  | ask {site : Site} {next next' : Option Answer → Exploration α}
      (replied : ∀ reply, Shortcut stop (next reply) (next' reply)) :
      Shortcut stop (.ask site next) (.ask site next')

variable {stop : α → Prop} {stop' : β → Prop} {x y : Exploration α}

theorem Shortcut.refl (x : Exploration α) : Shortcut stop x x := by
  induction x with
  | done r => exact .done r
  | note event rest ih => exact .noteLeft (.noteRight ih)
  | ask site next ih => exact .ask ih

/-- **Sequences**, where a stop of the first part is a stop of the whole. -/
theorem Shortcut.bind {f g : α → Exploration β} (h : Shortcut stop x y)
    (hstop : ∀ r, stop r → ∀ z, Shortcut stop' (f r) z)
    (hnext : ∀ r, Shortcut stop' (f r) (g r)) : Shortcut stop' (x.bind f) (y.bind g) := by
  induction h with
  | stopped result => exact hstop _ result _
  | done r => exact hnext r
  | noteLeft _ ih => exact .noteLeft ih
  | noteRight _ ih => exact .noteRight ih
  | ask _ ih => exact .ask ih

/-! ## §2. Looking for a goal. -/

variable {ids : Numbering} {g : StateId} {position : Position} {accepting : Bool}

/-- Discovering with a goal ends there, or is discovering without one. -/
theorem discover?_goal (successors : List StateId) : ∀ w : Expansion,
    discover? (some g) successors w = none ∨
      discover? (some g) successors w = discover? none successors w := by
  induction successors with
  | nil => intro w; exact .inr rfl
  | cons s rest ih =>
      intro w
      have hnone : (none : Option StateId) ≠ some s := by simp
      rw [discover?, discover?]
      by_cases hknown : s ∈ w.closure
      · rw [if_pos hknown, if_pos hknown]
        exact ih w
      · -- A new state is the goal, or is added as it is without a goal.
        rw [if_neg hknown, if_neg hknown, if_neg hnone]
        by_cases hgoal : some g = some s
        · exact .inl (if_pos hgoal)
        · rw [if_neg hgoal]
          exact ih _

theorem absorb?_goal (answer : Answer) (w : Expansion) :
    absorb? (some g) position answer w = none ∨
      absorb? (some g) position answer w = absorb? none position answer w := by
  unfold absorb?
  split
  · exact discover?_goal answer.successors w
  · exact .inr rfl

/-- One round. -/
theorem shortcut_sweep (pending : List StateId) : ∀ w : Expansion,
    Shortcut (· = .accepted) (sweep ids (some g) position pending w)
      (sweep ids none position pending w) := by
  induction pending with
  | nil => intro w; exact .done _
  | cons s rest ih =>
      intro w
      rw [sweep, sweep]
      by_cases hs : s = ids.accept
      · rw [if_pos hs, if_pos hs]
        exact ih w
      · rw [if_neg hs, if_neg hs]
        refine .ask fun reply => ?_
        cases reply with
        | none => exact .done _
        | some answer =>
            dsimp only
            rcases @absorb?_goal g position answer w with hfound | hsame
            · rw [hfound]
              exact .stopped rfl
            · rw [hsame]
              cases absorb? none position answer w with
              | none => exact .done _
              | some w' => exact ih w'

/-- All rounds. -/
theorem shortcut_rounds (more : Nat) : ∀ (pending : List StateId) (w : Expansion),
    Shortcut (· = .accepted) (rounds ids (some g) position more pending w)
      (rounds ids none position more pending w) := by
  induction more with
  | zero => intro pending w; exact .done _
  | succ more ih =>
      intro pending w
      -- Rounds that did not stop discovered the same, so both go on or neither does.
      refine (shortcut_sweep pending w).bind ?_ fun phase => ?_
      · rintro phase rfl y
        exact .stopped rfl
      · cases phase with
        | accepted => exact .done _
        | exhausted => exact .done _
        | settled w' =>
            dsimp only
            split
            · exact .done _
            · exact ih _ _

/-- A position where the accepting state counts, against one where it does not. -/
theorem shortcut_step (frontier : List StateId) :
    Shortcut (· = .accepted) (step ids frontier position true)
      (step ids frontier position false) := by
  have hstop : ∀ {α β : Type} (f : α → β) (phase : Phase α), phase = .accepted →
      ∀ y, Shortcut (· = .accepted) (.done (phase.map f)) y := by
    rintro α β f _ rfl y
    exact .stopped rfl
  have hclosure : Shortcut (· = .accepted) (closure ids frontier position true)
      (closure ids frontier position false) := by
    unfold closure
    rw [if_neg (by simp : ¬ (false = true ∧ (ids.accept : StateId) ∈ frontier))]
    by_cases hlive : (ids.accept : StateId) ∈ frontier
    · rw [if_pos ⟨rfl, hlive⟩]
      exact .stopped rfl
    · rw [if_neg fun h => hlive h.2]
      exact (shortcut_rounds _ _ _).bind (hstop _) fun _ => .refl _
  exact hclosure.bind (hstop _) fun _ => .refl _

end Exploration

/-! ## §3. Simulations. -/

/-- The verdict of an outcome and where it was reached. -/
def Outcome.ending (o : Outcome) : Ending :=
  ⟨o.verdict, o.position⟩

/-- Accepted before the end of the input. -/
def Ending.Early (length : Nat) (e : Ending) : Prop :=
  e.verdict = .accepted ∧ ∃ n < length, e.position = .after n

namespace Exploration

variable {ids : Numbering} {length n : Nat}

/-- One position, and what follows it. -/
theorem shortcut_visit {next next' : List StateId → Exploration Ending} (hn : n ≤ length)
    (hnext : ∀ advanced, Shortcut (Ending.Early length) (next advanced) (next' advanced))
    (frontier : List StateId) :
    Shortcut (Ending.Early length) (visit ids length false (.after n) frontier next)
      (visit ids length true (.after n) frontier next') := by
  -- Whatever follows the phases, all but the settled one end the simulation.
  have hphase : ∀ f g : Phase (List StateId) → Exploration Ending, f .accepted = g .accepted →
      f .exhausted = g .exhausted →
      (∀ advanced, Shortcut (Ending.Early length) (f (.settled advanced)) (g (.settled advanced))) →
      ∀ phase, Shortcut (Ending.Early length) (f phase) (g phase) := by
    intro f g haccepted hexhausted hsettled phase
    cases phase with
    | accepted =>
        rw [haccepted]
        exact .refl _
    | exhausted =>
        rw [hexhausted]
        exact .refl _
    | settled advanced => exact hsettled advanced
  unfold visit
  refine .noteLeft (.noteRight ?_)
  by_cases hend : n = length
  · -- At the end of the input the accepting state counts for both.
    have hsame : (Position.after n).same (.after length) = true := by
      rw [Attempt.same_after, hend, beq_self_eq_true]
    rw [hsame]
    refine (@Shortcut.refl _ (fun _ => False) _).bind (fun _ h => h.elim) ?_
    exact hphase _ _ rfl rfl hnext
  · have hsame : (Position.after n).same (.after length) = false := by
      rw [Attempt.same_after]
      simp [hend]
    rw [hsame]
    refine (shortcut_step frontier).bind ?_ (hphase _ _ rfl rfl hnext)
    rintro phase rfl y
    have hlt : n < length := by omega
    exact .noteLeft (.stopped ⟨rfl, n, hlt, rfl⟩)

/-- **A simulation is the anchored one, cut off where the accepting state is live
before the end.** -/
theorem shortcut_simulateFrom (left : Nat) : ∀ {n : Nat}, n + left = length →
    ∀ frontier : List StateId, Shortcut (Ending.Early length)
      (simulateFrom ids length false left (.after n) frontier)
      (simulateFrom ids length true left (.after n) frontier) := by
  induction left with
  | zero =>
      intro n hn frontier
      exact shortcut_visit (by omega) (fun _ => .refl _) frontier
  | succ left ih =>
      intro n hn frontier
      refine shortcut_visit (by omega) (fun advanced => ?_) frontier
      split
      · exact .refl _
      · exact ih (by omega) advanced

theorem shortcut_simulate (ids : Numbering) {start : Nat} (hstart : start ≤ length) :
    Shortcut (Ending.Early length) (simulate ids length (.after start) false)
      (simulate ids length (.after start) true) := by
  have hmoves : start + (Position.after start).movesWithin length = length := by
    show start + (length - start) = length
    omega
  exact shortcut_simulateFrom _ hmoves _

end Exploration

/-! ## §4. Runs. -/

namespace Attempt

variable {a : Attempt} {stop : α → Prop} {x y : Exploration α}

/-- What running a tree comes to, against running one that is cut off: it stopped and
the other one may ask further, or both end alike. -/
def CutOff (a : Attempt) (stop : α → Prop)
    (left right : EStateM.Result (Raised QueryError) Progress α) :
    Prop :=
  (∃ r p, left = .ok r p ∧ stop r ∧ p.queries.toList <+: (reached right).queries.toList) ∨
    ∃ i, a.EndAlike a id Eq i left right

/-- **A run of a tree that is cut off.** -/
theorem shortcut_run (h : Shortcut stop x y) : ∀ (i : Inquiry) (p q : Progress),
    a.Accounts i p → a.Accounts i q → a.CutOff stop ((a.run x).run p) ((a.run y).run q) := by
  induction h with
  | stopped result =>
      intro i p q hp hq
      refine .inl ⟨_, p, rfl, result, ?_⟩
      -- The other one goes on from the same queries and keeps them.
      obtain ⟨j, hextends, hj⟩ := hq.run _
      rw [hp.queries, hj.queries]
      exact hextends.map a.query
  | done r =>
      intro i p q hp hq
      refine .inr ⟨i, .returned rfl hp ?_⟩
      rw [Inquiry.map_id]
      exact hq
  | noteLeft _ ih =>
      intro i p q hp hq
      exact ih i (p.noting _) q { hp with } hq
  | noteRight _ ih =>
      intro i p q hp hq
      exact ih i p (q.noting _) hp { hq with }
  | @ask site next next' _ ih =>
      intro i p q hp hq
      -- Both are granted the question or neither is, and the answer is the same one.
      have hmeter : q.meter = p.meter := hq.meter_eq.trans hp.meter_eq.symm
      rw [run_ask_next, run_ask_next, hmeter]
      cases hm : p.meter.take? with
      | none => exact ih none _ p q (hp.refuse site hm) (hq.refuse site (hmeter ▸ hm))
      | some meter =>
          have hp' := hp.ask hm site
          have hq' := hq.ask (hmeter ▸ hm) site
          dsimp only
          cases hraw : a.oracle.answer (a.query site) with
          | error failure =>
              rw [hraw] at hp' hq'
              refine .inr ⟨i.ask site, .failed (σ := id) rfl rfl hp' ?_⟩
              rw [Inquiry.map_id]
              exact hq'
          | ok raw =>
              rw [hraw] at hp' hq'
              exact ih _ _ _ _ hp' hq'

/-- Simulating the input from a start position on, by an attempt that did nothing yet. -/
def simulation (a : Attempt) (start : Nat) (anchored : Bool) : Report Outcome :=
  a.report (simulate a.ids a.length (.after start) anchored) a.outcome

/-- Runs of one attempt that ended alike have the same outcome. -/
theorem EndAlike.agrees {i : Inquiry}
    {left right : EStateM.Result (Raised QueryError) Progress Ending}
    (h : a.EndAlike a id Eq i left right) :
    (Report.ofRun left a.outcome).Agrees (Report.ofRun right a.outcome) := by
  cases h with
  | returned related hp hq =>
      rw [Inquiry.map_id] at hq
      subst related
      exact ⟨hq.queries.trans hp.queries.symm,
        congrArg Except.ok ((hq.outcome_eq _).trans (hp.outcome_eq _).symm)⟩
  | failed raised raised' hp hq =>
      subst raised raised'
      rw [Inquiry.map_id] at hq
      exact ⟨hq.queries.trans hp.queries.symm, rfl⟩

/-- **A simulation and the anchored one.**  The one accepts before the end, having
asked what the other one asks first, or both ask the same and come to the same. -/
theorem simulation_anchored {start : Nat} (hstart : start ≤ a.length) :
    ((a.simulation start false).queries <+: (a.simulation start true).queries ∧
        ∃ o, (a.simulation start false).result = .ok o ∧
          o.ending.Early a.length) ∨
      (a.simulation start true).Agrees (a.simulation start false) := by
  have hrun := shortcut_run (a := a) (shortcut_simulate a.ids hstart) .start _ _ a.accounts_fresh
    a.accounts_fresh
  unfold simulation report
  generalize (a.run (simulate a.ids a.length (.after start) false)).run _ = left at hrun ⊢
  generalize (a.run (simulate a.ids a.length (.after start) true)).run _ = right at hrun ⊢
  rcases hrun with ⟨e, p, rfl, hearly, hbegins⟩ | ⟨i, halike⟩
  · refine .inl ⟨?_, _, rfl, hearly⟩
    cases right <;> exact hbegins
  · have hagrees := halike.agrees
    exact .inr ⟨hagrees.queries.symm, hagrees.result.symm⟩

/-- A simulation accepts inside the input. -/
theorem simulation_accepted {start : Nat} {anchored : Bool} {o : Outcome}
    (hstart : start ≤ a.length)
    (ho : (a.simulation start anchored).result = .ok o) (haccepted : o.verdict = .accepted) :
    ∃ n ≤ a.length, o.position = .after n := by
  obtain ⟨r, i, hexplored, _, _, hresult⟩ :=
    a.report_ensures _ a.outcome (ensures_simulate anchored hstart)
  unfold simulation at ho
  cases r with
  | error e => exact absurd (ho.symm.trans hresult) (by simp)
  | ok e =>
      obtain ⟨verdict, position⟩ := e
      obtain ⟨p, _, hresult⟩ := hresult
      obtain rfl : o = a.outcome ⟨verdict, position⟩ p := Except.ok.inj (ho.symm.trans hresult)
      obtain rfl : verdict = .accepted := haccepted
      obtain ⟨n, hn, hend⟩ := hexplored.2
      exact ⟨n, hend.inside, hn⟩

end Attempt

/-! ## §5. What a search finds at the start. -/

namespace Search

variable {a : Attempt} {start : Nat}

/-- The attempt of a search is a simulation whose accounts nobody asks for. -/
theorem attemptAt_result (a : Attempt) (start : Nat) :
    (attemptAt a start).result = (a.simulation start false).result.map Outcome.ending := by
  unfold attemptAt Attempt.simulation Attempt.report
  cases (a.run (simulate a.ids a.length (.after start) false)).run (Progress.fresh a.budget) <;> rfl

theorem attemptAt_queries (a : Attempt) (start : Nat) :
    (attemptAt a start).queries = (a.simulation start false).queries := by
  unfold attemptAt Attempt.simulation Attempt.report
  cases (a.run (simulate a.ids a.length (.after start) false)).run (Progress.fresh a.budget) <;> rfl

end Search

variable {input : Input} {oracle : Oracle} {maxCycles : Value} {a : Attempt}

/-- A run that moves a frontier over the input is the anchored simulation of it. -/
theorem runFrontier_eq_simulation (h : Attempt.ofInput input oracle maxCycles = .ok a) :
    runFrontier input oracle maxCycles = a.simulation 0 true := by
  unfold runFrontier
  rw [runStrategy_eq, h]
  rfl

/-- What accepts the whole input does so from the first symbol on, so the first match
begins there. -/
theorem findFirst_of_simulation (h : Attempt.ofInput input oracle maxCycles = .ok a) {o : Outcome}
    {stop : Nat} (ho : (a.simulation 0 false).result = .ok o) (haccepted : o.verdict = .accepted)
    (hstop : o.position = .after stop) :
    (findFirst input oracle maxCycles).result = .ok (some ⟨0, stop⟩) := by
  obtain ⟨⟨symbols, hsymbols, hinput⟩, htry⟩ := Search.tryAt_of_ofInput h
  have hfound : (Search.matchAt a 0).result = .ok (some ⟨0, stop⟩) := by
    rw [Search.matchAt_of_attemptAt (e := o.ending)]
    · unfold Search.spanOf Outcome.ending
      rw [haccepted, hstop]
      rfl
    · rw [Search.attemptAt_result, ho]
      rfl
  rw [findFirst_eq oracle maxCycles hsymbols, hinput, htry, Search.scan, Report.result_bind hfound]
  rfl

/-- **A simulation and the anchored one agree until the accepting state is live.**
From any start position inside the input and under any budget, the queries of the one
are a prefix of the queries of the anchored one; and unless the one accepts before the
end of the input, both ask the same and have the same outcome, or fail alike.  Where
the anchored one accepts, so does the other one.  So if the whole input is accepted,
the first match begins at the first symbol. -/
theorem unanchored_until_match (h : Attempt.ofInput input oracle maxCycles = .ok a) :
    (∀ start ≤ a.length,
      (a.simulation start false).queries <+: (a.simulation start true).queries ∧
        ((∃ o, (a.simulation start false).result = .ok o ∧ o.ending.Early a.length) ∨
          (a.simulation start true).Agrees (a.simulation start false)) ∧
        ∀ o, (a.simulation start true).result = .ok o → o.verdict = .accepted →
          ∃ o', (a.simulation start false).result = .ok o' ∧ o'.verdict = .accepted ∧
            ∃ n ≤ a.length, o'.position = .after n) ∧
      ∀ o, (runFrontier input oracle maxCycles).result = .ok o → o.verdict = .accepted →
        ∃ stop ≤ a.length, (findFirst input oracle maxCycles).result = .ok (some ⟨0, stop⟩) := by
  have haccepts : ∀ start ≤ a.length, ∀ o, (a.simulation start true).result = .ok o →
      o.verdict = .accepted → ∃ o', (a.simulation start false).result = .ok o' ∧
        o'.verdict = .accepted ∧ ∃ n ≤ a.length, o'.position = .after n := by
    intro start hstart o ho haccepted
    rcases Attempt.simulation_anchored hstart with ⟨_, o', ho', hearly, n, hn, hposition⟩ | hagrees
    · exact ⟨o', ho', hearly, n, Nat.le_of_lt hn, hposition⟩
    · have ho' := hagrees.result.trans ho
      exact ⟨o, ho', haccepted, Attempt.simulation_accepted hstart ho' haccepted⟩
  constructor
  · intro start hstart
    refine ⟨?_, ?_, haccepts start hstart⟩
    · rcases Attempt.simulation_anchored hstart with ⟨hbegins, _⟩ | hagrees
      · exact hbegins
      · rw [hagrees.queries]
    · exact (Attempt.simulation_anchored hstart).imp_left And.right
  · intro o ho haccepted
    rw [runFrontier_eq_simulation h] at ho
    obtain ⟨o', ho', haccepted', n, hn, hposition⟩ := haccepts 0 (Nat.zero_le _) o ho haccepted
    exact ⟨n, hn, findFirst_of_simulation h ho' haccepted' hposition⟩

/-- An oracle that accepts every input but the empty one. -/
def growing : Oracle where
  sentinels := Sentinels.toValue ⟨0, 1, 2, none, none⟩
  answer := fun _ => .ok (Transition.toValue ⟨0, some 1, true⟩)

/-- The match ends behind the first symbol, and the whole input takes one query more. -/
theorem unanchored_until_match_growing :
    ∃ a, Attempt.ofInput (.text "aa") growing .absent = .ok a ∧
      (a.simulation 0 false).queries <+: (a.simulation 0 true).queries ∧
      (a.simulation 0 false).queries.length = 1 ∧ (a.simulation 0 true).queries.length = 2 ∧
      (∃ o, (runFrontier (.text "aa") growing .absent).result = .ok o ∧ o.verdict = .accepted) ∧
      ∃ stop, (findFirst (.text "aa") growing .absent).result = .ok (some ⟨0, stop⟩) := by
  have hmade : Attempt.ofInput (.text "aa") growing .absent =
      .ok ⟨#[97, 97], growing, ⟨0, 1, 2, 0, Number.maxSafe⟩, .default⟩ := by rfl
  have hrun : (runFrontier (.text "aa") growing .absent).result =
      .ok ⟨.accepted, 2, .after 2, []⟩ := by rfl
  obtain ⟨hsimulations, hfirst⟩ := unanchored_until_match hmade
  obtain ⟨hbegins, _⟩ := hsimulations 0 (Nat.zero_le _)
  obtain ⟨stop, _, hstop⟩ := hfirst _ hrun rfl
  exact ⟨_, hmade, hbegins, rfl, rfl, ⟨_, hrun, rfl⟩, stop, hstop⟩

end OracleNFA
