/-
  OracleNFA.Proofs.LeastClosure
  ─────────────────────────────
  **CLOSING A FRONTIER ON AN ATTEMPT IN USE.**

  Whatever was done with an attempt before, closing a frontier computes a least
  fixpoint: of the sets that hold the frontier and that no hop leaves
  (`Attempt.Closed`) the live states are the least one (`isLeast_live`), and there
  are finitely many of them (`finite_live`).  A closure that settles has found this
  set, and it asked about each state of it once, but for the accepting one.  Each
  question takes one query from what is left of the budget:

      run_closure       — the end of a closure, on the accounts of what was asked
      Raises.not_covers — it is cut short only where the budget does not last for
                          the states to ask about
      Completes         — what a closure that settled has found
-/
import OracleNFA.Proofs.Session

namespace OracleNFA

open Exploration

namespace Exploration

/-! ## §1. Lists of states as sets. -/

/-- The set that a caller's list of states is. -/
def stateSet (states : List StateId) : Set StateId :=
  Number.unsigned '' {s | s ∈ states}

theorem mem_distinct {s : StateId} {states : List StateId} :
    s ∈ distinct states ↔ s ∈ stateSet states := by
  unfold distinct stateSet
  have hmem := mem_foldl_addState (t := s) (states.map Number.unsigned) []
  rw [List.foldl_map] at hmem
  rw [hmem, List.mem_map]
  simp

end Exploration

namespace Attempt

variable {a : Attempt} {n : Nat} {first : Set StateId} {frontier : List StateId}

/-! ## §2. Closed sets. -/

/-- A set that holds the first states and that no hop leaves. -/
structure Closed (a : Attempt) (n : Nat) (first closed : Set StateId) : Prop where
  first_subset : first ⊆ closed
  hop : ∀ s ∈ closed, ∀ t, a.Hop n s t → t ∈ closed

/-- **The live states are the least closed set.** -/
theorem isLeast_live (hfrontier : ∀ s, s ∈ frontier ↔ s ∈ first) :
    IsLeast {closed | a.Closed n first closed} {s | a.LiveFrom n frontier s} := by
  refine ⟨⟨fun s hs => .of_mem ((hfrontier s).2 hs), fun s hs t hst => hs.hop hst⟩, ?_⟩
  rintro closed ⟨hfirst, hhop⟩ s ⟨f, hf, hpath⟩
  induction hpath with
  | refl => exact hfirst ((hfrontier f).1 hf)
  | tail _ hst ih => exact hhop _ ih _ hst

/-- A state that is live without being in the frontier was named by an answer. -/
theorem LiveFrom.named {s : StateId} (h : a.LiveFrom n frontier s) :
    s ∈ frontier ∨ a.ids.Names s := by
  obtain ⟨f, hf, hpath⟩ := h
  rcases Relation.ReflTransGen.cases_tail hpath with rfl | ⟨t, _, hts⟩
  · exact .inl hf
  · exact .inr (Edge.names hts)

theorem finite_live : {s | a.LiveFrom n frontier s}.Finite :=
  ((List.finite_toSet frontier).union a.ids.finite_names).subset fun _ hs => LiveFrom.named hs

/-! ## §3. One closure. -/

variable {accepting : Bool} {sites : List Site} {p : Progress}

/-- The states that a frontier makes live and that are asked about. -/
def Asking (a : Attempt) (n : Nat) (frontier : List StateId) : Set StateId :=
  {s | a.LiveFrom n frontier s} \ {(a.ids.accept : StateId)}

theorem finite_asking : (a.Asking n frontier).Finite :=
  finite_live.subset Set.sdiff_subset

/-- **Closing a frontier, where the oracle answers every query**, comes to its end. -/
theorem run_closure (n : Nat) (accepting : Bool)
    (hanswers : ∀ q, ∃ raw, a.oracle.answer q = .ok raw) (h : a.Accounts ⟨sites, none⟩ p)
    (hnodup : frontier.Nodup) :
    ∃ phase q i,
      (a.run (Exploration.closure a.ids frontier (.after n) accepting)).run p = .ok phase q ∧
      a.Accounts i q ∧
      a.PhaseEnds n frontier (a.goalWhen accepting) sites
        (a.Settles n frontier (a.goalWhen accepting)) (.ok phase) i := by
  have hrun := a.run_ensures _ ⟨sites, none⟩ p
    (a.ensures_and _ _ (ensures_closure (n := n) accepting hnodup rfl) (a.ensures_failure _ _)) h
  cases hresult : (a.run (Exploration.closure a.ids frontier (.after n) accepting)).run p with
  | ok phase q =>
      rw [hresult] at hrun
      obtain ⟨i, ⟨hends, _⟩, hi⟩ := hrun
      exact ⟨phase, q, i, rfl, hi, hends⟩
  | error e q =>
      rw [hresult] at hrun
      obtain ⟨_, ⟨_, hfailure⟩, _⟩ := hrun
      obtain ⟨u, hfails⟩ := hfailure e rfl
      exact absurd hfails (not_fails hanswers)

/-- As many states were raised as there are new questions. -/
theorem Raises.length_touched {states : List StateId} {i : Inquiry}
    (h : a.Raises n frontier sites states i) : i.touched.length = sites.length + states.length := by
  rw [h.touched, List.length_append, List.length_map]

/-- A question is refused only where the budget does not last for the states to ask
about. -/
theorem Raises.not_covers {states : List StateId} {i : Inquiry}
    (h : a.Raises n frontier sites states i)
    (hgrants : a.Grants i) (hrefused : i.refused.isSome = true) :
    ¬ a.budget.Covers (sites.length + (a.Asking n frontier).ncard) := by
  intro hcovers
  have hlimit := hcovers _ (hgrants.spent hrefused)
  have htouched := length_touched_of_refused hrefused
  rw [h.length_touched] at htouched
  have hle : states.length ≤ (a.Asking n frontier).ncard := by
    rw [← ncard_eq_length h.nodup fun s => Iff.rfl]
    exact Set.ncard_le_ncard (fun s hs => h.live s hs) finite_asking
  omega

/-! ## §4. What a closure has found. -/

/-- A closure that settled has found the least closed set, and the states behind the
symbol that its members lead to; it asked about each member once but for the accepting
state, which is no member where it counts. -/
structure Completes (a : Attempt) (n : Nat) (first : Set StateId) (accepting : Bool)
    (before later : Progress) (c : Settled) : Prop where
  least : IsLeast {closed | a.Closed n first closed} {s | s ∈ c.closure}
  advanced : ∀ t, t ∈ c.advanced ↔ ∃ s ∈ c.closure, s ≠ a.ids.accept ∧ a.Crossing n s t
  at_end : a.length ≤ n → c.advanced = []
  used : later.meter.used =
    before.meter.used + ({s | s ∈ c.closure} \ {(a.ids.accept : StateId)}).ncard
  accept_out : accepting = true → (a.ids.accept : StateId) ∉ c.closure

theorem Settles.completes {states : List StateId} {c : Settled} {i : Inquiry} {q : Progress}
    (h : a.Settles n frontier (a.goalWhen accepting) states c)
    (hfrontier : ∀ s, s ∈ frontier ↔ s ∈ first) (hraises : a.Raises n frontier sites states i)
    (hi : i.refused = none) (hp : a.Accounts ⟨sites, none⟩ p) (hq : a.Accounts i q) :
    a.Completes n first accepting p q c where
  least := by
    have hclosure : {s | s ∈ c.closure} = {s | a.LiveFrom n frontier s} := Set.ext h.closure
    rw [hclosure]
    exact isLeast_live hfrontier
  advanced := by
    intro t
    rw [h.advanced]
    constructor
    · rintro ⟨s, hs, hcross⟩
      exact ⟨s, (h.closure s).2 hs, Edge.live hcross, hcross⟩
    · rintro ⟨s, hs, _, hcross⟩
      exact ⟨s, (h.closure s).1 hs, hcross⟩
  at_end := by
    intro hend
    refine List.eq_nil_iff_forall_not_mem.2 fun t ht => ?_
    obtain ⟨s, _, hcross⟩ := (h.advanced t).1 ht
    exact absurd hcross.inside (Nat.not_lt.2 hend)
  used := by
    have hcount : ({s | s ∈ c.closure} \ {(a.ids.accept : StateId)}).ncard = states.length := by
      refine ncard_eq_length hraises.nodup fun s => ?_
      rw [h.asked, ← h.closure]
      rfl
    have htouched := hraises.length_touched
    rw [Inquiry.touched_of_refused_none hi] at htouched
    rw [hcount, hq.used, hp.used, htouched]
  accept_out := fun haccepting hmem =>
    h.goal_out a.ids.accept (goalWhen_eq_some.2 ⟨haccepting, rfl⟩) ((h.closure _).1 hmem)

end Attempt

/-- **Closing a frontier computes a least fixpoint.**  Take an attempt whose oracle
answers every query, after any operations on it, and close any frontier at any
position.  There is a least set that holds the frontier and that no hop leaves, and it
is finite.  A closure that settles has found it (`Attempt.Completes`); it is accepted
only where the accepting state counts and is in that set; and if what is left of the
budget lasts for the members but the accepting state, it is accepted in that case and
settles in every other one. -/
theorem closure_is_least_fixpoint (a : Attempt) (hanswers : ∀ q, ∃ raw, a.oracle.answer q = .ok raw)
    (ops : List Operation) (frontier : List StateId) (n : Nat) (accepting : Bool) :
    ∃ least phase later,
      IsLeast {closed | a.Closed n (stateSet frontier) closed} least ∧ least.Finite ∧
      (a.perform (.closure frontier (.after n) accepting)).run (a.session ops) =
        .ok (.closed phase) later ∧
      (∀ c, phase = .settled c →
        a.Completes n (stateSet frontier) accepting (a.session ops) later c) ∧
      (phase = .accepted → accepting = true ∧ (a.ids.accept : StateId) ∈ least) ∧
      (a.budget.Covers ((a.session ops).meter.used + (least \ {(a.ids.accept : StateId)}).ncard) →
        (accepting = true ∧ (a.ids.accept : StateId) ∈ least → phase = .accepted) ∧
        (¬(accepting = true ∧ (a.ids.accept : StateId) ∈ least) → ∃ c, phase = .settled c)) := by
  obtain ⟨sites, h⟩ := a.accounts_session ops
  obtain ⟨phase, later, i, hrun, hi, states, hraises, hends⟩ :=
    Attempt.run_closure n accepting hanswers h (Attempt.nodup_distinct frontier)
  refine ⟨{s | a.LiveFrom n (distinct frontier) s}, phase, later,
    Attempt.isLeast_live fun s => mem_distinct, Attempt.finite_live, ?performed, ?settled,
    ?accepted,
    ?decided⟩
  case performed =>
    show EStateM.map Performed.closed (a.run _) (a.session ops) = _
    unfold EStateM.map
    rw [show a.run _ (a.session ops) = .ok phase later from hrun]
  case settled =>
    rintro c rfl
    exact hends.2.completes (fun s => mem_distinct) hraises hends.1 h hi
  case accepted =>
    rintro rfl
    obtain ⟨_, g, hg, hlive⟩ := hends
    obtain ⟨haccepting, rfl⟩ := Attempt.goalWhen_eq_some.1 hg
    exact ⟨haccepting, hlive⟩
  case decided =>
    intro hcovers
    cases phase with
    | accepted =>
        obtain ⟨_, g, hg, hlive⟩ := hends
        obtain ⟨haccepting, rfl⟩ := Attempt.goalWhen_eq_some.1 hg
        exact ⟨fun _ => rfl, fun hnot => absurd ⟨haccepting, hlive⟩ hnot⟩
    | settled c =>
        have hout := (hends.2.completes (fun s => mem_distinct) hraises hends.1 h hi).accept_out
        refine ⟨?_, fun _ => ⟨c, rfl⟩⟩
        rintro ⟨haccepting, hlive⟩
        exact absurd ((hends.2.closure _).2 hlive) (hout haccepting)
    | exhausted =>
        rw [show (a.session ops).meter.used = sites.length from h.used] at hcovers
        exact absurd hcovers (hraises.not_covers hi.toGrants hends)

/-- Two states that lead to each other without reading a symbol; the second one also
leads to a third, which reads a symbol into the accepting state. -/
def wandering : Oracle where
  sentinels := Sentinels.toValue ⟨0, 1, 2, none, none⟩
  answer := fun q => .ok <| Transition.toValue <|
    if q.state = (0 : Nat) then ⟨3, some 2, false⟩
    else if q.state = (3 : Nat) then ⟨4, some 0, false⟩
    else ⟨1, none, true⟩

/-- The least set around the cycle, found by an attempt that was used before. -/
theorem closure_is_least_fixpoint_wandering :
    ∃ a, Attempt.ofInput (.text "a") wandering (.number (4 : Nat)) = .ok a ∧
      (∀ q, ∃ raw, wandering.answer q = .ok raw) ∧
      let used := a.session [.query ⟨.after 0, (3 : Nat)⟩]
      let c : Settled := ⟨[(0 : Nat), (3 : Nat), (4 : Nat)], [(1 : Nat)]⟩
      ∃ later, a.Completes 0 (stateSet [(0 : Nat)]) true used later c ∧ later.meter.used = 4 := by
  have hmade : Attempt.ofInput (.text "a") wandering (.number (4 : Nat)) =
      .ok ⟨#[97], wandering, ⟨0, 1, 2, 0, Number.maxSafe⟩, .atMost 4⟩ := by rfl
  have hanswers : ∀ q, ∃ raw, wandering.answer q = .ok raw := fun q => ⟨_, rfl⟩
  refine ⟨_, hmade, hanswers, ?_⟩
  intro used c
  obtain ⟨_, phase, later, _, _, hperform, hsettled, _, _⟩ :=
    closure_is_least_fixpoint ⟨#[97], wandering, ⟨0, 1, 2, 0, Number.maxSafe⟩, .atMost 4⟩ hanswers
      [.query ⟨.after 0, (3 : Nat)⟩] [(0 : Nat)] 0 true
  cases hperform
  exact ⟨_, hsettled c rfl, rfl⟩

end OracleNFA
