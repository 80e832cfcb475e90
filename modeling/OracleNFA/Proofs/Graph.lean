/-
  OracleNFA.Proofs.Graph
  ──────────────────────
  **THE CONFIGURATION GRAPH OF AN ATTEMPT.**

  An oracle and an input span a graph whose nodes are sites: a state and how
  many symbols are behind it.  What a verdict means is said on this graph, with
  no exploration, budget or order in it:

      Edge     — a valid live successor that an answer names, at the same
                 position or across the symbol there; none leads out of the
                 accepting state, none behind the end of the input
      Reaches  — a path of edges

  `edge_iff_of_answer` says that the answer which an exploration gets is the
  list of edges out of the site it asked about.
-/
import Mathlib.Logic.Relation
import Mathlib.Data.Set.Card
import Mathlib.Data.Set.Finite.List
import Mathlib.Order.Interval.Finset.Nat
import OracleNFA.Attempt

namespace OracleNFA

/-! ## §1. The states an answer can name. -/

namespace Numbering

/-- A state an answer may name. -/
def Names (ids : Numbering) (s : StateId) : Prop :=
  ∃ k < ids.span, s = Number.ofNat k

/-- There are only so many. -/
theorem names_eq (ids : Numbering) : {s | ids.Names s} = Number.ofNat '' Set.Iio ids.span := by
  ext s
  constructor
  · rintro ⟨k, hk, rfl⟩
    exact ⟨k, hk, rfl⟩
  · rintro ⟨k, hk, rfl⟩
    exact ⟨k, hk, rfl⟩

theorem finite_names (ids : Numbering) : {s | ids.Names s}.Finite := by
  rw [ids.names_eq]
  exact (Set.finite_Iio ids.span).image _

theorem ncard_names_le (ids : Numbering) : {s | ids.Names s}.ncard ≤ ids.span := by
  rw [ids.names_eq]
  refine (Set.ncard_image_le (Set.finite_Iio ids.span)).trans ?_
  rw [Set.ncard_eq_toFinset_card' (Set.Iio ids.span), Set.toFinset_Iio, Nat.card_Iio]

theorem names_of_validId? {ids : Numbering} {v : Value} {s : StateId}
    (h : ids.validId? v = some s) : ids.Names s := by
  unfold validId? at h
  split at h
  · next x =>
      simp only [Number.safeNatural?, Option.map_eq_some_iff, Option.filter_eq_some_iff,
        decide_eq_true_eq] at h
      obtain ⟨k, ⟨⟨_, hsafe⟩, hmax⟩, rfl⟩ := h
      refine ⟨k, ?_, rfl⟩
      unfold span
      omega
  · exact absurd h (by simp)

end Numbering

namespace Response

theorem mem_states {s : StateId} (l : List (Except Problem StateId)) :
    s ∈ states l ↔ .ok s ∈ l := by
  induction l with
  | nil => simp [states]
  | cons x rest ih => cases x <;> simp [states, ih]

/-- The successors of an answer that was read are states it may name. -/
theorem names_of_decode {ids : Numbering} {raw : Value} {d : Decoded} {s : StateId}
    (h : decode ids raw = .ok d) (hs : s ∈ d.successors) : ids.Names s := by
  have judge_ok : ∀ (problem : Value → Problem) (v : Value), judge ids problem v = .ok s →
      ids.Names s := by
    intro problem v hv
    unfold judge at hv
    split at hv
    · next t ht =>
        obtain rfl : t = s := by simpa using hv
        exact Numbering.names_of_validId? ht
    · exact absurd hv (by simp)
  unfold decode at h
  split at h
  · exact absurd h (by simp)
  · next shape _ =>
      obtain rfl := Except.ok.inj h
      simp only [mem_states, judged, List.mem_cons] at hs
      rcases hs with hnext | hbranch
      · exact judge_ok _ _ hnext.symm
      · split at hbranch
        · exact judge_ok _ _ (List.mem_singleton.1 hbranch).symm
        · exact absurd hbranch (by simp)

end Response

namespace Attempt

/-! ## §2. Edges and paths. -/

/-- One transition of the automaton on the input. -/
inductive Edge (a : Attempt) : Site → Site → Prop
  /-- A valid live successor of an answer that consumes nothing. -/
  | stays {n : Nat} {s t : StateId} {raw : Value} {d : Decoded}
      (live : s ≠ a.ids.accept)
      (answered : a.oracle.answer (a.query ⟨.after n, s⟩) = .ok raw)
      (decoded : Response.decode a.ids raw = .ok d)
      (epsilon : d.consumes = false)
      (named : t ∈ d.successors) (alive : t ≠ a.ids.reject) :
      Edge a ⟨.after n, s⟩ ⟨.after n, t⟩
  /-- A valid live successor of an answer that consumes the symbol there. -/
  | crosses {n : Nat} {s t : StateId} {raw : Value} {d : Decoded}
      (live : s ≠ a.ids.accept)
      (answered : a.oracle.answer (a.query ⟨.after n, s⟩) = .ok raw)
      (decoded : Response.decode a.ids raw = .ok d)
      (consuming : d.consumes = true) (inside : n < a.length)
      (named : t ∈ d.successors) (alive : t ≠ a.ids.reject) :
      Edge a ⟨.after n, s⟩ ⟨.after (n + 1), t⟩

/-- A path of any length. -/
def Reaches (a : Attempt) : Site → Site → Prop :=
  Relation.ReflTransGen a.Edge

/-- The start state, with so many symbols behind it. -/
def entry (a : Attempt) (n : Nat) : Site :=
  ⟨.after n, a.ids.start⟩

/-- The accepting state, with so many symbols behind it. -/
def exit (a : Attempt) (n : Nat) : Site :=
  ⟨.after n, a.ids.accept⟩

theorem Edge.live {a : Attempt} {u v : Site} (h : a.Edge u v) : u.state ≠ a.ids.accept := by
  cases h <;> assumption

theorem Edge.names {a : Attempt} {u v : Site} (h : a.Edge u v) : a.ids.Names v.state := by
  cases h with
  | stays _ _ decoded _ named _ => exact Response.names_of_decode decoded named
  | crosses _ _ decoded _ _ named _ => exact Response.names_of_decode decoded named

/-- An edge stays where it is or crosses one symbol of the input. -/
theorem Edge.position {a : Attempt} {n : Nat} {s : StateId} {v : Site}
    (h : a.Edge ⟨.after n, s⟩ v) :
    v.position = .after n ∨ v.position = .after (n + 1) ∧ n < a.length := by
  cases h with
  | stays => exact .inl rfl
  | crosses _ _ _ _ inside => exact .inr ⟨rfl, inside⟩

/-! ## §3. Answers are edges. -/

/-- What a question brings, by what the answer says: nothing where it is no
transition or wants a symbol behind the end, else its live successors. -/
theorem read_answer (a : Attempt) (n : Nat) (s : StateId) (raw : Value) :
    (a.read ⟨.after n, s⟩ raw).answer =
      match Response.decode a.ids raw with
      | .error _ => ⟨.after n, []⟩
      | .ok d =>
          let live := d.successors.filter (· ≠ (a.ids.reject : StateId))
          if d.consumes then ⟨.after (n + 1), if n < a.length then live else []⟩
          else ⟨.after n, live⟩ := by
  unfold read
  cases Response.decode a.ids raw with
  | error issues => rfl
  | ok d =>
      cases consuming : d.consumes with
      | false => simp [consuming]
      | true =>
          by_cases inside : n < a.length
          · simp [consuming, Position.reaches, Position.next, inside, Nat.not_le.2 inside]
          · simp [consuming, Position.reaches, Position.next, inside, Nat.not_lt.1 inside]

/-- Successors live where the question was asked or one position further on. -/
theorem read_position (a : Attempt) (n : Nat) (s : StateId) (raw : Value) :
    (a.read ⟨.after n, s⟩ raw).answer.position = .after n ∨
      (a.read ⟨.after n, s⟩ raw).answer.position = .after (n + 1) := by
  rw [read_answer]
  cases Response.decode a.ids raw with
  | error issues => exact .inl rfl
  | ok d => cases consuming : d.consumes <;> simp [consuming]

/-- The successors that an answer is read as are states it may name. -/
theorem names_of_read {a : Attempt} {u : Site} {raw : Value} {s : StateId}
    (hs : s ∈ (a.read u raw).answer.successors) : a.ids.Names s := by
  unfold read at hs
  cases hdecode : Response.decode a.ids raw with
  | error issues => simp [hdecode] at hs
  | ok d =>
      rw [hdecode] at hs
      dsimp only at hs
      split at hs
      · simp at hs
      · exact Response.names_of_decode hdecode (List.mem_of_mem_filter hs)

/-- **The answer to a question is the list of edges out of its site.** -/
theorem edge_iff_of_answer {a : Attempt} {n : Nat} {s : StateId} {raw : Value} {v : Site}
    (live : s ≠ a.ids.accept)
    (answered : a.oracle.answer (a.query ⟨.after n, s⟩) = .ok raw) :
    a.Edge ⟨.after n, s⟩ v ↔
      v.position = (a.read ⟨.after n, s⟩ raw).answer.position ∧
        v.state ∈ (a.read ⟨.after n, s⟩ raw).answer.successors := by
  rw [read_answer]
  constructor
  · intro h
    cases h with
    | stays _ answered' decoded epsilon named alive =>
        obtain rfl : raw = _ := Except.ok.inj (answered.symm.trans answered')
        simp [decoded, epsilon, named, alive]
    | crosses _ answered' decoded consuming inside named alive =>
        obtain rfl : raw = _ := Except.ok.inj (answered.symm.trans answered')
        simp [decoded, consuming, inside, named, alive]
  · -- Each way of reading an answer is one constructor, or no edge at all.
    obtain ⟨p, t⟩ := v
    cases decoded : Response.decode a.ids raw with
    | error issues => simp
    | ok d =>
        cases consuming : d.consumes with
        | false =>
            simp only [consuming, Bool.false_eq_true, if_false, List.mem_filter, decide_eq_true_eq]
            rintro ⟨rfl, named, alive⟩
            exact .stays live answered decoded consuming named alive
        | true =>
            by_cases inside : n < a.length
            · simp only [consuming, inside, if_true, List.mem_filter, decide_eq_true_eq]
              rintro ⟨rfl, named, alive⟩
              exact .crosses live answered decoded consuming inside named alive
            · simp [consuming, inside]

/-! ## §4. There are finitely many sites. -/

/-- Every site that an answer can lead to. -/
def sites (a : Attempt) : List Site :=
  (List.range (a.length + 1)).flatMap fun n =>
    (List.range a.ids.span).map fun k => ⟨.after n, .ofNat k⟩

theorem length_sites (a : Attempt) : a.sites.length = a.ids.span * (a.length + 1) := by
  simp [sites, List.length_flatMap, Nat.mul_comm]

theorem mem_sites {a : Attempt} {n : Nat} {s : StateId} (hn : n ≤ a.length)
    (hs : a.ids.Names s) : (⟨.after n, s⟩ : Site) ∈ a.sites := by
  obtain ⟨k, hk, rfl⟩ := hs
  simp only [sites, List.mem_flatMap, List.mem_range, List.mem_map]
  exact ⟨n, by omega, k, hk, rfl⟩

/-- A path from inside the input stays inside it and never goes back. -/
theorem Reaches.position {a : Attempt} {n : Nat} {s : StateId} {v : Site} (hn : n ≤ a.length)
    (h : a.Reaches ⟨.after n, s⟩ v) :
    ∃ m t, v = ⟨.after m, t⟩ ∧ n ≤ m ∧ m ≤ a.length := by
  induction h with
  | refl => exact ⟨n, s, rfl, Nat.le_refl n, hn⟩
  | tail _ hedge ih =>
      obtain ⟨m, t, rfl, hnm, hm⟩ := ih
      rename_i w _
      rcases hedge.position with hw | ⟨hw, inside⟩
      · exact ⟨m, w.state, by rw [← hw], hnm, hm⟩
      · exact ⟨m + 1, w.state, by rw [← hw], by omega, by omega⟩

theorem Reaches.mem_sites {a : Attempt} {n : Nat} {s : StateId} {v : Site} (hn : n ≤ a.length)
    (h : a.Reaches ⟨.after n, s⟩ v) : v ∈ (⟨.after n, s⟩ : Site) :: a.sites := by
  -- Everything but the root is the end of some edge, and edges name their ends.
  rcases Relation.ReflTransGen.cases_tail h with rfl | ⟨w, _, hedge⟩
  · exact List.mem_cons_self
  · obtain ⟨m, t, rfl, _, hm⟩ := h.position hn
    exact List.mem_cons_of_mem _ (Attempt.mem_sites hm hedge.names)

/-- The sites that an attempt on the whole input has to ask about. -/
def workload (a : Attempt) : Set Site :=
  {v | a.Reaches (a.entry 0) v ∧ v.state ≠ a.ids.accept}

theorem finite_reaches (a : Attempt) : {v | a.Reaches (a.entry 0) v}.Finite := by
  refine (List.finite_toSet (a.entry 0 :: a.sites)).subset ?_
  intro v hv
  exact Reaches.mem_sites (Nat.zero_le _) hv

theorem finite_workload (a : Attempt) : a.workload.Finite :=
  a.finite_reaches.subset fun _ h => h.1

end Attempt

end OracleNFA
