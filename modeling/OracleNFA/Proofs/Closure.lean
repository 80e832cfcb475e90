/-
  OracleNFA.Proofs.Closure
  ────────────────────────
  **THE CLOSURE OF A FRONTIER IS A LEAST FIXPOINT.**

  The states live at a position are those that a frontier leads to without
  crossing a symbol (`Attempt.LiveFrom`).  While rounds are asked, the closure
  under construction splits into the states whose edges were followed, those of
  the current round still to be asked, and those that wait for the next round
  (`Attempt.Sweeping`).  One question keeps the split, so

    • `ensures_sweep`  — a round follows the edges of all its states,
    • `ensures_rounds` — rounds end, because each but the last finds a state
      that answers may name and that was not live before,
    • `ensures_step`   — the states asked are the live ones without the
      accepting one, each once, and the frontier behind the symbol holds what
      is reached from them across it.
-/
import Mathlib.Data.List.Infix
import Mathlib.Data.List.Perm.Subperm
import OracleNFA.Proofs.Graph
import OracleNFA.Proofs.Inquiry

namespace OracleNFA

open Exploration

/-! ## §1. What one answer adds. -/

namespace Exploration

theorem mem_addState {s t : StateId} {states : List StateId} :
    t ∈ addState s states ↔ t = s ∨ t ∈ states := by
  unfold addState
  split
  · next h =>
      constructor
      · exact .inr
      · rintro (rfl | ht)
        · exact h
        · exact ht
  · simp [or_comm]

theorem nodup_addState {s : StateId} {states : List StateId} (h : states.Nodup) :
    (addState s states).Nodup := by
  unfold addState
  split
  · exact h
  · next hs => simpa [List.nodup_append] using ⟨h, fun t ht hts => hs (hts ▸ ht)⟩

theorem mem_foldl_addState {t : StateId} (successors : List StateId) :
    ∀ states : List StateId,
      t ∈ successors.foldl (fun seen s => addState s seen) states ↔
        t ∈ successors ∨ t ∈ states := by
  induction successors with
  | nil => intro states; simp
  | cons s rest ih =>
      intro states
      rw [List.foldl_cons, ih, mem_addState, List.mem_cons]
      exact ⟨fun h => by rcases h with h | h | h <;> simp [h],
        fun h => by rcases h with (h | h) | h <;> simp [h]⟩

theorem nodup_foldl_addState (successors : List StateId) :
    ∀ states : List StateId, states.Nodup →
      (successors.foldl (fun seen s => addState s seen) states).Nodup := by
  induction successors with
  | nil => intro states h; exact h
  | cons s rest ih => intro states h; exact ih _ (nodup_addState h)

/-- Discovering ends at the goal, if that is new. -/
theorem discover?_eq_none {goal : Option StateId} {successors : List StateId} :
    ∀ {w : Expansion}, discover? goal successors w = none →
      ∃ g ∈ successors, goal = some g ∧ g ∉ w.closure := by
  induction successors with
  | nil => intro w h; exact absurd h (by simp [discover?])
  | cons s rest ih =>
      intro w h
      rw [discover?] at h
      split at h
      · obtain ⟨g, hg, hgoal, hnew⟩ := ih h
        exact ⟨g, List.mem_cons_of_mem _ hg, hgoal, hnew⟩
      · next hs =>
          split at h
          · next hgoal => exact ⟨s, List.mem_cons_self, hgoal, hs⟩
          · obtain ⟨g, hg, hgoal, hnew⟩ := ih h
            exact ⟨g, List.mem_cons_of_mem _ hg, hgoal, fun hmem => hnew (by simp [hmem])⟩

/-- Discovering adds the successors that are new, once each, and not the goal. -/
theorem discover?_eq_some {goal : Option StateId} {successors : List StateId} :
    ∀ {w w' : Expansion}, discover? goal successors w = some w' →
      ∃ new, w'.closure = w.closure ++ new ∧ w'.discovered = w.discovered ++ new ∧
        w'.advanced = w.advanced ∧ new.Nodup ∧
        (∀ s ∈ new, s ∈ successors ∧ s ∉ w.closure ∧ goal ≠ some s) ∧
        ∀ s ∈ successors, s ∈ w'.closure := by
  induction successors with
  | nil =>
      intro w w' h
      obtain rfl : w = w' := by simpa [discover?] using h
      exact ⟨[], by simp⟩
  | cons s rest ih =>
      intro w w' h
      rw [discover?] at h
      split at h
      · -- a state that is known already
        next hs =>
          obtain ⟨new, hclosure, hdisc, hadv, hnodup, hnew, hall⟩ := ih h
          refine ⟨new, hclosure, hdisc, hadv, hnodup, ?_, ?_⟩
          · exact fun t ht => ⟨List.mem_cons_of_mem _ (hnew t ht).1, (hnew t ht).2⟩
          · intro t ht
            rcases List.mem_cons.1 ht with rfl | ht
            · rw [hclosure]
              exact List.mem_append_left _ hs
            · exact hall t ht
      · -- a new state, unless it is the goal and ends everything
        next hs =>
          split at h
          · exact absurd h (by simp)
          · next hgoal =>
              obtain ⟨new, hclosure, hdisc, hadv, hnodup, hnew, hall⟩ := ih h
              refine ⟨s :: new, by simp [hclosure], by simp [hdisc], hadv, ?_, ?_, ?_⟩
              · refine List.nodup_cons.2 ⟨fun hmem => ?_, hnodup⟩
                exact (hnew s hmem).2.1 (by simp)
              · intro t ht
                rcases List.mem_cons.1 ht with rfl | ht
                · exact ⟨List.mem_cons_self, hs, hgoal⟩
                · refine ⟨List.mem_cons_of_mem _ (hnew t ht).1, fun hmem => ?_, (hnew t ht).2.2⟩
                  exact (hnew t ht).2.1 (List.mem_append_left _ hmem)
              · intro t ht
                rcases List.mem_cons.1 ht with rfl | ht
                · rw [hclosure]
                  simp
                · exact hall t ht

end Exploration

/-! ## §2. Live states. -/

namespace Attempt

/-- An edge between two states at one position. -/
def Hop (a : Attempt) (n : Nat) (s t : StateId) : Prop :=
  a.Edge ⟨.after n, s⟩ ⟨.after n, t⟩

/-- An edge between two states across the symbol at a position. -/
def Crossing (a : Attempt) (n : Nat) (s t : StateId) : Prop :=
  a.Edge ⟨.after n, s⟩ ⟨.after (n + 1), t⟩

/-- A state is live at a position once the states of a frontier are. -/
def LiveFrom (a : Attempt) (n : Nat) (frontier : List StateId) (s : StateId) : Prop :=
  ∃ f ∈ frontier, Relation.ReflTransGen (a.Hop n) f s

variable {a : Attempt} {n : Nat} {frontier : List StateId}

theorem LiveFrom.of_mem {s : StateId} (h : s ∈ frontier) : a.LiveFrom n frontier s :=
  ⟨s, h, .refl⟩

theorem LiveFrom.hop {s t : StateId} (h : a.LiveFrom n frontier s) (hst : a.Hop n s t) :
    a.LiveFrom n frontier t := by
  obtain ⟨f, hf, hpath⟩ := h
  exact ⟨f, hf, hpath.tail hst⟩

theorem LiveFrom.reaches {s : StateId} (h : a.LiveFrom n frontier s) :
    ∃ f ∈ frontier, a.Reaches ⟨.after n, f⟩ ⟨.after n, s⟩ := by
  obtain ⟨f, hf, hpath⟩ := h
  exact ⟨f, hf, hpath.lift (fun s => (⟨.after n, s⟩ : Site)) fun _ _ h => h⟩

/-- A set that holds the frontier and that no hop leaves holds all live states. -/
theorem LiveFrom.mem_of_closed {s : StateId} {closed : List StateId}
    (hfrontier : ∀ f ∈ frontier, f ∈ closed)
    (hhop : ∀ s ∈ closed, ∀ t, a.Hop n s t → t ∈ closed) (h : a.LiveFrom n frontier s) :
    s ∈ closed := by
  obtain ⟨f, hf, hpath⟩ := h
  induction hpath with
  | refl => exact hfrontier f hf
  | tail _ hst ih => exact hhop _ ih _ hst

/-! ## §3. A closure under construction. -/

/-- A round: the states known when it began were asked, or are still to be asked,
or are the accepting one. -/
structure Round (a : Attempt) (known asked pending : List StateId) : Prop where
  covers : ∀ s ∈ known, s = a.ids.accept ∨ s ∈ asked ++ pending
  known_of_raised : ∀ s ∈ asked ++ pending, s ∈ known
  raised_nodup : (asked ++ pending).Nodup
  asked_live : ∀ s ∈ asked, s ≠ a.ids.accept

namespace Round

variable {known asked pending : List StateId} {s : StateId}

/-- The accepting state is passed over. -/
theorem skip (h : a.Round known asked (s :: pending)) (hs : s = a.ids.accept) :
    a.Round known asked pending := by
  have hsub : (asked ++ pending).Sublist (asked ++ s :: pending) :=
    List.Sublist.append (List.Sublist.refl asked) (List.sublist_cons_self s pending)
  refine ⟨fun t ht => ?_, fun t ht => h.known_of_raised t (hsub.subset ht),
    h.raised_nodup.sublist hsub, h.asked_live⟩
  rcases h.covers t ht with ht | ht
  · exact .inl ht
  · rcases List.mem_append.1 ht with ht | ht
    · exact .inr (List.mem_append_left _ ht)
    · rcases List.mem_cons.1 ht with rfl | ht
      · exact .inl hs
      · exact .inr (List.mem_append_right _ ht)

/-- The next state is asked about. -/
theorem step (h : a.Round known asked (s :: pending)) (hs : s ≠ a.ids.accept) :
    a.Round known (asked ++ [s]) pending := by
  have hraised : (asked ++ [s]) ++ pending = asked ++ s :: pending := by simp
  refine ⟨hraised ▸ h.covers, hraised ▸ h.known_of_raised, hraised ▸ h.raised_nodup, ?_⟩
  intro t ht
  rcases List.mem_append.1 ht with ht | ht
  · exact h.asked_live t ht
  · rw [List.mem_singleton.1 ht]
    exact hs

theorem asked_nodup (h : a.Round known asked pending) : asked.Nodup :=
  h.raised_nodup.sublist (List.sublist_append_left _ _)

end Round

/-- A closure while a round is asked: it holds what was known and what the round
discovered, and the edges out of the states that were asked are followed. -/
structure Sweeping (a : Attempt) (n : Nat) (frontier : List StateId) (goal : Option StateId)
    (known asked pending : List StateId) (w : Expansion) : Prop
    extends a.Round known asked pending where
  closure_eq : w.closure = known ++ w.discovered
  nodup : w.closure.Nodup
  frontier_known : ∀ s ∈ frontier, s ∈ known
  live : ∀ s ∈ w.closure, a.LiveFrom n frontier s
  named : ∀ s ∈ w.closure, s ∈ frontier ∨ a.ids.Names s
  hops : ∀ s ∈ asked, ∀ t, a.Hop n s t → t ∈ w.closure
  crossings : ∀ t, t ∈ w.advanced ↔ ∃ s ∈ asked, a.Crossing n s t
  advanced_nodup : w.advanced.Nodup
  goal_out : ∀ g, goal = some g → g ∉ w.closure

/-- The hops out of a state are the successors that its answer names, if these
stay where they are. -/
theorem hop_iff {s t : StateId} {raw : Value} (hs : s ≠ a.ids.accept)
    (answered : a.oracle.answer (a.query ⟨.after n, s⟩) = .ok raw) :
    a.Hop n s t ↔ (a.read ⟨.after n, s⟩ raw).answer.position = .after n ∧
      t ∈ (a.read ⟨.after n, s⟩ raw).answer.successors := by
  unfold Hop
  rw [edge_iff_of_answer hs answered]
  exact and_congr_left fun _ => eq_comm

/-- The crossings out of a state are the successors that its answer names, if
these live one position further on. -/
theorem crossing_iff {s t : StateId} {raw : Value} (hs : s ≠ a.ids.accept)
    (answered : a.oracle.answer (a.query ⟨.after n, s⟩) = .ok raw) :
    a.Crossing n s t ↔ (a.read ⟨.after n, s⟩ raw).answer.position = .after (n + 1) ∧
      t ∈ (a.read ⟨.after n, s⟩ raw).answer.successors := by
  unfold Crossing
  rw [edge_iff_of_answer hs answered]
  exact and_congr_left fun _ => eq_comm

theorem same_after (m k : Nat) : (Position.after m).same (.after k) = (m == k) := rfl

/-- **The successors of an answer live either here or behind the symbol**, never on both
sides. -/
theorem successors_cases {s : StateId} {raw : Value} (hs : s ≠ a.ids.accept)
    (answered : a.oracle.answer (a.query ⟨.after n, s⟩) = .ok raw) :
    let answer := (a.read ⟨.after n, s⟩ raw).answer
    (answer.position.same (.after n) = true ∧
        (∀ t, a.Hop n s t ↔ t ∈ answer.successors) ∧ ∀ t, ¬ a.Crossing n s t) ∨
      answer.position.same (.after n) = false ∧
        (∀ t, ¬ a.Hop n s t) ∧ ∀ t, a.Crossing n s t ↔ t ∈ answer.successors := by
  intro answer
  rcases a.read_position n s raw with hpos | hpos
  · refine .inl ⟨?_, fun t => ?_, fun t ht => ?_⟩
    · rw [hpos, same_after, beq_self_eq_true]
    · rw [hop_iff hs answered]
      exact and_iff_right hpos
    · rw [crossing_iff hs answered, hpos] at ht
      simp at ht
  · refine .inr ⟨?_, fun t ht => ?_, fun t => ?_⟩
    · rw [hpos, same_after]
      simp
    · rw [hop_iff hs answered, hpos] at ht
      simp at ht
    · rw [crossing_iff hs answered]
      exact and_iff_right hpos

namespace Sweeping

variable {goal : Option StateId} {known asked pending : List StateId} {s : StateId}
  {w w' : Expansion} {raw : Value}

/-- Before the first round. -/
theorem start (hnodup : frontier.Nodup) (hgoal : ∀ g, goal = some g → g ∉ frontier) :
    a.Sweeping n frontier goal frontier [] (ascending frontier) ⟨frontier, [], []⟩ where
  covers := fun _ h => .inr ((ascending_perm frontier).mem_iff.2 h)
  known_of_raised := fun _ h => (ascending_perm frontier).mem_iff.1 h
  raised_nodup := (ascending_perm frontier).nodup_iff.2 hnodup
  asked_live := fun _ h => absurd h (by simp)
  closure_eq := (List.append_nil _).symm
  nodup := hnodup
  frontier_known := fun _ h => h
  live := fun _ h => .of_mem h
  named := fun _ h => .inl h
  hops := fun _ h => absurd h (by simp)
  crossings := fun t => by simp
  advanced_nodup := List.nodup_nil
  goal_out := hgoal

theorem raised_live (h : a.Sweeping n frontier goal known asked pending w) {t : StateId}
    (ht : t ∈ asked ++ pending) : a.LiveFrom n frontier t := by
  apply h.live
  rw [h.closure_eq]
  exact List.mem_append_left _ (h.known_of_raised t ht)

/-- An answer that names the goal at this position makes it live. -/
theorem absorb?_eq_none (h : a.Sweeping n frontier goal known asked (s :: pending) w)
    (hs : s ≠ a.ids.accept)
    (answered : a.oracle.answer (a.query ⟨.after n, s⟩) = .ok raw)
    (habsorb : absorb? goal (.after n) (a.read ⟨.after n, s⟩ raw).answer w = none) :
    ∃ g, goal = some g ∧ a.LiveFrom n frontier g := by
  unfold absorb? at habsorb
  rcases successors_cases hs answered with ⟨hsame, hhop, _⟩ | ⟨hsame, _⟩
  · rw [if_pos hsame] at habsorb
    obtain ⟨g, hg, hgoal, _⟩ := discover?_eq_none habsorb
    have hlive : a.LiveFrom n frontier s := h.raised_live (by simp)
    exact ⟨g, hgoal, hlive.hop ((hhop g).2 hg)⟩
  · rw [if_neg (by simp [hsame])] at habsorb
    exact nomatch habsorb

/-- An answer whose successors live at this position is followed. -/
theorem absorb_here (h : a.Sweeping n frontier goal known asked (s :: pending) w)
    (hs : s ≠ a.ids.accept) {successors : List StateId}
    (hhop : ∀ t, a.Hop n s t ↔ t ∈ successors) (hcross : ∀ t, ¬ a.Crossing n s t)
    (hw' : discover? goal successors w = some w') :
    a.Sweeping n frontier goal known (asked ++ [s]) pending w' := by
  obtain ⟨new, hclosure, hdisc, hadv, hnodup, hnew, hall⟩ := discover?_eq_some hw'
  have hlive : a.LiveFrom n frontier s := h.raised_live (by simp)
  refine {
    toRound := h.toRound.step hs
    closure_eq := ?closure_eq
    nodup := ?nodup
    frontier_known := h.frontier_known
    live := ?live
    named := ?named
    hops := ?hops
    crossings := ?crossings
    advanced_nodup := hadv ▸ h.advanced_nodup
    goal_out := ?goal_out }
  case closure_eq => rw [hclosure, hdisc, h.closure_eq, List.append_assoc]
  case nodup =>
    rw [hclosure]
    exact List.Nodup.append h.nodup hnodup fun t ht htnew => (hnew t htnew).2.1 ht
  case live =>
    -- What is new is one hop away from a live state.
    intro t ht
    rw [hclosure, List.mem_append] at ht
    rcases ht with ht | ht
    · exact h.live t ht
    · exact hlive.hop ((hhop t).2 (hnew t ht).1)
  case named =>
    intro t ht
    rw [hclosure, List.mem_append] at ht
    rcases ht with ht | ht
    · exact h.named t ht
    · exact .inr (Edge.names ((hhop t).2 (hnew t ht).1))
  case hops =>
    -- Only `s` is new among the states asked about.
    intro t ht u htu
    rcases List.mem_append.1 ht with ht | ht
    · rw [hclosure]
      exact List.mem_append_left _ (h.hops t ht u htu)
    · rw [List.mem_singleton.1 ht] at htu
      exact hall u ((hhop u).1 htu)
  case crossings =>
    intro t
    rw [hadv, h.crossings]
    simp [or_and_right, exists_or, hcross t]
  case goal_out =>
    intro g hg
    rw [hclosure, List.mem_append]
    rintro (hmem | hmem)
    · exact h.goal_out g hg hmem
    · exact (hnew g hmem).2.2 hg

/-- An answer whose successors live behind the symbol is followed. -/
theorem absorb_across (h : a.Sweeping n frontier goal known asked (s :: pending) w)
    (hs : s ≠ a.ids.accept) {successors : List StateId}
    (hhop : ∀ t, ¬ a.Hop n s t) (hcross : ∀ t, a.Crossing n s t ↔ t ∈ successors) :
    a.Sweeping n frontier goal known (asked ++ [s]) pending
      { w with advanced := successors.foldl (fun seen s => addState s seen) w.advanced } := by
  refine ⟨h.toRound.step hs, h.closure_eq, h.nodup, h.frontier_known, h.live, h.named, ?_, ?_,
    nodup_foldl_addState _ _ h.advanced_nodup, h.goal_out⟩
  · intro t ht u htu
    rcases List.mem_append.1 ht with ht | ht
    · exact h.hops t ht u htu
    · rw [List.mem_singleton.1 ht] at htu
      exact absurd htu (hhop u)
  · intro t
    rw [mem_foldl_addState, h.crossings, ← hcross]
    simp [or_and_right, exists_or, or_comm]

/-- **An answer is followed.** -/
theorem absorb (h : a.Sweeping n frontier goal known asked (s :: pending) w)
    (hs : s ≠ a.ids.accept)
    (answered : a.oracle.answer (a.query ⟨.after n, s⟩) = .ok raw)
    (habsorb : absorb? goal (.after n) (a.read ⟨.after n, s⟩ raw).answer w = some w') :
    a.Sweeping n frontier goal known (asked ++ [s]) pending w' := by
  unfold absorb? at habsorb
  rcases successors_cases hs answered with ⟨hsame, hhop, hcross⟩ | ⟨hsame, hhop, hcross⟩
  · rw [if_pos hsame] at habsorb
    exact h.absorb_here hs hhop hcross habsorb
  · rw [if_neg (by simp [hsame])] at habsorb
    obtain rfl := Option.some.inj habsorb
    exact h.absorb_across hs hhop hcross

/-- The next round asks what this one discovered. -/
theorem next (h : a.Sweeping n frontier goal known asked [] w) :
    a.Sweeping n frontier goal w.closure asked (ascending w.discovered)
      { w with discovered := [] } := by
  have hperm := ascending_perm w.discovered
  have hknown : ∀ s ∈ asked, s ∈ known := fun s hs => h.known_of_raised s (by simpa using hs)
  refine { h with
    covers := ?covers
    known_of_raised := ?known_of_raised
    raised_nodup := ?raised_nodup
    asked_live := h.asked_live
    closure_eq := (List.append_nil _).symm
    frontier_known := ?frontier_known }
  case covers =>
    -- What was known before was asked about; what is known since then is pending.
    intro s hs
    rw [h.closure_eq, List.mem_append] at hs
    rcases hs with hs | hs
    · rcases h.covers s hs with hs | hs
      · exact .inl hs
      · exact .inr (List.mem_append_left _ (by simpa using hs))
    · exact .inr (List.mem_append_right _ (hperm.mem_iff.2 hs))
  case known_of_raised =>
    intro s hs
    rw [h.closure_eq]
    rcases List.mem_append.1 hs with hs | hs
    · exact List.mem_append_left _ (hknown s hs)
    · exact List.mem_append_right _ (hperm.mem_iff.1 hs)
  case raised_nodup =>
    have hnodup := h.closure_eq ▸ h.nodup
    refine List.Nodup.append h.asked_nodup (hperm.nodup_iff.2 (List.nodup_append.1 hnodup).2.1) ?_
    intro s hs hdisc
    exact (List.nodup_append.1 hnodup).2.2 s (hknown s hs) s (hperm.mem_iff.1 hdisc) rfl
  case frontier_known =>
    intro s hs
    rw [h.closure_eq]
    exact List.mem_append_left _ (h.frontier_known s hs)

/-- Only states that answers may name are added to a frontier. -/
theorem length_closure_le (h : a.Sweeping n frontier goal known asked pending w) :
    w.closure.length ≤ frontier.length + a.ids.span := by
  have hsub : w.closure ⊆ frontier ++ (List.range a.ids.span).map Number.ofNat := by
    intro s hs
    rcases h.named s hs with hs | ⟨k, hk, rfl⟩
    · exact List.mem_append_left _ hs
    · exact List.mem_append_right _ (List.mem_map_of_mem (List.mem_range.2 hk))
  simpa using (List.subperm_of_subset h.nodup hsub).length_le

/-- Once a round discovers nothing, the live states are the closure. -/
theorem mem_closure_iff (h : a.Sweeping n frontier goal known asked [] w)
    (hdone : w.discovered = []) : s ∈ w.closure ↔ a.LiveFrom n frontier s := by
  have hknown : w.closure = known := by rw [h.closure_eq, hdone, List.append_nil]
  refine ⟨h.live s, LiveFrom.mem_of_closed (fun f hf => ?_) (fun t ht u htu => ?_)⟩
  · rw [hknown]
    exact h.frontier_known f hf
  · -- A known state was asked about, unless it is accepting and has no hops.
    rw [hknown] at ht
    rcases h.covers t ht with rfl | ht
    · exact absurd rfl (Edge.live htu)
    · exact h.hops t (by simpa using ht) u htu

end Sweeping

/-! ## §4. What a closure asks. -/

/-- The questions raised after those about `base` are about these states of one
position: each once, all of them live, none of them accepting. -/
structure Raises (a : Attempt) (n : Nat) (frontier : List StateId) (base : List Site)
    (states : List StateId) (i : Inquiry) : Prop where
  touched : i.touched = base ++ states.map fun s => ⟨.after n, s⟩
  nodup : states.Nodup
  live : ∀ s ∈ states, a.LiveFrom n frontier s ∧ s ≠ a.ids.accept

/-- How exploring a position ends: the goal is live there, or a question was
refused, or everything was explored and `good` holds of the states asked about
and of the result. -/
def PhaseEnds {β : Type} (a : Attempt) (n : Nat) (frontier : List StateId)
    (goal : Option StateId) (base : List Site) (good : List StateId → β → Prop)
    (r : Except (Raised QueryError) (Phase β)) (i : Inquiry) : Prop :=
  ∃ states, a.Raises n frontier base states i ∧
    match r with
    | .error _ => True
    | .ok .accepted => i.refused = none ∧ ∃ g, goal = some g ∧ a.LiveFrom n frontier g
    | .ok .exhausted => i.refused.isSome = true
    | .ok (.settled b) => i.refused = none ∧ good states b

variable {goal : Option StateId} {base : List Site}

theorem PhaseEnds.map {β γ : Type} {good : List StateId → β → Prop}
    {good' : List StateId → γ → Prop} {f : β → γ}
    (hgood : ∀ states b, good states b → good' states (f b))
    (r : Except (Raised QueryError) (Phase β)) (i : Inquiry)
    (h : a.PhaseEnds n frontier goal base good r i) :
    a.PhaseEnds n frontier goal base good' (r.map (Phase.map f)) i := by
  obtain ⟨states, hraises, hr⟩ := h
  refine ⟨states, hraises, ?_⟩
  match r with
  | .error _ => trivial
  | .ok .accepted => exact hr
  | .ok .exhausted => exact hr
  | .ok (.settled b) => exact ⟨hr.1, hgood states b hr.2⟩

namespace Sweeping

variable {known asked pending : List StateId} {s : StateId} {w : Expansion} {i : Inquiry}

/-- What has been raised once the next state is asked about, granted or not. -/
theorem raises (h : a.Sweeping n frontier goal known asked (s :: pending) w)
    (hs : s ≠ a.ids.accept) (hasked : i.asked = base ++ asked.map fun s => ⟨.after n, s⟩)
    {i' : Inquiry} (hi' : i'.touched = i.asked ++ [⟨.after n, s⟩]) :
    a.Raises n frontier base (asked ++ [s]) i' where
  touched := by simp [hi', hasked]
  nodup := (h.toRound.step hs).asked_nodup
  live := by
    intro t ht
    refine ⟨h.raised_live ?_, (h.toRound.step hs).asked_live t ht⟩
    rcases List.mem_append.1 ht with ht | ht
    · exact List.mem_append_left _ ht
    · exact List.mem_append_right _ (by simp [List.mem_singleton.1 ht])

theorem raises_all (h : a.Sweeping n frontier goal known asked pending w)
    (hi : i.refused = none) (hasked : i.asked = base ++ asked.map fun s => ⟨.after n, s⟩) :
    a.Raises n frontier base asked i where
  touched := by rw [Inquiry.touched_of_refused_none hi, hasked]
  nodup := h.asked_nodup
  live := fun t ht => ⟨h.raised_live (List.mem_append_left _ ht), h.asked_live t ht⟩

end Sweeping

/-- **A round follows the edges out of all its states.** -/
theorem ensures_sweep {known : List StateId} (pending : List StateId) :
    ∀ (asked : List StateId) (w : Expansion) (i : Inquiry),
      a.Sweeping n frontier goal known asked pending w → i.refused = none →
      i.asked = base ++ asked.map (fun s => ⟨.after n, s⟩) →
      a.Ensures
        (a.PhaseEnds n frontier goal base fun states w' =>
          a.Sweeping n frontier goal known states [] w')
        (sweep a.ids goal (.after n) pending w) i := by
  induction pending with
  | nil =>
      intro asked w i h hi hasked
      exact ⟨asked, h.raises_all hi hasked, hi, h⟩
  | cons s rest ih =>
      intro asked w i h hi hasked
      rw [sweep]
      by_cases hs : s = a.ids.accept
      · rw [if_pos hs]
        exact ih asked w i { h with toRound := h.toRound.skip hs } hi hasked
      · -- The question is raised whether it is granted or not; only an answer
        -- lets the round go on.
        rw [if_neg hs]
        have hask : (i.ask ⟨.after n, s⟩).touched = i.asked ++ [⟨.after n, s⟩] :=
          Inquiry.touched_of_refused_none hi
        refine ⟨⟨asked ++ [s], h.raises hs hasked (Inquiry.touched_refuse hi _),
          Inquiry.isSome_refused_refuse _ _⟩, fun _ => ?_⟩
        cases answered : a.oracle.answer (a.query ⟨.after n, s⟩) with
        | error failure => exact ⟨asked ++ [s], h.raises hs hasked hask, trivial⟩
        | ok raw =>
            dsimp only
            cases habsorb : absorb? goal (.after n) (a.read ⟨.after n, s⟩ raw).answer w with
            | none =>
                exact ⟨asked ++ [s], h.raises hs hasked hask, hi,
                  h.absorb?_eq_none hs answered habsorb⟩
            | some w' =>
                refine ih (asked ++ [s]) w' _ (h.absorb hs answered habsorb) hi ?_
                simp [hasked]

/-- **Rounds end before they run out.**  Each but the last adds a state that was
not live before, and there are only so many that an answer may name. -/
theorem ensures_rounds (more : Nat) :
    ∀ (asked pending : List StateId) (w : Expansion) (i : Inquiry),
      a.Sweeping n frontier goal w.closure asked pending w → i.refused = none →
      i.asked = base ++ asked.map (fun s => ⟨.after n, s⟩) →
      frontier.length + a.ids.span < w.closure.length + more →
      a.Ensures
        (a.PhaseEnds n frontier goal base fun states w' =>
          (∃ known, a.Sweeping n frontier goal known states [] w') ∧ w'.discovered = [])
        (rounds a.ids goal (.after n) more pending w) i := by
  induction more with
  | zero =>
      -- The closure would hold more states than there are to hold.
      intro asked pending w i h _ _ hfuel
      have hle := h.length_closure_le
      omega
  | succ more ih =>
      intro asked pending w i h hi hasked hfuel
      rw [rounds]
      apply ensures_bind
      refine ensures_mono a ?_ _ _ (ensures_sweep pending asked w i h hi hasked)
      rintro (e | phase) i' ⟨states, hraises, hr⟩
      · exact ⟨states, hraises, trivial⟩
      · match phase with
        | .accepted => exact ⟨states, hraises, hr⟩
        | .exhausted => exact ⟨states, hraises, hr⟩
        | .settled w' =>
            obtain ⟨hi', hw'⟩ := hr
            show a.Ensures _ (if w'.discovered.isEmpty then _ else _) i'
            by_cases hdone : w'.discovered = []
            · rw [hdone, List.isEmpty_nil, if_pos rfl]
              exact ⟨states, hraises, hi', ⟨_, hw'⟩, hdone⟩
            · rw [if_neg (by simpa using hdone)]
              have hasked' : i'.asked = base ++ states.map fun s => ⟨.after n, s⟩ := by
                rw [← hraises.touched, Inquiry.touched_of_refused_none hi']
              -- Something was discovered, so the next round starts with more.
              have hgrown : w.closure.length < w'.closure.length := by
                rw [hw'.closure_eq, List.length_append]
                have := List.length_pos_iff.2 hdone
                omega
              refine ih states _ { w' with discovered := [] } i' hw'.next hi' hasked' ?_
              show _ < w'.closure.length + more
              omega

/-- What a finished closure holds. -/
structure Settles (a : Attempt) (n : Nat) (frontier : List StateId) (goal : Option StateId)
    (states : List StateId) (c : Settled) : Prop where
  closure : ∀ s, s ∈ c.closure ↔ a.LiveFrom n frontier s
  asked : ∀ s, s ∈ states ↔ a.LiveFrom n frontier s ∧ s ≠ a.ids.accept
  advanced : ∀ t, t ∈ c.advanced ↔ ∃ s, a.LiveFrom n frontier s ∧ a.Crossing n s t
  advanced_nodup : c.advanced.Nodup
  goal_out : ∀ g, goal = some g → ¬ a.LiveFrom n frontier g

theorem Sweeping.settles {known asked : List StateId} {w : Expansion}
    (h : a.Sweeping n frontier goal known asked [] w) (hdone : w.discovered = []) :
    a.Settles n frontier goal asked ⟨w.closure, w.advanced⟩ where
  closure := fun s => h.mem_closure_iff hdone
  asked := by
    intro s
    constructor
    · exact fun hs => ⟨h.raised_live (List.mem_append_left _ hs), h.asked_live s hs⟩
    · rintro ⟨hlive, hs⟩
      have hmem := (h.mem_closure_iff hdone).2 hlive
      rw [h.closure_eq, hdone, List.append_nil] at hmem
      simpa using (h.covers s hmem).resolve_left hs
  advanced := by
    intro t
    rw [h.crossings]
    constructor
    · rintro ⟨s, hs, hst⟩
      exact ⟨s, h.raised_live (List.mem_append_left _ hs), hst⟩
    · rintro ⟨s, hlive, hst⟩
      have hmem := (h.mem_closure_iff hdone).2 hlive
      rw [h.closure_eq, hdone, List.append_nil] at hmem
      exact ⟨s, by simpa using (h.covers s hmem).resolve_left (Edge.live hst), hst⟩
  advanced_nodup := h.advanced_nodup
  goal_out := fun g hg hlive => h.goal_out g hg ((h.mem_closure_iff hdone).2 hlive)

/-- The accepting state, where it ends the exploration of a position. -/
def goalWhen (a : Attempt) (accepting : Bool) : Option StateId :=
  if accepting then some a.ids.accept else none

theorem goalWhen_eq_some {accepting : Bool} {g : StateId} :
    a.goalWhen accepting = some g ↔ accepting = true ∧ g = a.ids.accept := by
  unfold goalWhen
  cases accepting <;> simp [eq_comm]

/-- **The closure of a frontier is the set of live states.**  The states asked
about are those but the accepting one, and a closure that settles where that
state counts does not hold it. -/
theorem ensures_closure (accepting : Bool) {i : Inquiry} (hnodup : frontier.Nodup)
    (hi : i.refused = none) :
    a.Ensures (a.PhaseEnds n frontier (a.goalWhen accepting) i.asked
        (a.Settles n frontier (a.goalWhen accepting)))
      (Exploration.closure a.ids frontier (.after n) accepting) i := by
  unfold Exploration.closure
  split
  · next h =>
      refine ⟨[], ⟨by simp [Inquiry.touched_of_refused_none hi], List.nodup_nil, by simp⟩, hi, ?_⟩
      exact ⟨a.ids.accept, goalWhen_eq_some.2 ⟨h.1, rfl⟩, .of_mem h.2⟩
  · next h =>
      apply ensures_map
      have hgoal : ∀ g, a.goalWhen accepting = some g → g ∉ frontier := by
        intro g hg hmem
        obtain ⟨haccepting, rfl⟩ := goalWhen_eq_some.1 hg
        exact h ⟨haccepting, hmem⟩
      refine ensures_mono a (PhaseEnds.map ?_) _ _
        (ensures_rounds (a.ids.span + 1) [] _ _ i (Sweeping.start hnodup hgoal) hi (by simp) ?_)
      · rintro states w ⟨⟨known, hw⟩, hdone⟩
        exact hw.settles hdone
      · show _ < frontier.length + (a.ids.span + 1)
        omega

/-- **The frontier behind a symbol** is what the live states lead to across it. -/
theorem ensures_step (accepting : Bool) {i : Inquiry} (hnodup : frontier.Nodup)
    (hi : i.refused = none) :
    a.Ensures (a.PhaseEnds n frontier (a.goalWhen accepting) i.asked fun states advanced =>
        ∃ c, a.Settles n frontier (a.goalWhen accepting) states c ∧ c.advanced = advanced)
      (step a.ids frontier (.after n) accepting) i := by
  apply ensures_map
  refine ensures_mono a (PhaseEnds.map ?_) _ _ (ensures_closure accepting hnodup hi)
  exact fun states c hc => ⟨c, hc, rfl⟩

end Attempt

end OracleNFA
