/-
  OracleNFA.Proofs.Layers
  ───────────────────────
  **THE LAYERS OF A CLOSURE.**

  The states live at a position lie in layers around the first ones: the layer of a
  state is the least number of hops that lead to it (`Attempt.layer`).  Every layer
  but the first holds only states that an answer may name, and no state is in two of
  them, so there are finitely many layers:

      ncard_ahead_lt — a layer that is not empty leaves fewer states for the later ones
      layer_eq_empty — behind an empty layer all are empty
      layer_span     — and there is an empty one

  A layer can be listed in ascending order in one way (`exists_listing`); `queue` is
  these lists one behind the other.
-/
import OracleNFA.Proofs.Ascending
import OracleNFA.Proofs.LeastClosure

namespace OracleNFA

open Exploration

namespace Attempt

variable {a : Attempt} {n : Nat} {first : Set StateId} {k : Nat} {t : StateId}

/-! ## §1. Layers. -/

/-- The states that so many hops lead to from first ones, and no fewer. -/
def layer (a : Attempt) (n : Nat) (first : Set StateId) : Nat → Set StateId
  | 0 => first
  | k + 1 => {t | (∃ s ∈ a.layer n first k, a.Hop n s t) ∧ ∀ j ≤ k, t ∉ a.layer n first j}

theorem layer_zero : a.layer n first 0 = first := by rw [layer]

/-- The states that at most so many hops lead to. -/
def ball (a : Attempt) (n : Nat) (first : Set StateId) (k : Nat) : Set StateId :=
  {t | ∃ j ≤ k, t ∈ a.layer n first j}

theorem mem_ball_zero : t ∈ a.ball n first 0 ↔ t ∈ first := by
  unfold ball
  simp [layer_zero]

theorem mem_layer_succ :
    t ∈ a.layer n first (k + 1) ↔
      (∃ s ∈ a.layer n first k, a.Hop n s t) ∧ t ∉ a.ball n first k := by
  rw [layer]
  unfold ball
  simp

theorem names_of_mem_layer (h : t ∈ a.layer n first (k + 1)) : a.ids.Names t := by
  obtain ⟨⟨s, _, hst⟩, _⟩ := mem_layer_succ.1 h
  exact Edge.names hst

/-- Behind an empty layer all are empty. -/
theorem layer_eq_empty (h : a.layer n first k = ∅) {j : Nat} (hj : k ≤ j) :
    a.layer n first j = ∅ := by
  induction j, hj using Nat.le_induction with
  | base => exact h
  | succ j _ ih =>
      refine Set.eq_empty_of_forall_notMem fun t ht => ?_
      obtain ⟨⟨s, hs, _⟩, _⟩ := mem_layer_succ.1 ht
      rw [ih] at hs
      exact hs

/-- One layer more holds what the last one leads to. -/
theorem mem_ball_succ :
    t ∈ a.ball n first (k + 1) ↔
      t ∈ a.ball n first k ∨ ∃ s ∈ a.layer n first k, a.Hop n s t := by
  constructor
  · rintro ⟨j, hj, ht⟩
    rcases Nat.le_or_eq_of_le_succ hj with hj | rfl
    · exact .inl ⟨j, hj, ht⟩
    · exact .inr (mem_layer_succ.1 ht).1
  · intro h
    by_cases hk : t ∈ a.ball n first k
    · obtain ⟨j, hj, ht⟩ := hk
      exact ⟨j, Nat.le_succ_of_le hj, ht⟩
    · exact ⟨k + 1, le_rfl, mem_layer_succ.2 ⟨h.resolve_left hk, hk⟩⟩

/-- Up to a layer with an empty one behind it, there are all layers. -/
theorem mem_ball_of_empty (h : a.layer n first (k + 1) = ∅) :
    t ∈ a.ball n first k ↔ ∃ j, t ∈ a.layer n first j := by
  constructor
  · rintro ⟨j, _, ht⟩
    exact ⟨j, ht⟩
  · rintro ⟨j, ht⟩
    refine ⟨j, Nat.le_of_not_lt fun hlt => ?_, ht⟩
    rw [layer_eq_empty h hlt] at ht
    exact ht

/-! ## §2. There are finitely many layers. -/

/-- The states that an answer may name and that are in none of the layers so far. -/
def ahead (a : Attempt) (n : Nat) (first : Set StateId) (k : Nat) : Set StateId :=
  {s | a.ids.Names s} \ a.ball n first k

theorem finite_ahead : (a.ahead n first k).Finite :=
  a.ids.finite_names.subset fun _ hs => hs.1

theorem ncard_ahead_le : (a.ahead n first k).ncard ≤ a.ids.span :=
  (Set.ncard_le_ncard (fun _ hs => hs.1) a.ids.finite_names).trans a.ids.ncard_names_le

/-- **A layer that is not empty** leaves fewer states for the later ones. -/
theorem ncard_ahead_lt (h : (a.layer n first (k + 1)).Nonempty) :
    (a.ahead n first (k + 1)).ncard < (a.ahead n first k).ncard := by
  obtain ⟨t, ht⟩ := h
  have hsub : a.ahead n first (k + 1) ⊆ a.ahead n first k :=
    fun s hs => ⟨hs.1, fun hk => hs.2 (mem_ball_succ.2 (.inl hk))⟩
  refine Set.ncard_lt_ncard ((Set.ssubset_iff_of_subset hsub).2 ⟨t, ?_, ?_⟩) finite_ahead
  · exact ⟨names_of_mem_layer ht, (mem_layer_succ.1 ht).2⟩
  · exact fun hahead => hahead.2 ⟨k + 1, le_rfl, ht⟩

/-- **There is an empty layer**: there are not enough states for more. -/
theorem layer_span : a.layer n first (a.ids.span + 1) = ∅ := by
  have hcount : ∀ k, a.layer n first k = ∅ ∨ (a.ahead n first k).ncard + k ≤ a.ids.span := by
    intro k
    induction k with
    | zero => exact .inr ncard_ahead_le
    | succ k ih =>
        rcases ih with hempty | hle
        · exact .inl (layer_eq_empty hempty (Nat.le_succ _))
        · refine (Set.eq_empty_or_nonempty _).imp_right fun hlayer => ?_
          have hlt := ncard_ahead_lt hlayer
          omega
  refine (hcount (a.ids.span + 1)).resolve_right fun hle => ?_
  omega

/-! ## §3. Layers as lists. -/

variable {frontier : List StateId}

theorem plain_of_mem_stateSet (hnan : Number.nan ∉ frontier) :
    ∀ s ∈ stateSet frontier, s.Plain := by
  rintro _ ⟨s, hs, rfl⟩
  exact Number.plain_unsigned fun heq => hnan (heq ▸ hs)

/-- **Every layer can be listed**, if the frontier does not hold no-number. -/
theorem exists_listing (hnan : Number.nan ∉ frontier) :
    ∃ listing : Nat → List StateId, ∀ k, Lists (listing k) (a.layer n (stateSet frontier) k) := by
  have heach : ∀ k, ∃ l, Lists l (a.layer n (stateSet frontier) k) := by
    intro k
    cases k with
    | zero =>
        rw [layer_zero]
        exact exists_lists ((List.finite_toSet frontier).image _) (plain_of_mem_stateSet hnan)
    | succ k =>
        refine exists_lists (a.ids.finite_names.subset fun t ht => names_of_mem_layer ht) ?_
        intro t ht
        obtain ⟨m, _, rfl⟩ := names_of_mem_layer ht
        exact Number.plain_ofNat m
  choose listing hlisting using heach
  exact ⟨listing, hlisting⟩

/-- The lists of the layers from one on, one behind the other. -/
def queue (listing : Nat → List StateId) (depth k : Nat) : List StateId :=
  (List.range' k (depth - k)).flatMap listing

variable {listing : Nat → List StateId} {depth : Nat}

/-- A queue begins with its first layer. -/
theorem queue_eq (hdepth : ∀ k, depth ≤ k → listing k = []) (k : Nat) :
    queue listing depth k = listing k ++ queue listing depth (k + 1) := by
  unfold queue
  rcases Nat.lt_or_ge k depth with h | h
  · obtain ⟨more, hmore⟩ : ∃ more, depth - k = more + 1 := ⟨depth - k - 1, by omega⟩
    rw [hmore, List.range'_succ, List.flatMap_cons, show depth - (k + 1) = more by omega]
  · rw [show depth - k = 0 by omega, show depth - (k + 1) = 0 by omega, hdepth k h]
    rfl

theorem queue_eq_nil (hempty : ∀ j, k ≤ j → listing j = []) : queue listing depth k = [] := by
  unfold queue
  refine List.flatMap_eq_nil_iff.2 fun j hj => hempty j ?_
  exact (List.mem_range'_1.1 hj).1

end Attempt

end OracleNFA
