/-
  OracleNFA.Proofs.Correspondence
  ───────────────────────────────
  **SIMULATIONS OF ONE AUTOMATON AT TWO PLACES.**

  Two attempts correspond (`Attempt.Corresponds`) if the one is answered at every
  position what the other one is answered so many symbols further on, whatever the
  order in which an answer names its successors.  Their simulations then go in
  lockstep (`lockstep_simulate`).

  A simulation keeps its states in lists but treats them as sets: what one round
  adds depends on the order of an answer only in the order in which it is added
  (`discover?_alike`), and the next round asks in ascending order (`ascending_eq`).
  So the invariant of two simulations in lockstep is that their lists hold the same
  states (`SameStates`, `Expansion.Alike`).
-/
import OracleNFA.Proofs.Ascending
import OracleNFA.Proofs.Lockstep
import OracleNFA.Proofs.Frontier
import OracleNFA.Proofs.Validation

namespace OracleNFA

open Exploration

/-! ## §1. Lists of the same states. -/

/-- Two lists hold the same natural numbers as states, each once. -/
structure SameStates (l l' : List StateId) : Prop where
  nodup : l.Nodup
  nodup_right : l'.Nodup
  mem_iff : ∀ s, s ∈ l ↔ s ∈ l'
  numbered : ∀ s ∈ l, ∃ k : Nat, s = Number.ofNat k

namespace SameStates

variable {l l' m m' : List StateId}

theorem singleton (k : Nat) : SameStates [Number.ofNat k] [Number.ofNat k] :=
  ⟨List.nodup_singleton _, List.nodup_singleton _, fun _ => Iff.rfl,
    fun _ hs => ⟨k, List.mem_singleton.1 hs⟩⟩

theorem nil : SameStates [] [] :=
  ⟨List.nodup_nil, List.nodup_nil, fun _ => Iff.rfl, fun _ hs => absurd hs (by simp)⟩

theorem perm (h : SameStates l l') : l.Perm l' :=
  (List.perm_ext_iff_of_nodup h.nodup h.nodup_right).2 h.mem_iff

theorem symm (h : SameStates l l') : SameStates l' l :=
  ⟨h.nodup_right, h.nodup, fun s => (h.mem_iff s).symm,
    fun s hs => h.numbered s ((h.mem_iff s).2 hs)⟩

theorem isEmpty_eq (h : SameStates l l') : l.isEmpty = l'.isEmpty := by
  rw [Bool.eq_iff_iff, List.isEmpty_iff_length_eq_zero, List.isEmpty_iff_length_eq_zero,
    h.perm.length_eq]

/-- New states behind known ones. -/
theorem append (h : SameStates l l') (hnew : SameStates m m') (hdisjoint : ∀ s ∈ m, s ∉ l) :
    SameStates (l ++ m) (l' ++ m') := by
  refine ⟨h.nodup.append hnew.nodup fun s hl hm => hdisjoint s hm hl,
    h.nodup_right.append hnew.nodup_right fun s hl hm => ?_, fun s => ?_, fun s hs => ?_⟩
  · exact hdisjoint s ((hnew.mem_iff s).2 hm) ((h.mem_iff s).2 hl)
  · rw [List.mem_append, List.mem_append, h.mem_iff, hnew.mem_iff]
  · exact (List.mem_append.1 hs).elim (h.numbered s) (hnew.numbered s)

end SameStates

namespace Exploration

/-- **The same states are asked in the same order.** -/
theorem ascending_eq {l l' : List StateId} (h : SameStates l l') : ascending l = ascending l' := by
  refine ascending_eq_of_perm h.perm fun s hs => ?_
  obtain ⟨k, rfl⟩ := h.numbered s hs
  exact Number.plain_ofNat k

end Exploration

/-! ## §2. What one answer adds. -/

namespace Exploration

/-- Two closures under construction that hold the same states. -/
structure Expansion.Alike (w w' : Expansion) : Prop where
  closure : SameStates w.closure w'.closure
  advanced : SameStates w.advanced w'.advanced
  discovered : SameStates w.discovered w'.discovered
  known : ∀ s ∈ w.discovered, s ∈ w.closure

theorem Expansion.Alike.symm {w w' : Expansion} (h : w.Alike w') : w'.Alike w where
  closure := h.closure.symm
  advanced := h.advanced.symm
  discovered := h.discovered.symm
  known := by
    intro s hs
    rw [← h.closure.mem_iff]
    exact h.known s ((h.discovered.mem_iff s).2 hs)

variable {goal : Option StateId} {successors successors' : List StateId} {w w' v : Expansion}

/-- What is discovered are the successors that were not known. -/
theorem discover?_new (h : discover? goal successors w = some v) :
    ∃ new, v = ⟨w.closure ++ new, w.advanced, w.discovered ++ new⟩ ∧ new.Nodup ∧
      (∀ s, s ∈ new ↔ s ∈ successors ∧ s ∉ w.closure) ∧ ∀ s ∈ new, goal ≠ some s := by
  obtain ⟨new, hclosure, hdisc, hadv, hnodup, hnew, hall⟩ := discover?_eq_some h
  refine ⟨new, ?_, hnodup, fun s => ⟨fun hs => ⟨(hnew s hs).1, (hnew s hs).2.1⟩, ?_⟩,
    fun s hs => (hnew s hs).2.2⟩
  · obtain ⟨closure, advanced, discovered⟩ := v
    simp_all
  · rintro ⟨hs, hunknown⟩
    have hmem := hall s hs
    rw [hclosure] at hmem
    exact (List.mem_append.1 hmem).resolve_left hunknown

/-- If discovering ends at the goal, it does so in whatever order. -/
theorem discover?_none_alike (hw : w.Alike w') (hsame : ∀ s, s ∈ successors → s ∈ successors')
    (h : discover? goal successors w = none) : discover? goal successors' w' = none := by
  obtain ⟨g, hg, hgoal, hunknown⟩ := discover?_eq_none h
  rw [hw.closure.mem_iff] at hunknown
  cases hv : discover? goal successors' w' with
  | none => rfl
  | some v =>
      obtain ⟨new, _, _, hnew, hout⟩ := discover?_new hv
      exact absurd hgoal (hout g ((hnew g).2 ⟨hsame g hg, hunknown⟩))

/-- **The order of the successors does not matter to what is discovered.** -/
theorem discover?_alike (hw : w.Alike w') (hsame : ∀ s, s ∈ successors ↔ s ∈ successors')
    (hnumbered : ∀ s ∈ successors, ∃ k : Nat, s = Number.ofNat k) :
    Option.Rel Expansion.Alike (discover? goal successors w) (discover? goal successors' w') := by
  cases hv : discover? goal successors w with
  | none =>
      rw [discover?_none_alike hw (fun s => (hsame s).1) hv]
      exact .none
  | some v =>
      cases hv' : discover? goal successors' w' with
      | none =>
          rw [discover?_none_alike hw.symm (fun s => (hsame s).2) hv'] at hv
          exact absurd hv (by simp)
      | some v' =>
          obtain ⟨new, rfl, hnodup, hnew, _⟩ := discover?_new hv
          obtain ⟨new', rfl, hnodup', hnew', _⟩ := discover?_new hv'
          have hadded : SameStates new new' := by
            refine ⟨hnodup, hnodup', fun s => ?_, fun s hs => hnumbered s ((hnew s).1 hs).1⟩
            rw [hnew, hnew', hsame, hw.closure.mem_iff]
          have hunknown : ∀ s ∈ new, s ∉ w.closure := fun s hs => ((hnew s).1 hs).2
          refine .some ⟨hw.closure.append hadded hunknown, hw.advanced,
            hw.discovered.append hadded fun s hs hdisc => hunknown s hs (hw.known s hdisc), ?_⟩
          intro s hs
          exact List.mem_append.2 ((List.mem_append.1 hs).imp_left (hw.known s))

/-- Nor to what is found across the symbol. -/
theorem addStates_same {l l' : List StateId} (h : SameStates l l')
    (hsame : ∀ s, s ∈ successors ↔ s ∈ successors')
    (hnumbered : ∀ s ∈ successors, ∃ k : Nat, s = Number.ofNat k) :
    SameStates (successors.foldl (fun seen s => addState s seen) l)
      (successors'.foldl (fun seen s => addState s seen) l') := by
  refine ⟨nodup_foldl_addState _ _ h.nodup, nodup_foldl_addState _ _ h.nodup_right, fun s => ?_,
    fun s hs => ?_⟩
  · rw [mem_foldl_addState, mem_foldl_addState, hsame, h.mem_iff]
  · exact ((mem_foldl_addState successors l).1 hs).elim (hnumbered s) (h.numbered s)

end Exploration

/-- Two answers that name the same successors, the one so many symbols further on. -/
structure Answer.Alike (k : Nat) (x y : Answer) : Prop where
  position : ∃ n, x.position = .after n ∧ y.position = .after (n + k)
  mem_iff : ∀ s, s ∈ x.successors ↔ s ∈ y.successors

namespace Exploration

/-- **Two such answers add the same.** -/
theorem absorb?_alike {goal : Option StateId} {w w' : Expansion} {x y : Answer} {k : Nat}
    (hw : w.Alike w') (h : x.Alike k y)
    (hnumbered : ∀ s ∈ x.successors, ∃ k : Nat, s = Number.ofNat k)
    (n : Nat) :
    Option.Rel Expansion.Alike (absorb? goal (.after n) x w)
      (absorb? goal (.after (n + k)) y w') := by
  obtain ⟨m, hx, hy⟩ := h.position
  unfold absorb?
  rw [hx, hy, Attempt.same_after, Attempt.same_after]
  by_cases hmn : m = n
  · rw [if_pos (by simp [hmn]), if_pos (by simp [hmn])]
    exact discover?_alike hw h.mem_iff hnumbered
  · rw [if_neg (by simp [hmn]), if_neg (by simp [hmn])]
    exact .some
      ⟨hw.closure, addStates_same hw.advanced h.mem_iff hnumbered, hw.discovered, hw.known⟩

/-- Explorations of a position that turned out alike. -/
inductive Phase.Rel {α β : Type} (R : α → β → Prop) : Phase α → Phase β → Prop
  | accepted : Rel R .accepted .accepted
  | exhausted : Rel R .exhausted .exhausted
  | settled {r : α} {r' : β} (related : R r r') : Rel R (.settled r) (.settled r')

end Exploration

/-- The same verdict, so many symbols further on. -/
structure Ending.Alike (k : Nat) (e e' : Ending) : Prop where
  verdict : e'.verdict = e.verdict
  position : ∃ n, e.position = .after n ∧ e'.position = .after (n + k)

/-! ## §3. Attempts that correspond. -/

namespace Attempt

/-- An attempt under the same budget on `k` symbols more, whose oracle fails `k`
symbols further on where the other one fails, and else answers there what names the
same successors; `σ` takes the sites of the one to those of the other. -/
structure Corresponds (k : Nat) (σ : Site → Site) (a b : Attempt) : Prop where
  ids : b.ids = a.ids
  budget : b.budget = a.budget
  length : b.length = a.length + k
  moves : ∀ n s, σ ⟨.after n, s⟩ = ⟨.after (n + k), s⟩
  answered : ∀ n s raw, a.oracle.answer (a.query ⟨.after n, s⟩) = .ok raw →
    ∃ raw', b.oracle.answer (b.query ⟨.after (n + k), s⟩) = .ok raw' ∧
      (a.read ⟨.after n, s⟩ raw).answer.Alike k (b.read ⟨.after (n + k), s⟩ raw').answer
  failed : ∀ n s failure, a.oracle.answer (a.query ⟨.after n, s⟩) = .error failure →
    b.oracle.answer (b.query ⟨.after (n + k), s⟩) = .error failure

namespace Corresponds

variable {k n : Nat} {σ : Site → Site} {a b : Attempt} {goal : Option StateId} {w w' : Expansion}
  {frontier frontier' : List StateId}

/-! ## §4. Simulations in lockstep. -/

/-- One round. -/
theorem lockstep_sweep (h : Corresponds k σ a b) (pending : List StateId) :
    ∀ {w w' : Expansion}, w.Alike w' →
      a.Lockstep b σ (Phase.Rel Expansion.Alike) (sweep a.ids goal (.after n) pending w)
        (sweep a.ids goal (.after (n + k)) pending w') := by
  induction pending with
  | nil => exact fun hw => .done (.settled hw)
  | cons s rest ih =>
      intro w w' hw
      rw [sweep, sweep]
      by_cases hs : s = a.ids.accept
      · rw [if_pos hs, if_pos hs]
        exact ih hw
      · rw [if_neg hs, if_neg hs, ← h.moves]
        cases hraw : a.oracle.answer (a.query ⟨.after n, s⟩) with
        | error failure =>
            refine .failed (.done .exhausted) hraw ?_
            rw [h.moves]
            exact h.failed n s failure hraw
        | ok raw =>
            obtain ⟨raw', hraw', halike⟩ := h.answered n s raw hraw
            rw [← h.moves] at hraw' halike
            refine .answered (.done .exhausted) hraw hraw' ?_
            have hadded : Option.Rel Expansion.Alike (absorb? goal (.after n) _ w)
                (absorb? goal (.after (n + k)) _ w') :=
              absorb?_alike hw halike (fun t ht => (names_of_read ht).imp fun _ h => h.2) n
            dsimp only
            generalize absorb? goal (.after n) _ w = found at hadded ⊢
            generalize absorb? goal (.after (n + k)) _ w' = found' at hadded ⊢
            cases hadded with
            | none => exact .done .accepted
            | some hv => exact ih hv

/-- All rounds. -/
theorem lockstep_rounds (h : Corresponds k σ a b) (more : Nat) :
    ∀ {pending : List StateId} {w w' : Expansion}, w.Alike w' →
      a.Lockstep b σ (Phase.Rel Expansion.Alike) (rounds a.ids goal (.after n) more pending w)
        (rounds a.ids goal (.after (n + k)) more pending w') := by
  induction more with
  | zero => exact fun _ => .done .exhausted
  | succ more ih =>
      intro pending w w' hw
      refine (h.lockstep_sweep pending hw).bind fun phase phase' hphase => ?_
      cases hphase with
      | accepted => exact .done .accepted
      | exhausted => exact .done .exhausted
      | @settled v v' hv =>
          -- The round discovered the same states, so both go on with them or neither does.
          dsimp only
          rw [hv.discovered.isEmpty_eq, ascending_eq hv.discovered]
          split
          · exact .done (.settled hv)
          · exact ih ⟨hv.closure, hv.advanced, .nil, fun s hs => absurd hs (by simp)⟩

/-- One position. -/
theorem lockstep_step (h : Corresponds k σ a b) (hfrontier : SameStates frontier frontier')
    (accepting : Bool) :
    a.Lockstep b σ (Phase.Rel SameStates) (step a.ids frontier (.after n) accepting)
      (step a.ids frontier' (.after (n + k)) accepting) := by
  have hlive : (a.ids.accept : StateId) ∈ frontier ↔ (a.ids.accept : StateId) ∈ frontier' :=
    hfrontier.mem_iff _
  have hclosure : a.Lockstep b σ
      (Phase.Rel fun c c' : Settled => SameStates c.advanced c'.advanced)
      (Exploration.closure a.ids frontier (.after n) accepting)
      (Exploration.closure a.ids frontier' (.after (n + k)) accepting) := by
    unfold Exploration.closure
    by_cases hgoal : accepting = true ∧ (a.ids.accept : StateId) ∈ frontier
    · rw [if_pos hgoal, if_pos (hgoal.imp_right hlive.1)]
      exact .done .accepted
    · have hgoal' : ¬ (accepting = true ∧ (a.ids.accept : StateId) ∈ frontier') :=
        fun hmem => hgoal (hmem.imp_right hlive.2)
      rw [if_neg hgoal, if_neg hgoal', ascending_eq hfrontier]
      have hstart : Expansion.Alike ⟨frontier, [], []⟩ ⟨frontier', [], []⟩ :=
        ⟨hfrontier, .nil, .nil, fun s hs => absurd hs (by simp)⟩
      refine (h.lockstep_rounds (a.ids.span + 1) hstart).map fun phase phase' hphase => ?_
      cases hphase with
      | accepted => exact .accepted
      | exhausted => exact .exhausted
      | settled hw => exact .settled hw.advanced
  refine hclosure.map fun phase phase' hphase => ?_
  cases hphase with
  | accepted => exact .accepted
  | exhausted => exact .exhausted
  | settled hc => exact .settled hc

theorem lockstep_endAt (verdict : Verdict) :
    a.Lockstep b σ (Ending.Alike k) (endAt verdict (.after n)) (endAt verdict (.after (n + k))) :=
  .note (.done ⟨rfl, n, rfl, rfl⟩)

/-- One position, and what follows it. -/
theorem lockstep_visit (h : Corresponds k σ a b) (anchored : Bool)
    (hfrontier : SameStates frontier frontier') {next next' : List StateId → Exploration Ending}
    (hnext : ∀ l l', SameStates l l' → a.Lockstep b σ (Ending.Alike k) (next l) (next' l')) :
    a.Lockstep b σ (Ending.Alike k) (visit a.ids a.length anchored (.after n) frontier next)
      (visit b.ids b.length anchored (.after (n + k)) frontier' next') := by
  -- The end of the input is as far away from both.
  have hend : (Position.after (n + k)).same (.after b.length) =
      (Position.after n).same (.after a.length) := by
    rw [h.length, same_after, same_after, Bool.eq_iff_iff, beq_iff_eq, beq_iff_eq]
    omega
  unfold visit
  rw [h.ids, hend]
  refine .note ((h.lockstep_step hfrontier _).bind fun phase phase' hphase => ?_)
  cases hphase with
  | accepted => exact lockstep_endAt .accepted
  | exhausted => exact lockstep_endAt .exhausted
  | settled hl => exact hnext _ _ hl

theorem lockstep_simulateFrom (h : Corresponds k σ a b) (anchored : Bool) (left : Nat) :
    ∀ {n : Nat} {frontier frontier' : List StateId}, SameStates frontier frontier' →
      a.Lockstep b σ (Ending.Alike k)
        (simulateFrom a.ids a.length anchored left (.after n) frontier)
        (simulateFrom b.ids b.length anchored left (.after (n + k)) frontier') := by
  induction left with
  | zero =>
      intro n frontier frontier' hfrontier
      exact h.lockstep_visit anchored hfrontier fun _ _ _ => lockstep_endAt .rejected
  | succ left ih =>
      intro n frontier frontier' hfrontier
      refine h.lockstep_visit anchored hfrontier fun l l' hl => ?_
      rw [hl.isEmpty_eq]
      split
      · exact lockstep_endAt .rejected
      · have hnext : (Position.after (n + k)).next = .after (n + 1 + k) := by
          show Position.after (n + k + 1) = _
          rw [Nat.add_right_comm]
        rw [hnext]
        exact ih hl

/-- **Simulations go in lockstep**, the one from so many symbols further on. -/
theorem lockstep_simulate (h : Corresponds k σ a b) (start : Nat) (anchored : Bool) :
    a.Lockstep b σ (Ending.Alike k) (simulate a.ids a.length (.after start) anchored)
      (simulate b.ids b.length (.after (start + k)) anchored) := by
  have hmoves : (Position.after (start + k)).movesWithin b.length =
      (Position.after start).movesWithin a.length := by
    show b.length - (start + k) = a.length - start
    rw [h.length, Nat.add_sub_add_right]
  unfold simulate
  rw [hmoves]
  have hfirst : SameStates [(a.ids.start : StateId)] [(b.ids.start : StateId)] := by
    rw [h.ids]
    exact .singleton a.ids.start
  exact h.lockstep_simulateFrom anchored _ hfirst

end Corresponds

end Attempt

end OracleNFA
