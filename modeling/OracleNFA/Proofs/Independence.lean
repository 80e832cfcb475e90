/-
  OracleNFA.Proofs.Independence
  ─────────────────────────────
  **NUMBERS ARE NAMES.**

  Two runs on an oracle and on the same one under other numbers (`Oracle.Renames`)
  are compared in two ways:

      a path search takes the states in the order in which they are answered, so
      both searches go in lockstep (`lockstep_path`) and end alike;
      a frontier takes them in the order of their numbers, so its queries differ,
      but what is rejected is rejected after the whole workload, which is renamed
      (`Renamed.rejected_alike`).
-/
import Mathlib.Logic.Equiv.Basic
import OracleNFA.Proofs.Lockstep
import OracleNFA.Proofs.Renaming

namespace OracleNFA

open Exploration

variable {φ : Equiv.Perm Nat}

/-! ## §1. Path searches in lockstep. -/

namespace Exploration

/-- The trail through the renamed sites. -/
def Trail.renamed (φ : Equiv.Perm Nat) (t : Trail) : Trail :=
  ⟨t.stack.map (Site.renamed φ), t.seen.map (Site.renamed φ), t.furthest⟩

/-- The states on the stack are natural numbers. -/
def Trail.Numbered (t : Trail) : Prop :=
  ∀ u ∈ t.stack, u.Numbered

theorem isSeen_renamed (φ : Equiv.Perm Nat) (p : Position) (s : StateId) (sites : List Site) :
    isSeen p (s.renamed φ) (sites.map (Site.renamed φ)) = isSeen p s sites := by
  rw [Bool.eq_iff_iff, isSeen_iff, isSeen_iff]
  exact List.mem_map_of_injective (a := ⟨p, s⟩) (Site.renamed_injective φ)

theorem push?_renamed (φ : Equiv.Perm Nat) (ids : Numbering) (length : Nat) (p : Position)
    (successors : List StateId) : ∀ t : Trail,
      push? (ids.renamed φ) length p (successors.map (Number.renamed φ)) (t.renamed φ) =
        (push? ids length p successors t).map (Trail.renamed φ) := by
  induction successors with
  | nil => intro t; rfl
  | cons s rest ih =>
      intro t
      have hgoal : s.renamed φ = (ids.renamed φ).accept ↔ s = ids.accept := Number.renamed_eq_iff
      have hseen : isSeen p (s.renamed φ) (t.renamed φ).seen = isSeen p s t.seen :=
        isSeen_renamed φ p s t.seen
      simp only [List.map_cons, push?, hgoal, hseen]
      split
      · rfl
      · split
        · exact ih t
        · exact ih { t with stack := ⟨p, s⟩ :: t.stack, seen := ⟨p, s⟩ :: t.seen }

end Exploration

namespace Attempt

variable {a b : Attempt}

namespace Renamed

/-- If searches are in lockstep from every trail on, they are so from what an answer
puts on the stack. -/
theorem lockstep_push (h : Renamed φ a b) {more : Nat} {t : Trail} {answer : Answer}
    (hfollow : ∀ t' : Trail, t'.Numbered → a.Lockstep b (Site.renamed φ) Eq
      (follow a.ids a.length more t') (follow b.ids b.length more (t'.renamed φ)))
    (ht : t.Numbered) (hanswer : ∀ s ∈ answer.successors, ∃ k, s = Number.ofNat k) :
    a.Lockstep b (Site.renamed φ) Eq
      (match push? a.ids a.length answer.position answer.successors t with
        | none => .note Event.pathAccepted (.done ⟨.accepted, a.length⟩)
        | some t' => follow a.ids a.length more t')
      (match push? b.ids b.length answer.position (answer.successors.map (Number.renamed φ))
          (t.renamed φ) with
        | none => .note Event.pathAccepted (.done ⟨.accepted, b.length⟩)
        | some t' => follow b.ids b.length more t') := by
  have hpush := push?_renamed φ a.ids a.length answer.position answer.successors t
  rw [← h.ids, ← h.length] at hpush
  rw [hpush, h.length]
  cases ht' : push? a.ids a.length answer.position answer.successors t with
  | none => exact .note (.done rfl)
  | some t' =>
      have hnumbered : t'.Numbered := by
        obtain ⟨new, hstack, _, _, _, hnew, _⟩ := push?_eq_some ht'
        intro u hu
        rw [hstack] at hu
        rcases List.mem_append.1 hu with hu | hu
        · exact hanswer _ (hnew u hu).2.1
        · exact ht u hu
      have hrest := hfollow t' hnumbered
      rw [h.length] at hrest
      exact hrest

/-- **What is left of a search and of the renamed one are in lockstep.** -/
theorem lockstep_follow (h : Renamed φ a b) (more : Nat) :
    ∀ t : Trail, t.Numbered → a.Lockstep b (Site.renamed φ) Eq
      (follow a.ids a.length more t) (follow b.ids b.length more (t.renamed φ)) := by
  induction more with
  | zero => exact fun t _ => .done rfl
  | succ more ih =>
      intro t ht
      obtain ⟨stack, seen, furthest⟩ := t
      cases stack with
      | nil => exact .note (.done rfl)
      | cons site rest =>
          obtain ⟨hsite, hrest⟩ := List.forall_mem_cons.1 ht
          have haccept_iff : (site.renamed φ).state = b.ids.accept ↔ site.state = a.ids.accept :=
            h.accept_iff
          have hposition : (site.renamed φ).position = site.position := rfl
          simp only [follow, Trail.renamed, List.map_cons, hposition]
          by_cases haccept : site.state = a.ids.accept
          · rw [if_pos haccept, if_pos (haccept_iff.2 haccept)]
            exact ih ⟨rest, seen, max furthest site.position.count⟩ hrest
          · rw [if_neg haccept, if_neg (mt haccept_iff.1 haccept)]
            cases hraw : a.oracle.answer (a.query site) with
            | error failure =>
                exact .failed (.note (.done rfl)) hraw (h.failed site failure hsite hraw)
            | ok raw =>
                obtain ⟨raw', hraw', hdecode⟩ := h.answered site raw hsite hraw
                refine .answered (.note (.done rfl)) hraw hraw' ?_
                dsimp only
                rw [h.read_answer site hdecode]
                refine h.lockstep_push ih hrest fun s hs => ?_
                obtain ⟨k, _, hk⟩ := names_of_read hs
                exact ⟨k, hk⟩

/-- **Path searches are in lockstep.** -/
theorem lockstep_path (h : Renamed φ a b) :
    a.Lockstep b (Site.renamed φ) Eq (path a.ids a.length) (path b.ids b.length) := by
  have hmore : b.ids.span * (b.length + 1) + 2 = a.ids.span * (a.length + 1) + 2 := by
    rw [h.ids, h.length]
    rfl
  have hfirst : (⟨[b.entry 0], [b.entry 0], 0⟩ : Trail) =
      Trail.renamed φ ⟨[a.entry 0], [a.entry 0], 0⟩ := by
    rw [h.entry]
    rfl
  show a.Lockstep b _ _ (follow a.ids a.length _ ⟨[a.entry 0], [a.entry 0], 0⟩)
    (follow b.ids b.length (b.ids.span * (b.length + 1) + 2) ⟨[b.entry 0], [b.entry 0], 0⟩)
  rw [hmore, hfirst]
  refine h.lockstep_follow _ _ fun u hu => ⟨a.ids.start, ?_⟩
  rw [List.mem_singleton.1 hu]
  rfl

/-! ## §2. What both runs come to. -/

/-- **A path search on a renamed oracle comes to the same.**  Its queries are the
renamed ones in the same order. -/
theorem path_alike (h : Renamed φ a b) (hdistinct : a.ids.start ≠ a.ids.accept)
    (hanswers : ∀ q, ∃ raw, a.oracle.answer q = .ok raw) :
    ∃ o o', (a.evaluate .path).result = .ok o ∧ (b.evaluate .path).result = .ok o' ∧
      o'.verdict = o.verdict ∧ o'.queries = o.queries ∧ o'.position = o.position ∧
      (b.evaluate .path).queries = (a.evaluate .path).queries.map (Query.renamed φ) := by
  obtain ⟨i, hqueries, hqueries', hresult⟩ :=
    evaluate_lockstep (s := .path) h.budget h.lockstep_path
  have hrenamed : (b.evaluate .path).queries =
      (a.evaluate .path).queries.map (Query.renamed φ) := by
    rw [hqueries, hqueries', Inquiry.map, List.map_map, List.map_map]
    exact List.map_congr_left fun u _ => h.query u
  rcases hresult with ⟨e, _, rfl, hleft, hright⟩ | ⟨site, failure, hleft, _⟩
  · refine ⟨_, _, hleft, hright, rfl, ?_, rfl, hrenamed⟩
    exact List.length_map _
  · obtain ⟨_, _, _, _, _, hreturned⟩ := evaluate_answered hdistinct hanswers .path
    exact absurd (hleft.symm.trans hreturned) (by simp)

/-- **A run on a renamed oracle rejects exactly if the run on the oracle does**,
whichever the strategy, after as many queries and equally far. -/
theorem rejected_alike (h : Renamed φ a b) (hdistinct : a.ids.start ≠ a.ids.accept)
    (hanswers : ∀ q, ∃ raw, a.oracle.answer q = .ok raw)
    (hanswers' : ∀ q, ∃ raw, b.oracle.answer q = .ok raw) (s : Strategy) :
    ∃ o o', (a.evaluate s).result = .ok o ∧ (b.evaluate s).result = .ok o' ∧
      (o.verdict = .rejected ↔ o'.verdict = .rejected) ∧
      (o.verdict = .rejected → o'.queries = o.queries ∧ o'.position = o.position) := by
  have hdistinct' : b.ids.start ≠ b.ids.accept := by
    rw [h.ids]
    exact φ.injective.ne hdistinct
  obtain ⟨e, i, hi, hgi, _, hresult⟩ := evaluate_answered hdistinct hanswers s
  obtain ⟨e', j, hj, hgj, _, hresult'⟩ := evaluate_answered hdistinct' hanswers' s
  have hexit : b.Reaches (b.entry 0) (b.exit b.length) ↔
      a.Reaches (a.entry 0) (a.exit a.length) := by
    rw [h.length]
    exact h.exit_iff
  obtain ⟨hverdict, halike⟩ := hi.rejected_alike hgi hj hgj h.budget hexit h.ncard_workload
    fun _ => h.furthest
  exact ⟨_, _, hresult, hresult', hverdict, halike⟩

end Renamed

end Attempt

/-! ## §3. Runs. -/

variable {oracle other : Oracle} {s : Sentinels Nat}

/-- **How the states of an oracle are numbered does not matter.**  Take an oracle and
the same one under other numbers, both answering every query.  Unsound arguments
are the same fault for both.  Otherwise both path searches come to the same verdict
after as many queries and equally far, and the one asks what the other asks,
renamed.  Both simulations return; they reject together, after as many queries and
equally far, and never accept and reject. -/
theorem numbering_independence (hs : Sentinels.ofValue oracle.sentinels = .ok s)
    (hφ : s.resolve.Permutes φ) (hrenames : oracle.Renames s φ other)
    (hanswers : ∀ q, ∃ raw, oracle.answer q = .ok raw)
    (hanswers' : ∀ q, ∃ raw, other.answer q = .ok raw) (input : Input) (maxCycles : Value) :
    match Attempt.ofInput input oracle maxCycles with
    | .error e => ∀ strategy,
        (runStrategy strategy input oracle maxCycles).result = .error (.config e) ∧
          (runStrategy strategy input other maxCycles).result = .error (.config e)
    | .ok _ =>
        (∃ o o', (runPath input oracle maxCycles).result = .ok o ∧
          (runPath input other maxCycles).result = .ok o' ∧
          o'.verdict = o.verdict ∧ o'.queries = o.queries ∧ o'.position = o.position ∧
          (runPath input other maxCycles).queries =
            (runPath input oracle maxCycles).queries.map (Query.renamed φ)) ∧
        ∃ o o', (runFrontier input oracle maxCycles).result = .ok o ∧
          (runFrontier input other maxCycles).result = .ok o' ∧
          (o.verdict = .rejected ↔ o'.verdict = .rejected) ∧
          (o.verdict = .rejected → o'.queries = o.queries ∧ o'.position = o.position) ∧
          ¬ (o.verdict = .accepted ∧ o'.verdict = .rejected) ∧
          ¬ (o.verdict = .rejected ∧ o'.verdict = .accepted) := by
  have hmade := Attempt.ofInput_renamed input maxCycles hs hφ hrenames
  unfold runFrontier runPath
  simp only [runStrategy_eq]
  cases ha : Attempt.ofInput input oracle maxCycles with
  | error e =>
      rw [ha] at hmade
      rw [show Attempt.ofInput input other maxCycles = .error e from hmade]
      exact fun _ => ⟨rfl, rfl⟩
  | ok a =>
      rw [ha] at hmade
      obtain ⟨b, hb, h⟩ := hmade
      rw [hb]
      have hdistinct := start_ne_accept ha
      rw [← (Attempt.of_ofInput ha).1] at hanswers
      rw [← (Attempt.of_ofInput hb).1] at hanswers'
      refine ⟨h.path_alike hdistinct hanswers, ?_⟩
      obtain ⟨o, o', ho, ho', hiff, halike⟩ :=
        h.rejected_alike hdistinct hanswers hanswers' .frontier
      refine ⟨o, o', ho, ho', hiff, halike, ?_, ?_⟩
      · rintro ⟨haccepted, hrejected⟩
        exact absurd (haccepted.symm.trans (hiff.2 hrejected)) (by simp)
      · rintro ⟨hrejected, haccepted⟩
        exact absurd (haccepted.symm.trans (hiff.1 hrejected)) (by simp)

/-- An oracle that goes two ways at the start without reading a symbol and then
accepts one symbol. -/
def forking : Oracle where
  sentinels := Sentinels.toValue ⟨0, 1, 2, none, none⟩
  answer := fun q => .ok (Transition.toValue
    (if q.state = (0 : Nat) then ⟨3, some 4, false⟩ else ⟨1, none, true⟩))

/-- The start state and one that it leads to change places. -/
theorem numbering_independence_forking :
    let s : Sentinels Nat := ⟨0, 1, 2, none, none⟩
    let φ := Equiv.swap 0 4
    let other := forking.renamed s φ
    Sentinels.ofValue forking.sentinels = .ok s ∧ s.resolve.Permutes φ ∧
      forking.Renames s φ other ∧ (∀ q, ∃ raw, forking.answer q = .ok raw) ∧
      (∀ q, ∃ raw, other.answer q = .ok raw) ∧
      (∃ o, (runPath (.text "a") other .absent).result = .ok o ∧ o.verdict = .accepted ∧
        (runPath (.text "a") other .absent).queries =
          [⟨(4 : Nat), ⟨some (97 : Nat), some (0 : Nat), false⟩⟩,
            ⟨(0 : Nat), ⟨some (97 : Nat), some (0 : Nat), false⟩⟩]) ∧
      ∃ o, (runFrontier (.text "") other .absent).result = .ok o ∧ o.verdict = .rejected ∧
        o.queries = 3 := by
  intro s φ other
  have hs : Sentinels.ofValue forking.sentinels = .ok s := by rfl
  have hφ : s.resolve.Permutes φ := by
    intro k hk
    have hlarge : 4 < s.resolve.span := by decide
    exact Equiv.swap_apply_of_ne_of_ne (by omega) (by omega)
  have hrenames : forking.Renames s φ other := forking.renames_renamed s φ
  have hanswers : ∀ q, ∃ raw, forking.answer q = .ok raw := fun _ => ⟨_, rfl⟩
  have hanswers' : ∀ q, ∃ raw, other.answer q = .ok raw := Oracle.answers_renamed hanswers
  obtain ⟨⟨p, p', hp, hp', hverdict, _, _, hqueries⟩, _⟩ :=
    numbering_independence hs hφ hrenames hanswers hanswers' (.text "a") .absent
  obtain ⟨_, f, f', hf, hf', hiff, halike, _⟩ :=
    numbering_independence hs hφ hrenames hanswers hanswers' (.text "") .absent
  refine ⟨hs, hφ, hrenames, hanswers, hanswers', ⟨p', hp', ?_, ?_⟩, f', hf', ?_⟩
  · rw [hverdict]
    obtain rfl : _ = p := Except.ok.inj hp
    rfl
  · rw [hqueries]
    rfl
  · obtain rfl : _ = f := Except.ok.inj hf
    exact ⟨hiff.1 rfl, (halike rfl).1⟩

end OracleNFA
