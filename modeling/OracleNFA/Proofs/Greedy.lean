/-
  OracleNFA.Proofs.Greedy
  ───────────────────────
  **ALL MATCHES, FROM LEFT TO RIGHT.**

  The search for all matches takes the first match it comes to and goes on behind
  it.  What that brings is described without the search (`Greedy`): the spans
  begin inside the input, none before the search would go on behind the one before
  it, each is what the attempt at its start finds, and the attempts at all
  positions that no span takes up find nothing.

  The description follows the resume position like the search does:

      Greedy.of_le — from the end of the input on there is nothing
      Greedy.pass  — a position where nothing is found can be left out
      Greedy.hit   — a match comes first, the others from where it resumes

  So by induction on the trials left the search returns the one list of spans
  that fits the description (`scanAll_greedy`).
-/
import OracleNFA.Proofs.Configuration
import OracleNFA.Proofs.Leftmost

namespace OracleNFA

/-! ## §1. Spans side by side. -/

namespace Span

/-- Where a search goes on behind a match: where the match ends, or one position
behind its start if it is empty. -/
def resume (m : Span) : Nat :=
  max m.stop (m.start + 1)

/-- A position that a match takes up: behind it the search goes on. -/
def Covers (m : Span) (k : Nat) : Prop :=
  m.start ≤ k ∧ k < m.resume

/-- A search that goes on behind a match can come to the other one. -/
def Before (m next : Span) : Prop :=
  m.resume ≤ next.start

theorem start_lt_resume (m : Span) : m.start < m.resume :=
  Nat.lt_of_lt_of_le (Nat.lt_succ_self _) (Nat.le_max_right _ _)

instance : Trans Before Before Before where
  trans {_ mid _} h h' := Nat.le_trans h (Nat.le_trans (Nat.le_of_lt mid.start_lt_resume) h')

end Span

namespace Search

variable {a : Attempt} {start stop : Nat} {spans : List Span}

/-! ## §2. The matches from a position on. -/

/-- The matches from a start position on, each as soon as the search can come to
it. -/
structure Greedy (a : Attempt) (start : Nat) (spans : List Span) : Prop where
  begins : ∀ m ∈ spans, start ≤ m.start ∧ m.start < a.length
  ends : ∀ m ∈ spans, m.start ≤ m.stop ∧ m.stop ≤ a.length
  follows : spans.IsChain Span.Before
  accepted : ∀ m ∈ spans, (attemptAt a m.start).result = .ok ⟨.accepted, .after m.stop⟩
  complete : ∀ k, start ≤ k → k < a.length → (∀ m ∈ spans, ¬ m.Covers k) →
    ∃ e, (attemptAt a k).result = .ok e ∧ e.verdict ≠ .accepted

/-- Each match lies before all later ones. -/
theorem Greedy.apart (h : Greedy a start spans) : spans.Pairwise Span.Before :=
  List.isChain_iff_pairwise.1 h.follows

/-- No match begins at the end of the input. -/
theorem Greedy.of_le (hend : a.length ≤ start) : Greedy a start spans ↔ spans = [] := by
  constructor
  · intro h
    refine List.eq_nil_iff_forall_not_mem.2 fun m hm => ?_
    obtain ⟨hle, hlt⟩ := h.begins m hm
    omega
  · rintro rfl
    exact ⟨by simp, by simp, .nil, by simp, fun k hle hlt _ => by omega⟩

/-- **Where an attempt finds nothing, nothing begins.** -/
theorem Greedy.pass {e : Ending} (hresult : (attemptAt a start).result = .ok e)
    (hverdict : e.verdict ≠ .accepted) : Greedy a start spans ↔ Greedy a (start + 1) spans := by
  constructor
  · rintro ⟨begins, ends, follows, accepted, complete⟩
    refine ⟨fun m hm => ⟨?_, (begins m hm).2⟩, ends, follows, accepted,
      fun k hle => complete k (by omega)⟩
    rcases Nat.eq_or_lt_of_le (begins m hm).1 with hstart | hlt
    · -- a match that begins here is not what the attempt found
      have haccepted := accepted m hm
      rw [← hstart, hresult] at haccepted
      exact absurd (congrArg Ending.verdict (Except.ok.inj haccepted)) hverdict
    · exact hlt
  · rintro ⟨begins, ends, follows, accepted, complete⟩
    refine ⟨fun m hm => ⟨by have := (begins m hm).1; omega, (begins m hm).2⟩, ends, follows,
      accepted, fun k hle hlt huncovered => ?_⟩
    rcases Nat.eq_or_lt_of_le hle with rfl | hlt'
    · exact ⟨e, hresult, hverdict⟩
    · exact complete k hlt' hlt huncovered

/-- Where the attempt at a start position accepts, a match begins there. -/
theorem Greedy.head_start {m : Span} {rest : List Span} {e : Ending}
    (h : Greedy a start (m :: rest)) (hresult : (attemptAt a start).result = .ok e)
    (hverdict : e.verdict = .accepted) (hstart : start < a.length) : m.start = start := by
  by_contra hne
  have hlt : start < m.start :=
    Nat.lt_of_le_of_ne (h.begins m List.mem_cons_self).1 (Ne.symm hne)
  -- then no match would take the start position up
  have huncovered : ∀ next ∈ m :: rest, ¬ next.Covers start := by
    intro next hnext hcovers
    rcases List.mem_cons.1 hnext with rfl | hrest
    · exact Nat.not_le_of_lt hlt hcovers.1
    · have hbefore : m.resume ≤ next.start := (List.pairwise_cons.1 h.apart).1 next hrest
      have := m.start_lt_resume
      have := hcovers.1
      omega
  obtain ⟨found, hfound, hnot⟩ := h.complete start (Nat.le_refl start) hstart huncovered
  obtain rfl : e = found := Except.ok.inj (hresult.symm.trans hfound)
  exact hnot hverdict

/-- **Where an attempt finds a match, that one comes first and the others where the
search goes on behind it.** -/
theorem Greedy.hit (hearliest : Earliest a ⟨start, stop⟩) (hstart : start < a.length) :
    Greedy a start spans ↔
      ∃ rest, spans = ⟨start, stop⟩ :: rest ∧ Greedy a (Span.resume ⟨start, stop⟩) rest := by
  have hresult : (attemptAt a start).result = .ok ⟨.accepted, .after stop⟩ := hearliest.attempt
  constructor
  · intro h
    cases spans with
    | nil =>
        obtain ⟨e, hfound, hnot⟩ := h.complete start (Nat.le_refl start) hstart (by simp)
        obtain rfl := Except.ok.inj (hresult.symm.trans hfound)
        exact absurd rfl hnot
    | cons m rest =>
        have hbegins := h.head_start hresult rfl hstart
        have haccepted := h.accepted m List.mem_cons_self
        rw [hbegins, hresult] at haccepted
        have hends : stop = m.stop :=
          Position.after.inj (congrArg Ending.position (Except.ok.inj haccepted))
        obtain rfl : m = ⟨start, stop⟩ := by rw [← hbegins, hends]
        refine ⟨rest, rfl, fun next hnext => ⟨?_, (h.begins next (.tail _ hnext)).2⟩,
          fun next hnext => h.ends next (.tail _ hnext), h.follows.of_cons,
          fun next hnext => h.accepted next (.tail _ hnext), fun k hle hlt huncovered => ?_⟩
        · exact (List.pairwise_cons.1 h.apart).1 next hnext
        · have hresume := Span.start_lt_resume ⟨start, stop⟩
          refine h.complete k (Nat.le_of_lt (Nat.lt_of_lt_of_le hresume hle)) hlt ?_
          exact List.forall_mem_cons.2 ⟨fun hcovers => Nat.not_lt.2 hle hcovers.2, huncovered⟩
  · rintro ⟨rest, rfl, h⟩
    have hresume := Span.start_lt_resume ⟨start, stop⟩
    refine ⟨List.forall_mem_cons.2 ⟨⟨Nat.le_refl start, hstart⟩, fun m hm => ⟨?_, ?_⟩⟩,
      List.forall_mem_cons.2 ⟨⟨hearliest.start_le, hearliest.stop_le⟩, h.ends⟩, ?_,
      List.forall_mem_cons.2 ⟨hresult, h.accepted⟩, fun k hle hlt huncovered => ?_⟩
    · exact Nat.le_of_lt (Nat.lt_of_lt_of_le hresume (h.begins m hm).1)
    · exact (h.begins m hm).2
    · exact List.isChain_cons.2 ⟨fun m hm => (h.begins m (List.mem_of_mem_head? hm)).1, h.follows⟩
    · obtain ⟨hfirst, hrest⟩ := List.forall_mem_cons.1 huncovered
      exact h.complete k (Nat.le_of_not_lt fun hbelow => hfirst ⟨hle, hbelow⟩) hlt hrest

/-! ## §3. The whole scan. -/

/-- **A scan brings the matches from its start on, and these are the only ones.** -/
theorem scanAll_greedy (hanswers : ∀ q, ∃ raw, a.oracle.answer q = .ok raw) (more : Nat) :
    ∀ start : Nat, a.length ≤ start + more →
      ∃ spans, (scanAll (matchAt a) a.length more start).result = .ok spans ∧
        ∀ other, Greedy a start other ↔ other = spans := by
  induction more with
  | zero => exact fun start hmore => ⟨[], rfl, fun _ => Greedy.of_le hmore⟩
  | succ more ih =>
      intro start hmore
      rw [scanAll]
      by_cases hend : a.length ≤ start
      · rw [if_pos hend]
        exact ⟨[], rfl, fun _ => Greedy.of_le hend⟩
      · rw [if_neg hend]
        have hstart : start < a.length := Nat.lt_of_not_le hend
        rcases attemptAt_cases (Nat.le_of_lt hstart) hanswers with
          ⟨stop, hearliest⟩ | ⟨_, e, hresult, hverdict⟩
        · -- a match, and the scan goes on where it resumes
          obtain ⟨rest, hrest, hgreedy⟩ := ih (Span.resume ⟨start, stop⟩)
            (by have := Span.start_lt_resume ⟨start, stop⟩; dsimp only at this; omega)
          refine ⟨⟨start, stop⟩ :: rest, ?_, fun other => ?_⟩
          · rw [Report.result_bind (matchAt_of_attemptAt hearliest.attempt)]
            exact Report.result_bind hrest _
          · rw [Greedy.hit hearliest hstart]
            simp only [hgreedy, exists_eq_right]
        · -- nothing here, and the scan goes on one position later
          obtain ⟨spans, hspans, hgreedy⟩ := ih (start + 1) (by omega)
          refine ⟨spans, ?_, fun other => (Greedy.pass hresult hverdict).trans (hgreedy other)⟩
          rw [Report.result_bind (matchAt_of_attemptAt hresult), spanOf_of_ne_accepted hverdict]
          exact hspans

end Search

/-! ## §4. All matches. -/

/-- **All matches are the greedy ones.**  With an oracle that answers every query
the search returns, if its arguments are sound.  The spans begin inside the input,
each one where the search can go on behind the one before it or later, so no two of
them overlap; each is what the attempt at its start finds; and at no position that
they leave free an attempt accepts.  Only the list returned is like that.  With
unsound arguments it returns for an empty input only, and finds nothing there. -/
theorem all_matches_greedy (input : Input) (oracle : Oracle) (maxCycles : Value)
    (hanswers : ∀ q, ∃ raw, oracle.answer q = .ok raw) :
    match Attempt.ofInput input oracle maxCycles with
    | .ok a => ∃ spans, (findAll input oracle maxCycles).result = .ok spans ∧
        spans.Pairwise Span.Before ∧ ∀ other, Search.Greedy a 0 other ↔ other = spans
    | .error _ => ∀ spans, (findAll input oracle maxCycles).result = .ok spans →
        input.Empty ∧ spans = [] := by
  cases hmade : Attempt.ofInput input oracle maxCycles with
  | ok a =>
      obtain ⟨⟨symbols, hsymbols, hinput⟩, htry⟩ := Search.tryAt_of_ofInput hmade
      have hlength : symbols.length = a.length := congrArg Array.size hinput
      rw [findAll_eq oracle maxCycles hsymbols, hinput, htry, hlength]
      rw [← (Attempt.of_ofInput hmade).1] at hanswers
      obtain ⟨spans, hresult, hgreedy⟩ := Search.scanAll_greedy hanswers a.length 0 (by omega)
      exact ⟨spans, hresult, ((hgreedy spans).2 rfl).apart, hgreedy⟩
  | error e =>
      intro spans hresult
      -- it would refuse any other input
      have hempty : input.Empty := by
        by_contra hempty
        have hrefused := ((findAll_raises input oracle maxCycles).raised_iff e).2 ⟨hempty, hmade⟩
        exact absurd (hrefused.symm.trans hresult) (by simp)
      rw [findAll_eq oracle maxCycles (Input.empty_iff.1 hempty)] at hresult
      exact ⟨hempty, (Except.ok.inj hresult).symm⟩

/-- An oracle that matches the empty word before one symbol, another symbol, and
goes round at every other one. -/
def patchy : Oracle where
  sentinels := Sentinels.toValue ⟨0, 1, 2, none, none⟩
  answer := fun q => .ok (Transition.toValue
    (if q.window.first = some (97 : Nat) then ⟨1, none, false⟩
      else if q.window.first = some (98 : Nat) then ⟨1, none, true⟩
      else ⟨3, none, false⟩))

/-- An empty match, one of a symbol, and a position given up. -/
theorem all_matches_greedy_patchy :
    (∀ q, ∃ raw, patchy.answer q = .ok raw) ∧
      ∃ a, Attempt.ofInput (.text "abc") patchy (.number (1 : Nat)) = .ok a ∧
        Search.Greedy a 0 [⟨0, 0⟩, ⟨1, 2⟩] ∧
        (findAll (.text "abc") patchy (.number (1 : Nat))).result = .ok [⟨0, 0⟩, ⟨1, 2⟩] := by
  have hanswers : ∀ q, ∃ raw, patchy.answer q = .ok raw := fun _ => ⟨_, rfl⟩
  have hmade : Attempt.ofInput (.text "abc") patchy (.number (1 : Nat)) =
      .ok ⟨#[97, 98, 99], patchy, ⟨0, 1, 2, 0, Number.maxSafe⟩, .atMost 1⟩ := by rfl
  have hall : (findAll (.text "abc") patchy (.number (1 : Nat))).result =
      .ok [⟨0, 0⟩, ⟨1, 2⟩] := by rfl
  have hgreedy := all_matches_greedy (.text "abc") patchy (.number (1 : Nat)) hanswers
  rw [hmade] at hgreedy
  obtain ⟨spans, hresult, _, hunique⟩ := hgreedy
  obtain rfl : [⟨0, 0⟩, ⟨1, 2⟩] = spans := Except.ok.inj (hall.symm.trans hresult)
  exact ⟨hanswers, _, hmade, (hunique _).2 rfl, hall⟩

end OracleNFA
