/-
  OracleNFA.Proofs.LargerBudget
  ─────────────────────────────
  **A LARGER BUDGET LOSES NO MATCH.**

  A search gives every start position a budget of its own, so under two limits its
  attempts differ, and with them the positions it stops at.  What an attempt comes to
  without spending its budget it also comes to under a larger one, because both are
  cut from one course:

      attemptAt_larger — one attempt
      matchAt_larger   — so a match at a start position stays what it is
      scan_earlier     — and a scan that keeps the matches of another one stops no later

  A larger budget can only find a match before the old one, at a position where the
  smaller one gave up.
-/
import OracleNFA.Proofs.Configuration
import OracleNFA.Proofs.Discipline
import OracleNFA.Proofs.Threshold

namespace OracleNFA

namespace Search

variable {a : Attempt} {b c : Budget} {start : Nat} {m : Span}

/-! ## §1. One start position. -/

/-- The attempt at a start position is cut from one course, whatever the budget. -/
theorem attemptAt_cut (hstart : start ≤ a.length) (b : Budget) :
    ∃ r i,
      Attempt.Cut (a.course (Exploration.simulate a.ids a.length (.after start) false) .start) r i ∧
      (a.within b).Grants i ∧ (i.refused.isSome = true ↔ ∃ p, r = .ok ⟨.exhausted, p⟩) ∧
      (attemptAt (a.within b) start).result =
        match r with
        | .ok e => .ok e
        | .error e => .error (.query e) := by
  obtain ⟨r, i, ⟨hcut, hexplored⟩, hgrants, _, hresult⟩ :=
    (a.within b).report_ensures _ (fun e _ => e)
    ((a.within b).ensures_and _ _ (Attempt.ensures_cut _ .start rfl)
      (Attempt.ensures_simulate false hstart))
  refine ⟨r, i, ?_, hgrants, hcut.refused_iff hexplored, ?_⟩
  · rw [← Attempt.course_within b]
    exact hcut
  · cases r with
    | ok e =>
        obtain ⟨_, _, hresult⟩ := hresult
        exact hresult
    | error e => exact hresult

/-- **What an attempt comes to without giving up**, it comes to under a larger budget. -/
theorem attemptAt_larger (hstart : start ≤ a.length) (hle : b ≤ c) {e : Ending}
    (he : e.verdict ≠ .exhausted) (h : (attemptAt (a.within b) start).result = .ok e) :
    (attemptAt (a.within c) start).result = .ok e := by
  obtain ⟨r, i, hcut, hgrants, hspent, hresult⟩ := attemptAt_cut hstart b
  obtain ⟨r', i', hcut', hgrants', _, hresult'⟩ := attemptAt_cut hstart c
  have hr : r = .ok e := by
    rw [h] at hresult
    cases r with
    | ok v => exact congrArg Except.ok (Except.ok.inj hresult).symm
    | error v => exact nomatch hresult
  have hnone : i.refused = none := by
    by_contra hsome
    obtain ⟨p, hp⟩ := hspent.1 (Option.isSome_iff_ne_none.2 hsome)
    obtain rfl := Except.ok.inj (hr.symm.trans hp)
    exact he rfl
  -- The smaller budget lasted for the course, so the larger one does.
  have hnone' : i'.refused = none :=
    (hcut'.granted_iff hgrants').2 (((hcut.granted_iff hgrants).1 hnone).mono hle)
  obtain ⟨rfl, _⟩ := Prod.mk.inj ((hcut'.eq_whole hnone').trans (hcut.eq_whole hnone).symm)
  rw [hresult', hr]

theorem spanOf_eq_some {e : Ending} (h : spanOf start e = some m) :
    e.verdict = .accepted ∧ m.start = start := by
  unfold spanOf at h
  split at h
  · next haccepted =>
      obtain rfl := Option.some.inj h
      exact ⟨haccepted, rfl⟩
  · exact nomatch h
  · exact nomatch h

/-- A match at a start position is what the attempt there accepted. -/
theorem matchAt_eq_some : (matchAt a start).result = .ok (some m) ↔
    ∃ e, (attemptAt a start).result = .ok e ∧ spanOf start e = some m := by
  rw [(matchAt_eq a start).2]
  cases (attemptAt a start).result with
  | error e => simp [Except.map]
  | ok e => simp [Except.map]

theorem start_of_matchAt (h : (matchAt a start).result = .ok (some m)) : m.start = start := by
  obtain ⟨e, _, hspan⟩ := matchAt_eq_some.1 h
  exact (spanOf_eq_some hspan).2

/-- **A match at a start position** stays what it is under a larger budget. -/
theorem matchAt_larger (hstart : start ≤ a.length) (hle : b ≤ c)
    (h : (matchAt (a.within b) start).result = .ok (some m)) :
    (matchAt (a.within c) start).result = .ok (some m) := by
  obtain ⟨e, hresult, hspan⟩ := matchAt_eq_some.1 h
  have haccepted := (spanOf_eq_some hspan).1
  exact matchAt_eq_some.2 ⟨e, attemptAt_larger hstart hle (by simp [haccepted]) hresult, hspan⟩

/-! ## §2. Scanning. -/

variable {find find' : Nat → Report (Option Span)} {stop : Nat}

/-- **A scan that keeps the matches of another one** finds the same match, or one that
begins before it. -/
theorem scan_earlier (hstart : ∀ k m, (find k).result = .ok (some m) → m.start = k)
    (hstart' : ∀ k m, (find' k).result = .ok (some m) → m.start = k)
    (hreturns : ∀ k < stop, ∃ found, (find' k).result = .ok found)
    (hkeeps : ∀ k < stop, ∀ m, (find k).result = .ok (some m) → (find' k).result = .ok (some m))
    (more : Nat) : ∀ start : Nat, start + more = stop →
      (scan find more start).result = .ok (some m) →
      ∃ m', (scan find' more start).result = .ok (some m') ∧ (m' = m ∨ m'.start < m.start) := by
  induction more with
  | zero => exact fun start _ h => nomatch h
  | succ more ih =>
      intro start hmore h
      rcases scan_eq_some.1 h with hfound | ⟨_, hrest⟩
      · exact ⟨m, scan_eq_some.2 (.inl (hkeeps start (by omega) m hfound)), .inl rfl⟩
      · obtain ⟨found', hfound'⟩ := hreturns start (by omega)
        cases found' with
        | none =>
            obtain ⟨m', hm', hearlier⟩ := ih (start + 1) (by omega) hrest
            exact ⟨m', scan_eq_some.2 (.inr ⟨hfound', hm'⟩), hearlier⟩
        | some m' =>
            -- The scan stops here, and the other one found its match further on.
            obtain ⟨k, hk, _, hmatch⟩ := exists_of_scan _ _ hrest
            have hhere := hstart' start m' hfound'
            have hthere := hstart k m hmatch
            exact ⟨m', scan_eq_some.2 (.inl hfound'), .inr (by omega)⟩

end Search

/-! ## §3. The first match. -/

variable {input : Input} {oracle : Oracle} {small large : Value} {b c : Budget} {m : Span}

/-- A search that returns made its attempts. -/
theorem ofInput_of_findFirst {maxCycles : Value} {found : Option Span}
    (h : (findFirst input oracle maxCycles).result = .ok found) :
    ∃ a, Attempt.ofInput input oracle maxCycles = .ok a := by
  cases ha : Attempt.ofInput input oracle maxCycles with
  | ok a => exact ⟨a, rfl⟩
  | error e =>
      have hrefused := ((findFirst_raises input oracle maxCycles).raised_iff e).2 ha
      exact nomatch h.symm.trans hrefused

/-- **Raising the budget never loses a match.**  Take an oracle that answers every query
and two limits.  If the search finds a match under the lower one, it finds one under the
higher one that begins no later, and if it begins at the same position, it is the same
match. -/
theorem larger_budget_keeps_match (hb : Budget.ofValue small = .ok b)
    (hc : Budget.ofValue large = .ok c) (hle : b ≤ c)
    (hanswers : ∀ q, ∃ raw, oracle.answer q = .ok raw)
    (h : (findFirst input oracle small).result = .ok (some m)) :
    ∃ m', (findFirst input oracle large).result = .ok (some m') ∧ m'.start ≤ m.start ∧
      (m'.start = m.start → m'.stop = m.stop) := by
  obtain ⟨a₀, hsmall⟩ := ofInput_of_findFirst h
  have hwithin := Attempt.ofInput_within input oracle hb hc
  cases hlarge : Attempt.ofInput input oracle large with
  | error e =>
      rw [hlarge, hsmall] at hwithin
      exact nomatch hwithin
  | ok a =>
      rw [hlarge] at hwithin
      have hown : a.within c = a := Attempt.within_of_ofInput hc hlarge
      rw [findFirst_of_ofInput hwithin] at h
      rw [← (Attempt.of_ofInput hlarge).1] at hanswers
      have hreturns : ∀ k < a.length + 1, ∃ found, (Search.matchAt a k).result = .ok found := by
        intro k hk
        obtain ⟨found, hfound, _⟩ := Search.matchAt_answered (Nat.le_of_lt_succ hk) hanswers
        exact ⟨found, hfound⟩
      have hkeeps : ∀ k < a.length + 1, ∀ m, (Search.matchAt (a.within b) k).result = .ok (some m) →
          (Search.matchAt a k).result = .ok (some m) := by
        intro k hk m hm
        rw [← hown]
        exact Search.matchAt_larger (Nat.le_of_lt_succ hk) hle hm
      obtain ⟨m', hm', hearlier⟩ := Search.scan_earlier (fun k m => Search.start_of_matchAt)
        (fun k m => Search.start_of_matchAt) hreturns hkeeps (a.length + 1) 0 (Nat.zero_add _) h
      rw [findFirst_of_ofInput hlarge]
      refine ⟨m', hm', ?_⟩
      rcases hearlier with rfl | hlt
      · exact ⟨Nat.le_refl _, fun _ => rfl⟩
      · exact ⟨Nat.le_of_lt hlt, fun heq => absurd heq (Nat.ne_of_lt hlt)⟩

/-- An oracle that accepts one symbol, but at every other one than `b` only after going
to a second state. -/
def hesitant : Oracle where
  sentinels := Sentinels.toValue ⟨0, 1, 2, none, none⟩
  answer := fun q => .ok <| Transition.toValue <|
    if q.state = (3 : Nat) ∨ q.window.first = some (98 : Nat) then ⟨1, none, true⟩
    else ⟨3, none, false⟩

/-- One query more finds a match that begins earlier. -/
theorem larger_budget_keeps_match_hesitant :
    Budget.ofValue (.number (1 : Nat)) = .ok (.atMost 1) ∧
      Budget.ofValue (.number (2 : Nat)) = .ok (.atMost 2) ∧ Budget.atMost 1 ≤ Budget.atMost 2 ∧
      (∀ q, ∃ raw, hesitant.answer q = .ok raw) ∧
      (findFirst (.text "ab") hesitant (.number (1 : Nat))).result = .ok (some ⟨1, 2⟩) ∧
      ∃ m, (findFirst (.text "ab") hesitant (.number (2 : Nat))).result = .ok (some m) ∧
        m.start ≤ 1 ∧ m = ⟨0, 1⟩ := by
  have hsmall : Budget.ofValue (.number (1 : Nat)) = .ok (.atMost 1) := by rfl
  have hlarge : Budget.ofValue (.number (2 : Nat)) = .ok (.atMost 2) := by rfl
  have hle : Budget.atMost 1 ≤ Budget.atMost 2 := by
    intro n hn
    obtain rfl : 2 = n := Option.some.inj hn
    exact ⟨1, by decide, rfl⟩
  have hanswers : ∀ q, ∃ raw, hesitant.answer q = .ok raw := fun _ => ⟨_, rfl⟩
  have hfound :
      (findFirst (.text "ab") hesitant (.number (1 : Nat))).result = .ok (some ⟨1, 2⟩) := by
    rfl
  obtain ⟨m, hm, hstart, _⟩ := larger_budget_keeps_match hsmall hlarge hle hanswers hfound
  refine ⟨hsmall, hlarge, hle, hanswers, hfound, m, hm, hstart, ?_⟩
  exact (Option.some.inj (Except.ok.inj hm)).symm

end OracleNFA
