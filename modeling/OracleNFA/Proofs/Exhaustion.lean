/-
  OracleNFA.Proofs.Exhaustion
  ───────────────────────────
  **A BUDGET IS SPENT ONLY WHERE THERE IS MORE TO ASK.**

  A question is refused once as many were granted as the limit is, and it is about
  a site that none of these was about.  So an exploration that gives up has more
  sites before it than its limit:

      length_asked_lt            — more than the limit are reached
      length_touched_le_of_range — a declared largest state `m` leaves `m - 1` of
                                   them at each position, since the accepting and
                                   the dead state are never asked about

  A budget that lasts for all of them is never spent, whatever circles the oracle
  leads through.
-/
import Mathlib.Data.Finset.Prod
import Mathlib.Order.Interval.Finset.Nat
import OracleNFA.Proofs.Discipline
import OracleNFA.Proofs.Threshold

namespace OracleNFA

/-! ## §1. The states of a declared range. -/

/-- The states up to the largest one, but for the accepting and the dead one. -/
def Numbering.living (ids : Numbering) : Finset Nat :=
  ((Finset.range (ids.maxStateId + 1)).erase ids.accept).erase ids.reject

theorem Numbering.mem_living {ids : Numbering} {k : Nat} :
    k ∈ ids.living ↔ k ≠ ids.reject ∧ k ≠ ids.accept ∧ k ≤ ids.maxStateId := by
  unfold living
  rw [Finset.mem_erase, Finset.mem_erase, Finset.mem_range, Nat.lt_succ_iff]

namespace Sentinels

variable {s : Sentinels Nat} {m : Nat}

theorem maxStateId_resolve (hm : s.maxStateId = some m) : s.resolve.maxStateId = m := by
  unfold resolve
  rw [hm]
  rfl

/-- A declared largest state leaves all the states up to it but two. -/
theorem card_living (hs : s.Sound) (hm : s.maxStateId = some m) :
    s.resolve.living.card = m - 1 := by
  have haccept : s.accept ∈ Finset.range (m + 1) :=
    Finset.mem_range_succ_iff.2 (hs.inRange m hm s.accept (by simp [reserved]))
  have hreject : s.reject ∈ (Finset.range (m + 1)).erase s.accept :=
    Finset.mem_erase.2 ⟨hs.accept_ne_reject.symm,
      Finset.mem_range_succ_iff.2 (hs.inRange m hm s.reject (by simp [reserved]))⟩
  show ((Finset.range (s.resolve.maxStateId + 1)).erase s.accept |>.erase s.reject).card = m - 1
  rw [maxStateId_resolve hm, Finset.card_erase_of_mem hreject, Finset.card_erase_of_mem haccept,
    Finset.card_range]
  rfl

end Sentinels

/-! ## §2. The sites of a declared range. -/

namespace Attempt

variable {a : Attempt} {start : Nat} {i : Inquiry}

/-- The sites from a start position on whose states are in the declared range. -/
def room (a : Attempt) (start : Nat) : Finset Site :=
  (Finset.Icc start a.length ×ˢ a.ids.living).image fun p => ⟨.after p.1, .ofNat p.2⟩

theorem card_room_le (a : Attempt) (start : Nat) :
    (a.room start).card ≤ (a.length + 1 - start) * a.ids.living.card := by
  refine Finset.card_image_le.trans (le_of_eq ?_)
  rw [Finset.card_product, Nat.card_Icc]

/-- A site to ask about has its state in the range if the start has. -/
theorem Askable.mem_room {u : Site} (h : a.Askable start u)
    (hrange : a.ids.start ≤ a.ids.maxStateId) :
    u ∈ a.room start := by
  have hstate : ∃ k ≤ a.ids.maxStateId, u.state = Number.ofNat k := by
    rcases h.declared with hs | ⟨k, hk, _, hs⟩
    · exact ⟨a.ids.start, hrange, hs⟩
    · exact ⟨k, hk, hs⟩
  obtain ⟨k, hk, hs⟩ := hstate
  obtain ⟨n, hpos, hle, hn⟩ := h.inside
  have hreject : k ≠ a.ids.reject := fun heq => h.ne_reject (heq ▸ hs)
  have haccept : k ≠ a.ids.accept := fun heq => h.ne_accept (heq ▸ hs)
  refine Finset.mem_image.2 ⟨(n, k), ?_, ?_⟩
  · exact Finset.mem_product.2 ⟨Finset.mem_Icc.2 ⟨hle, hn⟩,
      Numbering.mem_living.2 ⟨hreject, haccept, hk⟩⟩
  · show (⟨.after n, .ofNat k⟩ : Site) = u
    rw [← hpos, ← hs]

/-- **The questions raised are no more than there are sites in the range.** -/
theorem Orderly.length_touched_le_of_range {s : Sentinels Nat} {m : Nat}
    (h : a.Orderly (a.entry start) i) (hstart : start ≤ a.length) (hs : s.Sound)
    (hids : s.resolve = a.ids) (hm : s.maxStateId = some m) :
    i.touched.length ≤ (m - 1) * (a.length - start + 1) := by
  have halive : a.ids.start ≠ a.ids.reject := hids ▸ hs.start_ne_reject
  have hrange : a.ids.start ≤ a.ids.maxStateId := by
    rw [← hids, Sentinels.maxStateId_resolve hm]
    exact hs.inRange m hm s.start (by simp [Sentinels.reserved])
  have hsub : i.touched.toFinset ⊆ a.room start := by
    intro u hu
    obtain ⟨hreached, hlive⟩ := h.reached u (List.mem_toFinset.1 hu)
    exact (hreached.askable hstart halive hlive).mem_room hrange
  calc i.touched.length
      = i.touched.toFinset.card := (List.toFinset_card_of_nodup h.nodup).symm
    _ ≤ (a.room start).card := Finset.card_le_card hsub
    _ ≤ (a.length + 1 - start) * a.ids.living.card := a.card_room_le start
    _ = (m - 1) * (a.length - start + 1) := by
        rw [← hids, Sentinels.card_living hs hm, Nat.mul_comm, Nat.sub_add_comm hstart]

/-! ## §3. Budgets that last. -/

variable {e : Ending} {root : Site} {anchored : Bool} {q : Nat}

/-- **A budget that lasts for every question raised is never spent.** -/
theorem Explored.decided (h : a.Explored root anchored (.ok e) i) (hg : a.Grants i)
    (hle : i.touched.length ≤ q) (hcovers : a.budget.Covers q) :
    e.verdict ≠ .exhausted ∧ i.asked.length ≤ q := by
  refine ⟨fun he => ?_, ?_⟩
  · -- The refused question is one more than the limit.
    have hrefused := h.of_exhausted he
    have hlimit := hcovers _ (hg.spent hrefused)
    rw [length_touched_of_refused hrefused] at hle
    omega
  · unfold Inquiry.touched at hle
    rw [List.length_append] at hle
    omega

end Attempt

/-! ## §4. Runs and attempts. -/

variable {input : Input} {oracle : Oracle} {maxCycles : Value} {a : Attempt}

/-- **A spent budget means more sites to ask about than it lasted for.**  A run of
either strategy that spends its budget leaves more sites reached than the limit,
none of them accepting.  So where a largest state is declared, a budget that lasts
for the states but two at every position decides the input, and one that lasts for
those from a start position on is never spent by the attempt there. -/
theorem exhausted_means_more_work (h : Attempt.ofInput input oracle maxCycles = .ok a)
    (hanswers : ∀ q, ∃ raw, oracle.answer q = .ok raw) :
    (∀ (strategy : Strategy) (o : Outcome),
      (runStrategy strategy input oracle maxCycles).result = .ok o → o.verdict = .exhausted →
        ∃ limit, a.budget.limit? = some limit ∧ a.workload.Finite ∧ limit < a.workload.ncard) ∧
    ∀ s m, Sentinels.ofValue oracle.sentinels = .ok s → s.maxStateId = some m →
      (a.budget.Covers ((m - 1) * (a.length + 1)) → ∀ strategy : Strategy, ∃ o,
        (runStrategy strategy input oracle maxCycles).result = .ok o ∧
          (o.verdict = .accepted ∨ o.verdict = .rejected) ∧
          o.queries ≤ (m - 1) * (a.length + 1)) ∧
      ∀ start ≤ a.length, a.budget.Covers ((m - 1) * (a.length - start + 1)) → ∃ e,
        (Search.attemptAt a start).result = .ok e ∧ e.verdict ≠ .exhausted ∧
          (Search.tryAt a.input oracle maxCycles start).result = .ok (Search.spanOf start e) := by
  obtain ⟨horacle, hids⟩ := Attempt.of_ofInput h
  have hdistinct := start_ne_accept h
  refine ⟨fun strategy o ho he => ?_, fun s m hs hm => ?_⟩
  · obtain ⟨b, e, i, hb, hexplored, hgrants, rfl⟩ := explored_of_returned ho
    obtain rfl : a = b := Except.ok.inj (h.symm.trans hb)
    have hrefused := hexplored.of_exhausted he
    exact ⟨_, hgrants.spent hrefused, a.finite_workload, hexplored.1.length_asked_lt hrefused⟩
  · obtain ⟨t, ht, hresolve⟩ := Numbering.ofValue_eq_ok.1 hids
    obtain rfl : s = t := Except.ok.inj (hs.symm.trans ht)
    obtain ⟨_, _, _, hsound⟩ := Sentinels.ofValue_eq_ok.1 hs
    rw [← horacle] at hanswers
    refine ⟨fun hcovers strategy => ?_, fun start hstart hcovers => ?_⟩
    · obtain ⟨e, i, hexplored, hgrants, _, hresult⟩ :=
        Attempt.evaluate_answered hdistinct hanswers strategy
      obtain ⟨hdecided, hcount⟩ := hexplored.decided hgrants
        (hexplored.1.length_touched_le_of_range (Nat.zero_le _) hsound hresolve hm) hcovers
      refine ⟨a.outcomeOf e i, ?_, ?_, hcount⟩
      · rw [runStrategy_eq, h]
        exact hresult
      · show e.verdict = .accepted ∨ e.verdict = .rejected
        cases hverdict : e.verdict with
        | accepted => exact .inl rfl
        | rejected => exact .inr rfl
        | exhausted => exact absurd hverdict hdecided
    · obtain ⟨e, i, hexplored, hgrants, _, hresult⟩ := Search.attemptAt_answered hstart hanswers
      obtain ⟨hdecided, _⟩ := hexplored.decided hgrants
        (hexplored.1.length_touched_le_of_range hstart hsound hresolve hm) hcovers
      refine ⟨e, hresult, hdecided, ?_⟩
      rw [(Search.tryAt_of_ofInput h).2]
      exact Search.matchAt_of_attemptAt hresult

/-- An oracle of four states that goes round between two of them without reading a
symbol. -/
def confined : Oracle where
  sentinels := Sentinels.toValue ⟨0, 1, 2, none, some 3⟩
  answer := fun _ => .ok (Transition.toValue ⟨0, some 3, false⟩)

theorem exhausted_means_more_work_confined :
    (∀ q, ∃ raw, confined.answer q = .ok raw) ∧
      (∃ a, Attempt.ofInput (.text "a") confined (.number (1 : Nat)) = .ok a ∧
        (runPath (.text "a") confined (.number (1 : Nat))).result =
          .ok ⟨.exhausted, 1, .after 0, [.budgetSpent (.after 0) (.atMost 1)]⟩ ∧
        1 < a.workload.ncard) ∧
      ∃ a, Attempt.ofInput (.text "a") confined (.number (4 : Nat)) = .ok a ∧
        a.budget.Covers ((3 - 1) * (a.length + 1)) ∧
        (∃ o, (runFrontier (.text "a") confined (.number (4 : Nat))).result = .ok o ∧
          (o.verdict = .accepted ∨ o.verdict = .rejected) ∧ o.queries ≤ 4) ∧
        ∃ e, (Search.attemptAt a 1).result = .ok e ∧ e.verdict ≠ .exhausted := by
  have hanswers : ∀ q, ∃ raw, confined.answer q = .ok raw := fun _ => ⟨_, rfl⟩
  have hsmall : Attempt.ofInput (.text "a") confined (.number (1 : Nat)) =
      .ok ⟨#[97], confined, ⟨0, 1, 2, 0, 3⟩, .atMost 1⟩ := by rfl
  have hlarge : Attempt.ofInput (.text "a") confined (.number (4 : Nat)) =
      .ok ⟨#[97], confined, ⟨0, 1, 2, 0, 3⟩, .atMost 4⟩ := by rfl
  have hspent : (runPath (.text "a") confined (.number (1 : Nat))).result =
      .ok ⟨.exhausted, 1, .after 0, [.budgetSpent (.after 0) (.atMost 1)]⟩ := by rfl
  have hsentinels : Sentinels.ofValue confined.sentinels = .ok ⟨0, 1, 2, none, some 3⟩ := by rfl
  have hcovers : (Budget.atMost 4).Covers 4 := fun n hn => le_of_eq (Option.some.inj hn)
  obtain ⟨hmore, _⟩ := exhausted_means_more_work hsmall hanswers
  obtain ⟨limit, hlimit, _, hlt⟩ := hmore .path _ hspent rfl
  obtain rfl : 1 = limit := Option.some.inj hlimit
  obtain ⟨_, hdecided⟩ := exhausted_means_more_work hlarge hanswers
  obtain ⟨hruns, hattempts⟩ := hdecided _ 3 hsentinels rfl
  obtain ⟨e, he, hne, _⟩ := hattempts 1 (Nat.le_refl 1) fun n hn =>
    Nat.le_trans (by decide) (hcovers n hn)
  exact ⟨hanswers, ⟨_, hsmall, hspent, hlt⟩, _, hlarge, hcovers, hruns hcovers .frontier, e, he,
    hne⟩

end OracleNFA
