/-
  OracleNFA.Proofs.EndOfInput
  ───────────────────────────
  **WHEN A RULE TABLE TAKES THE INPUT TO HAVE ENDED.**

  A query says that the input has ended by showing the end-of-input symbol with
  nothing behind it.  A table reads just that, and so it cannot tell the end
  from a last symbol that is the end-of-input symbol itself:

      SeemsEnded     — the end, or such a last symbol
      applies_iff    — a rule applies as its guards say of the input, with
                       "seems ended" for "has ended"

  Everywhere else a symbol is taken for what it is.
-/
import OracleNFA.Proofs.Validation
import OracleNFA.Table.Compiled

namespace OracleNFA

/-! ## §1. What a query shows. -/

section Window

variable {input : Array Symbol} {p : Nat} {e : Option Number}

theorem window_at_end (h : input.size ≤ p) :
    window input (.after p) e = ⟨e, some (.ofNat 0), false⟩ := by
  have hnone : input[p]? = none := Array.getElem?_eq_none h
  show Window.ofNext e input[p]? input[p + 1]? = _
  rw [hnone]
  rfl

theorem window_at_last {c : Symbol} (hc : input[p]? = some c) (h : p + 1 = input.size) :
    window input (.after p) e = ⟨some (.ofNat c), some (.ofNat 0), false⟩ := by
  have hnone : input[p + 1]? = none := Array.getElem?_eq_none (Nat.le_of_eq h.symm)
  show Window.ofNext e input[p]? input[p + 1]? = _
  rw [hc, hnone]
  rfl

theorem window_inside {c c' : Symbol} (hc : input[p]? = some c) (hc' : input[p + 1]? = some c') :
    window input (.after p) e = ⟨some (.ofNat c), some (.ofNat c'), true⟩ := by
  show Window.ofNext e input[p]? input[p + 1]? = _
  rw [hc, hc']
  rfl

/-- Where a query can stand: at the end, at the last symbol, or before it. -/
theorem window_cases (input : Array Symbol) (p : Nat) :
    input.size ≤ p ∨ (∃ c, input[p]? = some c ∧ p + 1 = input.size) ∨
      ∃ c c', input[p]? = some c ∧ input[p + 1]? = some c' := by
  by_cases hlt : p < input.size
  · have hc : input[p]? = some input[p] := Array.getElem?_eq_getElem hlt
    by_cases hlast : p + 1 = input.size
    · exact .inr (.inl ⟨_, hc, hlast⟩)
    · have hlt' : p + 1 < input.size := by omega
      exact .inr (.inr ⟨_, _, hc, Array.getElem?_eq_getElem hlt'⟩)
  · exact .inl (Nat.not_lt.1 hlt)

end Window

@[simp] theorem isAmong_ofNat (symbols : List Symbol) (c : Symbol) :
    isAmong symbols (some (.ofNat c)) = symbols.contains c := by
  simp [isAmong]

/-! ## §2. The end as a table sees it. -/

/-- The input has ended, or its last symbol is there and is the end-of-input
symbol. -/
def SeemsEnded (endOfInput : Symbol) (input : Array Symbol) (p : Nat) : Prop :=
  p = input.size ∨ p + 1 = input.size ∧ input[p]? = some endOfInput

instance (endOfInput : Symbol) (input : Array Symbol) (p : Nat) :
    Decidable (SeemsEnded endOfInput input p) :=
  inferInstanceAs (Decidable (_ ∨ _))

section SeemsEnded

variable {t : Table} {input : Array Symbol} {p : Nat}

/-- **A table takes the input to have ended exactly where it seems to.** -/
theorem Table.atEnd_iff (hp : p ≤ input.size) :
    t.atEnd (window input (.after p) (some (t.endOfInput : Number))) = true ↔
      SeemsEnded t.endOfInput input p := by
  unfold Table.atEnd SeemsEnded
  rcases window_cases input p with hend | ⟨c, hc, hlast⟩ | ⟨c, c', hc, hc'⟩
  · rw [window_at_end hend]
    simp [Nat.le_antisymm hp hend]
  · have hne : p ≠ input.size := by omega
    simp [window_at_last hc hlast, hc, hlast, hne]
  · have hlt : p + 1 < input.size := (Array.getElem?_eq_some_iff.1 hc').1
    have hne : p ≠ input.size ∧ p + 1 ≠ input.size := by omega
    simp [window_inside hc hc', hne]

/-- Where the input seems to have ended, a query shows what it shows at the end. -/
theorem SeemsEnded.window_eq (h : SeemsEnded t.endOfInput input p) :
    window input (.after p) (some (t.endOfInput : Number)) =
      window input (.after input.size) (some (t.endOfInput : Number)) := by
  rw [window_at_end (Nat.le_refl _)]
  rcases h with rfl | ⟨hlast, hc⟩
  · exact window_at_end (Nat.le_refl _)
  · exact window_at_last hc hlast

end SeemsEnded

/-! ## §3. Guards. -/

theorem guardHolds_iff {α : Type} {holds : α → Bool} {guard : Option α} :
    guardHolds holds guard = true ↔ ∀ g, guard = some g → holds g = true := by
  cases guard <;> simp [guardHolds]

theorem guardHolds_map_iff {α β : Type} {holds : β → Bool} {f : α → β} {guard : Option α} :
    guardHolds holds (guard.map f) = true ↔ ∀ g, guard = some g → holds (f g) = true := by
  cases guard <;> simp [guardHolds]

section Guards

variable {input : Array Symbol} {p : Nat} {e : Symbol} {symbols : List Symbol}

/-- A window shows a second symbol where the input has one more. -/
theorem second_isAmong :
    (window input (.after p) (some (e : Number))).hasSecond = true ∧
        isAmong symbols (window input (.after p) (some (e : Number))).second = true ↔
      ∃ c, input[p + 1]? = some c ∧ c ∈ symbols := by
  rcases window_cases input p with hend | ⟨c, hc, hlast⟩ | ⟨c, c', hc, hc'⟩
  · have hnone : input[p + 1]? = none := Array.getElem?_eq_none (by omega)
    simp [window_at_end hend, hnone]
  · have hnone : input[p + 1]? = none := Array.getElem?_eq_none (by omega)
    simp [window_at_last hc hlast, hnone]
  · simp [window_inside hc hc', hc']

/-- A window before the end shows the symbol there. -/
theorem first_isAmong {c : Symbol} (hc : input[p]? = some c) :
    isAmong symbols (window input (.after p) (some (e : Number))).first = true ↔ c ∈ symbols := by
  rcases window_cases input p with hend | ⟨d, hd, hlast⟩ | ⟨d, d', hd, hd'⟩
  · rw [Array.getElem?_eq_none hend] at hc
    exact absurd hc (by simp)
  · obtain rfl : c = d := Option.some.inj (hc.symm.trans hd)
    simp [window_at_last hd hlast]
  · obtain rfl : c = d := Option.some.inj (hc.symm.trans hd)
    simp [window_inside hd hd']

end Guards

namespace Rule

/-- A rule applies when each of its guards holds of what is shown. -/
theorem applies_compile_iff (r : Rule Nat) (w : Window) (ended : Bool) :
    r.compile.applies w ended = true ↔
      (∀ b, r.atEnd = some b → b = ended) ∧
      (∀ on, r.on = some on → ended = false ∧ isAmong on.codePoints w.first = true) ∧
      (∀ notOn, r.notOn = some notOn → ended = false ∧ ¬ isAmong notOn.codePoints w.first = true) ∧
      (∀ t, r.lookahead = some t → w.hasSecond = true ∧ isAmong t.codePoints w.second = true) ∧
      (∀ t, r.notLookahead = some t →
        ¬ (w.hasSecond = true ∧ isAmong t.codePoints w.second = true)) := by
  -- Keeps a refuted guard as a negation that a lemma about the guard rewrites.
  have negated : ∀ b : Bool, (!b) = true ↔ ¬ b = true := by decide
  unfold GuardedTransition.applies compile
  simp only [Bool.and_eq_true, guardHolds_map_iff, negated, and_assoc]
  rw [guardHolds_iff]
  simp only [beq_iff_eq, Bool.not_eq_true]

/-- What the lookahead guards of a rule say of the input. -/
structure LooksAhead (r : Rule Nat) (input : Array Symbol) (p : Nat) : Prop where
  lookahead : ∀ t, r.lookahead = some t → ∃ c, input[p + 1]? = some c ∧ c ∈ t.codePoints
  notLookahead : ∀ t, r.notLookahead = some t → ¬ ∃ c, input[p + 1]? = some c ∧ c ∈ t.codePoints

/-- Whether a rule applies to what a table is asked at a position. -/
def AppliesAt (r : Rule Nat) (t : Table) (input : Array Symbol) (p : Nat) : Prop :=
  let w := window input (.after p) (some (t.endOfInput : Number))
  r.compile.applies w (t.atEnd w) = true

instance (r : Rule Nat) (t : Table) (input : Array Symbol) (p : Nat) :
    Decidable (r.AppliesAt t input p) :=
  inferInstanceAs (Decidable (_ = true))

variable {r : Rule Nat} {t : Table} {input : Array Symbol} {p : Nat}

theorem appliesAt_iff {ended : Bool}
    (hended : t.atEnd (window input (.after p) (some (t.endOfInput : Number))) = ended) :
    r.AppliesAt t input p ↔
      (∀ b, r.atEnd = some b → b = ended) ∧
      (∀ on, r.on = some on → ended = false ∧
        isAmong on.codePoints (window input (.after p) (some (t.endOfInput : Number))).first =
          true) ∧
      (∀ notOn, r.notOn = some notOn → ended = false ∧
        ¬ isAmong notOn.codePoints
          (window input (.after p) (some (t.endOfInput : Number))).first = true) ∧
      r.LooksAhead input p := by
  show r.compile.applies _ (t.atEnd _) = true ↔ _
  rw [hended, applies_compile_iff]
  simp only [second_isAmong]
  refine and_congr_right fun _ => and_congr_right fun _ => and_congr_right fun _ => ?_
  exact ⟨fun h => ⟨h.1, h.2⟩, fun h => ⟨h.lookahead, h.notLookahead⟩⟩

/-- Where the input seems to have ended no guard on the current symbol holds. -/
theorem appliesAt_of_seemsEnded (hp : p ≤ input.size) (h : SeemsEnded t.endOfInput input p) :
    r.AppliesAt t input p ↔
      r.atEnd ≠ some false ∧ r.on = none ∧ r.notOn = none ∧ r.LooksAhead input p := by
  rw [appliesAt_iff ((Table.atEnd_iff hp).2 h)]
  cases r.atEnd <;> cases r.on <;> cases r.notOn <;> simp

/-- Elsewhere the guards speak of the symbol there. -/
theorem appliesAt_of_not_seemsEnded (hp : p ≤ input.size) (h : ¬ SeemsEnded t.endOfInput input p) :
    ∃ c, input[p]? = some c ∧
      (r.AppliesAt t input p ↔
        r.atEnd ≠ some true ∧ (∀ on, r.on = some on → c ∈ on.codePoints) ∧
          (∀ notOn, r.notOn = some notOn → c ∉ notOn.codePoints) ∧ r.LooksAhead input p) := by
  have hlt : p < input.size := Nat.lt_of_le_of_ne hp fun heq => h (.inl heq)
  have hc : input[p]? = some input[p] := Array.getElem?_eq_getElem hlt
  have hended : t.atEnd (window input (.after p) (some (t.endOfInput : Number))) = false := by
    rw [← Bool.not_eq_true, Table.atEnd_iff hp]
    exact h
  refine ⟨_, hc, ?_⟩
  rw [appliesAt_iff hended]
  simp only [first_isAmong hc]
  cases r.atEnd <;> simp

end Rule

/-! ## §4. Rules and the end of the input. -/

/-- **What rules take for the end of the input.**  A rule for the end applies only
where the input seems to have ended, and a rule for before it only elsewhere.
Where it seems so, what is asked is what is asked at the end; elsewhere `on` and
`notOn` depend on whether the symbol there is in their text and on nothing else. -/
theorem rules_see_the_end (d : Definition Nat) (r : Rule Nat) (input : Array Symbol) (p : Nat)
    (hp : p ≤ input.size) :
    (r.AppliesAt d.compile input p →
      (r.atEnd = some true → SeemsEnded d.sentinels.resolve.endOfInput input p) ∧
      (r.atEnd = some false → ¬ SeemsEnded d.sentinels.resolve.endOfInput input p)) ∧
    (SeemsEnded d.sentinels.resolve.endOfInput input p →
      window input (.after p) (some (d.sentinels.resolve.endOfInput : Number)) =
        window input (.after input.size) (some (d.sentinels.resolve.endOfInput : Number))) ∧
    (¬ SeemsEnded d.sentinels.resolve.endOfInput input p →
      ∃ c, input[p]? = some c ∧
        (r.AppliesAt d.compile input p ↔
          r.atEnd ≠ some true ∧ (∀ on, r.on = some on → c ∈ on.codePoints) ∧
            (∀ notOn, r.notOn = some notOn → c ∉ notOn.codePoints) ∧ r.LooksAhead input p)) := by
  refine ⟨fun happlies => ⟨fun hend => ?_, fun hend hseems => ?_⟩, fun hseems => ?_,
    fun hseems => ?_⟩
  · by_contra hseems
    obtain ⟨c, _, happlies_iff⟩ := Rule.appliesAt_of_not_seemsEnded (t := d.compile) hp hseems
    exact (happlies_iff.1 happlies).1 hend
  · exact ((Rule.appliesAt_of_seemsEnded hp hseems).1 happlies).1 hend
  · exact hseems.window_eq (t := d.compile)
  · exact Rule.appliesAt_of_not_seemsEnded hp hseems

/-- A table that knows the symbol 0, which by default stands for the end of the
input, and the end itself. -/
def zeroOrEnd : Definition Nat :=
  ⟨⟨0, 1, 2, none, none⟩,
    [("0", [⟨some ⟨[0]⟩, none, none, none, none, 2, none, none⟩,
      ⟨none, none, some true, none, none, 1, none, none⟩])]⟩

theorem rules_see_the_end_zeroOrEnd :
    0 ≤ (#[97, 0] : Array Symbol).size ∧
      ∃ c, (#[97, 0] : Array Symbol)[0]? = some c ∧
        ¬ (⟨none, none, some true, none, none, 1, none, none⟩ : Rule Nat).AppliesAt
          zeroOrEnd.compile #[97, 0] 0 := by
  have hinside : ¬ SeemsEnded zeroOrEnd.sentinels.resolve.endOfInput #[97, 0] 0 := by decide
  obtain ⟨_, _, helsewhere⟩ := rules_see_the_end zeroOrEnd
    ⟨none, none, some true, none, none, 1, none, none⟩ #[97, 0] 0 (by decide)
  obtain ⟨c, hc, happlies⟩ := helsewhere hinside
  exact ⟨by decide, c, hc, fun h => (happlies.1 h).1 rfl⟩

/-- A table takes a last symbol 0 for the end: the rule for that symbol does not
apply to it, and the rule for the end does. -/
theorem rules_mistake_last_symbol :
    Definition.ofValue zeroOrEnd.toValue = .ok zeroOrEnd ∧
      ∃ onZero atEnd : Rule Nat, zeroOrEnd.states = [(("0" : Text), [onZero, atEnd])] ∧
        onZero.on = some ⟨[0]⟩ ∧ atEnd.atEnd = some true ∧
        0 < (#[0] : Array Symbol).size ∧ (#[0] : Array Symbol)[0]? = some 0 ∧
        ¬ onZero.AppliesAt zeroOrEnd.compile #[0] 0 ∧
        atEnd.AppliesAt zeroOrEnd.compile #[0] 0 := by
  refine ⟨rfl, _, _, rfl, rfl, rfl, ?_, rfl, ?_, ?_⟩
  · decide
  · decide
  · decide

end OracleNFA
