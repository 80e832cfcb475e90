/-
  OracleNFA.Proofs.Validation
  ───────────────────────────
  **WHAT PASSES A CHECK.**

  A check passes with a value when it found no issue and read that value
  (`Checked.Passes`); this is when its result is the value.  Each way of putting
  checks together gets one rule that says what passes it, so a description of
  data is read off its check by rewriting:

      f <$> c, f <*> c       — the parts pass
      refine, also           — and no further issue is found
      field, list, optional  — the part is there and passes, or may be missing

  The first and the last of these rules hold of everything that goes by the parts of
  a check (`Checked.Compositional`), and are stated once for all of it.

  The numbers that pass as natural are those that denote one, and on these
  comparison is that of the natural numbers.
-/
import Mathlib.Data.List.Forall2
import Mathlib.Data.Rat.Cast.Order
import Mathlib.Data.Rat.Lemmas
import OracleNFA.Validation.Schema

namespace OracleNFA

/-! ## §1. Numbers that denote a natural number. -/

namespace Number

/-- A number denotes an integer if that is the rational it denotes. -/
theorem integer?_eq_some {x : Number} {i : Int} :
    x.integer? = some i ↔ x.rat? = some (i : Rat) := by
  unfold integer?
  cases x.rat? with
  | none => simp
  | some value =>
      show (if value.den = 1 then some value.num else none) = some i ↔ some value = some (i : Rat)
      constructor
      · intro h
        obtain ⟨hden, hnum⟩ := Option.ite_none_right_eq_some.1 h
        obtain rfl := Option.some.inj hnum
        rw [(Rat.den_eq_one_iff value).1 hden]
      · intro h
        obtain rfl := Option.some.inj h
        rfl

/-- A number denotes a natural number if that is the rational it denotes. -/
theorem natural?_eq_some {x : Number} {n : Nat} :
    x.natural? = some n ↔ x.rat? = some (n : Rat) := by
  show x.natural? = some n ↔ x.rat? = some ((n : Int) : Rat)
  rw [← integer?_eq_some]
  unfold natural?
  cases x.integer? with
  | none => simp
  | some i => cases i <;> simp

@[simp] theorem natural?_ofNat (n : Nat) : (ofNat n).natural? = some n :=
  natural?_eq_some.2 rfl

theorem safeNatural?_eq_some {x : Number} {n : Nat} :
    x.safeNatural? = some n ↔ x.natural? = some n ∧ n ≤ maxSafe := by
  simp [safeNatural?, Option.filter_eq_some_iff]

theorem safeNatural?_ofNat {n : Nat} (h : n ≤ maxSafe) : (ofNat n).safeNatural? = some n :=
  safeNatural?_eq_some.2 ⟨natural?_ofNat n, h⟩

theorem toNat_eq {x : Number} {n : Nat} (h : x.natural? = some n) : x.toNat = n := by
  unfold toNat
  rw [h]
  rfl

@[simp] theorem toNat_ofNat (n : Nat) : (ofNat n).toNat = n :=
  toNat_eq (natural?_ofNat n)

theorem same_iff {x y : Number} {m n : Nat} (hx : x.natural? = some m)
    (hy : y.natural? = some n) : x.same y = true ↔ m = n := by
  rw [natural?_eq_some] at hx hy
  cases x <;> cases y <;> simp_all [same, rat?]

theorem lt_iff {x y : Number} {m n : Nat} (hx : x.natural? = some m)
    (hy : y.natural? = some n) : x.lt y = true ↔ m < n := by
  rw [natural?_eq_some] at hx hy
  cases x <;> cases y <;> simp_all [lt, rat?]

theorem isNegative_iff {x : Number} {i : Int} (h : x.integer? = some i) :
    x.isNegative = true ↔ i < 0 := by
  rw [integer?_eq_some] at h
  unfold isNegative ofNat
  cases x with
  | nan => exact absurd h (by simp [rat?])
  | infinite negative => exact absurd h (by simp [rat?])
  | negativeZero =>
      obtain rfl : i = 0 := by simpa [rat?, eq_comm] using h
      simp [lt, rat?]
  | finite value =>
      obtain rfl : value = i := Option.some.inj h
      simp [lt, rat?]

end Number

namespace Check

theorem naturalIssues_eq_nil {x : Number} :
    naturalIssues x = [] ↔ ∃ n, x.natural? = some n := by
  unfold naturalIssues Number.natural?
  cases hx : x.integer? with
  | none => simp
  | some i =>
      have hneg := Number.isNegative_iff hx
      cases i with
      | ofNat n => simp_all
      | negSucc n => simp_all

end Check

/-! ## §2. Passing. -/

namespace Checked

variable {α β : Type}

/-- The check found no issue and read `a`. -/
def Passes (c : Checked α) (a : α) : Prop :=
  c.issues = [] ∧ c.value? = some a

/-- **The result of a check is a value when the check passes with it.** -/
theorem result_eq_ok {c : Checked α} {a : α} : c.result = .ok a ↔ c.Passes a := by
  unfold result Passes
  cases hv : c.value? with
  | none => simp
  | some b =>
      cases hi : c.issues with
      | nil => simp
      | cons i rest => simp

/-- Where a check fails its result is what it found. -/
theorem issues_eq_of_result {c : Checked α} {issues : List Issue}
    (h : c.result = .error issues) : c.issues = issues := by
  unfold result at h
  split at h
  · exact nomatch h
  · exact Except.error.inj h

/-- Where a check fails it says why. -/
theorem issues_of_result {c : Checked α} {issues : List Issue}
    (h : c.result = .error issues) : issues ≠ [] := by
  unfold result at h
  split at h
  · exact absurd h (by simp)
  · next hsome =>
      obtain rfl := Except.error.inj h
      cases hv : c.value? with
      | none => exact c.explained hv
      | some a => exact fun hnil => hsome a hv hnil

theorem passes_map {f : α → β} {c : Checked α} {b : β} :
    (c.map f).Passes b ↔ ∃ a, c.Passes a ∧ f a = b := by
  simp [map, Passes, and_assoc]

@[simp] theorem passes_fmap {f : α → β} {c : Checked α} {b : β} :
    (f <$> c).Passes b ↔ ∃ a, c.Passes a ∧ f a = b :=
  passes_map

theorem passes_seq {f : Checked (α → β)} {c : Checked α} {b : β} :
    (f.seq c).Passes b ↔ ∃ g a, f.Passes g ∧ c.Passes a ∧ g a = b := by
  unfold seq Passes
  simp only [List.append_eq_nil_iff, Option.bind_eq_some_iff, Option.map_eq_some_iff]
  constructor
  · rintro ⟨⟨hf, hc⟩, g, hg, a, ha, rfl⟩
    exact ⟨g, a, ⟨hf, hg⟩, ⟨hc, ha⟩, rfl⟩
  · rintro ⟨g, a, ⟨hf, hg⟩, ⟨hc, ha⟩, rfl⟩
    exact ⟨⟨hf, hc⟩, g, hg, a, ha, rfl⟩

@[simp] theorem passes_ap {f : Checked (α → β)} {c : Checked α} {b : β} :
    (f <*> c).Passes b ↔ ∃ g a, f.Passes g ∧ c.Passes a ∧ g a = b :=
  passes_seq

@[simp] theorem passes_flagged {issues : List Issue} {a b : α} :
    (flagged issues a).Passes b ↔ issues = [] ∧ a = b := by
  simp [flagged, Passes]

@[simp] theorem passes_refine {test : α → List Issue} {c : Checked α} {a : α} :
    (c.refine test).Passes a ↔ c.Passes a ∧ test a = [] := by
  unfold refine Passes
  simp only [List.append_eq_nil_iff]
  constructor
  · rintro ⟨⟨hc, htest⟩, ha⟩
    rw [ha] at htest
    exact ⟨⟨hc, ha⟩, htest⟩
  · rintro ⟨⟨hc, ha⟩, htest⟩
    rw [ha]
    exact ⟨⟨hc, htest⟩, rfl⟩

@[simp] theorem passes_also {extra : List Issue} {c : Checked α} {a : α} :
    (c.also extra).Passes a ↔ c.Passes a ∧ extra = [] := by
  simp [also, Passes, and_assoc, and_comm]

/-- Each member of the second of two related lists is related to one of the first. -/
theorem exists_of_mem_right {R : α → β → Prop} {as : List α} {bs : List β}
    (h : List.Forall₂ R as bs) {b : β} (hb : b ∈ bs) : ∃ a ∈ as, R a b := by
  induction h with
  | nil => exact absurd hb (by simp)
  | cons hab _ ih =>
      rcases List.mem_cons.1 hb with rfl | hrest
      · exact ⟨_, List.mem_cons_self, hab⟩
      · obtain ⟨a, ha, hr⟩ := ih hrest
        exact ⟨a, List.mem_cons_of_mem _ ha, hr⟩

end Checked

/-! ## §3. What goes by the parts of a check. -/

namespace Checked

variable {α : Type}

/-- What may come of a check, if it comes of a whole as it comes of the parts. -/
structure Compositional (R : ∀ {α : Type}, Checked α → α → Prop) : Prop where
  pass : ∀ {α : Type} {a b : α}, R (pass a) b ↔ a = b
  fail : ∀ {α : Type} {i : Issue} {a : α}, ¬ R (fail i) a
  map : ∀ {α β : Type} {f : α → β} {c : Checked α} {b : β},
    R (c.map f) b ↔ ∃ a, R c a ∧ f a = b
  seq : ∀ {α β : Type} {f : Checked (α → β)} {c : Checked α} {b : β},
    R (f.seq c) b ↔ ∃ g a, R f g ∧ R c a ∧ g a = b
  under : ∀ {α : Type} {step : Step} {c : Checked α} {a : α}, R (c.under step) a ↔ R c a

namespace Compositional

variable {R : ∀ {α : Type}, Checked α → α → Prop} {v : Value}

theorem bool (h : Compositional R) {b : Bool} : R (Check.bool v) b ↔ v = .bool b := by
  cases v <;> simp [Check.bool, Check.wrong, h.pass, h.fail]

theorem text (h : Compositional R) {t : Text} : R (Check.text v) t ↔ v = .text t := by
  cases v <;> simp [Check.text, Check.wrong, h.pass, h.fail]

theorem number (h : Compositional R) {x : Number} :
    R (Check.number v) x ↔ v = .number x ∧ x ≠ .nan := by
  unfold Check.number
  -- not-a-number, any other number, and everything that is no number
  split
  · simp only [Check.wrong, h.fail, Value.number.injEq, false_iff, not_and, not_not]
    exact Eq.symm
  · next y hy =>
      simp only [h.pass, Value.number.injEq]
      constructor
      · rintro rfl
        exact ⟨rfl, hy⟩
      · exact fun hx => hx.1
  · next w hw =>
      simp only [Check.wrong, h.fail, false_iff, not_and]
      rintro rfl _
      exact hw x rfl

theorem optional (h : Compositional R) {check : Check α} {o : Option α} :
    R (Check.optional check v) o ↔
      v = .absent ∧ o = none ∨ v ≠ .absent ∧ ∃ a, R (check v) a ∧ o = some a := by
  unfold Check.optional
  split
  · simp [h.pass, eq_comm]
  · next hv =>
      have hne : v ≠ .absent := hv
      simp [h.map, hne, eq_comm]

theorem object (h : Compositional R) {check : List (Text × Value) → Checked α} {a : α} :
    R (Check.object check v) a ↔ ∃ fields, v = .object fields ∧ R (check fields) a := by
  cases v <;> simp [Check.object, Check.wrong, h.fail]

/-- The parts of a list give a list with the values in order. -/
theorem all (h : Compositional R) {parts : List (Checked α)} {as : List α} :
    R (Checked.all parts) as ↔ List.Forall₂ (fun c a => R c a) parts as := by
  induction parts generalizing as with
  | nil =>
      rw [List.forall₂_nil_left_iff]
      simp [Checked.all, h.pass, eq_comm]
  | cons c rest ih =>
      show R ((c.map List.cons).seq (Checked.all rest)) as ↔ _
      simp only [h.seq, h.map, List.forall₂_cons_left_iff]
      constructor
      · rintro ⟨_, tail, ⟨a, ha, rfl⟩, htail, rfl⟩
        exact ⟨a, tail, ha, ih.1 htail, rfl⟩
      · rintro ⟨a, tail, ha, htail, rfl⟩
        exact ⟨_, tail, ⟨a, ha, rfl⟩, ih.2 htail, rfl⟩

theorem items (h : Compositional R) {check : Check α} {values : List Value} {i : Nat}
    {as : List α} : R (Checked.all (Check.items check i values)) as ↔
      List.Forall₂ (fun w a => R (check w) a) values as := by
  rw [h.all]
  induction values generalizing i as with
  | nil => simp only [Check.items, List.forall₂_nil_left_iff]
  | cons w rest ih => simp only [Check.items, List.forall₂_cons_left_iff, h.under, ih]

theorem list (h : Compositional R) {check : Check α} {as : List α} :
    R (Check.list check v) as ↔
      ∃ values, v = .array values ∧ List.Forall₂ (fun w a => R (check w) a) values as := by
  cases v <;> simp [Check.list, Check.wrong, h.fail, h.items]

end Compositional

/-- **What passes goes by the parts.** -/
theorem compositional_passes : Compositional Passes where
  pass := by simp [pass, Passes]
  fail := by simp [fail, Passes]
  map := passes_map
  seq := passes_seq
  under := by simp [under, Passes]

@[simp] theorem passes_under {step : Step} {c : Checked α} {a : α} :
    (c.under step).Passes a ↔ c.Passes a :=
  compositional_passes.under

/-- The parts of a list pass when each does, with the values in order. -/
theorem passes_all {parts : List (Checked α)} {as : List α} :
    (all parts).Passes as ↔ List.Forall₂ Passes parts as :=
  compositional_passes.all

end Checked

/-! ## §4. What passes the checks for the kinds of data. -/

namespace Check

variable {α : Type} {v : Value}

@[simp] theorem passes_bool {b : Bool} : (bool v).Passes b ↔ v = .bool b :=
  Checked.compositional_passes.bool

@[simp] theorem passes_text {t : Text} : (text v).Passes t ↔ v = .text t :=
  Checked.compositional_passes.text

@[simp] theorem passes_someText {t : Text} :
    (someText v).Passes t ↔ v = .text t ∧ t.isEmpty = false := by
  simp [someText]

theorem passes_number {x : Number} : (number v).Passes x ↔ v = .number x ∧ x ≠ .nan :=
  Checked.compositional_passes.number

/-- **A number passes as natural when it denotes a natural number.** -/
@[simp] theorem passes_natural {x : Number} :
    (natural v).Passes x ↔ v = .number x ∧ ∃ n, x.natural? = some n := by
  unfold natural
  rw [Checked.passes_refine, passes_number, naturalIssues_eq_nil, and_assoc]
  -- Not-a-number denotes nothing, so the second test covers the first.
  refine and_congr_right fun _ => and_iff_right_of_imp ?_
  rintro ⟨n, hn⟩ rfl
  exact absurd hn (by simp [Number.natural?, Number.integer?, Number.rat?])

@[simp] theorem passes_optional {check : Check α} {o : Option α} :
    (optional check v).Passes o ↔
      v = .absent ∧ o = none ∨ v ≠ .absent ∧ ∃ a, (check v).Passes a ∧ o = some a :=
  Checked.compositional_passes.optional

@[simp] theorem passes_field {fields : List (Text × Value)} {key : Text} {check : Check α} {a : α} :
    (field fields key check).Passes a ↔ (check (Value.lookup key fields)).Passes a :=
  Checked.compositional_passes.under

@[simp] theorem passes_object {check : List (Text × Value) → Checked α} {a : α} :
    (object check v).Passes a ↔ ∃ fields, v = .object fields ∧ (check fields).Passes a :=
  Checked.compositional_passes.object

@[simp] theorem passes_closed {known : List Text} {fields : List (Text × Value)} {c : Checked α}
    {a : α} : (closed known fields c).Passes a ↔ c.Passes a ∧ strayKeys known fields = [] := by
  unfold closed
  rw [Checked.passes_also]
  refine and_congr_right fun _ => ?_
  cases strayKeys known fields <;> simp

@[simp] theorem passes_list {check : Check α} {as : List α} :
    (list check v).Passes as ↔
      ∃ values, v = .array values ∧ List.Forall₂ (fun w a => (check w).Passes a) values as :=
  Checked.compositional_passes.list

end Check

end OracleNFA
