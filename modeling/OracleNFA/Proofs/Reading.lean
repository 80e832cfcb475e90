/-
  OracleNFA.Proofs.Reading
  ────────────────────────
  **WHAT A CHECK READS, AND WHAT IT COMPLAINS ABOUT.**

  A check goes on after a fault, so two things can be asked of it that say nothing of each
  other:

      Checked.Reads     — the value that it read, with or without issues
      Checked.Complains — the kind of complaint that it makes, with or without a value

  Each way of putting checks together gets one rule for either.  What is read depends on the
  kinds of the data alone: a test on a number or a text, or a key that means nothing, leaves
  an issue and the value as it is.  So what a whole description reads is what its parts read
  (`Checked.compositional_reads`), whatever is wrong with them.
-/
import OracleNFA.Proofs.Validation

namespace OracleNFA

/-! ## §1. Reading. -/

namespace Checked

variable {α β : Type}

/-- The check read `a`, whatever issues it found. -/
def Reads (c : Checked α) (a : α) : Prop :=
  c.value? = some a

theorem reads_map {f : α → β} {c : Checked α} {b : β} :
    (c.map f).Reads b ↔ ∃ a, c.Reads a ∧ f a = b := by
  simp [map, Reads]

@[simp] theorem reads_fmap {f : α → β} {c : Checked α} {b : β} :
    (f <$> c).Reads b ↔ ∃ a, c.Reads a ∧ f a = b :=
  reads_map

theorem reads_seq {f : Checked (α → β)} {c : Checked α} {b : β} :
    (f.seq c).Reads b ↔ ∃ g a, f.Reads g ∧ c.Reads a ∧ g a = b := by
  unfold seq Reads
  simp only [Option.bind_eq_some_iff, Option.map_eq_some_iff, exists_and_left]

@[simp] theorem reads_ap {f : Checked (α → β)} {c : Checked α} {b : β} :
    (f <*> c).Reads b ↔ ∃ g a, f.Reads g ∧ c.Reads a ∧ g a = b :=
  reads_seq

@[simp] theorem reads_flagged {issues : List Issue} {a b : α} :
    (flagged issues a).Reads b ↔ a = b := by
  simp [flagged, Reads]

@[simp] theorem reads_refine {test : α → List Issue} {c : Checked α} {a : α} :
    (c.refine test).Reads a ↔ c.Reads a := Iff.rfl

@[simp] theorem reads_also {extra : List Issue} {c : Checked α} {a : α} :
    (c.also extra).Reads a ↔ c.Reads a := Iff.rfl

@[simp] theorem reads_under {step : Step} {c : Checked α} {a : α} :
    (c.under step).Reads a ↔ c.Reads a := Iff.rfl

/-- **What is read goes by the parts.** -/
theorem compositional_reads : Compositional Reads where
  pass := by simp [pass, Reads]
  fail := by simp [fail, Reads]
  map := reads_map
  seq := reads_seq
  under := reads_under

/-- The parts of a list are read one by one. -/
theorem reads_all {parts : List (Checked α)} {as : List α} :
    (all parts).Reads as ↔ List.Forall₂ Reads parts as :=
  compositional_reads.all

/-- A test on the whole adds what it finds on what was read. -/
theorem issues_refine {test : α → List Issue} {c : Checked α} {a : α} (h : c.Reads a) :
    (c.refine test).issues = c.issues ++ test a := by
  have hvalue : c.value? = some a := h
  show c.issues ++ (c.value?.map test).getD [] = c.issues ++ test a
  rw [hvalue]
  rfl

end Checked

/-! ## §2. What the checks for the kinds of data read. -/

namespace Check

variable {α : Type} {v : Value}

@[simp] theorem reads_bool {b : Bool} : (bool v).Reads b ↔ v = .bool b :=
  Checked.compositional_reads.bool

@[simp] theorem reads_text {t : Text} : (text v).Reads t ↔ v = .text t :=
  Checked.compositional_reads.text

@[simp] theorem reads_someText {t : Text} : (someText v).Reads t ↔ v = .text t :=
  reads_text

@[simp] theorem reads_natural {x : Number} : (natural v).Reads x ↔ v = .number x ∧ x ≠ .nan :=
  Checked.compositional_reads.number

@[simp] theorem reads_optional {check : Check α} {o : Option α} :
    (optional check v).Reads o ↔
      v = .absent ∧ o = none ∨ v ≠ .absent ∧ ∃ a, (check v).Reads a ∧ o = some a :=
  Checked.compositional_reads.optional

@[simp] theorem reads_field {fields : List (Text × Value)} {key : Text} {check : Check α} {a : α} :
    (field fields key check).Reads a ↔ (check (Value.lookup key fields)).Reads a := Iff.rfl

@[simp] theorem reads_object {check : List (Text × Value) → Checked α} {a : α} :
    (object check v).Reads a ↔ ∃ fields, v = .object fields ∧ (check fields).Reads a :=
  Checked.compositional_reads.object

@[simp] theorem reads_closed {known : List Text} {fields : List (Text × Value)} {c : Checked α}
    {a : α} : (closed known fields c).Reads a ↔ c.Reads a := Iff.rfl

@[simp] theorem reads_list {check : Check α} {as : List α} :
    (list check v).Reads as ↔
      ∃ values, v = .array values ∧ List.Forall₂ (fun w a => (check w).Reads a) values as :=
  Checked.compositional_reads.list

end Check

/-! ## §3. Complaints. -/

/-- The issues make complaints of this kind. -/
def Issue.AllComplain (p : Complaint → Prop) (issues : List Issue) : Prop :=
  ∀ i ∈ issues, p i.complaint

namespace Issue

variable {p : Complaint → Prop} {xs ys : List Issue}

@[simp] theorem allComplain_nil : AllComplain p [] := by
  simp [AllComplain]

@[simp] theorem allComplain_cons {i : Issue} :
    AllComplain p (i :: xs) ↔ p i.complaint ∧ AllComplain p xs :=
  List.forall_mem_cons

@[simp] theorem allComplain_append :
    AllComplain p (xs ++ ys) ↔ AllComplain p xs ∧ AllComplain p ys :=
  List.forall_mem_append

/-- Whatever a part is seen from, its complaints are the same. -/
@[simp] theorem allComplain_under {step : Step} :
    AllComplain p (xs.map (under step)) ↔ AllComplain p xs :=
  List.forall_mem_map

end Issue

@[simp] theorem Check.here_complaint {c : Complaint} : (here c).complaint = c := rfl

namespace Checked

variable {α β : Type} {p : Complaint → Prop}

/-- All complaints of the check are of this kind. -/
def Complains (p : Complaint → Prop) (c : Checked α) : Prop :=
  Issue.AllComplain p c.issues

@[simp] theorem complains_pass {a : α} : (pass a).Complains p :=
  Issue.allComplain_nil

@[simp] theorem complains_fail {i : Issue} : (fail i : Checked α).Complains p ↔ p i.complaint := by
  simp [Complains, fail]

@[simp] theorem complains_flagged {issues : List Issue} {a : α} :
    (flagged issues a).Complains p ↔ Issue.AllComplain p issues := Iff.rfl

@[simp] theorem complains_map {f : α → β} {c : Checked α} :
    (c.map f).Complains p ↔ c.Complains p := Iff.rfl

@[simp] theorem complains_fmap {f : α → β} {c : Checked α} :
    (f <$> c).Complains p ↔ c.Complains p := Iff.rfl

@[simp] theorem complains_ap {f : Checked (α → β)} {c : Checked α} :
    (f <*> c).Complains p ↔ f.Complains p ∧ c.Complains p :=
  Issue.allComplain_append

@[simp] theorem complains_also {extra : List Issue} {c : Checked α} :
    (c.also extra).Complains p ↔ c.Complains p ∧ Issue.AllComplain p extra :=
  Issue.allComplain_append

@[simp] theorem complains_under {step : Step} {c : Checked α} :
    (c.under step).Complains p ↔ c.Complains p :=
  Issue.allComplain_under

/-- A test is made on what was read. -/
@[simp] theorem complains_refine {test : α → List Issue} {c : Checked α} :
    (c.refine test).Complains p ↔
      c.Complains p ∧ ∀ a, c.Reads a → Issue.AllComplain p (test a) := by
  show Issue.AllComplain p (c.issues ++ (c.value?.map test).getD []) ↔ _
  rw [Issue.allComplain_append]
  unfold Complains Reads
  cases c.value? <;> simp

theorem complains_all {parts : List (Checked α)} :
    (all parts).Complains p ↔ ∀ c ∈ parts, c.Complains p := by
  induction parts with
  | nil => simp [all]
  | cons c rest ih =>
      show ((List.cons <$> c) <*> all rest).Complains p ↔ _
      rw [complains_ap, complains_fmap, ih, List.forall_mem_cons]

end Checked

end OracleNFA
