/-
  OracleNFA.Validation.Checked
  ────────────────────────────
  **CHECKS THAT GO ON.**

  A check does not stop at the first fault.  Its outcome holds every issue in
  the order in which it was found, and the value that was read, unless the
  value has the wrong kind:

      a value and no issue    — the check passed
      a value and issues      — a test on the value failed; later tests still
                                run on it
      no value                — the kind was wrong; whatever the value is part
                                of cannot be built either, but its other
                                parts are still checked

  Without a value there is always an issue that says why
  (`Checked.explained`).
-/
import OracleNFA.Validation.Issue

namespace OracleNFA

/-- The outcome of a check. -/
structure Checked (α : Type) where
  issues : List Issue
  value? : Option α
  explained : value? = none → issues ≠ [] := by simp

/-- A check reads unchecked data as an `α`. -/
abbrev Check (α : Type) := Value → Checked α

namespace Checked

variable {α β : Type}

/-! ## §1. Outcomes. -/

/-- A check that passed. -/
def pass (a : α) : Checked α := ⟨[], some a, by simp⟩

/-- A value of the wrong kind. -/
def fail (i : Issue) : Checked α := ⟨[i], none, by simp⟩

/-- A value with the issues its tests found. -/
def flagged (issues : List Issue) (a : α) : Checked α := ⟨issues, some a, by simp⟩

/-- What the checked value is made into. -/
def map (f : α → β) (c : Checked α) : Checked β :=
  ⟨c.issues, c.value?.map f, fun h => c.explained (by simpa using h)⟩

/-- Two parts of one value: the issues of both, and the whole if both parts
are there. -/
def seq (f : Checked (α → β)) (c : Checked α) : Checked β :=
  ⟨f.issues ++ c.issues, f.value?.bind fun g => c.value?.map g, by
    intro h
    cases hf : f.value? with
    | none => exact List.append_ne_nil_of_left_ne_nil (f.explained hf) _
    | some g =>
        refine List.append_ne_nil_of_right_ne_nil _ (c.explained ?_)
        simpa [hf] using h⟩

instance : Applicative Checked where
  pure := pass
  map := map
  seq f c := seq f (c ())

/-! ## §2. Further tests and paths. -/

/-- A test on the whole value, run even if tests on its parts have failed. -/
def refine (test : α → List Issue) (c : Checked α) : Checked α :=
  ⟨c.issues ++ (c.value?.map test).getD [], c.value?, fun h =>
    List.append_ne_nil_of_left_ne_nil (c.explained h) _⟩

/-- Issues of the whole that do not depend on its parts. -/
def also (extra : List Issue) (c : Checked α) : Checked α :=
  ⟨c.issues ++ extra, c.value?, fun h =>
    List.append_ne_nil_of_left_ne_nil (c.explained h) _⟩

/-- The outcome for a part, seen from the whole. -/
def under (step : Step) (c : Checked α) : Checked α :=
  ⟨c.issues.map (Issue.under step), c.value?, fun h => by simpa using c.explained h⟩

/-- The outcomes for the parts of a list. -/
def all : List (Checked α) → Checked (List α)
  | [] => pass []
  | c :: rest => seq (map List.cons c) (all rest)

/-! ## §3. The verdict. -/

/-- The value, if no issue was found. -/
def result (c : Checked α) : Except (List Issue) α :=
  match c.value?, c.issues with
  | some a, [] => .ok a
  | _, issues => .error issues

end Checked

end OracleNFA
