/-
  OracleNFA.Exploration.Path
  ──────────────────────────
  **ONE PATH AFTER THE OTHER.**

  Depth first: the sites still to be explored lie on a stack, the most recent
  one on top, so of two successors the second is explored first.  A site is
  put on the stack at most once.  The accepting state before the end of the
  input leads nowhere.

  There are `Numbering.span` states an answer may name and one more position
  than symbols, so the stack runs empty after that many sites and the first
  one.
-/
import OracleNFA.Exploration.Frontier

namespace OracleNFA.Exploration

/-- The sites to explore, those ever put there, and the furthest position
explored. -/
structure Trail where
  stack : List Site
  seen : List Site
  furthest : Nat

/-- Whether a site is in a list.  Most sites differ in their position, so that
is compared first. -/
def isSeen (position : Position) (s : StateId) : List Site → Bool
  | [] => false
  | t :: rest => (t.position == position && t.state == s) || isSeen position s rest

@[simp] theorem isSeen_iff {position : Position} {s : StateId} {sites : List Site} :
    isSeen position s sites = true ↔ ⟨position, s⟩ ∈ sites := by
  induction sites with
  | nil => simp [isSeen]
  | cons t rest ih =>
      cases t
      simp only [isSeen, Bool.or_eq_true, Bool.and_eq_true, beq_iff_eq, ih, List.mem_cons,
        Site.mk.injEq]
      exact or_congr ⟨fun h => ⟨h.1.symm, h.2.symm⟩, fun h => ⟨h.1.symm, h.2.symm⟩⟩ Iff.rfl

/-- Put successors on the stack, the last one on top; `none` if one of them is
the accepting state at the end of the input. -/
def push? (ids : Numbering) (length : Nat) (position : Position) :
    List StateId → Trail → Option Trail
  | [], t => some t
  | s :: rest, t =>
      if s = ids.accept ∧ position = .after length then none
      else if isSeen position s t.seen then push? ids length position rest t
      else push? ids length position rest
        { t with stack := ⟨position, s⟩ :: t.stack, seen := ⟨position, s⟩ :: t.seen }

/-- Explore the sites on the stack, at most so many of them. -/
def follow (ids : Numbering) (length : Nat) : Nat → Trail → Exploration Ending
  | 0, t => .done ⟨.exhausted, t.furthest⟩
  | more + 1, t =>
      match t.stack with
      | [] => .note Event.pathRejected (.done ⟨.rejected, t.furthest⟩)
      | site :: rest =>
          let t := { t with stack := rest, furthest := max t.furthest site.position.count }
          if site.state = ids.accept then follow ids length more t
          else .ask site fun reply =>
            match reply with
            | none =>
                .note (fun _ => .pathSpent (ids.role site.state) site.position (rest.length + 1))
                  (.done ⟨.exhausted, t.furthest⟩)
            | some answer =>
                match push? ids length answer.position answer.successors t with
                | none => .note Event.pathAccepted (.done ⟨.accepted, length⟩)
                | some t' => follow ids length more t'

/-- The search for a path through an input of the given length. -/
def path (ids : Numbering) (length : Nat) : Exploration Ending :=
  let first : Site := ⟨.after 0, ids.start⟩
  follow ids length (ids.span * (length + 1) + 2) ⟨[first], [first], 0⟩

end OracleNFA.Exploration
