/-
  OracleNFA.Proofs.Horizon
  ────────────────────────
  **A RUN SEES ONE SYMBOL BEYOND WHERE IT STOPS.**

  A question at a position shows the symbol there and the one behind it, and so two
  inputs with the same first symbols look alike wherever both of these are among
  them:

      alikeWhile_reading    — attempts on two such inputs are alike so far
      reads_no_further      — so are reports on what stops there
      stops_before_the_rest — and whole runs

  A run that stops there has never asked about anything further on, whichever way it
  went: a frontier only moves forward, and a path search that gave up a path still
  reports the furthest position it came to.
-/
import OracleNFA.Proofs.Abreast

namespace OracleNFA

open Exploration

/-! ## §1. Inputs with the same first symbols. -/

/-- Both symbols that a question at the position shows are among the first `m`. -/
def Within (m : Nat) (n : Nat) : Prop :=
  n + 2 ≤ m

/-- The first `m` symbols of the one input are those of the other one. -/
structure SameUpTo (m : Nat) (input other : Array Symbol) : Prop where
  inside : m ≤ input.size
  inside' : m ≤ other.size
  same : other.toList.take m = input.toList.take m

namespace SameUpTo

variable {m n : Nat} {input other : Array Symbol}

theorem getElem?_eq (h : SameUpTo m input other) (hn : n < m) : other[n]? = input[n]? := by
  have hother : (other.toList.take m)[n]? = other.toList[n]? := List.getElem?_take_of_lt hn
  have hinput : (input.toList.take m)[n]? = input.toList[n]? := List.getElem?_take_of_lt hn
  rw [h.same, hinput] at hother
  rw [← Array.getElem?_toList, ← Array.getElem?_toList, hother]

theorem window_eq (h : SameUpTo m input other) (hn : Within m n) (endOfInput : Option Number) :
    window other (.after n) endOfInput = window input (.after n) endOfInput := by
  unfold Within at hn
  show Window.ofNext endOfInput other[n]? other[n + 1]? =
    Window.ofNext endOfInput input[n]? input[n + 1]?
  rw [h.getElem?_eq (by omega), h.getElem?_eq (by omega)]

end SameUpTo

namespace Attempt

variable {a : Attempt} {m : Nat} {other : Array Symbol}

/-- The attempt on another input. -/
def reading (a : Attempt) (other : Array Symbol) : Attempt :=
  { a with input := other }

/-- Questions that only show symbols of both are the same ones. -/
theorem query_reading (h : SameUpTo m a.input other) {u : Site} (hu : NearSite (Within m) u) :
    (a.reading other).query u = a.query u := by
  -- The sentinels are those of the one oracle, so only the symbols could differ.
  obtain ⟨n, hposition, hn⟩ := hu
  unfold query
  dsimp only [reading]
  rw [hposition, h.window_eq hn]

/-- What an answer amounts to depends on how far the input goes, if on anything of it. -/
theorem read_reading {n : Nat} (hn : n < a.length) (hn' : n < other.size) (s : StateId)
    (raw : Value) : (a.reading other).read ⟨.after n, s⟩ raw = a.read ⟨.after n, s⟩ raw := by
  have hreaches : (Position.after n).reaches a.length = false :=
    decide_eq_false (Nat.not_le.2 hn)
  have hreaches' : (Position.after n).reaches (a.reading other).length = false :=
    decide_eq_false (Nat.not_le.2 hn')
  unfold read
  rw [hreaches, hreaches']
  rfl

/-- **Attempts on inputs with the same first symbols look alike** where these are all
that is shown. -/
theorem alikeWhile_reading (h : SameUpTo m a.input other) :
    AlikeWhile (Within m) a (a.reading other) where
  budget := rfl
  start := rfl
  accept := rfl
  span := rfl
  down := fun _ _ hle hn => Nat.le_trans (Nat.add_le_add_right hle 2) hn
  length := fun n hn => .inr
    ⟨Nat.lt_of_lt_of_le hn h.inside, Nat.lt_of_lt_of_le hn h.inside'⟩
  alike := fun n s hn => by
    have hlt : n < m := Nat.lt_of_succ_lt hn
    exact {
      answer := congrArg a.oracle.answer (query_reading h ⟨n, rfl, hn⟩)
      read := read_reading (Nat.lt_of_lt_of_le hlt h.inside) (Nat.lt_of_lt_of_le hlt h.inside') s }

/-- **A report on a run that stops early is a report on every input that begins so.** -/
theorem reads_no_further (h : SameUpTo m a.input other) {x y : Exploration Ending}
    (hxy : a.Abreast (Within m) x y) {o : Outcome} (ho : (a.report x a.outcome).result = .ok o)
    (hstop : Within m o.position.count) :
    (a.report x a.outcome).Agrees ((a.reading other).report y (a.reading other).outcome) := by
  rcases (alikeWhile_reading h).report hxy with ⟨_, hfar⟩ | ⟨hresult, sites, hnear, hq, hq'⟩
  · exact absurd hstop (hfar o ho)
  · refine ⟨?_, hresult⟩
    rw [hq, hq']
    exact List.map_congr_left fun u hu => query_reading h (hnear u hu)

end Attempt

/-! ## §2. Whole runs. -/

variable {input other : Input} {oracle : Oracle} {maxCycles : Value} {x y : List Symbol} {m : Nat}

/-- Where one input can be attempted, so can every other one. -/
theorem Attempt.ofInput_reading {a : Attempt} (h : Attempt.ofInput input oracle maxCycles = .ok a)
    (hy : other.symbols = .ok y) :
    Attempt.ofInput other oracle maxCycles = .ok (a.reading y.toArray) := by
  obtain ⟨_, _, hmade⟩ := Attempt.ofInput_eq_ok.1 h
  obtain ⟨ids, budget, hids, hbudget, rfl⟩ := Attempt.ofSymbols_eq_ok.1 hmade
  exact Attempt.ofInput_eq_ok.2
    ⟨y, hy, Attempt.ofSymbols_eq_ok.2 ⟨ids, budget, hids, hbudget, rfl⟩⟩

/-- The symbols of an attempt are those of its input. -/
theorem Attempt.sameUpTo_of_ofInput {a : Attempt}
    (h : Attempt.ofInput input oracle maxCycles = .ok a) (hx : input.symbols = .ok x)
    (hmx : m ≤ x.length) (hmy : m ≤ y.length) (hsame : y.take m = x.take m) :
    SameUpTo m a.input y.toArray := by
  obtain ⟨symbols, hsymbols, hmade⟩ := Attempt.ofInput_eq_ok.1 h
  obtain ⟨_, _, _, _, rfl⟩ := Attempt.ofSymbols_eq_ok.1 hmade
  obtain rfl : symbols = x := Except.ok.inj (hsymbols.symm.trans hx)
  exact ⟨hmx, hmy, hsame⟩

/-- **A run sees at most one symbol beyond where it stops.**  Where two inputs have the
same first `m` symbols and a run on the one stops at a position whose symbol and
whose next symbol are among these, the run on the other one issues the same queries
and returns the same.  So it is for both strategies, and for a simulation from any
start, anchored or, as in a search, not. -/
theorem stops_before_the_rest (oracle : Oracle) (maxCycles : Value)
    (hx : input.symbols = .ok x) (hy : other.symbols = .ok y) (hmx : m ≤ x.length)
    (hmy : m ≤ y.length) (hsame : y.take m = x.take m) :
    (∀ s o e, (runStrategy s input oracle maxCycles).result = .ok o → o.position = .after e →
      e + 2 ≤ m →
        (runStrategy s input oracle maxCycles).Agrees (runStrategy s other oracle maxCycles)) ∧
      ∀ a, Attempt.ofInput input oracle maxCycles = .ok a →
        ∃ b, Attempt.ofInput other oracle maxCycles = .ok b ∧
          ∀ start anchored o e, (a.simulation start anchored).result = .ok o →
            o.position = .after e → e + 2 ≤ m →
              (a.simulation start anchored).Agrees (b.simulation start anchored) := by
  have hcount : ∀ {p : Position} {e : Nat}, p = .after e → e + 2 ≤ m → Within m p.count := by
    rintro _ e rfl he
    exact he
  constructor
  · intro s o e ho hposition he
    rw [runStrategy_eq] at ho
    rw [runStrategy_eq, runStrategy_eq]
    cases ha : Attempt.ofInput input oracle maxCycles with
    | error e =>
        -- A run on unsound arguments has no result.
        rw [ha] at ho
        exact absurd ho (by simp)
    | ok a =>
        rw [ha] at ho
        rw [Attempt.ofInput_reading ha hy]
        have hinput := Attempt.sameUpTo_of_ofInput ha hx hmx hmy hsame
        exact Attempt.reads_no_further hinput
          ((Attempt.alikeWhile_reading hinput).abreast_strategy s) ho (hcount hposition he)
  · intro a ha
    have hinput := Attempt.sameUpTo_of_ofInput ha hx hmx hmy hsame
    refine ⟨a.reading y.toArray, Attempt.ofInput_reading ha hy, ?_⟩
    intro start anchored o e ho hposition he
    exact Attempt.reads_no_further hinput
      ((Attempt.alikeWhile_reading hinput).abreast_simulate start anchored) ho (hcount hposition he)

/-- An oracle that reads every `a`, and of two in a row may take the second one for the
end of a match. -/
def doubling : Oracle where
  sentinels := Sentinels.toValue ⟨0, 1, 2, none, none⟩
  answer := fun q => .ok (Transition.toValue
    (if q.window.first = some (97 : Nat) then
      if q.state = (0 : Nat) then ⟨0, some 3, true⟩ else ⟨1, none, true⟩
    else ⟨2, none, false⟩))

/-- A path search on `aabb` comes to the third symbol and goes back to the second one
before it rejects, and a match ends behind `aa`: neither sees more than `aabb`. -/
theorem stops_before_the_rest_doubling :
    (runPath (.text "aabb") doubling .absent).result = .ok ⟨.rejected, 5, .after 2, []⟩ ∧
      (runPath (.text "aabb") doubling .absent).Agrees
        (runPath (.text "aabbaa") doubling .absent) ∧
      ∃ a, Attempt.ofInput (.text "aabb") doubling .absent = .ok a ∧
        (a.simulation 0 false).result = .ok ⟨.accepted, 3, .after 2, []⟩ ∧
        ∃ b, Attempt.ofInput (.text "aabbaa") doubling .absent = .ok b ∧
          (a.simulation 0 false).Agrees (b.simulation 0 false) := by
  have hx : (Input.text "aabb").symbols = .ok [97, 97, 98, 98] := by rfl
  have hy : (Input.text "aabbaa").symbols = .ok [97, 97, 98, 98, 97, 97] := by rfl
  have hmade : Attempt.ofInput (.text "aabb") doubling .absent =
      .ok ⟨#[97, 97, 98, 98], doubling, ⟨0, 1, 2, 0, Number.maxSafe⟩, .default⟩ := by rfl
  have hrun : (runPath (.text "aabb") doubling .absent).result =
      .ok ⟨.rejected, 5, .after 2, []⟩ := by rfl
  obtain ⟨hruns, hsimulations⟩ := stops_before_the_rest doubling .absent hx hy (m := 4)
    (by decide) (by decide) (by decide)
  obtain ⟨b, hb, hsimulated⟩ := hsimulations _ hmade
  exact ⟨hrun, hruns .path _ 2 hrun rfl (by decide), _, hmade, rfl, b, hb,
    hsimulated 0 false _ 2 rfl rfl (by decide)⟩

end OracleNFA
