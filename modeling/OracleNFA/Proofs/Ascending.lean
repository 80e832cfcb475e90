/-
  OracleNFA.Proofs.Ascending
  ──────────────────────────
  **ONE ASCENDING ORDER.**

  Every number but no-number has its place among all numbers (`Number.place`), and
  two numbers share a place only if they are the two zeros.  So states that are
  neither no-number nor the zero with a minus sign (`Number.Plain`) can be listed in
  ascending order in one way only:

      exists_lists         — any finite set of them has such a list,
      lists_ascending      — putting states into their places makes it,
      ascending_eq_of_perm — whatever the order in which they were given,
      Lists.unique         — and no other list of the same states is ascending
-/
import Mathlib.Algebra.Order.Ring.Rat
import Mathlib.Data.List.Sort
import Mathlib.Data.Set.Finite.Basic
import Mathlib.Order.WithBot
import OracleNFA.Exploration.Frontier

namespace OracleNFA

namespace Number

/-! ## §1. The place of a number. -/

/-- Where a number stands among all numbers.  No-number stands nowhere; it is put at
the upper end. -/
def place : Number → WithBot (WithTop Rat)
  | .nan | .infinite false => ⊤
  | .infinite true => ⊥
  | .negativeZero => ((0 : Rat) : WithTop Rat)
  | .finite value => (value : WithTop Rat)

/-- A number that shares its place with no other. -/
structure Plain (x : Number) : Prop where
  ne_nan : x ≠ .nan
  ne_negativeZero : x ≠ .negativeZero

variable {x y : Number}

theorem plain_ofNat (n : Nat) : (ofNat n).Plain :=
  ⟨by simp [ofNat], by simp [ofNat]⟩

theorem plain_unsigned (h : x ≠ .nan) : x.unsigned.Plain := by
  cases x with
  | nan => exact absurd rfl h
  | negativeZero => exact plain_ofNat 0
  | infinite negative => exact ⟨h, by simp [unsigned]⟩
  | finite value => exact ⟨h, by simp [unsigned]⟩

theorem finite_lt_top (value : Rat) :
    ((value : WithTop Rat) : WithBot (WithTop Rat)) < ⊤ :=
  WithBot.coe_lt_coe.2 (WithTop.coe_lt_top value)

/-- Numbers are compared by their places. -/
theorem lt_iff_place_lt (hx : x ≠ .nan) (hy : y ≠ .nan) : x.lt y = true ↔ x.place < y.place := by
  cases x with
  | nan => exact absurd rfl hx
  | infinite negative =>
      cases y with
      | nan => exact absurd rfl hy
      | infinite negative' => cases negative <;> cases negative' <;> simp [lt, place]
      | negativeZero => cases negative <;> simp [lt, place]
      | finite value => cases negative <;> simp [lt, place]
  | negativeZero =>
      cases y with
      | nan => exact absurd rfl hy
      | infinite negative =>
          cases negative with
          | false => exact iff_of_true (by simp [lt]) (finite_lt_top 0)
          | true => simp [lt, place]
      | negativeZero => simp [lt, place, rat?]
      | finite value => simp [lt, place, rat?]
  | finite value =>
      cases y with
      | nan => exact absurd rfl hy
      | infinite negative =>
          cases negative with
          | false => exact iff_of_true (by simp [lt]) (finite_lt_top value)
          | true => simp [lt, place]
      | negativeZero => simp [lt, place, rat?]
      | finite value' => simp [lt, place, rat?]

theorem place_injective (hx : x.Plain) (hy : y.Plain) (h : x.place = y.place) : x = y := by
  obtain ⟨hxnan, hxzero⟩ := hx
  obtain ⟨hynan, hyzero⟩ := hy
  cases x with
  | nan => exact absurd rfl hxnan
  | negativeZero => exact absurd rfl hxzero
  | infinite negative =>
      cases y with
      | nan => exact absurd rfl hynan
      | negativeZero => exact absurd rfl hyzero
      | infinite negative' => cases negative <;> cases negative' <;> simp_all [place]
      | finite value =>
          cases negative with
          | false => exact absurd h.symm (finite_lt_top value).ne
          | true => simp [place] at h
  | finite value =>
      cases y with
      | nan => exact absurd rfl hynan
      | negativeZero => exact absurd rfl hyzero
      | infinite negative =>
          cases negative with
          | false => exact absurd h (finite_lt_top value).ne
          | true => simp [place] at h
      | finite value' => simpa [place] using h

/-- No-number is below nothing and above nothing. -/
theorem ne_nan_of_lt (h : x.lt y = true) : x ≠ .nan ∧ y ≠ .nan := by
  constructor
  · rintro rfl
    exact absurd h (by simp [lt])
  · rintro rfl
    cases x <;> exact absurd h (by simp [lt])

instance : Std.Irrefl fun x y : Number => x.lt y = true where
  irrefl x h := by
    have hx := (ne_nan_of_lt h).1
    exact lt_irrefl _ ((lt_iff_place_lt hx hx).1 h)

instance : Std.Antisymm fun x y : Number => x.lt y = true where
  antisymm x y hxy hyx := by
    obtain ⟨hx, hy⟩ := ne_nan_of_lt hxy
    exact absurd ((lt_iff_place_lt hy hx).1 hyx) ((lt_iff_place_lt hx hy).1 hxy).asymm

end Number

namespace Exploration

/-! ## §2. Lists in ascending order. -/

variable {l l' : List StateId} {S : Set StateId}

/-- A list holds the states of a set in ascending order. -/
structure Lists (l : List StateId) (S : Set StateId) : Prop where
  mem_iff : ∀ s, s ∈ l ↔ s ∈ S
  increasing : l.Pairwise fun s t => s.lt t = true

/-- **A set is listed in one way.** -/
theorem Lists.unique (h : Lists l S) (h' : Lists l' S) : l = l' :=
  h.increasing.eq_of_mem_iff h'.increasing fun s => (h.mem_iff s).trans (h'.mem_iff s).symm

/-- Part of a list lists part of the set. -/
theorem Lists.filter (h : Lists l S) (keep : StateId → Prop) [DecidablePred keep] :
    Lists (l.filter fun s => keep s) {s | s ∈ S ∧ keep s} where
  mem_iff := fun s => by simp [h.mem_iff]
  increasing := h.increasing.filter _

/-- Putting states into their places one after the other is insertion sort. -/
theorem byInsertion_eq (l : List StateId) :
    byInsertion l = l.insertionSort fun s t => s.atMost t = true := by
  have hinsert : ∀ (s : StateId) (l : List StateId),
      insertAscending s l = l.orderedInsert (fun s t => s.atMost t = true) s := by
    intro s l
    induction l with
    | nil => rfl
    | cons t rest ih => rw [insertAscending, List.orderedInsert_cons, ih]
  induction l with
  | nil => rfl
  | cons s rest ih => rw [byInsertion, ih, hinsert, List.insertionSort_cons]

/-- The places of states in ascending order. -/
theorem map_place_ascending (hplain : ∀ s ∈ l, s.Plain) :
    (ascending l).map Number.place = (l.map Number.place).insertionSort (· ≤ ·) := by
  have hnan : Number.nan ∉ l := fun hmem => (hplain _ hmem).ne_nan rfl
  unfold ascending
  rw [if_neg hnan, byInsertion_eq]
  refine List.map_insertionSort _ _ Number.place l fun s hs t ht => ?_
  unfold Number.atMost
  rw [Bool.not_eq_true', ← Bool.not_eq_true,
    Number.lt_iff_place_lt (hplain t ht).ne_nan (hplain s hs).ne_nan, not_lt]

theorem pairwise_ascending (hplain : ∀ s ∈ l, s.Plain) :
    (ascending l).Pairwise fun s t => s.place ≤ t.place := by
  rw [← List.pairwise_map, map_place_ascending hplain]
  exact List.pairwise_insertionSort _ _

/-- **States are put into ascending order.** -/
theorem lists_ascending (hnodup : l.Nodup) (hplain : ∀ s ∈ l, s.Plain) (hmem : ∀ s, s ∈ l ↔ s ∈ S) :
    Lists (ascending l) S where
  mem_iff := fun s => (ascending_perm l).mem_iff.trans (hmem s)
  increasing := by
    have hperm := ascending_perm l
    -- No two states share a place, so the order is strict.
    refine ((pairwise_ascending hplain).and (hperm.nodup_iff.2 hnodup)).imp_of_mem ?_
    rintro s t hs ht ⟨hle, hne⟩
    have hps := hplain s (hperm.mem_iff.1 hs)
    have hpt := hplain t (hperm.mem_iff.1 ht)
    rw [Number.lt_iff_place_lt hps.ne_nan hpt.ne_nan]
    exact lt_of_le_of_ne hle fun heq => hne (Number.place_injective hps hpt heq)

/-- Finitely many states can be listed. -/
theorem exists_lists (hfinite : S.Finite) (hplain : ∀ s ∈ S, s.Plain) : ∃ l, Lists l S := by
  have hmem : ∀ s, s ∈ hfinite.toFinset.toList ↔ s ∈ S := fun s => by
    rw [Finset.mem_toList, hfinite.mem_toFinset]
  exact ⟨_, lists_ascending (Finset.nodup_toList _) (fun s hs => hplain s ((hmem s).1 hs)) hmem⟩

/-- **The same states are asked in the same order**, however they were listed. -/
theorem ascending_eq_of_perm (hperm : l.Perm l') (hplain : ∀ s ∈ l, s.Plain) :
    ascending l = ascending l' := by
  have hplain' : ∀ s ∈ l', s.Plain := fun s hs => hplain s (hperm.mem_iff.2 hs)
  have hsame : (ascending l).Perm (ascending l') :=
    ((ascending_perm l).trans hperm).trans (ascending_perm l').symm
  refine hsame.eq_of_pairwise (fun s t hs ht hst hts => ?_) (pairwise_ascending hplain)
    (pairwise_ascending hplain')
  exact Number.place_injective (hplain s ((ascending_perm l).mem_iff.1 hs))
    (hplain' t ((ascending_perm l').mem_iff.1 ht)) (le_antisymm hst hts)

end Exploration

end OracleNFA
