/-
  OracleNFA.Sorting.Rearrangement
  ───────────────────────────────
  **SORTING LOSES NOTHING AND INVENTS NOTHING.**

  Whatever the comparison is, order or not, what `byRuns` gives is a
  rearrangement of what it is given:

      (byRuns less xs).Perm xs

  A merge moves elements from two runs to a third list (`Merging.elements`),
  the pile merges neighbours (`Pile.elements`), and cutting runs off a list
  ends because no run is empty.
-/
import OracleNFA.Sorting.Runs

namespace OracleNFA.Sorting

variable {α : Type}

/-! ## §1. A merge on its way. -/

namespace Merging

/-- What a merge holds, wherever it lies. -/
def elements (m : Merging α) : List α :=
  m.merged ++ (m.longer ++ m.shorter)

theorem result_perm (m : Merging α) : m.result.Perm m.elements :=
  m.merged.reverse_perm.append_right _

theorem elements_takeLonger (count : Nat) (m : Merging α) :
    (m.takeLonger count).elements.Perm m.elements := by
  -- What is taken leaves the longer run and lands on the merged ones.
  have h : ((m.longer.take count).reverse ++ m.merged).Perm
      (m.merged ++ m.longer.take count) :=
    ((List.reverse_perm _).append_right _).trans List.perm_append_comm
  simpa only [elements, takeLonger, List.append_assoc, List.take_append_drop,
    ← List.append_assoc (m.longer.take count)] using
    h.append_right (m.longer.drop count ++ m.shorter)

theorem elements_takeShorter (count : Nat) (m : Merging α) :
    (m.takeShorter count).elements.Perm m.elements := by
  have h : ((m.shorter.take count).reverse ++ (m.merged ++ m.longer)).Perm
      ((m.merged ++ m.longer) ++ m.shorter.take count) :=
    ((List.reverse_perm _).append_right _).trans List.perm_append_comm
  simpa only [elements, takeShorter, List.append_assoc, List.take_append_drop] using
    h.append_right (m.shorter.drop count)

theorem elements_andThen {next : Merging α → Merging α} (m : Merging α)
    (h : ∀ m : Merging α, (next m).elements.Perm m.elements) :
    (m.andThen next).elements.Perm m.elements := by
  rw [andThen]
  split
  · exact .refl _
  · exact h m

theorem elements_takeOne (less : α → α → Bool) (m : Merging α) :
    (m.takeOne less).elements.Perm m.elements := by
  rw [takeOne]
  split
  · split
    · exact elements_takeLonger 1 m
    · exact elements_takeShorter 1 m
  · exact .refl _

theorem elements_losePatience (m : Merging α) : m.losePatience.elements.Perm m.elements := by
  rw [losePatience]
  split <;> exact .refl _

theorem elements_weighLeaps (m : Merging α) : m.weighLeaps.elements.Perm m.elements := by
  rw [weighLeaps]
  split <;> exact .refl _

theorem elements_leapShorter (side : Side) (less : α → α → Bool) (m : Merging α) :
    (m.leapShorter side less).elements.Perm m.elements := by
  rw [leapShorter]
  split
  · exact .refl _
  · exact elements_takeShorter _ m

theorem elements_leapLonger (side : Side) (less : α → α → Bool) (m : Merging α) :
    (m.leapLonger side less).elements.Perm m.elements := by
  rw [leapLonger]
  split
  · exact .refl _
  · exact elements_takeLonger _ m

theorem elements_leapBoth (side : Side) (less : α → α → Bool) (m : Merging α) :
    (m.leapBoth side less).elements.Perm m.elements := by
  cases side
  · exact (elements_andThen _ (elements_takeShorter 1)).trans <|
      (elements_andThen _ (elements_leapLonger .front less)).trans <|
      (elements_andThen _ (elements_takeLonger 1)).trans (elements_leapShorter .front less m)
  · exact (elements_andThen _ (elements_takeLonger 1)).trans <|
      (elements_andThen _ (elements_leapShorter .back less)).trans <|
      (elements_andThen _ (elements_takeShorter 1)).trans (elements_leapLonger .back less m)

theorem elements_step (side : Side) (less : α → α → Bool) (m : Merging α) :
    (m.step side less).elements.Perm m.elements := by
  rw [step]
  split
  · exact (elements_andThen _ elements_weighLeaps).trans (elements_leapBoth side less m)
  · exact (elements_andThen _ elements_losePatience).trans (elements_takeOne less m)

theorem elements_run (side : Side) (less : α → α → Bool) (steps : Nat) (m : Merging α) :
    (run side less steps m).elements.Perm m.elements := by
  induction steps generalizing m with
  | zero => exact .refl _
  | succ more ih =>
      exact elements_andThen m fun m => (ih _).trans (elements_step side less m)

theorem between_perm (side : Side) (less : α → α → Bool) (patience : Nat)
    (shorter longer : List α) :
    (between side less patience shorter longer).result.Perm (longer ++ shorter) :=
  (result_perm _).trans <| (elements_run side less _ _).trans <| elements_takeLonger 1 _

end Merging

/-! ## §2. Two runs. -/

theorem mergeOverlap_perm (less : α → α → Bool) (patience : Nat) (first second : List α) :
    (mergeOverlap less patience first second).1.Perm (first ++ second) := by
  rw [mergeOverlap]
  split
  · exact (Merging.between_perm ..).trans List.perm_append_comm
  · exact (List.reverse_perm _).trans <| (Merging.between_perm ..).trans <|
      (List.reverse_perm _).append (List.reverse_perm _)

theorem merge_perm (less : α → α → Bool) (patience : Nat) (first second : List α) :
    (merge less patience first second).1.Perm (first ++ second) := by
  rw [merge]
  split
  · simp only
    split
    · exact .refl _
    · rename_i least greatest _ _ _
      generalize gallop .front (fun x => !less least x) first = before
      generalize second.length - gallop .back (fun y => !less y greatest) second.reverse = inner
      -- The ends that are in place already stay where they are.
      have h := mergeOverlap_perm less patience (first.drop before) (second.take inner)
      refine ((h.append_right (second.drop inner)).append_left (first.take before)).trans ?_
      rw [List.append_assoc, List.take_append_drop, ← List.append_assoc, List.take_append_drop]
  · exact .refl _

/-! ## §3. One run. -/

theorem leadingRun_perm (less : α → α → Bool) (xs : List α) :
    ((leadingRun less xs).1 ++ (leadingRun less xs).2).Perm xs := by
  rw [leadingRun.eq_def]
  split
  · simp only
    split
    · exact ((List.reverse_perm _).append_right _).trans (by simp)
    · simp
  · simp

theorem leadingRun_ne_nil (less : α → α → Bool) {xs : List α} (h : xs ≠ []) :
    (leadingRun less xs).1 ≠ [] := by
  rw [leadingRun.eq_def]
  split
  · simp only
    split <;> simp
  · exact h

theorem insertByHalving_perm (less : α → α → Bool) (run : List α) (x : α) :
    (insertByHalving less run x).Perm (run ++ [x]) := by
  rw [insertByHalving]
  generalize halve _ _ _ _ = place
  refine List.perm_middle.trans ?_
  rw [List.take_append_drop]
  exact (List.perm_append_singleton x run).symm

theorem foldl_insertByHalving_perm (less : α → α → Bool) (xs run : List α) :
    (xs.foldl (insertByHalving less) run).Perm (run ++ xs) := by
  induction xs generalizing run with
  | nil => simp
  | cons x xs ih =>
      refine (ih _).trans ?_
      simpa using (insertByHalving_perm less run x).append_right xs

theorem cutRun_perm (less : α → α → Bool) (least : Nat) (xs : List α) :
    ((cutRun less least xs).1 ++ (cutRun less least xs).2).Perm xs := by
  rw [cutRun]
  refine ((foldl_insertByHalving_perm less _ _).append_right _).trans ?_
  simpa [List.append_assoc] using leadingRun_perm less xs

/-- Filling up only makes a run longer. -/
theorem leadingRun_length_le (less : α → α → Bool) (least : Nat) (xs : List α) :
    (leadingRun less xs).1.length ≤ (cutRun less least xs).1.length := by
  have h := (foldl_insertByHalving_perm less ((leadingRun less xs).2.take
    (least - (leadingRun less xs).1.length)) (leadingRun less xs).1).length_eq
  rw [cutRun]
  simp only
  rw [h, List.length_append]
  omega

theorem cutRun_length_lt (less : α → α → Bool) (least : Nat) {xs : List α} (h : xs ≠ []) :
    (cutRun less least xs).2.length < xs.length := by
  have hsum := (cutRun_perm less least xs).length_eq
  have hrun := List.length_pos_iff.2 (leadingRun_ne_nil less h)
  have hcut := leadingRun_length_le less least xs
  rw [List.length_append] at hsum
  omega

/-! ## §4. The pile. -/

namespace Pile

theorem elements_join (less : α → α → Bool) (pair : Pair) (p : Pile α) :
    (p.join less pair).elements.Perm p.elements := by
  obtain ⟨runs, patience⟩ := p
  rw [join.eq_def]
  -- The pile lists its runs from the top, and a pair lies at the top or below it.
  split
  · simp_all only [elements]
    simpa [List.append_assoc] using (merge_perm less patience _ _).append_left _
  · simp_all only [elements]
    simp only [List.reverse_cons, List.flatten_append, List.append_assoc, List.flatten_cons,
      List.flatten_nil, List.append_nil]
    refine List.Perm.append_left _ ?_
    simpa [List.append_assoc] using (merge_perm less patience _ _).append_right _
  · exact .refl _

theorem elements_settle (less : α → α → Bool) (steps : Nat) (p : Pile α) :
    (p.settle less steps).elements.Perm p.elements := by
  induction steps generalizing p with
  | zero => exact .refl _
  | succ more ih =>
      rw [settle]
      split
      · exact (ih _).trans (elements_join less _ p)
      · exact .refl _

theorem elements_squeeze (less : α → α → Bool) (steps : Nat) (p : Pile α) :
    (p.squeeze less steps).elements.Perm p.elements := by
  induction steps generalizing p with
  | zero => exact .refl _
  | succ more ih => exact (ih _).trans (elements_join less _ p)

theorem elements_push (less : α → α → Bool) (run : List α) (p : Pile α) :
    (p.push less run).elements.Perm (p.elements ++ run) := by
  refine (elements_settle less _ _).trans ?_
  simp [elements]

end Pile

/-! ## §5. The whole list. -/

theorem pileUp_perm (less : α → α → Bool) (least count : Nat) (xs : List α) (p : Pile α)
    (h : xs.length ≤ count) :
    (pileUp less least count xs p).elements.Perm (p.elements ++ xs) := by
  induction count generalizing xs p with
  | zero =>
      rw [List.length_eq_zero_iff.1 (Nat.le_zero.1 h)]
      simp [pileUp]
  | succ more ih =>
      cases xs with
      | nil => simp [pileUp]
      | cons x xs =>
          -- No run is empty, so what is left is shorter and the count lasts.
          have hrest := cutRun_length_lt less least (List.cons_ne_nil x xs)
          rw [pileUp]
          refine (ih (cutRun less least (x :: xs)).2 _ (by omega)).trans ?_
          refine ((Pile.elements_push less _ p).append_right _).trans ?_
          rw [List.append_assoc]
          exact (cutRun_perm less least (x :: xs)).append_left _

/-- **Sorting by runs rearranges.** -/
theorem byRuns_perm (less : α → α → Bool) (xs : List α) : (byRuns less xs).Perm xs :=
  (Pile.elements_squeeze less _ _).trans <|
    (pileUp_perm less _ _ xs _ (Nat.le_refl _)).trans (by simp [Pile.elements])

end OracleNFA.Sorting
