/-
  OracleNFA.Proofs.RangeIssues
  ────────────────────────────
  **EVERY RANGE FAULT IS REPORTED, AND ONCE.**

  The last test of a definition goes through a table whose parts may all be at fault: keys
  that are no decimals, targets that are no integers, a largest state below zero.  What is
  out of range there is said of the data alone, level by level (`TargetFault`, `EntryFault`,
  `RangeFault`), with the place where it stands: the number of the entry, then that of the
  rule, then that of the field.

  A list of issues reports some faults (`Reports`) if it has one issue for each and stands
  in the order of their places.  Reports are put together as lists are:

      Reports.append  — one part of the data before another
      Reports.forall₂ — the members of a list, each behind its number

  so each level of the last test reports the faults of that level.  No part of a definition
  complains about a range (`Definition.issues_check`), so all issues of a definition are
  those of its parts and then its range faults.
-/
import OracleNFA.Proofs.Kinds

namespace OracleNFA

/-! ## §1. Faults of range, and where they stand. -/

/-- A target of a rule above the largest state. -/
inductive TargetFault (largest : Number) (fields : List (Text × Value)) : List Nat → Issue → Prop
  | next {x : Number} (given : Value.lookup "next" fields = .number x)
      (above : largest.lt x = true) :
      TargetFault largest fields [0] ⟨[.key "next"], .targetOutOfRange x largest⟩
  | branch {x : Number} (given : Value.lookup "branch" fields = .number x)
      (above : largest.lt x = true) :
      TargetFault largest fields [1] ⟨[.key "branch"], .targetOutOfRange x largest⟩

/-- A key that is no exact state, or else one above the largest state, or a fault of a rule
under it.  The last two need a largest state. -/
inductive EntryFault (largest : Option Number) (entry : Text × Value) : List Nat → Issue → Prop
  | keyNotSafe (inexact : (Number.ofText entry.1).isSafeInteger = false) :
      EntryFault largest entry [] ⟨[], .keyNotSafe⟩
  | keyOutOfRange {m : Number} (given : largest = some m)
      (safe : (Number.ofText entry.1).isSafeInteger = true)
      (above : m.lt (Number.ofText entry.1) = true) :
      EntryFault largest entry [] ⟨[], .keyOutOfRange m⟩
  | target {m : Number} {values : List Value} {j : Nat} {fields : List (Text × Value)}
      {p : List Nat} {i : Issue} (given : largest = some m) (rules : entry.2 = .array values)
      (rule : values[j]? = some (.object fields)) (fault : TargetFault m fields p i) :
      EntryFault largest entry (j :: p) (i.under (.index j))

/-- A fault of an entry. -/
inductive RangeFault (largest : Option Number) (entries : List (Text × Value)) :
    List Nat → Issue → Prop
  | entry {k : Nat} {entry : Text × Value} {p : List Nat} {i : Issue}
      (stands : entries[k]? = some entry) (fault : EntryFault largest entry p i) :
      RangeFault largest entries (k :: p) ((i.under (.key entry.1)).under (.key "states"))

/-- The issues are those of the faults, one for each, in the order of their places. -/
def Reports (fault : List Nat → Issue → Prop) (issues : List Issue) : Prop :=
  ∃ found : List (List Nat × Issue), found.map Prod.snd = issues ∧
    found.Pairwise (fun a b => a.1 < b.1) ∧ ∀ e, e ∈ found ↔ fault e.1 e.2

/-! ## §2. Reports of lists. -/

namespace Reports

variable {f g : List Nat → Issue → Prop} {xs ys : List Issue}

theorem congr (h : Reports f xs) (hfg : ∀ p i, f p i ↔ g p i) : Reports g xs := by
  obtain ⟨found, hissues, hordered, hmem⟩ := h
  exact ⟨found, hissues, hordered, fun e => (hmem e).trans (hfg e.1 e.2)⟩

/-- Nothing is reported exactly if there is no fault. -/
theorem eq_nil_iff (h : Reports f xs) : xs = [] ↔ ∀ p i, ¬ f p i := by
  obtain ⟨found, rfl, _, hmem⟩ := h
  rw [List.map_eq_nil_iff, List.eq_nil_iff_forall_not_mem, Prod.forall]
  exact forall₂_congr fun p i => not_congr (hmem (p, i))

theorem none (h : ∀ p i, ¬ f p i) : Reports f [] :=
  ⟨[], rfl, .nil, fun e => iff_of_false (by simp) (h e.1 e.2)⟩

/-- One fault at most. -/
theorem option (p : List Nat) (o : Option Issue) :
    Reports (fun q i => q = p ∧ o = some i) o.toList := by
  cases o with
  | none => exact none (by simp)
  | some i =>
      refine ⟨[(p, i)], rfl, List.pairwise_singleton _ _, fun e => ?_⟩
      rw [List.mem_singleton, Prod.ext_iff]
      simp [eq_comm]

/-- Two reports of which the one stands before the other. -/
theorem append (hx : Reports f xs) (hy : Reports g ys)
    (hlt : ∀ p i q j, f p i → g q j → p < q) :
    Reports (fun p i => f p i ∨ g p i) (xs ++ ys) := by
  obtain ⟨found, rfl, hordered, hmem⟩ := hx
  obtain ⟨found', rfl, hordered', hmem'⟩ := hy
  refine ⟨found ++ found', List.map_append, List.pairwise_append.2 ⟨hordered, hordered', ?_⟩, ?_⟩
  · intro a ha b hb
    exact hlt _ _ _ _ ((hmem a).1 ha) ((hmem' b).1 hb)
  · intro e
    rw [List.mem_append, hmem, hmem']

/-- Issues seen from further out. -/
theorem map (w : Issue → Issue) (h : Reports f xs) :
    Reports (fun p i => ∃ j, f p j ∧ w j = i) (xs.map w) := by
  obtain ⟨found, rfl, hordered, hmem⟩ := h
  refine ⟨found.map fun e => (e.1, w e.2), by simp, List.pairwise_map.2 hordered, fun e => ?_⟩
  simp only [List.mem_map, hmem, Prod.exists]
  constructor
  · rintro ⟨p, j, hj, rfl⟩
    exact ⟨j, hj, rfl⟩
  · rintro ⟨j, hj, hi⟩
    exact ⟨e.1, j, hj, Prod.ext rfl hi⟩

/-- Places behind a number. -/
theorem behind (k : Nat) (h : Reports f xs) : Reports (fun p i => ∃ q, p = k :: q ∧ f q i) xs := by
  obtain ⟨found, rfl, hordered, hmem⟩ := h
  refine ⟨found.map fun e => (k :: e.1, e.2), by simp, List.pairwise_map.2 ?_, fun e => ?_⟩
  · exact hordered.imp fun hab => List.cons_lt_cons_iff.2 (.inr ⟨rfl, hab⟩)
  · simp only [List.mem_map, hmem, Prod.exists]
    constructor
    · rintro ⟨q, i, hi, rfl⟩
      exact ⟨q, rfl, hi⟩
    · rintro ⟨q, hp, hi⟩
      exact ⟨q, e.2, hi, Prod.ext hp.symm rfl⟩

/-- **The members of a list, each behind its number.**  What is reported of a member is found
on what was read of it. -/
theorem forall₂ {α β : Type} {R : α → β → Prop} {as : List α} {bs : List β}
    (h : List.Forall₂ R as bs) {fault : Nat → α → List Nat → Issue → Prop}
    {issues : Nat → β → List Issue} (heach : ∀ k a b, R a b → Reports (fault k a) (issues k b)) :
    ∀ start : Nat, Reports
      (fun p i => ∃ a k q, (a, k) ∈ as.zipIdx start ∧ p = k :: q ∧ fault k a q i)
      ((bs.zipIdx start).flatMap fun e => issues e.2 e.1) := by
  induction h with
  | nil => exact fun start => none (by simp)
  | @cons a b as bs hab _ ih =>
      intro start
      simp only [List.zipIdx_cons, List.flatMap_cons]
      refine (((heach start a b hab).behind start).append (ih (start + 1)) ?_).congr fun p i => ?_
      · rintro _ _ _ _ ⟨q, rfl, _⟩ ⟨a', k, q', hk, rfl, _⟩
        exact List.cons_lt_cons_iff.2 (.inl (List.le_snd_of_mem_zipIdx hk))
      · simp only [List.mem_cons, Prod.mk.injEq]
        constructor
        · rintro (⟨q, hp, hi⟩ | ⟨a', k, q, hk, hp, hi⟩)
          · exact ⟨a, start, q, .inl ⟨rfl, rfl⟩, hp, hi⟩
          · exact ⟨a', k, q, .inr hk, hp, hi⟩
        · rintro ⟨a', k, q, ⟨rfl, rfl⟩ | hk, hp, hi⟩
          · exact .inl ⟨q, hp, hi⟩
          · exact .inr ⟨a', k, q, hk, hp, hi⟩

/-- What is reported only where something is given. -/
theorem given {α : Type} {fault : α → List Nat → Issue → Prop} {issues : α → List Issue}
    (h : ∀ a, Reports (fault a) (issues a)) (o : Option α) :
    Reports (fun p i => ∃ a, o = some a ∧ fault a p i) ((o.map issues).getD []) := by
  cases o with
  | none => exact none (by simp)
  | some a => exact (h a).congr (by simp)

end Reports

/-! ## §3. The last test, level by level. -/

namespace Definition

variable {largest : Number} {given : Option Number}

/-- The issue of a target, if it is above the largest state. -/
def targetIssue? (largest : Number) (name : Text) (target : Number) : Option Issue :=
  if largest.lt target then some ⟨[.key name], .targetOutOfRange target largest⟩ else none

theorem targetIssue?_eq_some {name : Text} {target : Number} {i : Issue} :
    targetIssue? largest name target = some i ↔
      largest.lt target = true ∧ i = ⟨[.key name], .targetOutOfRange target largest⟩ := by
  unfold targetIssue?
  rw [Option.ite_none_right_eq_some, Option.some_inj, @eq_comm _ i]

theorem targetIssues_eq (r : Rule Number) : targetIssues largest r =
    (targetIssue? largest "next" r.next).toList ++
      (r.branch.bind (targetIssue? largest "branch")).toList := by
  unfold targetIssues targetIssue?
  dsimp only
  congr 1
  · split <;> rfl
  · cases r.branch with
    | none => rfl
    | some b =>
        show (if largest.lt b = true then _ else _) = _
        rw [Option.bind_some]
        split <;> rfl

/-- **The targets of a rule.** -/
theorem reports_targetIssues {fields : List (Text × Value)} {r : Rule Number}
    (hnext : (Value.lookup "next" fields).Holds (some r.next))
    (hbranch : (Value.lookup "branch" fields).Holds r.branch) :
    Reports (TargetFault largest fields) (targetIssues largest r) := by
  rw [targetIssues_eq]
  refine ((Reports.option [0] _).append (Reports.option [1] _) ?_).congr fun p i => ?_
  · rintro _ _ _ _ ⟨rfl, _⟩ ⟨rfl, _⟩
    decide
  · simp only [targetIssue?_eq_some, Option.bind_eq_some_iff]
    constructor
    · rintro (⟨rfl, habove, rfl⟩ | ⟨rfl, b, hb, habove, rfl⟩)
      · exact .next hnext.1 habove
      · rw [hb] at hbranch
        exact .branch hbranch.1 habove
    · rintro (⟨hgiven, habove⟩ | ⟨hgiven, habove⟩)
      · obtain rfl := Value.number.inj (hnext.1.symm.trans hgiven)
        exact .inl ⟨rfl, habove, rfl⟩
      · cases hb : r.branch with
        | none =>
            rw [hb] at hbranch
            exact nomatch hgiven.symm.trans hbranch
        | some b =>
            rw [hb] at hbranch
            obtain rfl := Value.number.inj (hbranch.1.symm.trans hgiven)
            exact .inr ⟨rfl, b, rfl, habove, rfl⟩

theorem rulesIssues_eq (rules : List (Rule Number)) : ∀ start : Nat,
    rulesIssues largest start rules = (rules.zipIdx start).flatMap fun e =>
      (targetIssues largest e.1).map (Issue.under (.index e.2)) := by
  induction rules with
  | nil => exact fun start => rfl
  | cons r rest ih =>
      intro start
      rw [rulesIssues, ih (start + 1)]
      rfl

/-- **The rules under a key.** -/
theorem reports_rulesIssues (largest : Number) {values : List Value} {rules : List (Rule Number)}
    (h : List.Forall₂ Rule.LeadsTo values rules) :
    Reports (fun p i => ∃ j fields q i', values[j]? = some (.object fields) ∧ p = j :: q ∧
      TargetFault largest fields q i' ∧ i'.under (.index j) = i) (rulesIssues largest 0 rules) := by
  have heach : ∀ j w r, Rule.LeadsTo w r → Reports
      (fun q i => ∃ fields, w = .object fields ∧
        ∃ i', TargetFault largest fields q i' ∧ i'.under (.index j) = i)
      ((targetIssues largest r).map (Issue.under (.index j))) := by
    rintro j _ r ⟨fields, rfl, hnext, hbranch⟩
    refine ((reports_targetIssues hnext hbranch).map _).congr fun p i => ?_
    simp
  rw [rulesIssues_eq]
  refine (Reports.forall₂ h heach 0).congr fun p i => ?_
  simp only [List.mk_mem_zipIdx_iff_getElem?]
  constructor
  · rintro ⟨_, j, q, hj, hp, fields, rfl, i', hfault, hi⟩
    exact ⟨j, fields, q, i', hj, hp, hfault, hi⟩
  · rintro ⟨j, fields, q, i', hj, hp, hfault, hi⟩
    exact ⟨_, j, q, hj, hp, fields, rfl, i', hfault, hi⟩

theorem keyComplaint?_eq_some {key : Text} {c : Complaint} :
    keyComplaint? given key = some c ↔
      (Number.ofText key).isSafeInteger = false ∧ c = .keyNotSafe ∨
        ∃ m, given = some m ∧ (Number.ofText key).isSafeInteger = true ∧
          m.lt (Number.ofText key) = true ∧ c = .keyOutOfRange m := by
  unfold keyComplaint?
  dsimp only
  cases (Number.ofText key).isSafeInteger with
  | false => simp [@eq_comm _ c]
  | true => cases given <;> simp [@eq_comm _ c]

/-- **An entry: its key, and then its rules.** -/
theorem reports_entryIssues {entry : Text × Value} {e : Text × List (Rule Number)}
    (h : EntryLeadsTo entry e) :
    Reports (fun p i => ∃ j, EntryFault given entry p j ∧
      (j.under (.key entry.1)).under (.key "states") = i) (entryIssues given e) := by
  obtain ⟨key, rules⟩ := e
  obtain ⟨rfl, values, hvalues, hrules⟩ := h
  unfold entryIssues
  refine Reports.map _ ?_
  refine ((Reports.option [] _).append
    (Reports.given (fun m => reports_rulesIssues m hrules) given) ?_).congr
      fun p i => ?_
  · rintro _ _ _ _ ⟨rfl, _⟩ ⟨_, _, j, _, q, _, _, rfl, _⟩
    exact List.nil_lt_cons j q
  · simp only [Option.map_eq_some_iff, keyComplaint?_eq_some]
    constructor
    · rintro (⟨rfl, c, ⟨hinexact, rfl⟩ | ⟨m, hm, hsafe, habove, rfl⟩, rfl⟩ |
        ⟨m, hm, j, fields, q, i', hj, rfl, hfault, rfl⟩)
      · exact .keyNotSafe hinexact
      · exact .keyOutOfRange hm hsafe habove
      · exact .target hm hvalues hj hfault
    · rintro (hinexact | ⟨hm, hsafe, habove⟩ | ⟨hm, hvalues', hj, hfault⟩)
      · exact .inl ⟨rfl, _, .inl ⟨hinexact, rfl⟩, rfl⟩
      · exact .inl ⟨rfl, _, .inr ⟨_, hm, hsafe, habove, rfl⟩, rfl⟩
      · obtain rfl := Value.array.inj (hvalues.symm.trans hvalues')
        exact .inr ⟨_, hm, _, _, _, _, hj, rfl, hfault, rfl⟩

/-- **The whole table.** -/
theorem reports_rangeIssues {entries : List (Text × Value)} {d : Definition Number}
    (h : List.Forall₂ EntryLeadsTo entries d.states) :
    Reports (RangeFault d.sentinels.maxStateId entries) (rangeIssues d) := by
  have hissues : rangeIssues d =
      (d.states.zipIdx 0).flatMap fun e => entryIssues d.sentinels.maxStateId e.1 := by
    show d.states.flatMap _ = _
    conv_lhs => rw [← List.zipIdx_map_fst 0 d.states, List.flatMap_map]
  rw [hissues]
  refine (Reports.forall₂ h (fun _ _ _ he => reports_entryIssues he) 0).congr fun p i => ?_
  simp only [List.mk_mem_zipIdx_iff_getElem?]
  constructor
  · rintro ⟨entry, k, q, hk, rfl, j, hfault, rfl⟩
    exact .entry hk hfault
  · rintro ⟨hk, hfault⟩
    exact ⟨_, _, _, hk, rfl, _, hfault, rfl⟩

end Definition

/-! ## §4. Complaints of the parts. -/

/-- The complaints about faults of range. -/
@[simp] def Complaint.IsRange : Complaint → Prop
  | .keyNotSafe | .keyOutOfRange _ | .targetOutOfRange _ _ => True
  | _ => False

/-- The complaints that are left to the parts of a definition. -/
@[simp] def Complaint.OfPart (c : Complaint) : Prop :=
  ¬ c.IsRange

namespace Check

variable {α : Type} {v : Value} {check : Check α}

@[simp] theorem ofPart_wrong {expected : Kind} :
    (wrong expected v : Checked α).Complains Complaint.OfPart :=
  Checked.complains_fail.2 id

@[simp] theorem ofPart_bool : (bool v).Complains Complaint.OfPart := by
  cases v <;> simp [bool]

@[simp] theorem ofPart_text : (text v).Complains Complaint.OfPart := by
  cases v <;> simp [text]

@[simp] theorem ofPart_someText : (someText v).Complains Complaint.OfPart := by
  refine Checked.complains_refine.2 ⟨ofPart_text, fun t _ => ?_⟩
  split <;> simp

@[simp] theorem ofPart_number : (number v).Complains Complaint.OfPart := by
  unfold number
  split <;> simp

@[simp] theorem ofPart_natural : (natural v).Complains Complaint.OfPart := by
  refine Checked.complains_refine.2 ⟨ofPart_number, fun x _ => ?_⟩
  unfold naturalIssues
  refine Issue.allComplain_append.2 ⟨?_, ?_⟩ <;> split <;> simp

@[simp] theorem ofPart_optional (h : ∀ v, (check v).Complains Complaint.OfPart) :
    (optional check v).Complains Complaint.OfPart := by
  unfold optional
  split
  · simp
  · simpa using h v

@[simp] theorem ofPart_list (h : ∀ v, (check v).Complains Complaint.OfPart) :
    (list check v).Complains Complaint.OfPart := by
  have hitems : ∀ values i, ∀ c ∈ items check i values, c.Complains Complaint.OfPart := by
    intro values
    induction values with
    | nil => simp [items]
    | cons w rest ih =>
        intro i
        exact List.forall_mem_cons.2 ⟨Checked.complains_under.2 (h w), ih (i + 1)⟩
  unfold list
  split
  · exact Checked.complains_all.2 (hitems _ 0)
  · simp

theorem ofPart_object {check : List (Text × Value) → Checked α}
    (h : ∀ fields, (check fields).Complains Complaint.OfPart) :
    (object check v).Complains Complaint.OfPart := by
  unfold object
  split
  · exact h _
  · simp

@[simp] theorem ofPart_field {fields : List (Text × Value)} {key : Text}
    (h : ∀ v, (check v).Complains Complaint.OfPart) :
    (field fields key check).Complains Complaint.OfPart :=
  Checked.complains_under.2 (h _)

@[simp] theorem ofPart_closed {known : List Text} {fields : List (Text × Value)} {c : Checked α} :
    (closed known fields c).Complains Complaint.OfPart ↔ c.Complains Complaint.OfPart := by
  refine Checked.complains_also.trans (and_iff_left ?_)
  split <;> simp

end Check

@[simp] theorem Rule.ofPart_check {v : Value} : (check v).Complains Complaint.OfPart :=
  Check.ofPart_object fun fields => by simp

@[simp] theorem Sentinels.ofPart_check {v : Value} : (check v).Complains Complaint.OfPart := by
  refine Check.ofPart_object fun fields => ?_
  simp only [Checked.complains_refine]
  refine ⟨⟨by simp, fun s _ => ?_⟩, fun s _ => ?_⟩
  · unfold distinctIssues
    split <;> simp
  · unfold rangeIssues
    split
    · split <;> simp
    · simp

namespace Definition

theorem ofPart_checkEntry {entry : Text × Value} :
    (checkEntry entry).Complains Complaint.OfPart := by
  unfold checkEntry
  simp only [Checked.complains_under, Checked.complains_ap, Checked.complains_fmap,
    Checked.complains_flagged]
  refine ⟨?_, by simp⟩
  unfold keyIssues
  split <;> simp

@[simp] theorem ofPart_checkStates {v : Value} : (checkStates v).Complains Complaint.OfPart := by
  refine Check.ofPart_object fun fields => ?_
  rw [Checked.complains_map, Checked.complains_all, List.forall_mem_map]
  exact fun entry _ => ofPart_checkEntry

/-- **The parts of a definition first, and then the last test.** -/
theorem issues_check {v : Value} {d : Definition Number} (h : (check v).Reads d) :
    ∃ before, Issue.AllComplain Complaint.OfPart before ∧
      (check v).issues = before ++ rangeIssues d := by
  obtain ⟨fields, rfl, hd⟩ := Check.reads_object.1 h
  refine ⟨_, ?_, Checked.issues_refine hd⟩
  show Checked.Complains _ _
  simp

end Definition

/-! ## §5. All issues of a definition. -/

/-- **The issues of a definition that can be read** are those of its parts, and then one for
each range fault in the entries that the table keeps. -/
theorem Definition.Typed.issues_eq {v : Value} {largest : Option Number}
    {entries : List (Text × Value)} (h : Typed v largest entries) :
    ∃ before after, Issue.AllComplain Complaint.OfPart before ∧
      Reports (RangeFault largest (kept entries)) after ∧ (check v).issues = before ++ after := by
  obtain ⟨d, hreads, rfl⟩ := exists_reads.2 ⟨entries, h⟩
  -- What is read has the entries of the data, since a value is one object only.
  obtain ⟨entries', h', hleads⟩ := typed_of_reads hreads
  obtain rfl : entries' = entries := Value.object.inj (h'.states.symm.trans h.states)
  obtain ⟨before, hbefore, hissues⟩ := issues_check hreads
  exact ⟨before, rangeIssues d, hbefore, reports_rangeIssues hleads, hissues⟩

/-- **Every range fault of a definition is reported, and once.**  A definition is read
exactly if every value in it is of the right kind.  Its issues are then those of its parts,
which never are about a range, followed by one issue for each fault of range in the entries
that the table keeps, in the order of the entries and of the rules under them.  No fault hides
another, and where there is none no range is complained about.  A definition is accepted
where there is no issue at all, and refused with all issues else. -/
theorem range_faults_reported_once (v : Value) :
    ((∃ d, (Definition.check v).value? = some d) ↔
      ∃ largest entries, Definition.Typed v largest entries) ∧
    ∀ largest entries, Definition.Typed v largest entries →
      ∃ before after, Issue.AllComplain Complaint.OfPart before ∧
        Reports (RangeFault largest (Definition.kept entries)) after ∧
        (after = [] ↔ ∀ p i, ¬ RangeFault largest (Definition.kept entries) p i) ∧
        ((before ++ after = [] ∧ ∃ d, Definition.ofValue v = .ok d) ∨
          before ++ after ≠ [] ∧
            Definition.ofValue v = .error (.definition (before ++ after))) := by
  constructor
  · simp only [← Definition.exists_reads]
    exact ⟨fun ⟨d, hd⟩ => ⟨_, d, hd, rfl⟩, fun ⟨_, d, hd, _⟩ => ⟨d, hd⟩⟩
  · intro largest entries htyped
    obtain ⟨before, after, hbefore, hreports, hissues⟩ := htyped.issues_eq
    refine ⟨before, after, hbefore, hreports, hreports.eq_nil_iff, ?_⟩
    rw [← hissues]
    unfold Definition.ofValue
    cases hresult : (Definition.check v).result with
    | ok d => exact .inl ⟨(Checked.result_eq_ok.1 hresult).1, _, rfl⟩
    | error issues =>
        rw [Checked.issues_eq_of_result hresult]
        exact .inr ⟨Checked.issues_of_result hresult, rfl⟩

/-- Keys that are inexact, too large, no decimal at all or not kept, over rules that lead too
far. -/
theorem range_faults_reported_once_dirtyKeys :
    let state (id : Nat) : Value := .number (.ofNat id)
    let rule (next branch : Value) : Value := .object [("next", next), ("branch", branch)]
    let entries : List (Text × Value) :=
      [("9007199254740993", .array [rule (state 9) (state 6)]), ("007", .array []),
        ("x", .array [rule (.number (.infinite false)) .absent]),
        ("__proto__", .array [rule (state 9) .absent])]
    let raw : Value := .object
      [("sentinels", .object [("start", state 0), ("match", state 1), ("reject", state 2),
        ("maxStateId", state 5)]), ("states", .object entries)]
    Definition.Typed raw (some (.ofNat 5)) entries ∧
      ∃ before after, Definition.ofValue raw = .error (.definition (before ++ after)) ∧
        Issue.AllComplain Complaint.OfPart before ∧
        Reports (RangeFault (some (.ofNat 5)) (Definition.kept entries)) after := by
  intro state rule entries raw
  have hstate (id : Nat) : (state id).IsNumber := ⟨_, rfl, nofun⟩
  have hrule {next branch : Value} (hnext : next.IsNumber)
      (hbranch : branch.MissingOr Value.IsNumber) :
      ∃ fields, rule next branch = .object fields ∧ Rule.Typed fields :=
    ⟨_, rfl, .inl rfl, .inl rfl, .inl rfl, .inl rfl, .inl rfl, hnext, hbranch, .inl rfl⟩
  have htyped : Definition.Typed raw (some (.ofNat 5)) entries := by
    refine ⟨⟨_, rfl, hstate 0, hstate 1, hstate 2, .inl rfl, rfl, nofun⟩, rfl, ?_⟩
    simp only [entries, List.forall_mem_cons]
    refine ⟨⟨_, rfl, ?_⟩, ⟨_, rfl, nofun⟩, ⟨_, rfl, ?_⟩, ⟨_, rfl, ?_⟩, nofun⟩ <;>
      simp only [List.forall_mem_cons]
    · exact ⟨hrule (hstate 9) (.inr (hstate 6)), nofun⟩
    · exact ⟨hrule ⟨_, rfl, nofun⟩ (.inl rfl), nofun⟩
    · exact ⟨hrule (hstate 9) (.inl rfl), nofun⟩
  refine ⟨htyped, ?_⟩
  obtain ⟨before, after, hbefore, hafter, hnone, hresult⟩ :=
    (range_faults_reported_once raw).2 _ _ htyped
  refine ⟨before, after, ?_, hbefore, hafter⟩
  obtain ⟨hissues, _⟩ | ⟨_, herror⟩ := hresult
  · -- The first target of the first rule is too large.
    have hfault : RangeFault (some (.ofNat 5)) (Definition.kept entries) [0, 0, 0] _ :=
      .entry rfl (.target rfl rfl rfl (.next rfl (by decide)))
    exact absurd hfault (hnone.1 (List.append_eq_nil_iff.1 hissues).2 _ _)
  · exact herror

end OracleNFA
