/-
  OracleNFA.Proofs.Renaming
  ─────────────────────────
  **THE SAME AUTOMATON UNDER OTHER NUMBERS.**

  A permutation of the states that answers may name (`Numbering.Permutes`) renames
  an oracle: its reserved states, the states it is asked about and the states it
  answers with (`Oracle.Renames`).  Reading commutes with renaming, so an attempt
  on the renamed oracle has the renamed configuration graph:

      decode_renamed — what is read from a renamed answer
      Renamed.symm   — renaming can be undone
      Renamed.reaches, Renamed.ncard_workload, Renamed.furthest
                     — what is reached, how much there is to ask, and how far it goes
-/
import Mathlib.Logic.Equiv.Defs
import OracleNFA.Proofs.Verdict

namespace OracleNFA

variable {φ : Equiv.Perm Nat}

/-! ## §1. Renaming states. -/

namespace Number

/-- The state that a permutation of the natural numbers makes of a state.  What is
no natural number stays, and so does the zero with a sign, which no answer is read
as. -/
def renamed (φ : Equiv.Perm Nat) : Number → Number
  | .finite value =>
      match (Number.finite value).natural? with
      | some k => ofNat (φ k)
      | none => .finite value
  | x => x

@[simp] theorem renamed_ofNat (φ : Equiv.Perm Nat) (k : Nat) :
    (ofNat k).renamed φ = ofNat (φ k) := by
  show (match (ofNat k).natural? with | some k => ofNat (φ k) | none => ofNat k) = _
  rw [natural?_ofNat]

/-- Renaming can be undone. -/
theorem renamed_symm (φ : Equiv.Perm Nat) (x : Number) : (x.renamed φ).renamed φ.symm = x := by
  cases x with
  | nan => rfl
  | infinite negative => rfl
  | negativeZero => rfl
  | finite value =>
      cases hk : (Number.finite value).natural? with
      | none =>
          have hfixed : ∀ ψ : Equiv.Perm Nat, (Number.finite value).renamed ψ = .finite value := by
            intro ψ
            simp only [renamed, hk]
          rw [hfixed, hfixed]
      | some k =>
          obtain rfl : value = (k : Rat) := Option.some.inj (natural?_eq_some.1 hk)
          show ((ofNat k).renamed φ).renamed φ.symm = ofNat k
          rw [renamed_ofNat, renamed_ofNat, Equiv.symm_apply_apply]

theorem renamed_injective (φ : Equiv.Perm Nat) : Function.Injective (renamed φ) :=
  Function.LeftInverse.injective (renamed_symm φ)

/-- A state is renamed to a reserved one if it was that one. -/
theorem renamed_eq_iff {x : Number} {k : Nat} : x.renamed φ = ofNat (φ k) ↔ x = ofNat k := by
  rw [← renamed_ofNat]
  exact (renamed_injective φ).eq_iff

end Number

/-- The site of the renamed state. -/
def Site.renamed (φ : Equiv.Perm Nat) (u : Site) : Site :=
  ⟨u.position, u.state.renamed φ⟩

/-- The state of a site is a natural number, as that of every site to ask about is. -/
def Site.Numbered (u : Site) : Prop :=
  ∃ k, u.state = Number.ofNat k

/-- The query about the renamed state. -/
def Query.renamed (φ : Equiv.Perm Nat) (q : Query) : Query :=
  ⟨q.state.renamed φ, q.window⟩

@[simp] theorem Site.renamed_symm (φ : Equiv.Perm Nat) (u : Site) :
    (u.renamed φ).renamed φ.symm = u := by
  unfold renamed
  rw [Number.renamed_symm]

@[simp] theorem Site.symm_renamed (φ : Equiv.Perm Nat) (u : Site) :
    (u.renamed φ.symm).renamed φ = u :=
  u.renamed_symm φ.symm

theorem Site.renamed_injective (φ : Equiv.Perm Nat) : Function.Injective (renamed φ) :=
  Function.LeftInverse.injective (renamed_symm φ)

theorem Site.renamed_ofNat (φ : Equiv.Perm Nat) (p : Position) (k : Nat) :
    (⟨p, .ofNat k⟩ : Site).renamed φ = ⟨p, .ofNat (φ k)⟩ := by
  unfold renamed
  rw [Number.renamed_ofNat]

theorem Site.Numbered.renamed {u : Site} (h : u.Numbered) : (u.renamed φ).Numbered := by
  obtain ⟨k, hk⟩ := h
  refine ⟨φ k, ?_⟩
  unfold Site.renamed
  rw [hk, Number.renamed_ofNat]

/-! ## §2. Renaming answers. -/

namespace Numbering

variable {ids : Numbering}

/-- The permutation moves states that an answer may name, and no others. -/
def Permutes (ids : Numbering) (φ : Equiv.Perm Nat) : Prop :=
  ∀ k, ids.span ≤ k → φ k = k

theorem Permutes.lt_iff (h : ids.Permutes φ) {k : Nat} : φ k < ids.span ↔ k < ids.span := by
  constructor
  · intro hlt
    by_contra hge
    rw [h k (Nat.le_of_not_lt hge)] at hlt
    exact hge hlt
  · intro hlt
    by_contra hge
    have hfixed : φ k = k := φ.injective (h (φ k) (Nat.le_of_not_lt hge))
    rw [hfixed] at hge
    exact hge hlt

/-- The numbering with its reserved states renamed. -/
def renamed (φ : Equiv.Perm Nat) (ids : Numbering) : Numbering :=
  { ids with start := φ ids.start, accept := φ ids.accept, reject := φ ids.reject }

theorem validId?_of_lt {k : Nat} (h : k < ids.span) :
    ids.validId? (.number (.ofNat k)) = some (.ofNat k) := by
  unfold span at h
  have hmax : k ≤ ids.maxStateId := by omega
  have hsafe : k ≤ Number.maxSafe := by omega
  simp [validId?, Number.safeNatural?, hmax, hsafe]

end Numbering

/-- A valid state as an answer writes it, renamed; any other value as it is. -/
def Value.renamedId (ids : Numbering) (φ : Equiv.Perm Nat) (v : Value) : Value :=
  match ids.validId? v with
  | some s => .number (s.renamed φ)
  | none => v

/-- A field of an answer with the state in it renamed, if it is one for a successor. -/
def Value.renamedField (ids : Numbering) (φ : Equiv.Perm Nat) (field : Text × Value) :
    Text × Value :=
  (field.1,
    if field.1 = "nextState" ∨ field.1 = "secondState" then field.2.renamedId ids φ else field.2)

/-- An answer with the valid states among its successors renamed. -/
def Value.renamedAnswer (ids : Numbering) (φ : Equiv.Perm Nat) : Value → Value
  | .object fields => .object (fields.map (renamedField ids φ))
  | v => v

/-- What was read from an answer, with its successors renamed. -/
def Decoded.renamed (φ : Equiv.Perm Nat) (d : Decoded) : Decoded :=
  { d with successors := d.successors.map (Number.renamed φ) }

namespace Response

variable {ids : Numbering}

theorem validId?_renamedId (h : ids.Permutes φ) (v : Value) :
    ids.validId? (v.renamedId ids φ) = (ids.validId? v).map (Number.renamed φ) := by
  unfold Value.renamedId
  cases hv : ids.validId? v with
  | none => exact hv
  | some s =>
      obtain ⟨k, hk, rfl⟩ := Numbering.names_of_validId? hv
      dsimp only
      rw [Number.renamed_ofNat, Numbering.validId?_of_lt (h.lt_iff.2 hk), Option.map_some,
        Number.renamed_ofNat]

/-- A successor that is no state is the same problem as before. -/
theorem judge_renamed (h : ids.Permutes φ) (problem : Value → Problem) (v : Value) :
    judge ids problem (v.renamedId ids φ) = (judge ids problem v).map (Number.renamed φ) := by
  unfold judge
  rw [validId?_renamedId h]
  cases hv : ids.validId? v with
  | some s => rfl
  | none =>
      have hsame : v.renamedId ids φ = v := by
        unfold Value.renamedId
        rw [hv]
      rw [hsame]
      rfl

theorem states_map (f : StateId → StateId) (l : List (Except Problem StateId)) :
    states (l.map (Except.map f)) = (states l).map f := by
  induction l with
  | nil => rfl
  | cons x rest ih =>
      cases x with
      | ok s => exact congrArg (f s :: ·) ih
      | error p => exact ih

theorem problems_map (f : StateId → StateId) (l : List (Except Problem StateId)) :
    problems (l.map (Except.map f)) = problems l := by
  induction l with
  | nil => rfl
  | cons x rest ih =>
      cases x with
      | ok s => exact ih
      | error p => exact congrArg (p :: ·) ih

theorem lookup_renamedField (ids : Numbering) (φ : Equiv.Perm Nat) (key : Text)
    (fields : List (Text × Value)) :
    Value.lookup key (fields.map (Value.renamedField ids φ)) =
      if key = "nextState" ∨ key = "secondState" then (Value.lookup key fields).renamedId ids φ
      else Value.lookup key fields := by
  induction fields with
  | nil =>
      -- A field that is missing holds no valid state.
      show Value.absent = if _ then Value.renamedId ids φ .absent else .absent
      exact (ite_self _).symm
  | cons field rest ih =>
      obtain ⟨k, v⟩ := field
      rw [List.map_cons, Value.renamedField, Value.lookup, Value.lookup, ih]
      by_cases hk : k = key
      · subst hk
        rw [if_pos rfl, if_pos rfl]
      · rw [if_neg hk, if_neg hk]

/-- Only the successors in the shape of an answer change. -/
theorem check_renamed (ids : Numbering) (φ : Equiv.Perm Nat) (raw : Value) :
    (check (raw.renamedAnswer ids φ)).result = (check raw).result.map fun shape =>
      { shape with
        next := shape.next.renamedId ids φ
        branch := shape.branch.renamedId ids φ } := by
  cases raw with
  | object fields =>
      have hnext := lookup_renamedField ids φ "nextState" fields
      have hbranch := lookup_renamedField ids φ "secondState" fields
      have hconsumed := lookup_renamedField ids φ "consumed" fields
      have henabled := lookup_renamedField ids φ "enabled" fields
      rw [if_pos (by decide)] at hnext hbranch
      rw [if_neg (by decide)] at hconsumed henabled
      unfold check Value.renamedAnswer Check.object Check.field
      simp only [hnext, hbranch, hconsumed, henabled]
      generalize (Check.bool (Value.lookup "consumed" fields)).under (.key "consumed") = consumed
      generalize (Check.bool (Value.lookup "enabled" fields)).under (.key "enabled") = enabled
      simp only [Seq.seq, Functor.map, Checked.seq, Checked.map, Checked.result]
      cases consumed.value? <;> cases enabled.value? <;>
        cases consumed.issues ++ enabled.issues <;> rfl
  | _ => rfl

/-- **What is read from a renamed answer is what was read, renamed.** -/
theorem decode_renamed (h : ids.Permutes φ) (raw : Value) :
    decode (ids.renamed φ) (raw.renamedAnswer ids φ) =
      (decode ids raw).map (Decoded.renamed φ) := by
  unfold decode
  rw [check_renamed]
  cases (check raw).result with
  | error issues => rfl
  | ok shape =>
      obtain ⟨next, branch, consumed, enabled⟩ := shape
      have hjudged : judged (ids.renamed φ)
            ⟨next.renamedId ids φ, branch.renamedId ids φ, consumed, enabled⟩ =
          (judged ids ⟨next, branch, consumed, enabled⟩).map (Except.map (Number.renamed φ)) := by
        have hjudge : ∀ problem v, judge (ids.renamed φ) problem (v.renamedId ids φ) =
            (judge ids problem v).map (Number.renamed φ) := judge_renamed h
        unfold judged
        cases enabled <;> simp [hjudge]
      simp only [Except.map, hjudged, states_map, problems_map, Decoded.renamed]

end Response

/-! ## §3. Renamed oracles. -/

namespace Sentinels

variable {s : Sentinels Nat}

/-- The declaration with its reserved states renamed. -/
def renamed (φ : Equiv.Perm Nat) (s : Sentinels Nat) : Sentinels Nat :=
  { s with start := φ s.start, accept := φ s.accept, reject := φ s.reject }

/-- **A sound declaration stays sound.** -/
theorem Sound.renamed (h : s.Sound) (hφ : s.resolve.Permutes φ) : (s.renamed φ).Sound where
  start_ne_accept := fun heq => h.start_ne_accept (φ.injective heq)
  start_ne_reject := fun heq => h.start_ne_reject (φ.injective heq)
  accept_ne_reject := fun heq => h.accept_ne_reject (φ.injective heq)
  inRange := by
    intro m hm
    have hmax : s.resolve.maxStateId = m := by
      show s.maxStateId.getD _ = m
      rw [show s.maxStateId = some m from hm]
      rfl
    have himage : ∀ id ∈ s.reserved, φ id ≤ m := by
      intro id hid
      have hle := h.inRange m hm id hid
      by_cases hlt : id < s.resolve.span
      · have hspan := hφ.lt_iff.2 hlt
        unfold Numbering.span at hspan
        omega
      · rwa [hφ id (Nat.le_of_not_lt hlt)]
    simpa [reserved, Sentinels.renamed] using himage

end Sentinels

namespace Oracle

/-- An oracle is another one with its states renamed: it declares the renamed
reserved states and the same limits, and answers about a renamed state what the
other one answers about the state, with the valid successors renamed. -/
structure Renames (o : Oracle) (s : Sentinels Nat) (φ : Equiv.Perm Nat) (other : Oracle) :
    Prop where
  declares : ∃ fields, other.sentinels = .object fields ∧ Sentinels.Declares fields (s.renamed φ)
  answer : ∀ k window, other.answer ⟨Number.ofNat (φ k), window⟩ =
    (o.answer ⟨Number.ofNat k, window⟩).map (Value.renamedAnswer s.resolve φ)

/-- An oracle with its states renamed. -/
def renamed (o : Oracle) (s : Sentinels Nat) (φ : Equiv.Perm Nat) : Oracle where
  sentinels := (s.renamed φ).toValue
  answer := fun q =>
    match q.state.natural? with
    | some k =>
        (o.answer ⟨Number.ofNat (φ.symm k), q.window⟩).map (Value.renamedAnswer s.resolve φ)
    | none => o.answer q

/-- **Every oracle can be renamed.** -/
theorem renames_renamed (o : Oracle) (s : Sentinels Nat) (φ : Equiv.Perm Nat) :
    o.Renames s φ (o.renamed s φ) where
  declares := Sentinels.declares_toValue (s.renamed φ)
  answer := by
    intro k window
    simp [renamed]

variable {o other : Oracle} {s : Sentinels Nat}

/-- What answers every query does so when it is renamed. -/
theorem answers_renamed (hanswers : ∀ q, ∃ raw, o.answer q = .ok raw) (q : Query) :
    ∃ raw, (o.renamed s φ).answer q = .ok raw := by
  simp only [renamed]
  cases q.state.natural? with
  | none => exact hanswers q
  | some k =>
      obtain ⟨raw, hraw⟩ := hanswers ⟨Number.ofNat (φ.symm k), q.window⟩
      exact ⟨_, congrArg (Except.map _) hraw⟩

/-- A renamed oracle has a sound declaration. -/
theorem Renames.sentinels_eq (h : o.Renames s φ other) (hs : Sentinels.ofValue o.sentinels = .ok s)
    (hφ : s.resolve.Permutes φ) : Sentinels.ofValue other.sentinels = .ok (s.renamed φ) := by
  obtain ⟨_, _, _, hsound⟩ := Sentinels.ofValue_eq_ok.1 hs
  obtain ⟨fields, hfields, hdeclares⟩ := h.declares
  exact Sentinels.ofValue_eq_ok.2 ⟨fields, hfields, hdeclares, hsound.renamed hφ⟩

end Oracle

/-! ## §4. Renamed attempts. -/

/-- What a question brings, with its successors renamed. -/
def Answer.renamed (φ : Equiv.Perm Nat) (answer : Answer) : Answer :=
  ⟨answer.position, answer.successors.map (Number.renamed φ)⟩

namespace Attempt

variable {a b : Attempt}

/-- An attempt on the same input under the same budget, whose oracle fails where the
other one fails and whose answers are read as the others renamed. -/
structure Renamed (φ : Equiv.Perm Nat) (a b : Attempt) : Prop where
  input : b.input = a.input
  budget : b.budget = a.budget
  ids : b.ids = a.ids.renamed φ
  answered : ∀ (u : Site) raw, u.Numbered → a.oracle.answer (a.query u) = .ok raw →
    ∃ raw', b.oracle.answer (b.query (u.renamed φ)) = .ok raw' ∧
      Response.decode b.ids raw' = (Response.decode a.ids raw).map (Decoded.renamed φ)
  failed : ∀ (u : Site) failure, u.Numbered → a.oracle.answer (a.query u) = .error failure →
    b.oracle.answer (b.query (u.renamed φ)) = .error failure

namespace Renamed

theorem length (h : Renamed φ a b) : b.length = a.length :=
  congrArg Array.size h.input

theorem accept (h : Renamed φ a b) : b.ids.accept = φ a.ids.accept :=
  congrArg Numbering.accept h.ids

theorem reject (h : Renamed φ a b) : b.ids.reject = φ a.ids.reject :=
  congrArg Numbering.reject h.ids

/-- The query about a renamed site is renamed. -/
theorem query (h : Renamed φ a b) (u : Site) : b.query (u.renamed φ) = (a.query u).renamed φ := by
  unfold Attempt.query Query.renamed
  rw [h.input, h.ids]
  rfl

theorem entry (h : Renamed φ a b) (n : Nat) : b.entry n = (a.entry n).renamed φ := by
  unfold Attempt.entry
  rw [h.ids, Site.renamed_ofNat]
  rfl

theorem exit (h : Renamed φ a b) (n : Nat) : b.exit n = (a.exit n).renamed φ := by
  unfold Attempt.exit
  rw [h.ids, Site.renamed_ofNat]
  rfl

/-- **Renaming can be undone.** -/
theorem symm (h : Renamed φ a b) : Renamed φ.symm b a where
  input := h.input.symm
  budget := h.budget.symm
  ids := by
    rw [h.ids]
    simp [Numbering.renamed]
  answered := by
    intro u raw' hu hraw'
    cases hraw : a.oracle.answer (a.query (u.renamed φ.symm)) with
    | error failure =>
        have hfailed := h.failed _ _ hu.renamed hraw
        rw [Site.symm_renamed, hraw'] at hfailed
        exact absurd hfailed (by simp)
    | ok raw =>
        obtain ⟨found, hfound, hdecode⟩ := h.answered _ _ hu.renamed hraw
        rw [Site.symm_renamed, hraw'] at hfound
        obtain rfl := Except.ok.inj hfound
        refine ⟨raw, rfl, ?_⟩
        rw [hdecode]
        cases Response.decode a.ids raw with
        | error issues => rfl
        | ok d => simp [Except.map, Decoded.renamed, Function.comp_def, Number.renamed_symm]
  failed := by
    intro u failure hu hfailure
    cases hraw : a.oracle.answer (a.query (u.renamed φ.symm)) with
    | error other =>
        have hfailed := h.failed _ _ hu.renamed hraw
        rw [Site.symm_renamed, hfailure] at hfailed
        exact hfailed.symm
    | ok raw =>
        obtain ⟨found, hfound, _⟩ := h.answered _ _ hu.renamed hraw
        rw [Site.symm_renamed, hfailure] at hfound
        exact absurd hfound (by simp)

/-- **What is read from a renamed answer is renamed.** -/
theorem read_answer (h : Renamed φ a b) (u : Site) {raw raw' : Value}
    (hdecode : Response.decode b.ids raw' = (Response.decode a.ids raw).map (Decoded.renamed φ)) :
    (b.read (u.renamed φ) raw').answer = (a.read u raw).answer.renamed φ := by
  have hlive : ∀ l : List StateId,
      (l.map (Number.renamed φ)).filter (· ≠ (b.ids.reject : StateId)) =
        (l.filter (· ≠ (a.ids.reject : StateId))).map (Number.renamed φ) := by
    intro l
    rw [List.filter_map, h.reject]
    simp only [Function.comp_def, ne_eq, Number.renamed_eq_iff]
  unfold read
  rw [hdecode, h.length]
  cases Response.decode a.ids raw with
  | error issues => rfl
  | ok d =>
      simp only [Except.map, Decoded.renamed, Site.renamed, hlive]
      split <;> rfl

/-! ## §5. The renamed graph. -/

variable {u v : Site}

theorem accept_iff (h : Renamed φ a b) {s : StateId} :
    s.renamed φ = b.ids.accept ↔ s = a.ids.accept := by
  rw [h.accept]
  exact Number.renamed_eq_iff

theorem reject_iff (h : Renamed φ a b) {s : StateId} :
    s.renamed φ = b.ids.reject ↔ s = a.ids.reject := by
  rw [h.reject]
  exact Number.renamed_eq_iff

theorem edge (h : Renamed φ a b) (hu : u.Numbered) (hedge : a.Edge u v) :
    b.Edge (u.renamed φ) (v.renamed φ) := by
  cases hedge with
  | stays live answered decoded epsilon named alive =>
      obtain ⟨raw', hraw', hdecode⟩ := h.answered _ _ hu answered
      rw [decoded] at hdecode
      exact .stays (mt h.accept_iff.1 live) hraw' hdecode epsilon (List.mem_map_of_mem named)
        (mt h.reject_iff.1 alive)
  | crosses live answered decoded consuming inside named alive =>
      obtain ⟨raw', hraw', hdecode⟩ := h.answered _ _ hu answered
      rw [decoded] at hdecode
      exact .crosses (mt h.accept_iff.1 live) hraw' hdecode consuming (h.length ▸ inside)
        (List.mem_map_of_mem named) (mt h.reject_iff.1 alive)

/-- **Paths are renamed.** -/
theorem reaches (h : Renamed φ a b) {n : Nat} (hv : a.Reaches (a.entry n) v) :
    b.Reaches (b.entry n) (v.renamed φ) := by
  rw [h.entry]
  induction hv with
  | refl => exact .refl
  | @tail w v hreach hedge ih =>
      -- The path comes to the start of the edge from the start state or by a name.
      have hw : w.Numbered := by
        rcases Relation.ReflTransGen.cases_tail hreach with rfl | ⟨_, _, hlast⟩
        · exact ⟨_, rfl⟩
        · obtain ⟨k, _, hk⟩ := hlast.names
          exact ⟨k, hk⟩
      exact ih.tail (h.edge hw hedge)

theorem exit_iff (h : Renamed φ a b) {m n : Nat} :
    b.Reaches (b.entry m) (b.exit n) ↔ a.Reaches (a.entry m) (a.exit n) := by
  constructor
  · intro hb
    have ha := h.symm.reaches hb
    rwa [← h.symm.exit] at ha
  · intro ha
    rw [h.exit]
    exact h.reaches ha

/-- **There is as much to ask.** -/
theorem ncard_workload (h : Renamed φ a b) : b.workload.ncard = a.workload.ncard := by
  have himage : b.workload = Site.renamed φ '' a.workload := by
    ext v
    constructor
    · rintro ⟨hreach, hlive⟩
      refine ⟨v.renamed φ.symm, ⟨h.symm.reaches hreach, mt h.symm.accept_iff.1 hlive⟩, ?_⟩
      exact v.symm_renamed φ
    · rintro ⟨u, ⟨hreach, hlive⟩, rfl⟩
      exact ⟨h.reaches hreach, mt h.accept_iff.1 hlive⟩
  rw [himage, Set.ncard_image_of_injective _ (Site.renamed_injective φ)]

/-- **It goes equally far.** -/
theorem furthest (h : Renamed φ a b) {n : Nat} (ha : a.Furthest (a.entry 0) n) :
    b.Furthest (b.entry 0) n := by
  obtain ⟨s, hs⟩ := ha.reached
  refine ⟨⟨_, h.reaches hs⟩, fun m t ht => ?_⟩
  exact ha.le m _ (h.symm.reaches ht)

end Renamed

/-! ## §6. Attempts on a renamed oracle. -/

/-- **An attempt on a renamed oracle is renamed**, or refused like the other one. -/
theorem ofInput_renamed {oracle other : Oracle} {s : Sentinels Nat} (input : Input)
    (maxCycles : Value) (hs : Sentinels.ofValue oracle.sentinels = .ok s)
    (hφ : s.resolve.Permutes φ) (hrenames : oracle.Renames s φ other) :
    match ofInput input oracle maxCycles with
    | .error e => ofInput input other maxCycles = .error e
    | .ok a => ∃ b, ofInput input other maxCycles = .ok b ∧ Renamed φ a b := by
  have hids : Numbering.ofValue oracle.sentinels = .ok s.resolve :=
    Numbering.ofValue_eq_ok.2 ⟨s, hs, rfl⟩
  have hids' : Numbering.ofValue other.sentinels = .ok (s.resolve.renamed φ) :=
    Numbering.ofValue_eq_ok.2 ⟨_, hrenames.sentinels_eq hs hφ, rfl⟩
  simp only [ofInput, ofSymbols, bind, Except.bind, pure, Except.pure, hids, hids']
  cases input.symbols with
  | error e => rfl
  | ok symbols =>
      cases Budget.ofValue maxCycles with
      | error e => rfl
      | ok budget =>
          refine ⟨_, rfl, rfl, rfl, rfl, ?_, ?_⟩
          · rintro ⟨p, _⟩ raw ⟨k, rfl⟩ hraw
            refine ⟨raw.renamedAnswer s.resolve φ, ?_, Response.decode_renamed hφ raw⟩
            rw [Site.renamed_ofNat]
            exact (hrenames.answer k _).trans (congrArg (Except.map _) hraw)
          · rintro ⟨p, _⟩ failure ⟨k, rfl⟩ hfailure
            rw [Site.renamed_ofNat]
            exact (hrenames.answer k _).trans (congrArg (Except.map _) hfailure)

end Attempt

end OracleNFA
