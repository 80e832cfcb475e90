/-
  OracleNFA.Proofs.QueryOrder
  ───────────────────────────
  **THE ORDER OF THE QUERIES IS CANONICAL.**

  A closure asks about the layers around its frontier one after the other, each in
  ascending order.  Said on trees: it goes in lockstep with a survey of the listed
  layers (`Exploration.survey`), which knows no sets at all.

  The sets of a closure are kept in lists.  A `Reordering` rearranges these lists
  whenever it likes, and the closure that lets it (`closureUnder`) still goes in
  lockstep with the same survey, because what carries the induction speaks of members
  only (`Attempt.Layered`):

      Layered.absorb       — one answer
      lockstep_sweepUnder  — one layer
      lockstep_roundsUnder — all layers
      exists_lockstep      — the closure, and what it asks
      EndAlike.runsAlike   — runs that end like the survey's end like each other
-/
import OracleNFA.Proofs.Correspondence
import OracleNFA.Proofs.Layers

namespace OracleNFA

open Exploration

/-! ## §1. Surveys. -/

namespace Exploration

/-- The successors of an answer live at this position, and the goal is one of them. -/
def Meets (goal : Option StateId) (position : Position) (answer : Answer) : Prop :=
  answer.position.same position = true ∧ ∃ g ∈ answer.successors, goal = some g

instance (goal : Option StateId) (position : Position) (answer : Answer) :
    Decidable (Meets goal position answer) :=
  inferInstanceAs (Decidable (_ ∧ _))

/-- Ask about these states one after the other, until an answer meets the goal. -/
def survey (goal : Option StateId) (position : Position) : List StateId → Exploration (Phase Unit)
  | [] => .done (.settled ())
  | s :: rest => .ask ⟨position, s⟩ fun reply =>
      match reply with
      | none => .done .exhausted
      | some answer =>
          if Meets goal position answer then .done .accepted else survey goal position rest

variable {goal : Option StateId} {position : Position}

theorem survey_append (l l' : List StateId) :
    survey goal position (l ++ l') = (survey goal position l).bind fun phase =>
      match phase with
      | .settled _ => survey goal position l'
      | other => .done other := by
  induction l with
  | nil => rfl
  | cons s rest ih =>
      show Exploration.ask _ _ = Exploration.ask _ _
      congr 1
      funext reply
      cases reply with
      | none => rfl
      | some answer =>
          show (if _ then _ else survey goal position (rest ++ l')) =
            Exploration.bind _ (if _ then _ else _)
          split
          · rfl
          · exact ih

end Exploration

namespace Attempt

/-- What was asked in addition are the first states of an order, and all of them where
everything was explored. -/
def AsksFrom {α : Type} (base : List Site) (n : Nat) (order : List StateId)
    (r : Except (Raised QueryError) (Phase α)) (i : Inquiry) : Prop :=
  ∃ states, states <+: order ∧ i.asked = base ++ states.map (fun s => ⟨.after n, s⟩) ∧
    ∀ v, r = .ok (.settled v) → states = order

variable {a : Attempt} {n : Nat} {goal : Option StateId}

/-- **A survey keeps to its order.** -/
theorem ensures_survey (order : List StateId) :
    ∀ i : Inquiry, a.Ensures (AsksFrom i.asked n order) (survey goal (.after n) order) i := by
  induction order with
  | nil => exact fun i => ⟨[], List.nil_prefix, by simp, fun _ _ => rfl⟩
  | cons s rest ih =>
      intro i
      have hone : ∀ r : Except (Raised QueryError) (Phase Unit), (∀ v, r ≠ .ok (.settled v)) →
          AsksFrom i.asked n (s :: rest) r (i.ask ⟨.after n, s⟩) := fun r hr =>
        ⟨[s], ⟨rest, rfl⟩, rfl, fun v hv => absurd hv (hr v)⟩
      refine ⟨⟨[], List.nil_prefix, by simp, by simp⟩, fun _ => ?_⟩
      cases a.oracle.answer (a.query ⟨.after n, s⟩) with
      | error failure => exact hone _ (by simp)
      | ok raw =>
          show a.Ensures _ (if _ then _ else _) _
          split
          · exact hone _ (by simp)
          · refine ensures_mono a ?_ _ _ (ih _)
            rintro r j ⟨states, hprefix, hasked, hsettled⟩
            refine ⟨s :: states, (List.prefix_cons_inj s).2 hprefix, ?_, fun v hv => ?_⟩
            · rw [hasked]
              simp
            · rw [hsettled v hv]

end Attempt

/-! ## §2. Closures whose sets are rearranged. -/

/-- A way to rearrange the sets of a closure, which may depend on what they are and on
which states of the round are still to be asked. -/
structure Reordering where
  apply : List StateId → Expansion → Expansion
  closure : ∀ pending w, (apply pending w).closure.Perm w.closure
  advanced : ∀ pending w, (apply pending w).advanced.Perm w.advanced
  discovered : ∀ pending w, (apply pending w).discovered.Perm w.discovered

/-- Leave the sets as they are. -/
def Reordering.keep : Reordering :=
  ⟨fun _ w => w, fun _ _ => .refl _, fun _ _ => .refl _, fun _ _ => .refl _⟩

namespace Exploration

variable (r : Reordering) (ids : Numbering) (goal : Option StateId) (position : Position)

/-- A round whose sets are rearranged before each question and at the end. -/
def sweepUnder : List StateId → Expansion → Exploration (Phase Expansion)
  | [], w => .done (.settled (r.apply [] w))
  | s :: rest, w =>
      if s = ids.accept then sweepUnder rest w
      else .ask ⟨position, s⟩ fun reply =>
        match reply with
        | none => .done .exhausted
        | some answer =>
            match absorb? goal position answer (r.apply (s :: rest) w) with
            | none => .done .accepted
            | some w' => sweepUnder rest w'

/-- Rounds whose sets are rearranged. -/
def roundsUnder : Nat → List StateId → Expansion → Exploration (Phase Expansion)
  | 0, _, _ => .done .exhausted
  | more + 1, pending, w =>
      (sweepUnder r ids goal position pending w).bind fun phase =>
        match phase with
        | .settled w' =>
            if w'.discovered.isEmpty then .done (.settled w')
            else roundsUnder more (ascending w'.discovered) { w' with discovered := [] }
        | other => .done other

/-- A closure whose sets are rearranged. -/
def closureUnder (frontier : List StateId) (accepting : Bool) : Exploration (Phase Settled) :=
  if accepting ∧ (ids.accept : StateId) ∈ frontier then .done .accepted
  else
    let goal : Option StateId := if accepting then some ids.accept else none
    (roundsUnder r ids goal position (ids.span + 1) (ascending frontier) ⟨frontier, [], []⟩).map
      (Phase.map fun w => ⟨w.closure, w.advanced⟩)

/-- **Where nothing is rearranged, it is the closure.** -/
theorem closureUnder_keep (frontier : List StateId) (accepting : Bool) :
    closureUnder .keep ids position frontier accepting =
      closure ids frontier position accepting := by
  have hsweep : ∀ goal pending w,
      sweepUnder .keep ids goal position pending w = sweep ids goal position pending w := by
    intro goal pending
    induction pending with
    | nil => intro w; rfl
    | cons s rest ih =>
        intro w
        rw [sweepUnder, sweep]
        simp only [ih]
        rfl
  have hrounds : ∀ goal more pending w,
      roundsUnder .keep ids goal position more pending w =
        rounds ids goal position more pending w := by
    intro goal more
    induction more with
    | zero => intro pending w; rfl
    | succ more ih =>
        intro pending w
        rw [roundsUnder, rounds, hsweep]
        refine congrArg (fun next => (sweep ids goal position pending w).bind next)
          (funext fun phase => ?_)
        cases phase with
        | accepted => rfl
        | exhausted => rfl
        | settled w' => simp only [ih]
  unfold closureUnder closure
  simp only [hrounds]

end Exploration

/-! ## §3. The sets of a closure, by layers. -/

namespace Attempt

variable {a : Attempt} {n : Nat} {goal : Option StateId} {first : Set StateId} {k : Nat}
  {asked : List StateId} {s : StateId} {w w' : Expansion} {raw : Value} {r : Reordering}

/-- What some states lead to. -/
def ledTo (a : Attempt) (n : Nat) (asked : List StateId) : Set StateId :=
  {t | ∃ s ∈ asked, a.Hop n s t}

theorem mem_ledTo_append {t : StateId} :
    t ∈ a.ledTo n (asked ++ [s]) ↔ t ∈ a.ledTo n asked ∨ a.Hop n s t := by
  unfold ledTo
  simp [or_and_right, exists_or]

theorem mem_ledTo_layer (hasked : ∀ s, s ∈ asked ↔ s ∈ a.layer n first k) {t : StateId} :
    t ∈ a.ledTo n asked ↔ ∃ s ∈ a.layer n first k, a.Hop n s t := by
  show (∃ s ∈ asked, a.Hop n s t) ↔ _
  simp only [hasked]

theorem ledTo_nil : a.ledTo n [] = ∅ := by
  unfold ledTo
  simp

/-- A closure in the round of a layer, some of whose states were asked about: it holds
the layers so far and what these states lead to. -/
structure Layered (a : Attempt) (n : Nat) (first : Set StateId) (goal : Option StateId) (k : Nat)
    (asked : List StateId) (w : Expansion) : Prop where
  closure : ∀ t, t ∈ w.closure ↔ t ∈ a.ball n first k ∨ t ∈ a.ledTo n asked
  discovered : ∀ t, t ∈ w.discovered ↔ t ∈ a.ledTo n asked ∧ t ∉ a.ball n first k
  nodup : w.discovered.Nodup
  advanced : ∀ t, t ∈ w.advanced ↔
    ∃ s, (s ∈ asked ∨ ∃ j < k, s ∈ a.layer n first j) ∧ a.Crossing n s t
  goal_out : ∀ g, goal = some g → g ∉ w.closure

/-- A closure that settled holds all layers, and what they lead to behind the symbol. -/
structure HoldsLayers (a : Attempt) (n : Nat) (first : Set StateId) (c : Settled) : Prop where
  closure : ∀ t, t ∈ c.closure ↔ ∃ j, t ∈ a.layer n first j
  advanced : ∀ t, t ∈ c.advanced ↔ ∃ s, (∃ j, s ∈ a.layer n first j) ∧ a.Crossing n s t

namespace Layered

/-- Before the first round. -/
theorem start {frontier : List StateId} (hfirst : ∀ t, t ∈ frontier ↔ t ∈ first)
    (hgoal : ∀ g, goal = some g → g ∉ frontier) :
    a.Layered n first goal 0 [] ⟨frontier, [], []⟩ where
  closure := fun t => by simp [mem_ball_zero, hfirst, ledTo_nil]
  discovered := fun t => by simp [ledTo_nil]
  nodup := List.nodup_nil
  advanced := fun t => by simp
  goal_out := hgoal

/-- The order of the sets does not matter. -/
theorem reorder (h : a.Layered n first goal k asked w) (pending : List StateId) :
    a.Layered n first goal k asked (r.apply pending w) where
  closure := fun t => (r.closure pending w).mem_iff.trans (h.closure t)
  discovered := fun t => (r.discovered pending w).mem_iff.trans (h.discovered t)
  nodup := (r.discovered pending w).nodup_iff.2 h.nodup
  advanced := fun t => (r.advanced pending w).mem_iff.trans (h.advanced t)
  goal_out := fun g hg hmem => h.goal_out g hg ((r.closure pending w).mem_iff.1 hmem)

/-- A state that leads nowhere, such as the accepting one, adds nothing. -/
theorem skip (h : a.Layered n first goal k asked w) (hhop : ∀ t, ¬ a.Hop n s t)
    (hcross : ∀ t, ¬ a.Crossing n s t) : a.Layered n first goal k (asked ++ [s]) w where
  closure := fun t => by rw [h.closure, mem_ledTo_append, or_iff_left (hhop t)]
  discovered := fun t => by rw [h.discovered, mem_ledTo_append, or_iff_left (hhop t)]
  nodup := h.nodup
  advanced := fun t => by rw [h.advanced]; simp [or_and_right, exists_or, hcross]
  goal_out := h.goal_out

/-- An answer whose successors live at this position. -/
theorem absorb_here (h : a.Layered n first goal k asked w) {successors : List StateId}
    (hhop : ∀ t, a.Hop n s t ↔ t ∈ successors) (hcross : ∀ t, ¬ a.Crossing n s t)
    (hw' : discover? goal successors w = some w') : a.Layered n first goal k (asked ++ [s]) w' := by
  obtain ⟨new, rfl, hnodup, hnew, hout⟩ := discover?_new hw'
  -- What is new was not within reach so far.
  have hnew' : ∀ t, t ∈ new ↔
      a.Hop n s t ∧ t ∉ a.ball n first k ∧ t ∉ a.ledTo n asked := fun t => by
    rw [hnew, hhop, h.closure, not_or]
  refine ⟨?closure, ?discovered, ?nodup, ?advanced, ?goal_out⟩
  case closure =>
    intro t
    rw [List.mem_append, h.closure, hnew', mem_ledTo_append]
    tauto
  case discovered =>
    intro t
    rw [List.mem_append, h.discovered, hnew', mem_ledTo_append]
    tauto
  case nodup =>
    refine h.nodup.append hnodup fun t hold ht => ?_
    exact ((hnew' t).1 ht).2.2 ((h.discovered t).1 hold).1
  case advanced =>
    intro t
    rw [h.advanced]
    simp [or_and_right, exists_or, hcross]
  case goal_out =>
    intro g hg hmem
    exact (List.mem_append.1 hmem).elim (h.goal_out g hg) fun hmem => hout g hmem hg

/-- An answer whose successors live behind the symbol. -/
theorem absorb_across (h : a.Layered n first goal k asked w) {successors : List StateId}
    (hhop : ∀ t, ¬ a.Hop n s t) (hcross : ∀ t, a.Crossing n s t ↔ t ∈ successors) :
    a.Layered n first goal k (asked ++ [s])
      { w with advanced := successors.foldl (fun seen s => addState s seen) w.advanced } where
  closure := fun t => by rw [h.closure, mem_ledTo_append, or_iff_left (hhop t)]
  discovered := fun t => by rw [h.discovered, mem_ledTo_append, or_iff_left (hhop t)]
  nodup := h.nodup
  advanced := by
    intro t
    rw [mem_foldl_addState, h.advanced, ← hcross]
    simp only [List.mem_append, List.mem_singleton, or_and_right, exists_or, exists_eq_left]
    rw [← or_assoc, @or_comm (a.Crossing n s t)]
  goal_out := h.goal_out

/-- **One answer.**  Either it meets the goal here, or what it names is added. -/
theorem absorb (h : a.Layered n first goal k asked w) (hs : s ≠ a.ids.accept)
    (answered : a.oracle.answer (a.query ⟨.after n, s⟩) = .ok raw) :
    match absorb? goal (.after n) (a.read ⟨.after n, s⟩ raw).answer w with
    | none => Meets goal (.after n) (a.read ⟨.after n, s⟩ raw).answer
    | some w' => ¬ Meets goal (.after n) (a.read ⟨.after n, s⟩ raw).answer ∧
        a.Layered n first goal k (asked ++ [s]) w' := by
  unfold absorb? Meets
  rcases successors_cases hs answered with ⟨hsame, hhop, hcross⟩ | ⟨hsame, hhop, hcross⟩
  · rw [if_pos hsame]
    cases hfound : discover? goal (a.read ⟨.after n, s⟩ raw).answer.successors w with
    | none =>
        obtain ⟨g, hg, hgoal, _⟩ := discover?_eq_none hfound
        exact ⟨hsame, g, hg, hgoal⟩
    | some w' =>
        have hlayered := h.absorb_here hhop hcross hfound
        refine ⟨?_, hlayered⟩
        rintro ⟨_, g, hg, hgoal⟩
        exact hlayered.goal_out g hgoal
          ((hlayered.closure g).2 (.inr (mem_ledTo_append.2 (.inr ((hhop g).2 hg)))))
  · rw [if_neg (by simp [hsame])]
    exact ⟨by simp [hsame], h.absorb_across hhop hcross⟩

/-- The next layer is what the round of this one discovered. -/
theorem mem_discovered (h : a.Layered n first goal k asked w)
    (hasked : ∀ s, s ∈ asked ↔ s ∈ a.layer n first k) (t : StateId) :
    t ∈ w.discovered ↔ t ∈ a.layer n first (k + 1) := by
  rw [h.discovered, mem_layer_succ, mem_ledTo_layer hasked]

theorem mem_closure (h : a.Layered n first goal k asked w)
    (hasked : ∀ s, s ∈ asked ↔ s ∈ a.layer n first k) (t : StateId) :
    t ∈ w.closure ↔ t ∈ a.ball n first (k + 1) := by
  rw [h.closure, mem_ball_succ, mem_ledTo_layer hasked]

theorem mem_advanced (h : a.Layered n first goal k asked w)
    (hasked : ∀ s, s ∈ asked ↔ s ∈ a.layer n first k) (t : StateId) :
    t ∈ w.advanced ↔ ∃ s ∈ a.ball n first k, a.Crossing n s t := by
  rw [h.advanced]
  refine exists_congr fun s => and_congr_left fun _ => ?_
  rw [hasked]
  constructor
  · rintro (hs | ⟨j, hj, hs⟩)
    · exact ⟨k, le_rfl, hs⟩
    · exact ⟨j, hj.le, hs⟩
  · rintro ⟨j, hj, hs⟩
    rcases Nat.lt_or_eq_of_le hj with hj | rfl
    · exact .inr ⟨j, hj, hs⟩
    · exact .inl hs

/-- The next round. -/
theorem next (h : a.Layered n first goal k asked w)
    (hasked : ∀ s, s ∈ asked ↔ s ∈ a.layer n first k) :
    a.Layered n first goal (k + 1) [] { w with discovered := [] } where
  closure := fun t => by simpa [ledTo_nil] using h.mem_closure hasked t
  discovered := fun t => by simp [ledTo_nil]
  nodup := List.nodup_nil
  advanced := by
    intro t
    rw [h.mem_advanced hasked]
    simp only [List.not_mem_nil, false_or, Nat.lt_succ_iff]
    rfl
  goal_out := h.goal_out

/-- Where the round of a layer discovered nothing, it was the last one. -/
theorem holdsLayers (h : a.Layered n first goal k asked w)
    (hasked : ∀ s, s ∈ asked ↔ s ∈ a.layer n first k) (hempty : a.layer n first (k + 1) = ∅) :
    a.HoldsLayers n first ⟨w.closure, w.advanced⟩ where
  closure := fun t => by
    rw [h.mem_closure hasked, mem_ball_of_empty (layer_eq_empty hempty (Nat.le_succ _))]
  advanced := fun t => by
    rw [h.mem_advanced hasked]
    simp only [mem_ball_of_empty hempty]

end Layered

/-! ## §4. Lockstep with a survey. -/

/-- What is asked about of a list of states. -/
def askable (a : Attempt) (l : List StateId) : List StateId :=
  l.filter fun s => s ≠ a.ids.accept

theorem askable_cons {rest : List StateId} (hs : s ≠ a.ids.accept) :
    a.askable (s :: rest) = s :: a.askable rest :=
  List.filter_cons_of_pos (by simpa using hs)

theorem askable_cons_accept {rest : List StateId} (hs : s = a.ids.accept) :
    a.askable (s :: rest) = a.askable rest :=
  List.filter_cons_of_neg (by simpa using hs)

/-- **One layer.** -/
theorem lockstep_sweepUnder (pending : List StateId) :
    ∀ {asked : List StateId} {w : Expansion}, a.Layered n first goal k asked w →
      a.Lockstep a id (Phase.Rel fun _ w' => a.Layered n first goal k (asked ++ pending) w')
        (survey goal (.after n) (a.askable pending))
        (sweepUnder r a.ids goal (.after n) pending w) := by
  induction pending with
  | nil =>
      intro asked w h
      refine .done (.settled ?_)
      rw [List.append_nil]
      exact h.reorder []
  | cons s rest ih =>
      intro asked w h
      have hsplit : asked ++ s :: rest = asked ++ [s] ++ rest := by simp
      rw [sweepUnder, hsplit]
      by_cases hs : s = a.ids.accept
      · rw [if_pos hs, askable_cons_accept hs]
        exact ih (h.skip (fun t hst => Edge.live hst hs) fun t hst => Edge.live hst hs)
      · rw [if_neg hs, askable_cons hs]
        cases answered : a.oracle.answer (a.query ⟨.after n, s⟩) with
        | error failure => exact .failed (.done .exhausted) answered answered
        | ok raw =>
            refine .answered (.done .exhausted) answered answered ?_
            have habsorb := (h.reorder (r := r) (s :: rest)).absorb hs answered
            dsimp only [id_eq]
            cases hfound : absorb? goal (.after n) (a.read ⟨.after n, s⟩ raw).answer
                (r.apply (s :: rest) w) with
            | none =>
                rw [hfound] at habsorb
                rw [if_pos habsorb]
                exact .done .accepted
            | some w' =>
                rw [hfound] at habsorb
                rw [if_neg habsorb.1]
                exact ih habsorb.2

variable {whole : Nat → List StateId} {depth : Nat}

/-- **All layers.** -/
theorem lockstep_roundsUnder (hwhole : ∀ k, Lists (whole k) (a.layer n first k))
    (hdepth : a.layer n first depth = ∅) (more : Nat) :
    ∀ {k : Nat} {w : Expansion}, (a.ahead n first k).ncard < more →
      a.Layered n first goal k [] w →
      a.Lockstep a id (Phase.Rel fun _ w' => a.HoldsLayers n first ⟨w'.closure, w'.advanced⟩)
        (survey goal (.after n) (queue (fun k => a.askable (whole k)) depth k))
        (roundsUnder r a.ids goal (.after n) more (whole k) w) := by
  have hnone : ∀ k, a.layer n first k = ∅ → whole k = [] := by
    intro k hk
    refine List.eq_nil_iff_forall_not_mem.2 fun s hs => ?_
    rw [(hwhole k).mem_iff, hk] at hs
    exact hs
  have hbehind : ∀ j, depth ≤ j → a.askable (whole j) = [] := by
    intro j hj
    rw [hnone j (layer_eq_empty hdepth hj)]
    rfl
  induction more with
  | zero => exact fun hmore => absurd hmore (Nat.not_lt_zero _)
  | succ more ih =>
      intro k w hmore h
      rw [queue_eq hbehind, survey_append, roundsUnder]
      refine (lockstep_sweepUnder (whole k) h).bind fun phase phase' hphase => ?_
      cases hphase with
      | accepted => exact .done .accepted
      | exhausted => exact .done .exhausted
      | @settled _ w' hw' =>
          rw [List.nil_append] at hw'
          have hasked := (hwhole k).mem_iff
          have hfound := hw'.mem_discovered hasked
          dsimp only
          by_cases hempty : w'.discovered = []
          · -- The next layer is empty, and so are all behind it.
            have hlayer : a.layer n first (k + 1) = ∅ := by
              refine Set.eq_empty_of_forall_notMem fun t ht => ?_
              rw [← hfound, hempty] at ht
              exact absurd ht List.not_mem_nil
            have hqueue : queue (fun k => a.askable (whole k)) depth (k + 1) = [] := by
              refine queue_eq_nil fun j hj => ?_
              rw [hnone j (layer_eq_empty hlayer hj)]
              rfl
            rw [hqueue, hempty, List.isEmpty_nil, if_pos rfl]
            exact .done (.settled (hw'.holdsLayers hasked hlayer))
          · -- What was discovered is the next layer, in whatever order.
            have hplain : ∀ t ∈ w'.discovered, t.Plain := by
              intro t ht
              obtain ⟨m, _, rfl⟩ := names_of_mem_layer ((hfound t).1 ht)
              exact Number.plain_ofNat m
            have hnext : ascending w'.discovered = whole (k + 1) :=
              (lists_ascending hw'.nodup hplain hfound).unique (hwhole (k + 1))
            rw [if_neg (by simpa using hempty), hnext]
            refine ih ?_ (hw'.next hasked)
            obtain ⟨t, ht⟩ := List.exists_mem_of_ne_nil _ hempty
            have hlt := ncard_ahead_lt ⟨t, (hfound t).1 ht⟩
            omega

/-- **A closure goes in lockstep with one exploration**, which knows what it asks about,
whatever the order in which the frontier is listed and however the sets are
rearranged. -/
theorem exists_lockstep (hplain : ∀ s ∈ first, s.Plain)
    (hwhole : ∀ k, Lists (whole k) (a.layer n first k)) (hdepth : a.layer n first depth = ∅)
    (accepting : Bool) :
    ∃ x : Exploration (Phase Unit),
      (∀ i, a.Ensures (AsksFrom i.asked n (queue (fun k => a.askable (whole k)) depth 0)) x i) ∧
      ∀ (frontier : List StateId) (r : Reordering), stateSet frontier = first →
        a.Lockstep a id (Phase.Rel fun _ => a.HoldsLayers n first) x
          (closureUnder r a.ids (.after n) (distinct frontier) accepting) := by
  by_cases hgoal : accepting = true ∧ (a.ids.accept : StateId) ∈ first
  · refine ⟨.done .accepted, fun i => ⟨[], List.nil_prefix, by simp, by simp⟩, ?_⟩
    rintro frontier r rfl
    unfold closureUnder
    rw [if_pos (hgoal.imp_right mem_distinct.2)]
    exact .done .accepted
  · refine ⟨survey (a.goalWhen accepting) (.after n) _, ensures_survey _, ?_⟩
    rintro frontier r rfl
    unfold closureUnder
    rw [if_neg fun h => hgoal (h.imp_right mem_distinct.1)]
    have hfirst : Lists (ascending (distinct frontier)) (a.layer n (stateSet frontier) 0) := by
      rw [layer_zero]
      exact lists_ascending (nodup_distinct frontier) (fun s hs => hplain s (mem_distinct.1 hs))
        fun s => mem_distinct
    have hstart : a.Layered n (stateSet frontier) (a.goalWhen accepting) 0 []
        ⟨distinct frontier, [], []⟩ := by
      refine .start (fun t => mem_distinct) fun g hg hmem => ?_
      obtain ⟨haccepting, rfl⟩ := goalWhen_eq_some.1 hg
      exact hgoal ⟨haccepting, mem_distinct.1 hmem⟩
    rw [hfirst.unique (hwhole 0)]
    refine (lockstep_roundsUnder hwhole hdepth (a.ids.span + 1)
      (Nat.lt_succ_of_le ncard_ahead_le) hstart).map_right fun phase phase' hphase => ?_
    cases hphase with
    | accepted => exact .accepted
    | exhausted => exact .exhausted
    | settled hw => exact .settled hw

end Attempt

/-! ## §5. Runs. -/

/-- Progress with the same meter, queries and diagnostics. -/
structure Progress.Alike (p q : Progress) : Prop where
  meter : p.meter = q.meter
  queries : p.queries = q.queries
  diagnostics : p.diagnostics = q.diagnostics

theorem Progress.Alike.symm {p q : Progress} (h : p.Alike q) : q.Alike p :=
  ⟨h.meter.symm, h.queries.symm, h.diagnostics.symm⟩

theorem Progress.Alike.trans {p q o : Progress} (h : p.Alike q) (h' : q.Alike o) : p.Alike o :=
  ⟨h.meter.trans h'.meter, h.queries.trans h'.queries, h.diagnostics.trans h'.diagnostics⟩

/-- Two runs that failed alike, or returned related results. -/
inductive RunsAlike {α : Type} (R : α → α → Prop) :
    EStateM.Result (Raised QueryError) Progress α →
      EStateM.Result (Raised QueryError) Progress α → Prop
  | returned {v v' : α} {p q : Progress} (related : R v v') (progress : p.Alike q) :
      RunsAlike R (.ok v p) (.ok v' q)
  | failed {e : Raised QueryError} {p q : Progress} (progress : p.Alike q) :
      RunsAlike R (.error e p) (.error e q)

/-- Two finished closures that hold the same sets. -/
structure Exploration.Settled.SameSets (c c' : Settled) : Prop where
  closure : ∀ t, t ∈ c.closure ↔ t ∈ c'.closure
  advanced : ∀ t, t ∈ c.advanced ↔ t ∈ c'.advanced

namespace Attempt

variable {α : Type} {a : Attempt} {n : Nat} {sites : List Site} {order : List StateId}
  {i j : Inquiry} {x : EStateM.Result (Raised QueryError) Progress (Phase Unit)}
  {y z : EStateM.Result (Raised QueryError) Progress (Phase α)} {R : α → Prop}

/-- What the one run asked, the other one did. -/
theorem EndAlike.asks (h : EndAlike a a id (Phase.Rel fun _ => R) i x y)
    (hasks : AsksFrom sites n order (ended x) i) :
    ∃ states, states <+: order ∧
      (reached y).queries.toList =
        sites.map a.query ++ states.map (fun s => a.query ⟨.after n, s⟩) ∧
      ∀ v q, y = .ok (.settled v) q → states = order := by
  obtain ⟨states, hprefix, hasked, hsettled⟩ := hasks
  have hqueries : i.asked.map a.query =
      sites.map a.query ++ states.map (fun s => a.query ⟨.after n, s⟩) := by
    rw [hasked, List.map_append, List.map_map]
    rfl
  refine ⟨states, hprefix, ?_, ?_⟩
  · cases h with
    | returned _ _ right =>
        rw [Inquiry.map_id] at right
        exact right.queries.trans hqueries
    | failed _ _ _ right =>
        rw [Inquiry.map_id] at right
        exact right.queries.trans hqueries
  · rintro v q rfl
    cases h with
    | returned related _ _ =>
        cases related
        exact hsettled _ rfl

/-- One inquiry accounts for one meter, one list of queries and one of diagnostics. -/
theorem Accounts.alike {p q : Progress} (h : a.Accounts i p) (h' : a.Accounts i q) : p.Alike q where
  meter := h.meter_eq.trans h'.meter_eq.symm
  queries := Array.toList_inj.1 (h.queries.trans h'.queries.symm)
  diagnostics := Array.toList_inj.1 (h.diagnostics.trans h'.diagnostics.symm)

/-- **Two runs that ended like a third** ended alike. -/
theorem EndAlike.runsAlike {S : α → α → Prop} (h : EndAlike a a id (Phase.Rel fun _ => R) i x y)
    (h' : EndAlike a a id (Phase.Rel fun _ => R) j x z) (hsame : ∀ v v', R v → R v' → S v v') :
    RunsAlike (Phase.Rel S) y z := by
  cases h with
  | returned related left right =>
      cases h' with
      | returned related' left' right' =>
          rw [Inquiry.map_id] at right right'
          refine .returned ?_ ((left.alike right).symm.trans (left'.alike right'))
          cases related with
          | accepted => cases related'; exact .accepted
          | exhausted => cases related'; exact .exhausted
          | settled hv =>
              cases related' with
              | settled hv' => exact .settled (hsame _ _ hv hv')
  | failed raised raisedRight left right =>
      cases h' with
      | failed raised' raisedRight' left' right' =>
          -- The same question failed in all of them.
          obtain rfl := raised.symm.trans raisedRight
          obtain rfl := raised'.symm.trans raisedRight'
          rw [Inquiry.map_id] at right right'
          exact .failed ((left.alike right).symm.trans (left'.alike right'))

end Attempt

/-- **The order of the queries is canonical.**  Take an attempt, after any operations on
it, and close a frontier that does not hold no-number, which has no place in an order.
The layers around it can be listed, but for the accepting state, in ascending order, and
from some layer on they are empty.  What the closure asks about are the first states of
these lists one behind the other, and all of them if it settles.  So neither the order in
which the frontier is listed nor the order in which the closure keeps its sets makes a
difference to how it ends, to the meter, the queries and the diagnostics, or to the sets
that were found. -/
theorem queries_in_canonical_order (a : Attempt) (ops : List Operation) (frontier : List StateId)
    (hnan : Number.nan ∉ frontier) (n : Nat) (accepting : Bool) :
    ∃ (listing : Nat → List StateId) (depth : Nat),
      (∀ k, Lists (listing k) (a.layer n (stateSet frontier) k \ {(a.ids.accept : StateId)})) ∧
      (∀ k, depth ≤ k → a.layer n (stateSet frontier) k = ∅) ∧
      let closed :=
        (a.run (closure a.ids (distinct frontier) (.after n) accepting)).run (a.session ops)
      (∃ states, states <+: (List.range depth).flatMap listing ∧
        (Attempt.reached closed).queries.toList =
          (a.session ops).queries.toList ++ states.map (fun s => a.query ⟨.after n, s⟩) ∧
        ∀ c later, closed = .ok (.settled c) later → states = (List.range depth).flatMap listing) ∧
      ∀ (other : List StateId) (r : Reordering), stateSet other = stateSet frontier →
        RunsAlike (Phase.Rel Settled.SameSets) closed
          ((a.run (closureUnder r a.ids (.after n) (distinct other) accepting)).run
            (a.session ops)) := by
  obtain ⟨whole, hwhole⟩ := a.exists_listing (n := n) hnan
  have hspan : a.layer n (stateSet frontier) (a.ids.span + 1) = ∅ := Attempt.layer_span
  have hqueue : Attempt.queue (fun k => a.askable (whole k)) (a.ids.span + 1) 0 =
      (List.range (a.ids.span + 1)).flatMap fun k => a.askable (whole k) := by
    rw [List.range_eq_range']
    rfl
  obtain ⟨x, hx, hlockstep⟩ :=
    Attempt.exists_lockstep (Attempt.plain_of_mem_stateSet hnan) hwhole hspan
    accepting
  obtain ⟨sites, h⟩ := a.accounts_session ops
  have hends := fun other r hother => Attempt.lockstep_run_ensures rfl (hlockstep other r hother)
    ⟨sites, none⟩ (a.session ops) (a.session ops) h (by rwa [Inquiry.map_id]) (hx _)
  refine ⟨fun k => a.askable (whole k), a.ids.span + 1,
    fun k => (hwhole k).filter fun s => s ≠ a.ids.accept,
    fun k hk => Attempt.layer_eq_empty hspan hk, ?_⟩
  intro closed
  obtain ⟨i, halike, hasks⟩ := hends frontier .keep rfl
  rw [closureUnder_keep] at halike
  refine ⟨?asked, ?alike⟩
  case asked =>
    obtain ⟨states, hprefix, hqueries, hsettled⟩ := halike.asks hasks
    rw [hqueue] at hprefix hsettled
    refine ⟨states, hprefix, ?_, hsettled⟩
    rw [h.queries]
    exact hqueries
  case alike =>
    intro other r hother
    obtain ⟨j, halike', _⟩ := hends other r hother
    refine halike.runsAlike halike' fun c c' hc hc' => ⟨fun t => ?_, fun t => ?_⟩
    · rw [hc.closure, hc'.closure]
    · rw [hc.advanced, hc'.advanced]

/-- Turn the sets round wherever they are looked at. -/
def Reordering.backwards : Reordering where
  apply := fun _ w => ⟨w.closure.reverse, w.advanced.reverse, w.discovered.reverse⟩
  closure := fun _ w => w.closure.reverse_perm
  advanced := fun _ w => w.advanced.reverse_perm
  discovered := fun _ w => w.discovered.reverse_perm

/-- Two listings of one frontier, the sets of the one closure turned round all the time. -/
theorem queries_in_canonical_order_backwards :
    ∃ a, Attempt.ofInput (.text "a") wandering (.number (4 : Nat)) = .ok a ∧
      let listed : List StateId := [(4 : Nat), (0 : Nat)]
      let other : List StateId := [(0 : Nat), (4 : Nat), (0 : Nat)]
      let closed := (a.run (closure a.ids (distinct listed) (.after 0) true)).run (a.session [])
      Number.nan ∉ listed ∧
      (Attempt.reached closed).queries.toList =
        [(0 : Nat), (4 : Nat), (3 : Nat)].map (fun s : Nat => a.query ⟨.after 0, s⟩) ∧
      RunsAlike (Phase.Rel Settled.SameSets) closed
        ((a.run (closureUnder .backwards a.ids (.after 0) (distinct other) true)).run
          (a.session [])) := by
  have hmade : Attempt.ofInput (.text "a") wandering (.number (4 : Nat)) =
      .ok ⟨#[97], wandering, ⟨0, 1, 2, 0, Number.maxSafe⟩, .atMost 4⟩ := by rfl
  have hnan : Number.nan ∉ ([(4 : Nat), (0 : Nat)] : List StateId) := by decide
  refine ⟨_, hmade, ?_⟩
  intro listed other closed
  obtain ⟨_, _, _, _, _, halike⟩ := queries_in_canonical_order
    ⟨#[97], wandering, ⟨0, 1, 2, 0, Number.maxSafe⟩, .atMost 4⟩ [] listed hnan 0 true
  refine ⟨hnan, rfl, halike other .backwards ?_⟩
  ext s
  simp [stateSet, listed, other, or_comm]

end OracleNFA
