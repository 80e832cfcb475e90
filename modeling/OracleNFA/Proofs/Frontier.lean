/-
  OracleNFA.Proofs.Frontier
  ─────────────────────────
  **A SIMULATION VISITS THE REACHABLE SITES POSITION BY POSITION.**

  `Attempt.Explored` says what an exploration owes to the configuration graph,
  in whatever order it goes: it asks about reachable sites only, each at most
  once and never about the accepting state; it accepts where that state is
  reached and counts, and rejects when everything reachable was asked about.

  A simulation keeps `Attempt.Advancing`: every reachable site lies behind and
  was asked about, or is reached from the frontier.  Closing the frontier and
  crossing the symbol moves this one position on, so

      ensures_simulate : a simulation from inside the input is explored
-/
import OracleNFA.Proofs.Closure

namespace OracleNFA

open Exploration

namespace Attempt

variable {a : Attempt} {n : Nat} {frontier : List StateId}

/-! ## §1. What an exploration owes to the graph. -/

/-- Where the accepting state counts: at the end of the input, or anywhere. -/
def Counts (a : Attempt) (anchored : Bool) (n : Nat) : Prop :=
  anchored = false ∨ n = a.length

/-- The questions raised are about sites that are reached from `root` and not
accepting, each at most once. -/
structure Orderly (a : Attempt) (root : Site) (i : Inquiry) : Prop where
  nodup : i.touched.Nodup
  reached : ∀ u ∈ i.touched, a.Reaches root u ∧ u.state ≠ a.ids.accept

/-- The furthest position that is reached from `root`. -/
structure Furthest (a : Attempt) (root : Site) (n : Nat) : Prop where
  reached : ∃ s, a.Reaches root ⟨.after n, s⟩
  le : ∀ m s, a.Reaches root ⟨.after m, s⟩ → m ≤ n

/-- Accepted: the accepting state counts at a position where it is reached, and
at no earlier one. -/
structure AcceptedAt (a : Attempt) (root : Site) (anchored : Bool) (n : Nat) (i : Inquiry) :
    Prop where
  granted : i.refused = none
  inside : n ≤ a.length
  counts : a.Counts anchored n
  reached : a.Reaches root (a.exit n)
  first : ∀ m < n, a.Counts anchored m → ¬ a.Reaches root (a.exit m)

/-- Rejected: everything reached was asked about, and nowhere is the accepting
state reached where it counts. -/
structure RejectedAt (a : Attempt) (root : Site) (anchored : Bool) (n : Nat) (i : Inquiry) :
    Prop where
  granted : i.refused = none
  complete : ∀ u, a.Reaches root u → u.state ≠ a.ids.accept → u ∈ i.asked
  unreached : ∀ m, a.Counts anchored m → ¬ a.Reaches root (a.exit m)
  furthest : a.Furthest root n

/-- What a strategy owes to the configuration graph. -/
def Explored (a : Attempt) (root : Site) (anchored : Bool) (r : Except (Raised QueryError) Ending)
    (i : Inquiry) : Prop :=
  a.Orderly root i ∧
    match r with
    | .error _ => True
    | .ok ⟨.accepted, p⟩ => ∃ n, p = .after n ∧ a.AcceptedAt root anchored n i
    | .ok ⟨.rejected, p⟩ => ∃ n, p = .after n ∧ a.RejectedAt root anchored n i
    | .ok ⟨.exhausted, _⟩ => i.refused.isSome = true

/-! ## §2. Paths out of a position. -/

/-- A path from a position stays there or crosses the symbol once and goes on. -/
theorem Reaches.split {s : StateId} {v : Site} (h : a.Reaches ⟨.after n, s⟩ v) :
    (v.position = .after n ∧ Relation.ReflTransGen (a.Hop n) s v.state) ∨
      ∃ t g, Relation.ReflTransGen (a.Hop n) s t ∧ a.Crossing n t g ∧
        a.Reaches ⟨.after (n + 1), g⟩ v := by
  induction h with
  | refl => exact .inl ⟨rfl, .refl⟩
  | tail _ hedge ih =>
      -- Only the last edge of a path that stayed can be the one across the symbol.
      rename_i w v' _
      rcases ih with ⟨hpos, hpath⟩ | ⟨t, g, hpath, hcross, hrest⟩
      · obtain ⟨_, t⟩ := w
        obtain ⟨_, g⟩ := v'
        obtain rfl : _ = Position.after n := hpos
        rcases hedge.position with hpos' | ⟨hpos', _⟩
        · obtain rfl : _ = Position.after n := hpos'
          exact .inl ⟨rfl, hpath.tail hedge⟩
        · obtain rfl : _ = Position.after (n + 1) := hpos'
          exact .inr ⟨t, g, hpath, hedge, .refl⟩
      · exact .inr ⟨t, g, hpath, hcross, hrest.tail hedge⟩

theorem Crossing.inside {s t : StateId} (h : a.Crossing n s t) : n < a.length := by
  rcases Edge.position h with hpos | ⟨_, hlt⟩
  · exact absurd (Position.after.inj hpos) (by omega)
  · exact hlt

/-- The sites reached from a frontier at its own position are the live ones. -/
theorem liveFrom_of_reaches {f s : StateId} (hf : f ∈ frontier)
    (h : a.Reaches ⟨.after n, f⟩ ⟨.after n, s⟩) : a.LiveFrom n frontier s := by
  rcases h.split with ⟨_, hpath⟩ | ⟨t, g, _, hcross, hrest⟩
  · exact ⟨f, hf, hpath⟩
  · obtain ⟨m, _, heq, hle, _⟩ := hrest.position hcross.inside
    have : n = m := Position.after.inj (congrArg Site.position heq)
    omega

/-! ## §3. A simulation on its way. -/

/-- A simulation that has come to a position: the frontier is reached, and every
other site that is reached lies behind and was asked about. -/
structure Advancing (a : Attempt) (root : Site) (anchored : Bool) (n : Nat)
    (frontier : List StateId) (i : Inquiry) : Prop where
  granted : i.refused = none
  orderly : a.Orderly root i
  behind : ∀ u ∈ i.asked, ∃ m < n, u.position = .after m
  nodup : frontier.Nodup
  reached : ∀ f ∈ frontier, a.Reaches root ⟨.after n, f⟩
  covers : ∀ m s, a.Reaches root ⟨.after m, s⟩ →
    m < n ∧ (s = a.ids.accept ∨ (⟨.after m, s⟩ : Site) ∈ i.asked) ∨
      ∃ f ∈ frontier, a.Reaches ⟨.after n, f⟩ ⟨.after m, s⟩
  uncounted : ∀ m < n, a.Counts anchored m → ¬ a.Reaches root (a.exit m)

namespace Advancing

variable {root : Site} {anchored : Bool} {states : List StateId} {c : Settled} {i i' : Inquiry}

/-- Before the first position. -/
theorem start (anchored : Bool) (hn : n ≤ a.length) :
    a.Advancing (a.entry n) anchored n [(a.ids.start : StateId)] .start where
  granted := rfl
  orderly := ⟨List.nodup_nil, fun u hu => absurd hu (by simp [Inquiry.touched])⟩
  behind := fun u hu => absurd hu (by simp)
  nodup := List.nodup_singleton _
  reached := by
    intro f hf
    rw [List.mem_singleton.1 hf]
    exact .refl
  covers := fun m s h => .inr ⟨a.ids.start, List.mem_singleton_self _, h⟩
  uncounted := by
    intro m hm _ h
    obtain ⟨k, _, heq, hle, _⟩ := Reaches.position hn h
    have : m = k := Position.after.inj (congrArg Site.position heq)
    omega

theorem live_reached (h : a.Advancing root anchored n frontier i) {s : StateId}
    (hs : a.LiveFrom n frontier s) : a.Reaches root ⟨.after n, s⟩ := by
  obtain ⟨f, hf, hpath⟩ := hs.reaches
  exact (h.reached f hf).trans hpath

/-- Whatever is asked at this position, order is kept. -/
theorem orderly_raises (h : a.Advancing root anchored n frontier i)
    (hraises : a.Raises n frontier i.asked states i') : a.Orderly root i' := by
  have hasked : i.touched = i.asked := Inquiry.touched_of_refused_none h.granted
  constructor
  · rw [hraises.touched]
    refine List.Nodup.append (hasked ▸ h.orderly.nodup) (hraises.nodup.map ?_) ?_
    · exact fun s t hst => congrArg Site.state hst
    · intro u hu hstate
      obtain ⟨m, hm, hpos⟩ := h.behind u hu
      obtain ⟨s, _, rfl⟩ := List.mem_map.1 hstate
      have : n = m := Position.after.inj hpos
      omega
  · intro u hu
    rw [hraises.touched] at hu
    rcases List.mem_append.1 hu with hu | hu
    · exact h.orderly.reached u (hasked ▸ hu)
    · obtain ⟨s, hs, rfl⟩ := List.mem_map.1 hu
      exact ⟨h.live_reached (hraises.live s hs).1, (hraises.live s hs).2⟩

/-- **Crossing the symbol moves a simulation one position on.** -/
theorem next (h : a.Advancing root anchored n frontier i) {accepting : Bool}
    (haccepting : accepting = true ↔ a.Counts anchored n) (hi' : i'.refused = none)
    (hraises : a.Raises n frontier i.asked states i')
    (hsettles : a.Settles n frontier (a.goalWhen accepting) states c) :
    a.Advancing root anchored (n + 1) c.advanced i' := by
  have hasked : i'.asked = i.asked ++ states.map fun s => ⟨.after n, s⟩ := by
    rw [← hraises.touched, Inquiry.touched_of_refused_none hi']
  refine {
    granted := hi'
    orderly := h.orderly_raises hraises
    behind := ?behind
    nodup := hsettles.advanced_nodup
    reached := ?reached
    covers := ?covers
    uncounted := ?uncounted }
  case behind =>
    intro u hu
    rw [hasked] at hu
    rcases List.mem_append.1 hu with hu | hu
    · obtain ⟨m, hm, hpos⟩ := h.behind u hu
      exact ⟨m, by omega, hpos⟩
    · obtain ⟨s, _, rfl⟩ := List.mem_map.1 hu
      exact ⟨n, by omega, rfl⟩
  case reached =>
    intro t ht
    obtain ⟨s, hlive, hcross⟩ := (hsettles.advanced t).1 ht
    exact (h.live_reached hlive).tail hcross
  case covers =>
    intro m s hreach
    rcases h.covers m s hreach with ⟨hm, hs⟩ | ⟨f, hf, hpath⟩
    · refine .inl ⟨by omega, hs.imp_right fun hmem => ?_⟩
      rw [hasked]
      exact List.mem_append_left _ hmem
    · rcases hpath.split with ⟨hpos, hhops⟩ | ⟨t, g, hhops, hcross, hrest⟩
      · -- the site is live at this position
        obtain rfl : m = n := Position.after.inj hpos
        refine .inl ⟨by omega, ?_⟩
        by_cases hs : s = a.ids.accept
        · exact .inl hs
        · right
          rw [hasked]
          refine List.mem_append_right _ (List.mem_map.2 ⟨s, ?_, rfl⟩)
          exact (hsettles.asked s).2 ⟨⟨f, hf, hhops⟩, hs⟩
      · -- the path goes on behind the symbol
        exact .inr ⟨g, (hsettles.advanced g).2 ⟨t, ⟨f, hf, hhops⟩, hcross⟩, hrest⟩
  case uncounted =>
    -- At this position the closure would not have settled.
    intro m hm hcounts hreach
    by_cases hlt : m < n
    · exact h.uncounted m hlt hcounts hreach
    · obtain rfl : m = n := by omega
      rcases h.covers m _ hreach with ⟨hlt', _⟩ | ⟨f, hf, hpath⟩
      · omega
      · refine hsettles.goal_out a.ids.accept ?_ (liveFrom_of_reaches hf hpath)
        exact goalWhen_eq_some.2 ⟨haccepting.2 hcounts, rfl⟩

/-- Where the frontier is empty behind a position that was reached, everything
reached was asked about. -/
theorem rejectedAt {start : Nat} (h : a.Advancing (a.entry start) anchored (n + 1) [] i)
    (hstart : start ≤ a.length) (hreached : ∃ s, a.Reaches (a.entry start) ⟨.after n, s⟩) :
    a.RejectedAt (a.entry start) anchored n i := by
  have hcovers : ∀ m s, a.Reaches (a.entry start) ⟨.after m, s⟩ →
      m < n + 1 ∧ (s = a.ids.accept ∨ (⟨.after m, s⟩ : Site) ∈ i.asked) := by
    intro m s hreach
    rcases h.covers m s hreach with hbehind | ⟨f, hf, _⟩
    · exact hbehind
    · exact absurd hf (by simp)
  refine ⟨h.granted, ?_, ?_, hreached, fun m s hreach => ?_⟩
  · intro u hreach hu
    obtain ⟨m, s, rfl, _, _⟩ := Reaches.position hstart hreach
    exact (hcovers m s hreach).2.resolve_left hu
  · intro m hcounts hreach
    exact h.uncounted m (hcovers m _ hreach).1 hcounts hreach
  · have := (hcovers m s hreach).1
    omega

end Advancing

/-! ## §4. Whole simulations. -/

variable {start : Nat} {anchored : Bool} {i : Inquiry}

theorem counts_iff : (!anchored || (Position.after n).same (.after a.length)) = true ↔
    a.Counts anchored n := by
  unfold Counts
  simp [same_after]

/-- One position of a simulation: it ends here, or the simulation has come to the
next position and goes on from the frontier there. -/
theorem ensures_visit {next : List StateId → Exploration Ending}
    (h : a.Advancing (a.entry start) anchored n frontier i) (hn : n ≤ a.length)
    (hnext : ∀ advanced i', a.Advancing (a.entry start) anchored (n + 1) advanced i' →
      (advanced ≠ [] → n < a.length) →
      a.Ensures (a.Explored (a.entry start) anchored) (next advanced) i') :
    a.Ensures (a.Explored (a.entry start) anchored)
      (visit a.ids a.length anchored (.after n) frontier next) i := by
  show a.Ensures _ (Exploration.bind _ (step a.ids frontier (.after n) _)) i
  apply ensures_bind
  refine ensures_mono a ?_ _ _ (ensures_step _ h.nodup h.granted)
  rintro (e | phase) i' ⟨states, hraises, hr⟩
  · exact ⟨h.orderly_raises hraises, trivial⟩
  · match phase with
    | .accepted =>
        obtain ⟨hi', g, hg, hlive⟩ := hr
        obtain ⟨hcounts, rfl⟩ := goalWhen_eq_some.1 hg
        exact ⟨h.orderly_raises hraises, n, rfl, hi', hn, counts_iff.1 hcounts,
          h.live_reached hlive, h.uncounted⟩
    | .exhausted => exact ⟨h.orderly_raises hraises, hr⟩
    | .settled advanced =>
        obtain ⟨hi', c, hsettles, rfl⟩ := hr
        refine hnext _ i' (h.next counts_iff hi' hraises hsettles) fun hne => ?_
        obtain ⟨t, ht⟩ := List.exists_mem_of_ne_nil _ hne
        obtain ⟨s, _, hcross⟩ := (hsettles.advanced t).1 ht
        exact hcross.inside

/-- What is left of a simulation is explored. -/
theorem ensures_simulateFrom (hstart : start ≤ a.length) (left : Nat) :
    ∀ (n : Nat) (frontier : List StateId) (i : Inquiry),
      a.Advancing (a.entry start) anchored n frontier i → frontier ≠ [] → n + left = a.length →
      a.Ensures (a.Explored (a.entry start) anchored)
        (simulateFrom a.ids a.length anchored left (.after n) frontier) i := by
  induction left with
  | zero =>
      -- At the end of the input no symbol is left to cross.
      intro n frontier i h hne hn
      refine ensures_visit h (by omega) fun advanced i' hnext hinside => ?_
      obtain ⟨f, hf⟩ := List.exists_mem_of_ne_nil _ hne
      have hempty : advanced = [] := by
        by_contra hadv
        have := hinside hadv
        omega
      subst hempty
      exact ⟨hnext.orderly, n, rfl, hnext.rejectedAt hstart ⟨f, h.reached f hf⟩⟩
  | succ left ih =>
      intro n frontier i h hne hn
      refine ensures_visit h (by omega) fun advanced i' hnext _ => ?_
      obtain ⟨f, hf⟩ := List.exists_mem_of_ne_nil _ hne
      -- An empty frontier ends the simulation before the input does.
      by_cases hempty : advanced = []
      · subst hempty
        exact ⟨hnext.orderly, n, rfl, hnext.rejectedAt hstart ⟨f, h.reached f hf⟩⟩
      · rw [if_neg (by simpa using hempty)]
        exact ih (n + 1) advanced i' hnext hempty (by omega)

/-- **A simulation explores what is reached from its start.** -/
theorem ensures_simulate (anchored : Bool) (hstart : start ≤ a.length) :
    a.Ensures (a.Explored (a.entry start) anchored)
      (simulate a.ids a.length (.after start) anchored) .start := by
  refine ensures_simulateFrom hstart _ _ _ _ (Advancing.start anchored hstart) (by simp) ?_
  show start + (a.length - start) = a.length
  omega

end Attempt

end OracleNFA
