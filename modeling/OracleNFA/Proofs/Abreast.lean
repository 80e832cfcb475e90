/-
  OracleNFA.Proofs.Abreast
  ────────────────────────
  **TWO RUNS SIDE BY SIDE, AS FAR AS THEIR QUESTIONS ARE NEAR.**

  Two attempts may look alike near the beginning of their inputs and differ further
  on.  Their explorations go abreast (`Attempt.Abreast`) if they raise the same
  questions while these are near; where the first one leaves for far positions, only
  far results are left for it, and the second one may do what it likes:

      abreast_simulate  — a frontier only moves forward
      abreast_follow    — a path search keeps the furthest position it came to
      AlikeWhile.run    — runs end alike, unless the result is far
      AlikeWhile.report — and so do reports

  Positions of all kinds can be near, up to all of them; then the attempts end alike
  altogether.
-/
import OracleNFA.Proofs.Anchoring

namespace OracleNFA

open Exploration

variable {α β : Type}

/-! ## §1. What all questions and results are like. -/

namespace Exploration

/-- Whatever is replied, all questions are about sites as wanted, and so is the result. -/
def All (P : Site → Prop) (Q : α → Prop) : Exploration α → Prop
  | .done r => Q r
  | .note _ rest => rest.All P Q
  | .ask site next => P site ∧ ∀ reply, (next reply).All P Q

variable {P : Site → Prop} {Q : α → Prop} {Q' : β → Prop} {x : Exploration α}

theorem All.bind {f : α → Exploration β} (h : x.All P Q) (hf : ∀ r, Q r → (f r).All P Q') :
    (x.bind f).All P Q' := by
  induction x with
  | done r => exact hf r h
  | note event rest ih => exact ih h
  | ask site next ih => exact ⟨h.1, fun reply => ih reply (h.2 reply)⟩

theorem All.mono {P' : Site → Prop} {Q'' : α → Prop} (h : x.All P Q) (hP : ∀ u, P u → P' u)
    (hQ : ∀ r, Q r → Q'' r) : x.All P' Q'' := by
  induction x with
  | done r => exact hQ r h
  | note event rest ih => exact ih h
  | ask site next ih => exact ⟨hP _ h.1, fun reply => ih reply (h.2 reply)⟩

/-- Some result is always possible. -/
theorem All.exists_result (h : x.All P Q) : ∃ r, Q r := by
  induction x with
  | done r => exact ⟨r, h⟩
  | note event rest ih => exact ih h
  | ask site next ih => exact ih none (h.2 none)

/-- A run that returns comes to a result as wanted. -/
theorem All.run {a : Attempt} (x : Exploration α) : ∀ p : Progress, x.All P Q →
    ∀ r p', (a.run x).run p = .ok r p' → Q r := by
  induction x with
  | done s =>
      intro p h r p' hrun
      obtain ⟨rfl, _⟩ := EStateM.Result.ok.inj hrun
      exact h
  | note event rest ih => exact fun p h r p' hrun => ih (p.noting (event p.meter.used)) h r p' hrun
  | ask site next ih =>
      intro p h r p' hrun
      rw [Attempt.run_ask_next] at hrun
      cases hm : p.meter.take? with
      | none =>
          rw [hm] at hrun
          exact ih none p (h.2 none) r p' hrun
      | some meter =>
          rw [hm] at hrun
          dsimp only at hrun
          cases ho : a.oracle.answer (a.query site) with
          | error failure =>
              rw [ho] at hrun
              exact absurd hrun (by simp)
          | ok raw =>
              rw [ho] at hrun
              exact ih _ _ (h.2 _) r p' hrun

/-! ## §2. One position. -/

variable {ids ids' : Numbering} {goal : Option StateId} {position : Position}

/-- A round asks at its position, -/
theorem all_sweep (pending : List StateId) : ∀ w : Expansion,
    (sweep ids goal position pending w).All (fun u => u.position = position) fun _ => True := by
  induction pending with
  | nil => exact fun _ => trivial
  | cons s rest ih =>
      intro w
      rw [sweep]
      split
      · exact ih w
      · refine ⟨rfl, fun reply => ?_⟩
        cases reply with
        | none => trivial
        | some answer =>
            dsimp only
            cases absorb? goal position answer w with
            | none => trivial
            | some w' => exact ih w'

theorem all_rounds (more : Nat) : ∀ (pending : List StateId) (w : Expansion),
    (rounds ids goal position more pending w).All (fun u => u.position = position)
      fun _ => True := by
  induction more with
  | zero => exact fun _ _ => trivial
  | succ more ih =>
      intro pending w
      refine (all_sweep pending w).bind fun phase _ => ?_
      cases phase with
      | accepted => trivial
      | exhausted => trivial
      | settled w' =>
          dsimp only
          split
          · trivial
          · exact ih _ _

/-- and so does everything up to the frontier of the next one. -/
theorem all_step (ids : Numbering) (frontier : List StateId) (position : Position)
    (accepting : Bool) :
    (step ids frontier position accepting).All (fun u => u.position = position) fun _ => True := by
  have hclosure : (closure ids frontier position accepting).All (fun u => u.position = position)
      fun _ => True := by
    unfold closure
    split
    · trivial
    · exact (all_rounds _ _ _).bind fun _ _ => trivial
  exact hclosure.bind fun _ _ => trivial

/-- A round only looks at the number of the accepting state, -/
theorem sweep_congr (haccept : ids'.accept = ids.accept) (pending : List StateId) :
    ∀ w : Expansion, sweep ids' goal position pending w = sweep ids goal position pending w := by
  induction pending with
  | nil => exact fun _ => rfl
  | cons s rest ih =>
      intro w
      rw [sweep, sweep, haccept]
      split
      · exact ih w
      · refine congrArg _ (funext fun reply => ?_)
        cases reply with
        | none => rfl
        | some answer =>
            dsimp only
            cases absorb? goal position answer w with
            | none => rfl
            | some w' => exact ih w'

theorem rounds_congr (haccept : ids'.accept = ids.accept) (more : Nat) :
    ∀ (pending : List StateId) (w : Expansion),
      rounds ids' goal position more pending w = rounds ids goal position more pending w := by
  induction more with
  | zero => exact fun _ _ => rfl
  | succ more ih =>
      intro pending w
      rw [rounds, rounds, sweep_congr haccept]
      refine congrArg (Exploration.bind · _) (funext fun phase => ?_)
      cases phase with
      | accepted => rfl
      | exhausted => rfl
      | settled w' =>
          dsimp only
          rw [ih]

/-- and a step at how many states there are besides. -/
theorem step_congr (haccept : ids'.accept = ids.accept) (hspan : ids'.span = ids.span)
    (frontier : List StateId) (position : Position) (accepting : Bool) :
    step ids' frontier position accepting = step ids frontier position accepting := by
  unfold step closure
  rw [haccept, hspan]
  simp only [rounds_congr haccept]

/-! ## §3. Where an exploration can end. -/

variable {length k : Nat}

/-- One position of a simulation, where it ends or beyond. -/
theorem all_visit {anchored : Bool} {n : Nat} {next : List StateId → Exploration Ending}
    (hk : k ≤ n)
    (hnext : ∀ advanced, (next advanced).All (fun _ => True) fun e => k ≤ e.position.count)
    (frontier : List StateId) :
    (visit ids length anchored (.after n) frontier next).All (fun _ => True)
      fun e => k ≤ e.position.count := by
  refine ((all_step ids frontier (.after n) _).mono (fun _ _ => trivial) fun _ h => h).bind
    fun phase _ => ?_
  cases phase with
  | accepted => exact hk
  | exhausted => exact hk
  | settled advanced => exact hnext advanced

/-- **A simulation ends no earlier than it begins.** -/
theorem all_simulateFrom (anchored : Bool) (left : Nat) : ∀ {n : Nat} (_ : k ≤ n)
    (frontier : List StateId), (simulateFrom ids length anchored left (.after n) frontier).All
      (fun _ => True) fun e => k ≤ e.position.count := by
  induction left with
  | zero =>
      intro n hk frontier
      refine all_visit hk ?_ frontier
      exact fun _ => hk
  | succ left ih =>
      intro n hk frontier
      refine all_visit hk (fun advanced => ?_) frontier
      split
      · exact hk
      · exact ih (Nat.le_succ_of_le hk) advanced

/-- **A path search ends no earlier than the furthest position it came to**, or at the
end of the input. -/
theorem all_follow (hlength : k ≤ length) (more : Nat) : ∀ t : Trail, k ≤ t.furthest →
    (follow ids length more t).All (fun _ => True) fun e => k ≤ e.position.count := by
  induction more with
  | zero => exact fun t hk => hk
  | succ more ih =>
      intro t hk
      rw [follow]
      cases t.stack with
      | nil => exact hk
      | cons site rest =>
          have hfurthest : k ≤ max t.furthest site.position.count :=
            Nat.le_trans hk (Nat.le_max_left _ _)
          dsimp only
          split
          · exact ih _ hfurthest
          · refine ⟨trivial, fun reply => ?_⟩
            cases reply with
            | none => exact hfurthest
            | some answer =>
                dsimp only
                cases hpush : push? ids length answer.position answer.successors
                    { t with stack := rest, furthest := max t.furthest site.position.count } with
                | none => exact hlength
                | some t' =>
                    -- Pushing does not move the furthest position.
                    obtain ⟨_, _, _, hsame, _⟩ := push?_eq_some hpush
                    refine ih t' ?_
                    rw [hsame]
                    exact hfurthest

/-- Taking a site off the stack is coming to its position. -/
theorem follow_top {more : Nat} {t : Trail} {site : Site} {rest : List Site}
    (hstack : t.stack = site :: rest) :
    follow ids length (more + 1) t = follow ids length (more + 1)
      { t with furthest := max t.furthest site.position.count } := by
  rw [follow, follow, hstack]
  dsimp only
  rw [Nat.max_assoc, Nat.max_self]

end Exploration

/-- The end of an exploration at a position that is not near. -/
def Ending.Far (near : Nat → Prop) (e : Ending) : Prop :=
  ¬ near e.position.count

namespace Attempt

/-! ## §4. Explorations abreast. -/

variable {a b : Attempt} {near : Nat → Prop}

/-- The position of a site is near. -/
def NearSite (near : Nat → Prop) (u : Site) : Prop :=
  ∃ n, u.position = .after n ∧ near n

/-- Two explorations raise the same questions as long as these are near, and after that
the first one only ends far away. -/
inductive Abreast (a : Attempt) (near : Nat → Prop) :
    Exploration Ending → Exploration Ending → Prop
  | beyond {x y : Exploration Ending} (ends : x.All (fun _ => True) (Ending.Far near)) :
      Abreast a near x y
  | done (e : Ending) : Abreast a near (.done e) (.done e)
  | note {event event' : Nat → Event} {x y : Exploration Ending} (rest : Abreast a near x y) :
      Abreast a near (.note event x) (.note event' y)
  | ask {site : Site} {next next' : Option Answer → Exploration Ending}
      (here : NearSite near site) (refused : Abreast a near (next none) (next' none))
      (replied : ∀ raw, Abreast a near (next (some (a.read site raw).answer))
        (next' (some (a.read site raw).answer))) :
      Abreast a near (.ask site next) (.ask site next')

/-- **The same near questions first**, and abreast after that. -/
theorem Abreast.bind {x : Exploration β} {f g : β → Exploration Ending}
    (h : x.All (NearSite near) fun _ => True) (hnext : ∀ r, a.Abreast near (f r) (g r)) :
    a.Abreast near (x.bind f) (x.bind g) := by
  induction x with
  | done r => exact hnext r
  | note event rest ih => exact .note (ih h)
  | ask site next ih => exact .ask h.1 (ih none (h.2 none)) fun raw => ih _ (h.2 _)

/-- Two attempts answer the question about a site alike. -/
structure AlikeAt (a b : Attempt) (u : Site) : Prop where
  answer : b.oracle.answer (b.query u) = a.oracle.answer (a.query u)
  read : ∀ raw, b.read u raw = a.read u raw

/-- Two attempts that look alike at near positions.  Either their inputs are of one
length, or neither one ends at or right behind a near position. -/
structure AlikeWhile (near : Nat → Prop) (a b : Attempt) : Prop where
  budget : b.budget = a.budget
  start : b.ids.start = a.ids.start
  accept : b.ids.accept = a.ids.accept
  span : b.ids.span = a.ids.span
  down : ∀ m n, m ≤ n → near n → near m
  length : ∀ n, near n → b.length = a.length ∨ n + 1 < a.length ∧ n + 1 < b.length
  alike : ∀ n s, near n → AlikeAt a b ⟨.after n, s⟩

theorem AlikeWhile.alikeAt (h : AlikeWhile near a b) {u : Site} (hu : NearSite near u) :
    AlikeAt a b u := by
  obtain ⟨n, hposition, hn⟩ := hu
  have halike := h.alike n u.state hn
  rw [← hposition] at halike
  exact halike

/-! ## §5. Simulations. -/

/-- What ends behind a position that is not near ends far away. -/
theorem AlikeWhile.far (h : AlikeWhile near a b) {n : Nat} (hn : ¬ near n)
    {x : Exploration Ending} (hx : x.All (fun _ => True) fun e => n ≤ e.position.count) :
    x.All (fun _ => True) (Ending.Far near) :=
  hx.mono (fun _ _ => trivial) fun e he hnear => hn (h.down n e.position.count he hnear)

/-- One near position. -/
theorem AlikeWhile.abreast_visit (h : AlikeWhile near a b) {n : Nat} (hn : near n)
    {anchored : Bool} {next next' : List StateId → Exploration Ending}
    (hnext : ∀ advanced, a.Abreast near (next advanced) (next' advanced))
    (frontier : List StateId) :
    a.Abreast near (visit a.ids a.length anchored (.after n) frontier next)
      (visit b.ids b.length anchored (.after n) frontier next') := by
  have hend : (Position.after n).same (.after b.length) =
      (Position.after n).same (.after a.length) := by
    rw [same_after, same_after]
    rcases h.length n hn with hlength | hinside
    · rw [hlength]
    · rw [beq_false_of_ne (by omega), beq_false_of_ne (by omega)]
  unfold visit
  rw [hend, step_congr h.accept h.span]
  refine .note (.bind ?_ fun phase => ?_)
  · exact (all_step a.ids frontier (.after n) _).mono (fun u hu => ⟨n, hu, hn⟩) fun _ hr => hr
  · cases phase with
    | accepted => exact .note (.done _)
    | exhausted => exact .note (.done _)
    | settled advanced => exact hnext advanced

/-- **Simulations are abreast as far as positions are near.** -/
theorem AlikeWhile.abreast_simulateFrom (h : AlikeWhile near a b) (anchored : Bool) (left : Nat) :
    ∀ (left' n : Nat), left = a.length - n → left' = b.length - n → ∀ frontier : List StateId,
      a.Abreast near (simulateFrom a.ids a.length anchored left (.after n) frontier)
        (simulateFrom b.ids b.length anchored left' (.after n) frontier) := by
  induction left with
  | zero =>
      intro left' n hleft hleft' frontier
      by_cases hn : near n
      · -- At the end of the one input, near as it is, the other one ends as well.
        have hlength := (h.length n hn).resolve_right (by omega)
        obtain rfl : left' = 0 := by omega
        exact h.abreast_visit hn (fun _ => .note (.done _)) frontier
      · exact .beyond (h.far hn (all_simulateFrom anchored 0 (Nat.le_refl n) frontier))
  | succ left ih =>
      intro left' n hleft hleft' frontier
      by_cases hn : near n
      · -- At a near position the other input goes on if this one does.
        have hmore : left' ≠ 0 := by
          rcases h.length n hn with hlength | hinside
          · omega
          · omega
        obtain ⟨left', rfl⟩ := Nat.exists_eq_succ_of_ne_zero hmore
        refine h.abreast_visit hn (fun advanced => ?_) frontier
        split
        · exact .note (.done _)
        · exact ih left' (n + 1) (by omega) (by omega) advanced
      · exact .beyond (h.far hn (all_simulateFrom anchored _ (Nat.le_refl n) frontier))

theorem AlikeWhile.abreast_simulate (h : AlikeWhile near a b) (start : Nat) (anchored : Bool) :
    a.Abreast near (simulate a.ids a.length (.after start) anchored)
      (simulate b.ids b.length (.after start) anchored) := by
  unfold simulate
  rw [h.start]
  exact h.abreast_simulateFrom anchored _ _ start rfl rfl _

/-! ## §6. Path searches. -/

/-- What is pushed depends on the numbers of the accepting state and the end alone. -/
theorem push?_congr {ids ids' : Numbering} {length length' : Nat} {p : Position}
    (haccept : ids'.accept = ids.accept) (hend : p = .after length' ↔ p = .after length)
    (successors : List StateId) : ∀ t : Trail,
      push? ids' length' p successors t = push? ids length p successors t := by
  induction successors with
  | nil => exact fun _ => rfl
  | cons s rest ih =>
      intro t
      rw [push?, push?, haccept]
      simp only [hend, ih]

/-- A trail of sites of the attempt, none of them twice, and rounds enough to follow it. -/
structure Lasts (a : Attempt) (more : Nat) (t : Trail) : Prop where
  nodup : t.seen.Nodup
  stacked : ∀ u ∈ t.stack, u ∈ t.seen
  sites : ∀ u ∈ t.seen, u ∈ a.entry 0 :: a.sites
  rounds : a.ids.span * (a.length + 1) + 1 + t.stack.length < more + t.seen.length

namespace Lasts

variable {more furthest : Nat} {t t' : Trail} {site : Site} {rest : List Site}

/-- There are no more sites than rounds, so one round is left. -/
theorem pos (h : a.Lasts more t) : 0 < more := by
  -- Sites are seen once, and there are so many of them, with the one to begin with.
  have hle : t.seen.length ≤ a.ids.span * (a.length + 1) + 1 := by
    rw [← a.length_sites, ← List.length_cons (a := a.entry 0)]
    exact (List.subperm_of_subset h.nodup h.sites).length_le
  have hrounds := h.rounds
  omega

theorem position (h : a.Lasts more t) (hstack : t.stack = site :: rest) :
    ∃ n ≤ a.length, ∃ s, site = ⟨.after n, s⟩ := by
  rcases List.mem_cons.1 (h.sites site (h.stacked site (by simp [hstack]))) with rfl | hsite
  · exact ⟨0, Nat.zero_le _, _, rfl⟩
  · simp only [Attempt.sites, List.mem_flatMap, List.mem_range, List.mem_map] at hsite
    obtain ⟨n, hn, k, _, rfl⟩ := hsite
    exact ⟨n, Nat.le_of_lt_succ hn, _, rfl⟩

theorem skip (h : a.Lasts (more + 1) t) (hstack : t.stack = site :: rest) :
    a.Lasts more { t with stack := rest, furthest := furthest } where
  nodup := h.nodup
  stacked := fun u hu => h.stacked u (by rw [hstack]; exact List.mem_cons_of_mem _ hu)
  sites := h.sites
  rounds := by
    have hrounds := h.rounds
    rw [hstack, List.length_cons] at hrounds
    show _ + rest.length < more + t.seen.length
    omega

/-- What is pushed was seen before it is followed. -/
theorem push {ids : Numbering} {length : Nat} {p : Position} {successors : List StateId}
    (h : a.Lasts more t) (hsites : ∀ s ∈ successors, (⟨p, s⟩ : Site) ∈ a.sites)
    (hpush : push? ids length p successors t = some t') : a.Lasts more t' := by
  obtain ⟨new, hstack, hseen, _, hnodup, hnew, _⟩ := push?_eq_some hpush
  constructor
  · rw [hseen]
    exact List.Nodup.append hnodup h.nodup fun v hv => (hnew v hv).2.2
  · intro u hu
    rw [hstack] at hu
    rw [hseen]
    exact (List.mem_append.1 hu).elim (List.mem_append_left _)
      fun hu => List.mem_append_right _ (h.stacked u hu)
  · intro u hu
    rw [hseen] at hu
    rcases List.mem_append.1 hu with hu | hu
    · obtain ⟨hposition, hmem, _⟩ := hnew u hu
      subst hposition
      exact List.mem_cons_of_mem _ (hsites u.state hmem)
    · exact h.sites u hu
  · have hrounds := h.rounds
    rw [hstack, hseen, List.length_append, List.length_append]
    omega

/-- The start of a path search. -/
theorem start (a : Attempt) :
    a.Lasts (a.ids.span * (a.length + 1) + 2) ⟨[a.entry 0], [a.entry 0], 0⟩ where
  nodup := List.nodup_singleton _
  stacked := fun _ hu => hu
  sites := fun u hu => by simp [List.mem_singleton.1 hu]
  rounds := by
    show _ + 1 < _ + 1
    omega

end Lasts

/-- Successors live where the question was asked, or one position further on inside the
input. -/
theorem successor_inside {n : Nat} {s t : StateId} {raw : Value} (hn : n ≤ a.length)
    (ht : t ∈ (a.read ⟨.after n, s⟩ raw).answer.successors) :
    ∃ k ≤ a.length, k ≤ n + 1 ∧ (a.read ⟨.after n, s⟩ raw).answer.position = .after k := by
  rw [read_answer] at ht ⊢
  cases hdecode : Response.decode a.ids raw with
  | error issues => simp [hdecode] at ht
  | ok d =>
      rw [hdecode] at ht
      dsimp only at ht ⊢
      by_cases hconsumes : d.consumes = true
      · rw [if_pos hconsumes] at ht ⊢
        by_cases hinside : n < a.length
        · exact ⟨n + 1, hinside, Nat.le_refl _, rfl⟩
        · simp [hinside] at ht
      · rw [if_neg hconsumes]
        exact ⟨n, hn, Nat.le_succ n, rfl⟩

/-- From a near position both inputs are seen to end, or neither is. -/
theorem AlikeWhile.at_end (h : AlikeWhile near a b) {n : Nat} (hn : near n) (s : StateId)
    (raw : Value) : (a.read ⟨.after n, s⟩ raw).answer.position = .after b.length ↔
      (a.read ⟨.after n, s⟩ raw).answer.position = .after a.length := by
  rcases h.length n hn with hlength | hinside
  · rw [hlength]
  · rcases read_position a n s raw with hposition | hposition <;>
      rw [hposition, Position.after.injEq, Position.after.injEq] <;> omega

/-- Successors from a near position are sites of both attempts. -/
theorem AlikeWhile.successor_sites (h : AlikeWhile near a b) {n : Nat} (hn : near n)
    (hna : n ≤ a.length) (s : StateId) (raw : Value) :
    let answer := (a.read ⟨.after n, s⟩ raw).answer
    (∀ t ∈ answer.successors, (⟨answer.position, t⟩ : Site) ∈ a.sites) ∧
      ∀ t ∈ answer.successors, (⟨answer.position, t⟩ : Site) ∈ b.sites := by
  intro answer
  have hinside : ∀ t ∈ answer.successors, ∃ k ≤ a.length, k ≤ b.length ∧
      answer.position = .after k := by
    intro t ht
    obtain ⟨k, hk, hle, hposition⟩ := successor_inside hna ht
    refine ⟨k, hk, ?_, hposition⟩
    rcases h.length n hn with hlength | hinside
    · omega
    · omega
  constructor
  · intro t ht
    obtain ⟨k, hk, _, hposition⟩ := hinside t ht
    rw [hposition]
    exact mem_sites hk (names_of_read ht)
  · intro t ht
    obtain ⟨k, _, hk, hposition⟩ := hinside t ht
    obtain ⟨id, hid, hname⟩ := names_of_read ht
    rw [hposition]
    exact mem_sites hk ⟨id, h.span.symm ▸ hid, hname⟩

/-- **Path searches are abreast until one is far away.** -/
theorem AlikeWhile.abreast_follow (h : AlikeWhile near a b) (more : Nat) :
    ∀ (more' : Nat) (t : Trail), a.Lasts more t → b.Lasts more' t →
      a.Abreast near (follow a.ids a.length more t) (follow b.ids b.length more' t) := by
  induction more with
  | zero => exact fun more' t ha => absurd ha.pos (Nat.lt_irrefl 0)
  | succ more ih =>
      intro more' t ha hb
      obtain ⟨more', rfl⟩ := Nat.exists_eq_succ_of_ne_zero (Nat.ne_of_gt hb.pos)
      cases hstack : t.stack with
      | nil =>
          rw [follow, follow, hstack]
          exact .note (.done _)
      | cons site rest =>
          obtain ⟨n, hna, s, rfl⟩ := ha.position hstack
          by_cases hn : near n
          · rw [follow, follow, hstack, h.accept]
            dsimp only
            by_cases haccept : s = a.ids.accept
            · rw [if_pos haccept, if_pos haccept]
              exact ih _ _ (ha.skip hstack) (hb.skip hstack)
            · rw [if_neg haccept, if_neg haccept]
              refine .ask ⟨n, rfl, hn⟩ (.note (.done _)) fun raw => ?_
              dsimp only
              rw [push?_congr h.accept (h.at_end hn s raw)]
              obtain ⟨hsites, hsites'⟩ := h.successor_sites hn hna s raw
              cases hpush : push? a.ids a.length (a.read ⟨.after n, s⟩ raw).answer.position
                  (a.read ⟨.after n, s⟩ raw).answer.successors
                  { t with stack := rest, furthest := max t.furthest (Position.after n).count } with
              | none =>
                  -- The end of the one input is the end of the other one.
                  obtain ⟨_, _, _, hend⟩ := push?_eq_none hpush
                  have hend' := (h.at_end hn s raw).2 hend
                  rw [Position.after.inj (hend'.symm.trans hend)]
                  exact .note (.done _)
              | some t' =>
                  exact ih _ t' ((ha.skip hstack).push hsites hpush)
                    ((hb.skip hstack).push hsites' hpush)
          · -- The site on the top is far, and so is the furthest position from now on.
            refine .beyond (h.far hn ?_)
            rw [follow_top hstack]
            exact all_follow hna _ _ (Nat.le_max_right _ _)

theorem AlikeWhile.abreast_path (h : AlikeWhile near a b) :
    a.Abreast near (path a.ids a.length) (path b.ids b.length) := by
  have hentry : b.entry 0 = a.entry 0 := by
    unfold entry
    rw [h.start]
  have hb := Lasts.start b
  rw [hentry] at hb
  unfold path
  rw [h.start]
  exact h.abreast_follow _ _ _ (Lasts.start a) hb

theorem AlikeWhile.abreast_strategy (h : AlikeWhile near a b) (s : Strategy) :
    a.Abreast near (s.exploration a.ids a.length) (s.exploration b.ids b.length) := by
  cases s with
  | frontier => exact h.abreast_simulate 0 true
  | path => exact h.abreast_path

/-! ## §7. Runs. -/

/-- Runs that ended alike after near questions. -/
def NearAlike (near : Nat → Prop) (a b : Attempt)
    (left right : EStateM.Result (Raised QueryError) Progress Ending) : Prop :=
  ∃ i, (∀ u ∈ i.asked, NearSite near u) ∧ a.EndAlike b id Eq i left right

/-- A run that can only end far away. -/
def RunsFar (near : Nat → Prop) (left : EStateM.Result (Raised QueryError) Progress Ending) :
    Prop :=
  (∃ e, Ending.Far near e) ∧ ∀ e p, left = .ok e p → Ending.Far near e

/-- **Runs of explorations abreast end alike, or the first one far away.** -/
theorem AlikeWhile.run (h : AlikeWhile near a b) {x y : Exploration Ending}
    (hxy : a.Abreast near x y) : ∀ (i : Inquiry) (p q : Progress), a.Accounts i p → b.Accounts i q →
      (∀ u ∈ i.asked, NearSite near u) →
        RunsFar near ((a.run x).run p) ∨
          NearAlike near a b ((a.run x).run p) ((b.run y).run q) := by
  induction hxy with
  | beyond ends =>
      intro i p q _ _ _
      exact .inl ⟨ends.exists_result, fun e p' hrun => All.run _ p ends e p' hrun⟩
  | done e =>
      intro i p q hp hq hi
      refine .inr ⟨i, hi, .returned rfl hp ?_⟩
      rw [Inquiry.map_id]
      exact hq
  | note _ ih =>
      intro i p q hp hq hi
      exact ih i (p.noting _) (q.noting _) { hp with } { hq with } hi
  | @ask site next next' here _ _ ihrefused ihreplied =>
      intro i p q hp hq hi
      -- Both have asked the same, so the query is granted to both or refused to both.
      have hmeter : q.meter = p.meter := by
        rw [hq.meter_eq, hp.meter_eq, h.budget]
      rw [run_ask_next, run_ask_next, hmeter]
      cases hm : p.meter.take? with
      | none => exact ihrefused _ p q (hp.refuse site hm) (hq.refuse site (hmeter ▸ hm)) hi
      | some meter =>
          have halike := h.alikeAt here
          have hi' : ∀ u ∈ (i.ask site).asked, NearSite near u := by
            intro u hu
            rcases List.mem_append.1 hu with hu | hu
            · exact hi u hu
            · obtain rfl := List.mem_singleton.1 hu
              exact here
          have hp' := hp.ask hm site
          have hq' := hq.ask (hmeter ▸ hm) site
          dsimp only at hp' hq' ⊢
          rw [halike.answer] at hq' ⊢
          cases hraw : a.oracle.answer (a.query site) with
          | error failure =>
              rw [hraw] at hp' hq'
              refine .inr ⟨i.ask site, hi', .failed (σ := id) rfl rfl hp' ?_⟩
              rw [Inquiry.map_id]
              exact hq'
          | ok raw =>
              rw [hraw] at hp' hq'
              dsimp only at hp' hq' ⊢
              rw [halike.read raw] at hq' ⊢
              exact ihreplied raw _ _ _ hp' hq' hi'

/-! ## §8. Reports. -/

theorem AlikeAt.faults_eq {u : Site} (h : AlikeAt a b u) : b.faults u = a.faults u := by
  unfold faults
  rw [h.answer]
  cases a.oracle.answer (a.query u) with
  | error failure => rfl
  | ok raw =>
      dsimp only
      rw [h.read raw]

/-- What was asked near by amounts to the same outcome. -/
theorem AlikeWhile.outcomeOf_eq (h : AlikeWhile near a b) {i : Inquiry}
    (hi : ∀ u ∈ i.asked, NearSite near u) (e : Ending) : b.outcomeOf e i = a.outcomeOf e i := by
  have hfaults : i.asked.flatMap b.faults = i.asked.flatMap a.faults := by
    exact List.flatMap_congr fun u hu => (h.alikeAt (hi u hu)).faults_eq
  unfold outcomeOf
  rw [hfaults, h.budget]

/-- Two reports on an exploration each that have the same result, after questions about
the same near sites. -/
def ReportsAlike (near : Nat → Prop) (a b : Attempt) (r s : Report Outcome) : Prop :=
  s.result = r.result ∧ ∃ sites : List Site, (∀ u ∈ sites, NearSite near u) ∧
    r.queries = sites.map a.query ∧ s.queries = sites.map b.query

/-- **Reports of explorations abreast**: the first one is of a far end, if of any, or
both are alike. -/
theorem AlikeWhile.report (h : AlikeWhile near a b) {x y : Exploration Ending}
    (hxy : a.Abreast near x y) :
    ((∃ e, Ending.Far near e) ∧
        ∀ o, (a.report x a.outcome).result = .ok o → ¬ near o.position.count) ∨
      ReportsAlike near a b (a.report x a.outcome) (b.report y b.outcome) := by
  have hrun := h.run hxy .start _ _ a.accounts_fresh b.accounts_fresh (by simp)
  unfold Attempt.report
  generalize (a.run x).run (Progress.fresh a.budget) = left at hrun ⊢
  generalize (b.run y).run (Progress.fresh b.budget) = right at hrun ⊢
  rcases hrun with ⟨hfar, hends⟩ | ⟨i, hi, halike⟩
  · refine .inl ⟨hfar, fun o ho => ?_⟩
    cases left with
    | error e p => exact absurd ho (by simp [Report.ofRun])
    | ok e p =>
        obtain rfl : a.outcome e p = o := Except.ok.inj ho
        exact hends e p rfl
  · right
    cases halike with
    | @returned e e' p q related hp hq =>
        rw [Inquiry.map_id] at hq
        subst related
        refine ⟨congrArg Except.ok ?_, i.asked, hi, hp.queries, hq.queries⟩
        rw [hq.outcome_eq, hp.outcome_eq, h.outcomeOf_eq hi]
    | failed raised raised' hp hq =>
        subst raised raised'
        rw [Inquiry.map_id] at hq
        exact ⟨rfl, i.asked, hi, hp.queries, hq.queries⟩

end Attempt

end OracleNFA
