/-
  OracleNFA.Proofs.Path
  ─────────────────────
  **A PATH SEARCH EXPLORES THE SAME SITES, DEPTH FIRST.**

  While a path search goes on (`Attempt.Following`), every site it has seen is
  reached, and lies on the stack, or was asked about with all its edges leading
  to sites that were seen too, or is the accepting state before the end of the
  input.  So an empty stack means that everything reached was seen.

  Each round takes one site off the stack, no site is ever put there twice and
  there are finitely many, so the search is over before its rounds run out:

      ensures_path : the search for a path is explored
-/
import OracleNFA.Proofs.Frontier

namespace OracleNFA

open Exploration

/-! ## §1. What one answer puts on the stack. -/

namespace Exploration

variable {ids : Numbering} {length : Nat} {p : Position} {successors : List StateId}

theorem push?_eq_none : ∀ {t : Trail}, push? ids length p successors t = none →
    ∃ s ∈ successors, s = ids.accept ∧ p = .after length := by
  induction successors with
  | nil => intro t h; exact absurd h (by simp [push?])
  | cons s rest ih =>
      intro t h
      rw [push?] at h
      split at h
      · next hgoal => exact ⟨s, List.mem_cons_self, hgoal⟩
      · split at h
        · obtain ⟨g, hg, hgoal⟩ := ih h
          exact ⟨g, List.mem_cons_of_mem _ hg, hgoal⟩
        · obtain ⟨g, hg, hgoal⟩ := ih h
          exact ⟨g, List.mem_cons_of_mem _ hg, hgoal⟩

/-- Pushing puts the successors that were not seen on the stack, once each. -/
theorem push?_eq_some : ∀ {t t' : Trail}, push? ids length p successors t = some t' →
    ∃ new, t'.stack = new ++ t.stack ∧ t'.seen = new ++ t.seen ∧ t'.furthest = t.furthest ∧
      new.Nodup ∧ (∀ v ∈ new, v.position = p ∧ v.state ∈ successors ∧ v ∉ t.seen) ∧
      ∀ s ∈ successors, (⟨p, s⟩ : Site) ∈ t'.seen ∧ ¬ (s = ids.accept ∧ p = .after length) := by
  induction successors with
  | nil =>
      intro t t' h
      obtain rfl : t = t' := by simpa [push?] using h
      exact ⟨[], by simp⟩
  | cons s rest ih =>
      intro t t' h
      rw [push?] at h
      split at h
      · exact absurd h (by simp)
      · next hgoal =>
          split at h
          · next hseen =>
              obtain ⟨new, hstack, hseen', hfurthest, hnodup, hnew, hall⟩ := ih h
              refine ⟨new, hstack, hseen', hfurthest, hnodup, fun v hv => ?_, fun u hu => ?_⟩
              · exact ⟨(hnew v hv).1, List.mem_cons_of_mem _ (hnew v hv).2.1, (hnew v hv).2.2⟩
              · rcases List.mem_cons.1 hu with rfl | hu
                · refine ⟨?_, hgoal⟩
                  rw [hseen']
                  exact List.mem_append_right _ (isSeen_iff.1 hseen)
                · exact hall u hu
          · next hseen =>
              obtain ⟨new, hstack, hseen', hfurthest, hnodup, hnew, hall⟩ := ih h
              refine ⟨new ++ [⟨p, s⟩], by simp [hstack], by simp [hseen'], hfurthest, ?_,
                fun v hv => ?_, fun u hu => ?_⟩
              · refine List.Nodup.append hnodup (List.nodup_singleton _) fun v hv hs => ?_
                rw [List.mem_singleton] at hs
                exact (hnew v hv).2.2 (by simp [hs])
              · rcases List.mem_append.1 hv with hv | hv
                · obtain ⟨hpos, hmem, hout⟩ := hnew v hv
                  exact ⟨hpos, List.mem_cons_of_mem _ hmem,
                    fun hin => hout (List.mem_cons_of_mem _ hin)⟩
                · rw [List.mem_singleton.1 hv]
                  exact ⟨rfl, List.mem_cons_self, fun hin => hseen (isSeen_iff.2 hin)⟩
              · rcases List.mem_cons.1 hu with rfl | hu
                · refine ⟨?_, hgoal⟩
                  rw [hseen']
                  simp
                · exact hall u hu

end Exploration

namespace Attempt

/-! ## §2. A search on its way. -/

/-- A path search that has come to a trail: what was seen is reached, and waits on
the stack, or was asked about and followed, or is the accepting state. -/
structure Following (a : Attempt) (t : Trail) (i : Inquiry) : Prop where
  granted : i.refused = none
  seen_nodup : t.seen.Nodup
  reached : ∀ u ∈ t.seen, a.Reaches (a.entry 0) u
  entry_seen : a.entry 0 ∈ t.seen
  exit_unseen : a.exit a.length ∉ t.seen
  raised_nodup : (t.stack ++ i.asked).Nodup
  seen_of_raised : ∀ u ∈ t.stack ++ i.asked, u ∈ t.seen
  covers : ∀ u ∈ t.seen, u ∈ t.stack ++ i.asked ∨ u.state = a.ids.accept
  asked_live : ∀ u ∈ i.asked, u.state ≠ a.ids.accept
  closed : ∀ u ∈ i.asked, ∀ v, a.Edge u v → v ∈ t.seen
  furthest_reached : ∃ s, a.Reaches (a.entry 0) ⟨.after t.furthest, s⟩
  furthest_le : ∀ u ∈ t.seen, u ∈ t.stack ∨ u.position.count ≤ t.furthest

namespace Following

variable {a : Attempt} {t t' : Trail} {i : Inquiry} {site : Site} {rest : List Site}

/-- Before the first site. -/
theorem start (hdistinct : a.ids.start ≠ a.ids.accept) :
    a.Following ⟨[a.entry 0], [a.entry 0], 0⟩ .start where
  granted := rfl
  seen_nodup := List.nodup_singleton _
  reached := by
    intro u hu
    rw [List.mem_singleton.1 hu]
    exact .refl
  entry_seen := List.mem_singleton_self _
  exit_unseen := by
    intro h
    have hstate : Number.ofNat a.ids.accept = Number.ofNat a.ids.start :=
      congrArg Site.state (List.mem_singleton.1 h)
    exact hdistinct (Number.ofNat_inj.1 hstate).symm
  raised_nodup := List.nodup_singleton _
  seen_of_raised := fun u hu => by simpa using hu
  covers := fun u hu => .inl (by simpa using hu)
  asked_live := fun u hu => absurd hu (by simp)
  closed := fun u hu => absurd hu (by simp)
  furthest_reached := ⟨a.ids.start, .refl⟩
  furthest_le := fun u hu => .inl hu

/-- The site on top is a state inside the input. -/
theorem top (h : a.Following t i) (hstack : t.stack = site :: rest) :
    ∃ n s, site = ⟨.after n, s⟩ ∧ a.Reaches (a.entry 0) site := by
  have hreach := h.reached site (h.seen_of_raised site (by simp [hstack]))
  obtain ⟨n, s, hsite, _, _⟩ := Reaches.position (Nat.zero_le _) hreach
  exact ⟨n, s, hsite, hreach⟩

/-- The furthest position once the site on top is explored. -/
theorem furthest_top (h : a.Following t i) (hstack : t.stack = site :: rest) :
    (∃ s, a.Reaches (a.entry 0) ⟨.after (max t.furthest site.position.count), s⟩) ∧
      ∀ u ∈ t.seen, u ∈ rest ∨ u.position.count ≤ max t.furthest site.position.count := by
  obtain ⟨n, s, rfl, hreach⟩ := h.top hstack
  constructor
  · rcases Nat.le_total t.furthest n with hle | hle
    · rw [show max t.furthest (Position.after n).count = n from Nat.max_eq_right hle]
      exact ⟨s, hreach⟩
    · rw [show max t.furthest (Position.after n).count = t.furthest from Nat.max_eq_left hle]
      exact h.furthest_reached
  · intro u hu
    rcases h.furthest_le u hu with hmem | hle
    · rw [hstack] at hmem
      rcases List.mem_cons.1 hmem with rfl | hmem
      · exact .inr (Nat.le_max_right _ _)
      · exact .inl hmem
    · exact .inr (Nat.le_trans hle (Nat.le_max_left _ _))

/-- The accepting state before the end of the input leads nowhere. -/
theorem skip (h : a.Following t i) (hstack : t.stack = site :: rest)
    (hsite : site.state = a.ids.accept) :
    a.Following { t with stack := rest, furthest := max t.furthest site.position.count } i := by
  have hsub : (rest ++ i.asked).Sublist (t.stack ++ i.asked) := by
    rw [hstack]
    exact List.sublist_cons_self site _
  obtain ⟨hreached, hle⟩ := h.furthest_top hstack
  refine ⟨h.granted, h.seen_nodup, h.reached, h.entry_seen, h.exit_unseen,
    h.raised_nodup.sublist hsub, fun u hu => h.seen_of_raised u (hsub.subset hu), fun u hu => ?_,
    h.asked_live, h.closed, hreached, hle⟩
  rcases h.covers u hu with hmem | hu
  · rw [hstack, List.cons_append] at hmem
    rcases List.mem_cons.1 hmem with rfl | hmem
    · exact .inr hsite
    · exact .inl hmem
  · exact .inr hu

/-- Whether the question about the site on top is granted or not, order is kept. -/
theorem orderly_top (h : a.Following t i) (hstack : t.stack = site :: rest)
    (hsite : site.state ≠ a.ids.accept) {i' : Inquiry} (hi' : i'.touched = i.asked ++ [site]) :
    a.Orderly (a.entry 0) i' := by
  have hnodup : (site :: i.asked).Nodup := by
    refine h.raised_nodup.sublist ?_
    rw [hstack, List.cons_append]
    exact List.cons_sublist_cons.2 (List.sublist_append_right rest i.asked)
  constructor
  · rw [hi']
    exact (List.perm_append_singleton site i.asked).nodup_iff.2 hnodup
  · intro u hu
    rw [hi'] at hu
    rcases List.mem_append.1 hu with hu | hu
    · exact ⟨h.reached u (h.seen_of_raised u (List.mem_append_right _ hu)), h.asked_live u hu⟩
    · obtain rfl := List.mem_singleton.1 hu
      exact ⟨h.reached u (h.seen_of_raised u (by simp [hstack])), hsite⟩

/-- **An answer is followed.** -/
theorem push (h : a.Following t i) (hstack : t.stack = site :: rest)
    (hsite : site.state ≠ a.ids.accept) {p : Position} {successors : List StateId}
    (hedge : ∀ v, a.Edge site v ↔ v.position = p ∧ v.state ∈ successors)
    (hpush : push? a.ids a.length p successors
      { t with stack := rest, furthest := max t.furthest site.position.count } = some t') :
    a.Following t' (i.ask site) := by
  obtain ⟨new, hstack', hseen', hfurthest', hnodup, hnew, hall⟩ := push?_eq_some hpush
  obtain ⟨_, _, _, hreach⟩ := h.top hstack
  obtain ⟨hreached, hle⟩ := h.furthest_top hstack
  -- The site on top moves from the stack to what was asked; the new ones join.
  have hraised : (t'.stack ++ (i.ask site).asked).Perm (new ++ (t.stack ++ i.asked)) := by
    rw [hstack', hstack, Inquiry.asked_ask, List.append_assoc]
    refine List.Perm.append_left new ?_
    exact (List.Perm.append_left rest (List.perm_append_singleton site i.asked)).trans
      List.perm_middle
  have hseen_new : ∀ v ∈ t'.seen, v ∈ new ∨ v ∈ t.seen := by
    intro v hv
    rw [hseen'] at hv
    exact List.mem_append.1 hv
  have hold : ∀ v ∈ t.seen, v ∈ t'.seen := by
    intro v hv
    rw [hseen']
    exact List.mem_append_right _ hv
  refine {
    granted := h.granted
    seen_nodup := ?seen_nodup
    reached := ?reached
    entry_seen := hold _ h.entry_seen
    exit_unseen := ?exit_unseen
    raised_nodup := ?raised_nodup
    seen_of_raised := ?seen_of_raised
    covers := ?covers
    asked_live := ?asked_live
    closed := ?closed
    furthest_reached := hfurthest' ▸ hreached
    furthest_le := ?furthest_le }
  case seen_nodup =>
    rw [hseen']
    exact List.Nodup.append hnodup h.seen_nodup fun v hv => (hnew v hv).2.2
  case reached =>
    -- What is new is one edge away from the site on top.
    intro v hv
    rcases hseen_new v hv with hv | hv
    · exact hreach.tail ((hedge v).2 ⟨(hnew v hv).1, (hnew v hv).2.1⟩)
    · exact h.reached v hv
  case exit_unseen =>
    -- The exit among the successors would have ended the search.
    intro hv
    rcases hseen_new _ hv with hv | hv
    · exact (hall _ (hnew _ hv).2.1).2 ⟨rfl, (hnew _ hv).1.symm⟩
    · exact h.exit_unseen hv
  case raised_nodup =>
    rw [hraised.nodup_iff]
    refine List.Nodup.append hnodup h.raised_nodup fun v hv hmem => ?_
    exact (hnew v hv).2.2 (h.seen_of_raised v hmem)
  case seen_of_raised =>
    intro v hv
    rcases List.mem_append.1 (hraised.mem_iff.1 hv) with hv | hv
    · rw [hseen']
      exact List.mem_append_left _ hv
    · exact hold v (h.seen_of_raised v hv)
  case covers =>
    intro v hv
    rw [hraised.mem_iff]
    rcases hseen_new v hv with hv | hv
    · exact .inl (List.mem_append_left _ hv)
    · exact (h.covers v hv).imp_left (List.mem_append_right _)
  case asked_live =>
    intro v hv
    rcases List.mem_append.1 hv with hv | hv
    · exact h.asked_live v hv
    · rw [List.mem_singleton.1 hv]
      exact hsite
  case closed =>
    -- Only the site on top is new among those asked about, and its edges are
    -- what was pushed.
    intro u hu v huv
    rcases List.mem_append.1 hu with hu | hu
    · exact hold v (h.closed u hu v huv)
    · rw [List.mem_singleton.1 hu] at huv
      obtain ⟨rfl, hv⟩ := (hedge v).1 huv
      exact (hall _ hv).1
  case furthest_le =>
    intro v hv
    rw [hfurthest', hstack']
    rcases hseen_new v hv with hv | hv
    · exact .inl (List.mem_append_left _ hv)
    · exact (hle v hv).imp_left (List.mem_append_right _)

/-- With nothing left on the stack, everything that is reached was seen. -/
theorem seen_of_reaches (h : a.Following t i) (hstack : t.stack = []) {u : Site}
    (hu : a.Reaches (a.entry 0) u) : u ∈ t.seen := by
  induction hu with
  | refl => exact h.entry_seen
  | tail _ hedge ih =>
      -- A seen site was asked about, since the stack is empty, or is accepting,
      -- and no edge leads out of that.
      rcases h.covers _ ih with hmem | hlive
      · rw [hstack, List.nil_append] at hmem
        exact h.closed _ hmem _ hedge
      · exact absurd hlive hedge.live

theorem rejectedAt (h : a.Following t i) (hstack : t.stack = []) :
    a.RejectedAt (a.entry 0) true t.furthest i := by
  refine ⟨h.granted, ?_, ?_, h.furthest_reached, ?_⟩
  · intro u hu hlive
    have hmem := (h.covers u (h.seen_of_reaches hstack hu)).resolve_right hlive
    rwa [hstack, List.nil_append] at hmem
  · rintro m (hm | rfl) hreach
    · exact absurd hm (by simp)
    · exact h.exit_unseen (h.seen_of_reaches hstack hreach)
  · intro m s hreach
    rcases h.furthest_le _ (h.seen_of_reaches hstack hreach) with hmem | hle
    · rw [hstack] at hmem
      exact absurd hmem (by simp)
    · exact hle

theorem length_seen_le (h : a.Following t i) :
    t.seen.length ≤ a.ids.span * (a.length + 1) + 1 := by
  rw [← a.length_sites, ← List.length_cons (a := a.entry 0)]
  refine (List.subperm_of_subset h.seen_nodup fun u hu => ?_).length_le
  exact Reaches.mem_sites (Nat.zero_le _) (h.reached u hu)

end Following

/-! ## §3. Whole searches. -/

variable {a : Attempt}

/-- What is left of a search is explored, if the rounds last for the sites that
were not seen yet. -/
theorem ensures_follow (more : Nat) :
    ∀ (t : Trail) (i : Inquiry), a.Following t i →
      a.ids.span * (a.length + 1) + 1 + t.stack.length < more + t.seen.length →
      a.Ensures (a.Explored (a.entry 0) true) (follow a.ids a.length more t) i := by
  induction more with
  | zero =>
      -- More sites would have been seen than there are.
      intro t i h hfuel
      have hle := h.length_seen_le
      omega
  | succ more ih =>
      intro t i h hfuel
      rw [follow]
      cases hstack : t.stack with
      | nil =>
          -- Nothing is left to follow.
          refine ⟨⟨?_, fun u hu => ?_⟩, t.furthest, rfl, h.rejectedAt hstack⟩
          · rw [Inquiry.touched_of_refused_none h.granted]
            simpa [hstack] using h.raised_nodup
          · rw [Inquiry.touched_of_refused_none h.granted] at hu
            have hseen := h.seen_of_raised u (List.mem_append_right _ hu)
            exact ⟨h.reached u hseen, h.asked_live u hu⟩
      | cons site rest =>
          dsimp only
          rw [hstack, List.length_cons] at hfuel
          by_cases hsite : site.state = a.ids.accept
          · rw [if_pos hsite]
            refine ih _ i (h.skip hstack hsite) ?_
            show _ + rest.length < more + t.seen.length
            omega
          · rw [if_neg hsite]
            have hask : (i.ask site).touched = i.asked ++ [site] :=
              Inquiry.touched_of_refused_none h.granted
            refine ⟨⟨h.orderly_top hstack hsite (Inquiry.touched_refuse h.granted _),
              Inquiry.isSome_refused_refuse _ _⟩, fun _ => ?_⟩
            obtain ⟨n, s, rfl, hreach⟩ := h.top hstack
            cases answered : a.oracle.answer (a.query ⟨.after n, s⟩) with
            | error failure => exact ⟨h.orderly_top hstack hsite hask, trivial⟩
            | ok raw =>
                dsimp only
                have hedge := fun v => edge_iff_of_answer (v := v) hsite answered
                cases hpush : push? a.ids a.length (a.read ⟨.after n, s⟩ raw).answer.position
                    (a.read ⟨.after n, s⟩ raw).answer.successors
                    { t with
                      stack := rest
                      furthest := max t.furthest (Position.after n).count } with
                | none =>
                    -- The accepting state at the end of the input is one edge away.
                    obtain ⟨g, hg, rfl, hpos⟩ := push?_eq_none hpush
                    refine ⟨h.orderly_top hstack hsite hask, a.length, rfl, h.granted,
                      Nat.le_refl _, .inr rfl, hreach.tail ((hedge _).2 ⟨hpos.symm, hg⟩), ?_⟩
                    rintro m hm (hm' | rfl)
                    · exact absurd hm' (by simp)
                    · exact absurd hm (Nat.lt_irrefl _)
                | some t' =>
                    -- Whatever was pushed was seen as well, so one round is gained.
                    refine ih t' _ (h.push hstack hsite hedge hpush) ?_
                    obtain ⟨new, hstack', hseen', _⟩ := push?_eq_some hpush
                    rw [hstack', hseen']
                    simp only [List.length_append]
                    omega

/-- **A path search explores what is reached from its start.** -/
theorem ensures_path (hdistinct : a.ids.start ≠ a.ids.accept) :
    a.Ensures (a.Explored (a.entry 0) true) (path a.ids a.length) .start := by
  refine ensures_follow _ _ _ (Following.start hdistinct) ?_
  simp

end Attempt

end OracleNFA
