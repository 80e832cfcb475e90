/-
  OracleNFA.Proofs.Surfacing
  ──────────────────────────
  **A FAILURE OF THE ORACLE STOPS EVERYTHING AND IS REPORTED AS ONE.**

  `Attempt.Surfaces` is what a report owes to the sites that were asked about: a
  failure among them is the last thing asked and the error is about it, an error
  is such a failure, and what returns met none.  A failure that cannot be put in
  words stops everything too, but what is raised then tells nothing of it.

      report_surfaces                         — one exploration
      Surfaces.bind                           — whatever goes on from a result
      scan_surfaces, scanAll_surfaces         — attempts one after the other

  Refused questions and malformed answers do not occur in it: whatever an
  exploration makes of these, it goes on from answers alone.
-/
import OracleNFA.Proofs.Account
import OracleNFA.Proofs.Discipline

namespace OracleNFA

/-! ## §1. Reports that surface failures. -/

namespace Attempt

variable {α β : Type} {a : Attempt} {sites rest : List Site} {r : Report α}

/-- The last of the sites is the given one, and those before it were answered. -/
def LastIs (a : Attempt) (sites : List Site) (u : Site) : Prop :=
  ∃ before, sites = before ++ [u] ∧ ∀ v ∈ before, a.Answers v

/-- What a report of questions about these sites tells of failures. -/
structure Surfaces (a : Attempt) (sites : List Site) (r : Report α) : Prop where
  queries : r.queries = sites.map a.query
  /-- a failure stops everything and is what is raised: an error if there are words for it -/
  failed : ∀ u ∈ sites, ∀ failure, a.oracle.answer (a.query u) = .error failure →
    a.LastIs sites u ∧ r.result = .error (.query (QueryError.raise u failure))
  /-- an error is a failure -/
  thrown : ∀ e, r.result = .error (.query (.error e)) →
    a.LastIs sites e.site ∧ a.oracle.answer (a.query e.site) = .error e.failure
  /-- what has no words is a failure without words -/
  wordless : r.result = .error (.query .wordless) → ∃ u failure, a.LastIs sites u ∧
    a.oracle.answer (a.query u) = .error failure ∧ failure.describe? = none
  /-- what returns met no failure -/
  returned : ∀ v, r.result = .ok v → ∀ u ∈ sites, a.Answers u

theorem Answers.not_failed {u : Site} {failure : Failure} (h : a.Answers u) :
    a.oracle.answer (a.query u) ≠ .error failure := by
  obtain ⟨raw, hraw⟩ := h
  rw [hraw]
  simp

/-- Where everything is answered there is no failure to report, -/
theorem Surfaces.of_answered (hqueries : r.queries = sites.map a.query)
    (hanswers : ∀ u ∈ sites, a.Answers u) (hresult : ∀ e, r.result ≠ .error (.query e)) :
    a.Surfaces sites r where
  queries := hqueries
  failed := fun u hu _ hfailure => absurd hfailure (hanswers u hu).not_failed
  thrown := fun e he => absurd he (hresult (.error e))
  wordless := fun he => absurd he (hresult .wordless)
  returned := fun _ _ => hanswers

/-- and after a failure there is nothing more to ask. -/
theorem Surfaces.of_failed {u : Site} {e : Raised QueryError}
    (hqueries : r.queries = sites.map a.query) (hlast : a.LastIs sites u) (hfails : a.Fails u e)
    (hresult : r.result = .error (.query e)) : a.Surfaces sites r := by
  obtain ⟨failure, hfailure, rfl⟩ := hfails
  have hraised : ∀ e, r.result = .error (.query e) → QueryError.raise u failure = e := by
    intro e he
    simpa using hresult.symm.trans he
  refine ⟨hqueries, ?failed, ?thrown, ?wordless, ?returned⟩
  case failed =>
    intro v hv failure' hfailed
    have hsame : v = u := by
      obtain ⟨before, rfl, hanswers⟩ := hlast
      rcases List.mem_append.1 hv with hv | hv
      · exact absurd hfailed (hanswers v hv).not_failed
      · exact List.mem_singleton.1 hv
    subst hsame
    obtain rfl : failure = failure' := Except.error.inj (hfailure.symm.trans hfailed)
    exact ⟨hlast, hresult⟩
  case thrown =>
    intro e he
    obtain ⟨rfl, rfl, _⟩ := QueryError.raise_eq_error.1 (hraised _ he)
    exact ⟨hlast, hfailure⟩
  case wordless =>
    intro he
    exact ⟨u, failure, hlast, hfailure, QueryError.raise_eq_wordless.1 (hraised _ he)⟩
  case returned =>
    intro v hv
    exact absurd (hresult.symm.trans hv) (by simp)

/-- What is raised is raised for the last site, in words or without. -/
theorem Surfaces.raised {e : Raised QueryError} (h : a.Surfaces sites r)
    (hr : r.result = .error (.query e)) : ∃ u, a.LastIs sites u ∧ a.Fails u e := by
  cases e with
  | error e =>
      obtain ⟨hlast, hfailure⟩ := h.thrown e hr
      have hmem : e.site ∈ sites := by
        obtain ⟨before, hsites, _⟩ := hlast
        simp [hsites]
      have hresult := (h.failed e.site hmem e.failure hfailure).2
      exact ⟨e.site, hlast, e.failure, hfailure, by simpa using hresult.symm.trans hr⟩
  | wordless =>
      obtain ⟨u, failure, hlast, hfailure, hnone⟩ := h.wordless hr
      exact ⟨u, hlast, failure, hfailure, QueryError.raise_eq_wordless.2 hnone⟩

/-- Without an error of the oracle everything was answered. -/
theorem Surfaces.answers (h : a.Surfaces sites r) (hresult : ∀ e, r.result ≠ .error (.query e)) :
    ∀ u ∈ sites, a.Answers u := by
  intro u hu
  unfold Answers
  cases ho : a.oracle.answer (a.query u) with
  | ok raw => exact ⟨raw, rfl⟩
  | error failure => exact absurd (h.failed u hu failure ho).2 (hresult _)

/-- **An exploration surfaces failures**, whatever is made of its result. -/
theorem report_surfaces (a : Attempt) (x : Exploration α) (f : α → Progress → β) :
    a.Surfaces (a.inquired x) (a.report x f) := by
  obtain ⟨q, i, ⟨hcut, hcandid⟩, hgrants, hqueries, hresult⟩ := a.report_ensures x f
    (ensures_and _ _ _ (ensures_cut _ .start rfl) (ensures_candid _ .start (by simp)))
  rw [← hcut.asked_eq_inquired hgrants]
  cases q with
  | ok v =>
      obtain ⟨p, _, hresult⟩ := hresult
      refine .of_answered hqueries hcandid fun e he => ?_
      exact absurd (hresult.symm.trans he) (by simp)
  | error e =>
      obtain ⟨before, u, hasked, hbefore, hfails⟩ := hcandid
      exact .of_failed hqueries ⟨before, hasked, hbefore⟩ hfails hresult

/-- It goes by the questions and by what is raised for a failure, and by nothing else. -/
theorem Surfaces.transfer {s : Report β} (h : a.Surfaces sites r) (hqueries : s.queries = r.queries)
    (hraises : ∀ e, s.result = .error (.query e) ↔ r.result = .error (.query e)) :
    a.Surfaces sites s := by
  have hqueries := hqueries.trans h.queries
  by_cases herror : ∃ e, r.result = .error (.query e)
  · obtain ⟨e, he⟩ := herror
    obtain ⟨u, hlast, hfails⟩ := h.raised he
    exact .of_failed hqueries hlast hfails ((hraises e).2 he)
  · have hnone : ∀ e, r.result ≠ .error (.query e) := fun e he => herror ⟨e, he⟩
    exact .of_answered hqueries (h.answers hnone) fun e he => hnone e ((hraises e).1 he)

/-- The same questions with a result made from the result. -/
theorem Surfaces.map {s : Report β} {f : α → β} (h : a.Surfaces sites r)
    (hqueries : s.queries = r.queries) (hresult : s.result = r.result.map f) :
    a.Surfaces sites s := by
  refine h.transfer hqueries fun e => ?_
  rw [hresult]
  cases r.result <;> simp [Except.map]

theorem Surfaces.bind_pure {f : α → β} (h : a.Surfaces sites r) :
    a.Surfaces sites (r >>= fun v => Pure.pure (f v)) :=
  h.map (Report.queries_bind_pure r f) (Report.result_bind_pure r f)

/-- Nothing is asked after an error. -/
theorem Surfaces.bind_error {f : α → Report β} {e : MatchError} (h : a.Surfaces sites r)
    (hr : r.result = .error e) : a.Surfaces sites (r >>= f) := by
  rw [Report.bind_error hr]
  exact h.transfer rfl fun e' => by simp [hr]

/-- **What goes on from a result goes on from answers.** -/
theorem Surfaces.bind {f : α → Report β} {v : α} (h : a.Surfaces sites r) (hr : r.result = .ok v)
    (hf : a.Surfaces rest (f v)) : a.Surfaces (sites ++ rest) (r >>= f) := by
  have hqueries : (r >>= f).queries = (sites ++ rest).map a.query := by
    rw [Report.queries_bind hr, List.map_append, h.queries, hf.queries]
  have hresult : (r >>= f).result = (f v).result := Report.result_bind hr f
  have hsites := h.returned v hr
  by_cases herror : ∃ e, (f v).result = .error (.query e)
  · -- The failure that `f v` ends in is also the last of all sites.
    obtain ⟨e, he⟩ := herror
    obtain ⟨last, ⟨before, rfl, hbefore⟩, hfails⟩ := hf.raised he
    refine .of_failed hqueries ⟨sites ++ before, by simp, fun u hu => ?_⟩ hfails
      (hresult.trans he)
    exact (List.mem_append.1 hu).elim (hsites u) (hbefore u)
  · have hnone : ∀ e, (f v).result ≠ .error (.query e) := fun e he => herror ⟨e, he⟩
    refine .of_answered hqueries (fun u hu => ?_) fun e he => hnone e (hresult.symm.trans he)
    exact (List.mem_append.1 hu).elim (hsites u) (hf.answers hnone u)

end Attempt

/-! ## §2. Searches. -/

namespace Search

variable {α β : Type} {a : Attempt} {start stop : Nat}

/-- What the attempt at a start position asks about. -/
def inquiredAt (a : Attempt) (start : Nat) : List Site :=
  a.inquired (Exploration.simulate a.ids a.length start false)

/-- What is found at a start position surfaces failures. -/
theorem matchAt_surfaces (a : Attempt) (start : Nat) :
    a.Surfaces (inquiredAt a start) (matchAt a start) := by
  have hattempt : a.Surfaces (inquiredAt a start) (attemptAt a start) := a.report_surfaces _ _
  exact hattempt.map (matchAt_eq a start).1 (matchAt_eq a start).2

/-- Attempts at some of the positions from `start` up to but without `stop`, from left
to right, whose failures are surfaced. -/
def Surfaces (a : Attempt) (start stop : Nat) (r : Report α) : Prop :=
  ∃ starts : List Nat, starts.Pairwise (· < ·) ∧ (∀ k ∈ starts, start ≤ k ∧ k < stop) ∧
    a.Surfaces (starts.flatMap (inquiredAt a)) r

theorem surfaces_pure (v : α) : Surfaces a start stop (Pure.pure v) :=
  ⟨[], .nil, by simp, .of_answered rfl (by simp) (fun _ h => nomatch h)⟩

theorem Surfaces.bind_pure {r : Report α} {f : α → β} (h : Surfaces a start stop r) :
    Surfaces a start stop (r >>= fun v => Pure.pure (f v)) := by
  obtain ⟨starts, hascending, hwithin, hsurfaces⟩ := h
  exact ⟨starts, hascending, hwithin, hsurfaces.bind_pure⟩

/-- **A step of a search**: one attempt, and unless it fails others further on. -/
theorem surfaces_bind {f : Option Span → Report α} (hstop : start < stop)
    (h : ∀ found, ∃ next > start, Surfaces a next stop (f found)) :
    Surfaces a start stop (matchAt a start >>= f) := by
  have hfirst := matchAt_surfaces a start
  cases hresult : (matchAt a start).result with
  | error e =>
      -- Nothing follows an attempt that failed.
      obtain ⟨hascending, hwithin⟩ :=
        ascending_cons List.Pairwise.nil (by simp) (Nat.lt_succ_self start) hstop
      refine ⟨[start], hascending, hwithin, ?_⟩
      rw [List.flatMap_singleton]
      exact hfirst.bind_error hresult
  | ok found =>
      obtain ⟨next, hnext, starts, hascending, hwithin, hrest⟩ := h found
      obtain ⟨hascending, hwithin⟩ := ascending_cons hascending hwithin hnext hstop
      refine ⟨start :: starts, hascending, hwithin, ?_⟩
      rw [List.flatMap_cons]
      exact hfirst.bind hresult hrest

theorem scan_surfaces (a : Attempt) (more start : Nat) :
    Surfaces a start (start + more) (scan (matchAt a) more start) :=
  scan_keeps (P := fun k r => Surfaces a k (start + more) r) (fun _ v => surfaces_pure v)
    (fun _ hk _ hf => surfaces_bind hk hf) more start rfl

theorem scanAll_surfaces (a : Attempt) (stop more start : Nat) :
    Surfaces a start stop (scanAll (matchAt a) stop more start) :=
  scanAll_keeps (P := fun k r => Surfaces a k stop r) (fun _ v => surfaces_pure v)
    (fun _ _ _ h => h.bind_pure) (fun _ hk _ hf => surfaces_bind hk hf) more start

end Search

/-! ## §3. Every entry point. -/

/-- Nothing was asked, and there is no failure to report. -/
def Report.Silent {α : Type} (r : Report α) : Prop :=
  r.queries = [] ∧ ∀ e, r.result ≠ .error (.query e)

theorem Report.silent_refusal {α : Type} (e : Raised ConfigError) :
    (Report.refusal e : Report α).Silent :=
  ⟨rfl, fun _ h => nomatch h⟩

variable {input : Input} {oracle : Oracle} {maxCycles : Value} {a : Attempt}
  {e : Raised ConfigError}

/-- What deciding an input with a given strategy asks about; an unknown strategy asks
nothing. -/
def Attempt.inquiredBy (a : Attempt) (strategy : Value) : List Site :=
  match Strategy.ofValue strategy with
  | .ok s => a.inquired (s.exploration a.ids a.length)
  | .error _ => []

theorem evaluate_surfaces {options : Options}
    (h : Attempt.ofInput input oracle options.maxCycles = .ok a) :
    a.Surfaces (a.inquiredBy options.strategy) (evaluate input oracle options) := by
  unfold evaluate Attempt.inquiredBy
  cases Strategy.ofValue options.strategy with
  | error e => exact .of_answered rfl (by simp) (fun _ h => nomatch h)
  | ok s =>
      show a.Surfaces _ (runStrategy s input oracle options.maxCycles)
      rw [runStrategy_eq, h]
      exact a.report_surfaces _ _

theorem evaluate_silent {options : Options}
    (h : Attempt.ofInput input oracle options.maxCycles = .error e) :
    (evaluate input oracle options).Silent := by
  unfold evaluate
  cases Strategy.ofValue options.strategy with
  | error e => exact Report.silent_refusal e
  | ok s =>
      show (runStrategy s input oracle options.maxCycles).Silent
      rw [runStrategy_eq, h]
      exact Report.silent_refusal e

theorem Report.Silent.bind_pure {α β : Type} {r : Report α} {f : α → β} (h : r.Silent) :
    (r >>= fun v => Pure.pure (f v)).Silent := by
  obtain ⟨hqueries, hresult⟩ := h
  refine ⟨(Report.queries_bind_pure r f).trans hqueries, fun e he => ?_⟩
  rw [Report.result_bind_pure] at he
  cases hr : r.result with
  | ok v => simp [hr, Except.map] at he
  | error e' =>
      obtain rfl : e' = .query e := by simpa [hr, Except.map] using he
      exact hresult e hr

theorem searches_silent (h : Attempt.ofInput input oracle maxCycles = .error e) :
    (findFirst input oracle maxCycles).Silent ∧ (findAll input oracle maxCycles).Silent := by
  rcases Attempt.ofInput_eq_error.1 h with hsymbols | ⟨symbols, hsymbols, hmade⟩
  · unfold findFirst findAll
    rw [hsymbols]
    exact ⟨Report.silent_refusal e, Report.silent_refusal e⟩
  · rw [findFirst_eq oracle maxCycles hsymbols, findAll_eq oracle maxCycles hsymbols,
      Search.tryAt_eq, hmade]
    refine ⟨Report.silent_refusal e, ?_⟩
    cases symbols with
    | nil => exact ⟨rfl, fun _ h => nomatch h⟩
    | cons first others => exact Report.silent_refusal e

theorem searches_surface (h : Attempt.ofInput input oracle maxCycles = .ok a) :
    Search.Surfaces a 0 (a.length + 1) (findFirst input oracle maxCycles) ∧
      Search.Surfaces a 0 a.length (findAll input oracle maxCycles) := by
  obtain ⟨⟨symbols, hsymbols, hinput⟩, htry⟩ := Search.tryAt_of_ofInput h
  have hlength : symbols.length = a.length := congrArg Array.size hinput
  rw [findFirst_eq oracle maxCycles hsymbols, findAll_eq oracle maxCycles hsymbols, hinput,
    hlength, htry]
  refine ⟨?_, Search.scanAll_surfaces a _ _ 0⟩
  have hscan := Search.scan_surfaces a (a.length + 1) 0
  rwa [Nat.zero_add] at hscan

/-- **Failures of the oracle surface and stop everything.**  Unsound arguments are
found before anything is asked.  Otherwise, whether an input is decided or searched,
a question that fails is the last one, and the error is about its state and its
position, if there are words for the failure; if there are none, what is raised has
none either.  Whatever returns had an answer to every question, and an error of the
oracle is the failure of the last one.  A search asks what its attempts ask, one
after the other. -/
theorem failures_surface (input : Input) (oracle : Oracle) (options : Options) :
    match Attempt.ofInput input oracle options.maxCycles with
    | .error _ =>
        (evaluate input oracle options).Silent ∧ (isMatch input oracle options).Silent ∧
          (findFirst input oracle options.maxCycles).Silent ∧
          (findAll input oracle options.maxCycles).Silent
    | .ok a =>
        a.Surfaces (a.inquiredBy options.strategy) (evaluate input oracle options) ∧
          a.Surfaces (a.inquiredBy options.strategy) (isMatch input oracle options) ∧
          Search.Surfaces a 0 (a.length + 1) (findFirst input oracle options.maxCycles) ∧
          Search.Surfaces a 0 a.length (findAll input oracle options.maxCycles) := by
  cases h : Attempt.ofInput input oracle options.maxCycles with
  | error e =>
      have hevaluate := evaluate_silent h
      exact ⟨hevaluate, hevaluate.bind_pure, searches_silent h⟩
  | ok a =>
      have hevaluate := evaluate_surfaces h
      exact ⟨hevaluate, hevaluate.bind_pure, searches_surface h⟩

/-- An oracle that reads over the first symbol and fails at the second one. -/
def faltering : Oracle where
  sentinels := Sentinels.toValue ⟨0, 1, 2, none, none⟩
  answer := fun q =>
    if q.window.hasSecond then .ok (Transition.toValue ⟨0, none, true⟩)
    else .error (.thrown (.text "lost"))

/-- The error is about the second symbol, which was asked about last. -/
theorem failures_surface_faltering :
    ∃ a, Attempt.ofInput (.text "ab") faltering .absent = .ok a ∧
      (evaluate (.text "ab") faltering ⟨.absent, .absent⟩).result =
        .error (.query (.error ⟨⟨.after 1, (0 : Nat)⟩, .thrown (.text "lost"), "lost"⟩)) ∧
      a.LastIs (a.inquiredBy .absent) ⟨.after 1, (0 : Nat)⟩ ∧
      Search.Surfaces a 0 3 (findFirst (.text "ab") faltering .absent) := by
  have hmade : Attempt.ofInput (.text "ab") faltering .absent =
      .ok ⟨#[97, 98], faltering, ⟨0, 1, 2, 0, Number.maxSafe⟩, .default⟩ := by rfl
  have hfailed : (evaluate (.text "ab") faltering ⟨.absent, .absent⟩).result =
      .error (.query (.error ⟨⟨.after 1, (0 : Nat)⟩, .thrown (.text "lost"), "lost"⟩)) := by rfl
  have h := failures_surface (.text "ab") faltering ⟨.absent, .absent⟩
  rw [hmade] at h
  obtain ⟨hevaluate, _, hfirst, _⟩ := h
  exact ⟨_, hmade, hfailed, (hevaluate.thrown _ hfailed).1, hfirst⟩

/-- An oracle that gives up with a value that has no plain form. -/
def speechless : Oracle where
  sentinels := Sentinels.toValue ⟨0, 1, 2, none, none⟩
  answer := fun _ => .error (.thrown (.object [("toString", .null)]))

/-- The only question failed, and no error tells of its state and position. -/
theorem failure_without_error :
    ∃ q failure, (evaluate (.text "a") speechless ⟨.absent, .absent⟩).queries = [q] ∧
      speechless.answer q = .error failure ∧
      ∀ e, (evaluate (.text "a") speechless ⟨.absent, .absent⟩).result ≠
        .error (.query (.error e)) := by
  have hraised : (evaluate (.text "a") speechless ⟨.absent, .absent⟩).result =
      .error (.query .wordless) := by rfl
  refine ⟨⟨(0 : Nat), ⟨some (97 : Nat), some (0 : Nat), false⟩⟩, _, by rfl, rfl, fun e he => ?_⟩
  exact absurd (hraised.symm.trans he) (by simp)

end OracleNFA
