import QuadProg.Proofs.Search.Rounding
import QuadProg.Proofs.Search.Unfinished

/-!
# Points that are found

A relaxation *finds* a point if it was solved, if it may improve on the point found before, and if
none of its integral variables is further from a whole number than the tolerance.  Whether a search
returns a point is decided twice, by the verdict and by what is kept under that verdict:

```text
the search                       verdict with a point      kept      without one
came to its end, all decided     optimal                   yes       infeasible
came to its end, one undecided   a limit, or unresolved    yes       relaxation failed
ran out of nodes or time         a limit                   yes       the limit
was halted at its root           there is no point                   unbounded, or failed
```

The last line is why no point is lost: only the root halts a search, and before it nothing was
visited.  So a search returns a point if and only if some relaxation found one, and it returns the
last one that was found (`branchAndBound_reportsFound`).  Nothing is assumed of the engine, of the
clock or of the numbers.
-/

namespace QuadProg

open Search

namespace Search

variable {α : Type} [Scalar α]

/-! ### Finding a point -/

/-- After the visits `earlier`, the relaxation gives a point. -/
structure Finds (target : Target α) (earlier : List (Visit α)) (r : Relaxation α) : Prop where
  solves : r.status.Solves
  /-- The bound does not close the box. -/
  improves : Improves target (acceptedPoints earlier).head? r
  near : ∀ j ∈ target.integers, ¬ target.limits.intTol < fractionality (coordinate r.x j)

/-- In a log, whose latest visit is the first of the list, some relaxation found a point. -/
def HasFound (target : Target α) (log : List (Visit α)) : Prop :=
  ∃ later v earlier, log = later ++ v :: earlier ∧ Finds target earlier v.relaxation

/-- The relaxation of the visit found a point, and none after it did. -/
def LastFound (target : Target α) (log : List (Visit α)) (v : Visit α) : Prop :=
  ∃ later earlier, log = later ++ v :: earlier ∧ Finds target earlier v.relaxation ∧
    ∀ after w before, later = after ++ w :: before →
      ¬ Finds target (before ++ v :: earlier) w.relaxation

theorem LastFound.mem {target : Target α} {log : List (Visit α)} {v : Visit α}
    (h : LastFound target log v) : v ∈ log := by
  obtain ⟨later, earlier, rfl, -⟩ := h
  simp

/-- In exact arithmetic a relaxation finds a point if it is better than the one before by more than
the gap, and whole up to the tolerance. -/
theorem finds_iff {K : Type} [Field K] [LinearOrder K] [FloorRing K] [IsStrictOrderedRing K]
    {target : Target K} {earlier : List (Visit K)} {r : Relaxation K} :
    Finds target earlier r ↔ r.status.Solves ∧
      (∀ best, (acceptedPoints earlier).head? = some best →
        r.objective < best.objective - target.limits.gapAbs) ∧
      ∀ j ∈ target.integers, ∃ z : ℤ, |coordinate r.x j - z| ≤ target.limits.intTol := by
  constructor
  · rintro ⟨hsolves, himproves, hnear⟩
    exact ⟨hsolves, fun best hbest => not_le.1 (himproves best hbest),
      fun j hj => not_far_iff.1 (hnear j hj)⟩
  · rintro ⟨hsolves, hbelow, hnear⟩
    exact ⟨hsolves, fun best hbest => not_le.2 (hbelow best hbest),
      fun j hj => not_far_iff.2 (hnear j hj)⟩

variable {target : Target α} {earlier log : List (Visit α)} {node : Node α} {r : Relaxation α}
  {f : Fate α}

/-- Accepted is what finds a point. -/
theorem Settles.accepts_iff (h : Settles target (acceptedPoints earlier).head? node r f) :
    (∃ p, f = .accepted p) ↔ Finds target earlier r := by
  constructor
  · rintro ⟨p, rfl⟩
    cases h with
    | accepted _ hsolves himproves hmost _ =>
        exact ⟨hsolves, himproves, mostFractional_eq_none_iff.1 hmost⟩
  · rintro ⟨hsolves, himproves, hnear⟩
    cases h with
    | infeasible hstatus =>
        rcases hsolves with hsolved | hsolved <;> simp [hsolved] at hstatus
    | unresolved hundecided _ => exact absurd hsolves hundecided.1
    | halted hundecided _ => exact absurd hsolves hundecided.1
    | pruned best _ hbest hle => exact absurd hle (himproves best hbest)
    | branched j _ _ hmost =>
        obtain ⟨hj, hfar⟩ := mem_far_of_mostFractional hmost
        exact absurd hfar (hnear j hj)
    | accepted _ _ _ _ _ => exact ⟨_, rfl⟩

/-! ### What the log tells -/

/-- Every visit was settled by comparison with the last point accepted before it. -/
def State.Settled (target : Target α) (s : State α) : Prop :=
  ∀ later v earlier, s.log = later ++ v :: earlier →
    Settles target (acceptedPoints earlier).head? v.node v.relaxation v.fate

theorem settled_start (lower upper : List α) : (State.start lower upper).Settled target := by
  intro later v earlier hlog
  simp [State.start] at hlog

theorem State.Settled.visit {s : State α} (h : s.Settled target) (hlatest : s.Latest)
    (rest : List (Node α)) (hf : Settles target s.incumbent node r f) :
    (s.visit rest ⟨node, r, f⟩).Settled target := by
  intro later v earlier hlog
  cases later with
  | nil =>
      obtain ⟨rfl, rfl⟩ := List.cons.inj hlog
      rw [← show s.incumbent = (acceptedPoints s.log).head? from hlatest]
      exact hf
  | cons w later =>
      obtain ⟨-, hlog⟩ := List.cons.inj hlog
      exact h later v earlier hlog

variable {s : State α}

theorem State.Settled.accepts_iff (h : s.Settled target) {later : List (Visit α)} {v : Visit α}
    (hlog : s.log = later ++ v :: earlier) :
    (∃ p, v.fate = .accepted p) ↔ Finds target earlier v.relaxation :=
  (h later v earlier hlog).accepts_iff

/-- The best point so far is the one that was found last. -/
theorem State.Settled.lastFound (h : s.Settled target) (hlatest : s.Latest) {p : Point α}
    (hp : s.incumbent = some p) : ∃ v, LastFound target s.log v ∧ v.fate = .accepted p := by
  obtain ⟨points, hpoints⟩ := List.head?_eq_some_iff.1 (hlatest.symm.trans hp)
  obtain ⟨later, v, earlier, hlog, hlater, hv, -⟩ := List.filterMap_eq_cons_iff.1 hpoints
  have hfate : v.fate = .accepted p := by
    cases hfate : v.fate <;> simp_all
  refine ⟨v, ⟨later, earlier, hlog, (h.accepts_iff hlog).1 ⟨p, hfate⟩, ?_⟩, hfate⟩
  intro after w before hsplit hfinds
  have hwlog : s.log = after ++ w :: (before ++ v :: earlier) := by
    rw [hlog, hsplit, List.append_assoc, List.cons_append]
  obtain ⟨q, hq⟩ := (h.accepts_iff hwlog).2 hfinds
  have hnone := hlater w (by simp [hsplit])
  simp [hq] at hnone

/-- There is a best point so far if and only if some relaxation found one. -/
theorem State.Settled.incumbent_isSome_iff (h : s.Settled target) (hlatest : s.Latest) :
    s.incumbent.isSome ↔ HasFound target s.log := by
  constructor
  · intro hsome
    obtain ⟨p, hp⟩ := Option.isSome_iff_exists.1 hsome
    obtain ⟨v, ⟨later, earlier, hlog, hfinds, -⟩, -⟩ := h.lastFound hlatest hp
    exact ⟨later, v, earlier, hlog, hfinds⟩
  · rintro ⟨later, v, earlier, hlog, hfinds⟩
    obtain ⟨p, hfate⟩ := (h.accepts_iff hlog).2 hfinds
    have hmem : p ∈ acceptedPoints s.log :=
      mem_acceptedPoints.2 ⟨v, by simp [hlog], hfate⟩
    rw [hlatest, List.isSome_head?]
    exact List.ne_nil_of_mem hmem

end Search

/-! ### What is returned -/

namespace Model

variable {α μ : Type} [Scalar α]

theorem Searches.settled {m : Model α} {e : Engine α μ} {clock : Clock α}
    {stopped : Option SearchStatus} {s : State α} (h : m.Searches e clock stopped s) :
    s.Settled m.searchTarget := by
  obtain ⟨expired, -, hexplore⟩ := h
  have hboth := (explore_explores hexplore).induction
    (P := fun s => s.Latest ∧ s.Settled m.searchTarget)
    (fun hs _ _ hf => ⟨hs.1.visit _ _, hs.2.visit hs.1 _ hf⟩)
    ⟨latest_start _ _, settled_start _ _⟩
  exact hboth.2

/-- What a search returns is its best point, if it has one. -/
theorem Searches.point_eq {m : Model α} {e : Engine α μ} {clock : Clock α}
    {stopped : Option SearchStatus} {s : State α} (h : m.Searches e clock stopped s) :
    (searchSolution stopped s).point = s.incumbent := by
  obtain ⟨expired, -, hended⟩ := h.ended
  cases hp : s.incumbent with
  | none => simp [searchSolution, hp]
  | some p =>
      have hkeeps := h.traced.1.keeps h.latest hended hp
      simp only [searchSolution, hkeeps, if_true, hp]

/-- **A point that is found is returned, and no other.**  Whatever the engine and the clock do, a
search returns a point if and only if some relaxation found one; it is the last one found, rounded,
with the objective that the model has there.  Without a point there is no objective either.  A point
is returned with a verdict under which points are shown, and never with one that denies that there
is a point. -/
theorem branchAndBound_reportsFound {m : Model α} {e : Engine α μ} {clock : Clock α}
    {sol : ModelSolution α} (h : m.branchAndBound e clock = .ok sol) :
    ∃ stopped s, m.Searches e clock stopped s ∧ sol = searchSolution stopped s ∧
      (sol.point.isSome ↔ HasFound m.searchTarget s.log) ∧
      (∀ p, sol.point = some p → ∃ v, LastFound m.searchTarget s.log v ∧
        p.x = roundAt m.integerIndices v.relaxation.x ∧ m.objective p.x = .ok p.objective) ∧
      (sol.point.isSome → sol.status.status.hasSolution ∧
        (sol.status = .mixed .optimal ∨ sol.status = .mixed .nodeLimit ∨
          sol.status = .mixed .timeLimit ∨ ∃ t, sol.status = .mixed (.unresolved t))) ∧
      (sol.status = .mixed .unbounded ∨ sol.status = .mixed .infeasible ∨
        (∃ t, sol.status = .mixed (.relaxationFailed t)) → sol.point = none) := by
  obtain ⟨stopped, s, hsearches, rfl⟩ := exists_searches h
  obtain ⟨htraced, -⟩ := hsearches.traced
  obtain ⟨expired, -, hended⟩ := hsearches.ended
  have hlatest := hsearches.latest
  have hsettled := hsearches.settled
  have hpoint := hsearches.point_eq
  refine ⟨stopped, s, hsearches, rfl, ?_, fun p hp => ?_, fun hsome => ?_, fun hdenies => ?_⟩
  · rw [hpoint]
    exact hsettled.incumbent_isSome_iff hlatest
  · obtain ⟨v, hlast, hfate⟩ := hsettled.lastFound hlatest (hpoint.symm.trans hp)
    obtain ⟨-, -, hx, hobjective⟩ := htraced.of_accepted hlast.mem hfate
    exact ⟨v, hlast, hx, hobjective⟩
  · rw [hpoint] at hsome
    obtain ⟨p, hp⟩ := Option.isSome_iff_exists.1 hsome
    show (verdict stopped s).status.hasSolution ∧ _
    simp only [searchSolution, ModelStatus.mixed.injEq]
    rcases cases_of_keepsIncumbent (htraced.keeps hlatest hended hp) with
      hv | hv | hv | ⟨t, hv⟩ <;> rw [hv]
    · exact ⟨rfl, .inl rfl⟩
    · exact ⟨rfl, .inr (.inl rfl)⟩
    · exact ⟨rfl, .inr (.inr (.inl rfl))⟩
    · exact ⟨rfl, .inr (.inr (.inr ⟨t, rfl⟩))⟩
  · simp only [searchSolution, ModelStatus.mixed.injEq] at hdenies ⊢
    rcases hdenies with hv | hv | ⟨t, hv⟩ <;> rw [hv] <;> rfl

/-- The upper half is left undecided after the lower one gave a point. -/
theorem branchAndBound_reportsFound_unit :
    ∃ sol stopped s, unitModel.branchAndBound limitedEngine noClock = .ok sol ∧
      unitModel.Searches limitedEngine noClock stopped s ∧
      HasFound unitModel.searchTarget s.log ∧ sol.point.map (·.x) = some [0] ∧
      sol.status.status.hasSolution := by
  have hreport : (explore unitModel.searchTarget (unitModel.nodeRelax limitedEngine)
      (fun _ => false) unitModel.controls.limits.maxNodes
      (.start unitModel.effectiveBounds.1 unitModel.effectiveBounds.2)).toOption.map
        (fun stop => (searchSolution stop.1 stop.2).point.map (·.x)) = some (some [0]) := by
    decide +kernel
  obtain ⟨stopped, s, -, hok, hx⟩ := searches_of_explore noClock rfl hreport
  obtain ⟨stopped', s', hsearches, -, hfound, -, hstatus, -⟩ := branchAndBound_reportsFound hok
  have hsome : (searchSolution stopped s).point.isSome := by
    rw [← Option.isSome_map, hx]
    rfl
  exact ⟨_, stopped', s', hok, hsearches, hfound.1 hsome, hx, (hstatus hsome).1⟩

end Model

end QuadProg
