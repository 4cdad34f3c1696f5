import QuadProg.Proofs.Conic.Stacking
import QuadProg.Proofs.Layout.Pick
import QuadProg.Proofs.Search.Accounting
import QuadProg.Proofs.Session.Coherence

/-!
# What a checked layout extracts

A solution is cut along its layout out of three lists, and how long they are decides which blocks
end within:

| list                          | length   | because                                             |
|-------------------------------|----------|-----------------------------------------------------|
| the point                     | `nVar`   | the conic form has the columns of the problem       |
| multipliers of equations      | `nEq`    | its rows start with the equations                   |
| multipliers of inequalities   | `nIneq`  | and go on with the inequalities                     |

This takes an engine that answers with a number for every column and every row (`Engine.Sized`).  It
does not matter whether the problem was loaded or reused, and rounding the point of a relaxation
keeps its length.  So blocks that end within the problem are cut, others are left out, and the check
of the layout has no part in this.
-/

namespace QuadProg

/-! ### How long answers are -/

/-- Every answer has a number for every column and a multiplier for every row. -/
def Engine.Sized {α μ : Type} (e : Engine α μ) : Prop :=
  ∀ turn l answer memory, e.run turn l = .ok (answer, memory) →
    answer.x.length = l.q.length ∧ answer.z.length = l.b.length

/-- The point and the multipliers of a solution have as many numbers. -/
structure ModelSolution.Sized {α : Type} (sol : ModelSolution α) (nVar nEq nIneq : Nat) :
    Prop where
  point : ∀ p, sol.point = some p → p.x.length = nVar
  eqDuals : ∀ y, sol.eqDuals = some y → y.length = nEq
  ineqDuals : ∀ w, sol.ineqDuals = some w → w.length = nIneq

namespace Model

open Search

variable {α μ : Type} [Scalar α] {m : Model α} {e : Engine α μ} {clock : Clock α}
  {sol : ModelSolution α}

theorem sized_relax (he : e.Sized) {turn : Nat} {lower upper : List α} {r : Relaxation α}
    (h : m.relax e turn lower upper = .ok r) : r.x.length = m.nVar := by
  obtain ⟨l, a, hload, hrun, -, hx, -⟩ := relax_eq_ok h
  obtain ⟨memory, rfl⟩ := Engine.load_eq_ok hload
  rw [hx, (he _ _ _ _ hrun).1]
  exact List.length_map _

theorem sized_branchAndBound (he : e.Sized) (h : m.branchAndBound e clock = .ok sol)
    (nEq nIneq : Nat) : sol.Sized m.nVar nEq nIneq := by
  obtain ⟨stopped, s, hsearches, rfl⟩ := exists_searches h
  refine ⟨fun p hp => ?_, fun y hy => (nomatch hy), fun w hw => (nomatch hw)⟩
  obtain ⟨htraced, -⟩ := hsearches.traced
  obtain ⟨v, hv, -, hx, -⟩ := htraced.accepted hsearches.latest (incumbent_of_point hp)
  obtain ⟨later, earlier, hlog⟩ := List.append_of_mem hv
  -- rounding keeps the length
  rw [hx, length_roundAt]
  exact sized_relax he (hsearches.recorded later v earlier hlog)

theorem sized_relaxationOf {c : Conic α} {answer : Answer α} {r : Relaxation α}
    (h : m.relaxationOf c answer = .ok r) (hz : c.nEq + c.nIneq ≤ answer.z.length) (warm : Bool) :
    (continuousSolution r warm).Sized answer.x.length c.nEq c.nIneq := by
  simp only [relaxationOf, bind_eq_ok, pure_eq_ok] at h
  obtain ⟨v, -, rfl⟩ := h
  refine ⟨fun p hp => ?_, fun y hy => ?_, fun w hw => ?_⟩
  · rw [← Option.some.inj hp]
  · rw [← Option.some.inj hy]
    simp only [if_pos (show c.nEq ≤ answer.z.length by omega), List.length_take]
    omega
  · rw [← Option.some.inj hw]
    simp only [if_pos hz, List.length_drop, List.length_take]
    omega

/-- The numbers of a solution are as many as the engine gives for the conic form of the model. -/
theorem sized_solve (he : e.Sized) {session after : Option (Session α μ)} {warm : Bool}
    (h : m.solve e clock session warm = (.ok sol, after)) :
    sol.Sized m.nVar m.conic.nEq m.conic.nIneq := by
  cases hmixed : m.isMixed with
  | true =>
      unfold solve at h
      rw [hmixed, if_pos rfl] at h
      exact sized_branchAndBound he (Prod.mk.inj h).1 _ _
  | false =>
      obtain ⟨turn, l, answer, memory, r, w, ⟨hq, hb⟩, hrun, hr, rfl⟩ := runOn_solve
        (P := fun l => l.q = m.conic.q ∧ l.b = m.conic.b)
        (fun settings l _ hload => by
          obtain ⟨memory, rfl⟩ := Engine.load_eq_ok hload
          exact ⟨rfl, rfl⟩)
        (fun s l t _ hreuse => by
          obtain ⟨stored, old, memory, -, -, -, rfl, -⟩ := Session.reuse_eq_some_iff.1 hreuse
          exact ⟨rfl, rfl⟩)
        hmixed h
      obtain ⟨hx, hz⟩ := he turn l answer memory hrun
      -- rows for bounds come after the others
      have hrows : m.conic.nEq + m.conic.nIneq ≤ answer.z.length := by
        rw [hz, hb, conic, ← length_b_assemble]
        exact Nat.le_add_right _ _
      have hsized := sized_relaxationOf hr hrows w
      rwa [hx, hq, show m.conic.q.length = m.nVar from List.length_map _] at hsized

end Model

/-! ### What a solution says of a layout -/

section Extracts

variable {α : Type} [Scalar α]

/-- The solution is cut out of that of a model, which has a number for every column and, where
nothing is mixed, a multiplier for every row of the problem. -/
structure Solution.Extracts (sol : Solution α) (native : ModelSolution α) (l : Layout)
    (d : Problem α) : Prop where
  columns : ∃ p, native.point = some p ∧ p.x.length = d.nVar ∧ sol.ReadsColumns l p.x
  rows : d.isMixed = false → l.isMixed = false →
    ∃ y w, native.eqDuals = some y ∧ native.ineqDuals = some w ∧ y.length = d.nEq ∧
      w.length = d.nIneq ∧
      sol.ReadsRows l (y.map (· * Layout.dualSign)) (w.map (· * Layout.dualSign))

theorem Results.extracts {results : Results α} {native : ModelSolution α} {l : Layout}
    {d : Problem α} (hresults : results.outcome = .ok native)
    (hsized : native.Sized d.nVar d.nEq d.nIneq)
    (hduals : d.isMixed = false →
      native.nodes = none ∧ native.eqDuals.isSome = true ∧ native.ineqDuals.isSome = true)
    (hprimal : (results.toSolution l).primal.isSome = true) :
    (results.toSolution l).Extracts native l d := by
  obtain ⟨p, hpoint, hstatus⟩ | hpointless := reports_or_pointless native
  -- without a point there would be no values
  case inr =>
    rw [toSolution_of_pointless hresults hpointless] at hprimal
    cases hprimal
  rw [toSolution_of_point hresults hpoint hstatus]
  constructor
  · exact ⟨p, hpoint, hsized.point p hpoint,
      Solution.readsColumns_of_value fun i => l.entries_cutVars p.x i⟩
  · intro hproblem hlayout
    obtain ⟨hnodes, heq, hineq⟩ := hduals hproblem
    obtain ⟨y, hy⟩ := Option.isSome_iff_exists.1 heq
    obtain ⟨w, hw⟩ := Option.isSome_iff_exists.1 hineq
    refine ⟨y, w, hy, hw, hsized.eqDuals y hy, hsized.ineqDuals w hw,
      Solution.readsRows_of_dual fun i => ?_⟩
    have hcut : duals (l.isMixed || native.nodes.isSome) native l =
        some (Layout.cutRows l.ineqs w (Layout.cutRows l.eqs y {})) := by
      unfold duals
      rw [hlayout, hnodes, hy, hw]
      rfl
    simp only [Solution.dual?, hcut, Option.bind_some]
    rw [Layout.entries_cutRows, Layout.entries_cutRows]
    exact congrArg _ (Option.or_none ..)

end Extracts

namespace Step

variable {α μ : Type} [Scalar α] {t : Step α μ}

/-- Whatever layout there is, every solution is cut out of that of a model. -/
theorem solve_extracts [EngineDefaults α] (he : t.engine.Sized)
    {session after : Option (Session α μ)} {sol : Solution α}
    (h : t.solve session = (.ok sol, after)) (hprimal : sol.primal.isSome = true) :
    ∃ m native, t.model = .ok m ∧
      (m.solve t.engine t.clock session t.request.warm).1 = .ok native ∧
      sol.Extracts native t.layout t.problem := by
  obtain ⟨m, results, hm, hinvoke, rfl⟩ := solve_eq_ok h
  obtain ⟨hcheck, -⟩ := Model.toModel_eq_ok_iff.1 hm
  have hd := Problem.consistent_of_check hcheck
  obtain ⟨c, hmodel⟩ := Problem.eq_of_toModel hm
  have hcolumns : m.columns = t.problem.modelColumns := by rw [hmodel]
  have hnVar : m.nVar = t.problem.nVar := by
    rw [Model.nVar, hcolumns, Problem.length_modelColumns hd]
  obtain ⟨hnEq, hnIneq⟩ := Problem.counts_conic hd (show m.rows = _ by rw [hmodel])
  have hmixed := Problem.isMixed_eq hd hcolumns
  unfold invoke at hinvoke
  cases hsolve : m.solve t.engine t.clock session t.request.warm with
  | mk result after' =>
      rw [hsolve] at hinvoke
      cases result with
      | error b =>
          cases hinvoke
          cases hprimal
      | ok native =>
          have hexplains := Model.explains_solve hsolve
          have hsized := Model.sized_solve he hsolve
          rw [hnVar, hnEq, hnIneq] at hsized
          have hduals : t.problem.isMixed = false → native.nodes = none ∧
              native.eqDuals.isSome = true ∧ native.ineqDuals.isSome = true := by
            intro hcontinuous
            rw [← hmixed] at hcontinuous
            refine ⟨?_, hexplains.duals hcontinuous⟩
            rw [← Option.not_isSome_iff_eq_none, hexplains.nodes, hcontinuous]
            exact Bool.false_ne_true
          cases hinvoke
          exact ⟨m, native, hm, by rw [hsolve], Results.extracts rfl hsized hduals hprimal⟩

end Step

/-- **What checking a layout is worth.**  If its blocks end within the problem, then they cover it
if and only if no column or row belongs to two of them and the sizes of the constraints add up; only
the sizes of the variables are known to.  Layouts that were built, of sizes that add up to a machine
word, cover every problem that they were checked against.  Whether they cover it or not, a solution
has the numbers in the last blocks that end within. -/
theorem Layout.checked_extracts {α : Type} [Scalar α] [EngineDefaults α] {l : Layout}
    {d : Problem α} (hcheck : l.check d = .ok ()) :
    (l.EndsWithin d → (l.Covers d ↔ Apart l.columns ∧
      (Apart l.eqs ∧ rowTotal l.eqs = d.nEq) ∧ Apart l.ineqs ∧ rowTotal l.ineqs = d.nIneq)) ∧
    (l.Built → l.InWord → l.EndsWithin d ∧ l.Covers d) ∧
    ∀ {μ : Type} (t : Step α μ) (session after : Option (Session α μ)) (sol : Solution α),
      t.problem = d → t.layout = l → t.engine.Sized → t.solve session = (.ok sol, after) →
      sol.primal.isSome = true →
      ∃ m native, t.model = .ok m ∧
        (m.solve t.engine t.clock session t.request.warm).1 = .ok native ∧
        sol.Extracts native l d := by
  refine ⟨covers_iff_of_check hcheck, fun hbuilt hword => hbuilt.covers hword hcheck, ?_⟩
  intro μ t session after sol hd hl he h hprimal
  subst hd hl
  exact Step.solve_extracts he h hprimal

/-- Of the points below `(5, 5, ·)` the closest to `(1, 2, 3)` is wanted. -/
def boxProblem : Problem ℚ where
  p := .scaledIdentity 3 1
  q := [-1, -2, -3]
  a := .zeros 0 3
  b := []
  f := .ofTriplets 2 3 [⟨0, 0, 1⟩, ⟨1, 1, 1⟩]
  g := [5, 5]
  nVar := 3
  nEq := 0
  nIneq := 2

/-- An engine for problems like this one, where no row is active. -/
def mirrorEngine : Engine ℚ Unit where
  prepare _ _ := .ok ()
  refresh _ _ := .ok none
  run _ l := .ok (⟨.solved, l.q.map (- ·), l.b.map fun _ => 0, 1⟩, ())

theorem mirrorEngine_sized : mirrorEngine.Sized := by
  intro turn l answer memory hrun
  cases hrun
  exact ⟨List.length_map _, List.length_map _⟩

def boxStep (l : Layout) : Step ℚ Unit where
  engine := mirrorEngine
  clock := ⟨fun _ => .ok fun _ => false, 0⟩
  available := .ok ()
  problem := boxProblem
  layout := l
  request := ⟨false, false, .empty⟩
  staged := false

/-- Two variables out of order, and two constraints in order. -/
def crossedLayout : Layout where
  vars := [⟨⟨0⟩, 2, .scalar⟩, ⟨⟨1⟩, 0, .vector 2⟩]
  ineqs := [⟨⟨2⟩, 0, 1⟩, ⟨⟨3⟩, 1, 1⟩]

/-- Two variables share a column and the third has none.  The first row has no constraint. -/
def looseLayout : Layout where
  vars := [⟨⟨0⟩, 0, .scalar⟩, ⟨⟨1⟩, 0, .scalar⟩, ⟨⟨2⟩, 7, .scalar⟩]
  ineqs := [⟨⟨3⟩, 1, 1⟩]

theorem Layout.checked_extracts_crossed :
    crossedLayout.check boxProblem = .ok () ∧ crossedLayout.EndsWithin boxProblem ∧
      Apart crossedLayout.columns ∧
      ∃ native sol after, (boxStep crossedLayout).solve none = (.ok sol, after) ∧
        [0, 1].map (fun i => (sol.value? ⟨i⟩).map Value.entries) = [some [3], some [1, 2]] ∧
        sol.Extracts native crossedLayout boxProblem := by
  obtain ⟨hcovers, -, hextracts⟩ :=
    Layout.checked_extracts (l := crossedLayout) (d := boxProblem) rfl
  have hends : crossedLayout.EndsWithin boxProblem := ⟨by decide, by decide, by decide⟩
  have hapart := (hcovers hends).1 ⟨by decide, by decide, by decide⟩
  have hrun : ((boxStep crossedLayout).solve none).1.toOption.map
      (fun sol => (sol.primal.isSome, [0, 1].map fun i => (sol.value? ⟨i⟩).map Value.entries)) =
      some (true, [some [3], some [1, 2]]) := by
    decide +kernel
  obtain ⟨sol, hsol, hseen⟩ := Option.map_eq_some_iff.1 hrun
  obtain ⟨hprimal, hvalues⟩ := Prod.mk.inj hseen
  have hsolve : (boxStep crossedLayout).solve none =
      (.ok sol, ((boxStep crossedLayout).solve none).2) := Prod.ext (eq_ok_of_toOption hsol) rfl
  obtain ⟨m, native, -, -, hext⟩ :=
    hextracts (boxStep crossedLayout) none _ sol rfl rfl mirrorEngine_sized hsolve hprimal
  exact ⟨rfl, hends, hapart.1, native, sol, _, hsolve, hvalues, hext⟩

/-- A layout passes the check whose blocks leave columns and rows out, share others and lie beyond
the problem.  Two variables have the same number, the third has none. -/
theorem Layout.check_loose :
    looseLayout.check boxProblem = .ok () ∧
      holders looseLayout.columns 0 = 2 ∧ holders looseLayout.columns 1 = 0 ∧
      holders looseLayout.ineqs 0 = 0 ∧ ¬ looseLayout.Covers boxProblem ∧
      ((boxStep looseLayout).solve none).1.toOption.map
        (fun sol => (sol.status, [0, 1, 2].map fun i => (sol.value? ⟨i⟩).map Value.entries)) =
        some (.optimal, [some [1], some [1], none]) := by
  refine ⟨rfl, rfl, rfl, rfl, fun h => ?_, by decide +kernel⟩
  exact absurd h.columns (by decide)

end QuadProg
