import QuadProg.Proofs.Build.Translation
import QuadProg.Proofs.Conic.Assembly
import QuadProg.Proofs.Double
import QuadProg.Proofs.Session.Transition

/-!
# A session hands the engine the same problem

A continuous model is solved by itself, or in a session that it may go through.  Unless something
stored is reused, the engine is given the same conic form either way (`Model.solveUnder`), and the
same settings but for presolving:

```text
session   infinite right-hand side   presolving asked for   presolving
no                                                          as set
yes       no                         no                     off
yes       no                         yes                    as set
yes       yes                                               as set
```

Presolving drops the rows of inequalities whose right-hand side is infinite.  In the second line
there is none among the rows of the model, and none among those for bounds, because only finite
bounds have one (`Model.not_infinity_le_of_isCacheable`).  In the last line the session is left
alone, and that a right-hand side is infinite is seen in the problem already
(`Problem.exists_infinite_row`).

Nothing is asked of the arithmetic but that comparisons are consistent, as those of doubles are.
-/

namespace QuadProg

variable {α μ : Type} [Scalar α]

/-! ### What the engine is given -/

namespace Model

variable {m : Model α} {e : Engine α μ}

/-- Loads the conic form of the model under the given settings and runs the engine on it. -/
def solveUnder (m : Model α) (e : Engine α μ) (settings : Settings α) :
    Except Breakdown (ModelSolution α) := do
  let loaded ← e.load settings m.conic
  let (answer, _) ← e.run 0 loaded
  let r ← m.relaxationOf m.conic answer
  return continuousSolution r false

theorem solveAlone_eq (m : Model α) (e : Engine α μ) :
    m.solveAlone e = m.solveUnder e m.controls.settings := by
  unfold solveAlone solveUnder relax conic
  simp only [bind_assoc]

theorem solveAnew_eq (m : Model α) (e : Engine α μ) (s : Session α μ) :
    (m.solveAnew e s).1 = m.solveUnder e m.sessionSettings := by
  unfold solveAnew solveUnder
  cases e.load m.sessionSettings m.conic with
  | error b => rfl
  | ok l =>
      cases hrun : e.run 0 l with
      | error b => simp [hrun, bind, Except.bind]
      | ok result =>
          obtain ⟨answer, memory⟩ := result
          cases hr : m.relaxationOf m.conic answer <;>
            simp [hrun, hr, bind, Except.bind, pure, Except.pure]

/-- What is stored is not reused, because that was not asked for or because it does not fit. -/
def BuildsAnew (m : Model α) (e : Engine α μ) (s : Session α μ) (warm : Bool) : Prop :=
  warm = false ∨ ∃ t, s.reuse e m.pattern m.conic = (.ok none, t)

theorem solveCached_eq {s : Session α μ} {warm : Bool} (h : m.BuildsAnew e s warm) :
    (m.solveCached e s warm).1 = m.solveUnder e m.sessionSettings := by
  unfold solveCached
  rcases h with rfl | ⟨t, hreuse⟩
  · exact solveAnew_eq m e s
  · cases warm with
    | false => exact solveAnew_eq m e s
    | true =>
        rw [if_pos rfl, hreuse]
        exact solveAnew_eq m e t

/-! ### What presolving would drop -/

variable [Scalar.Ordered α] [EngineDefaults α]

/-- The right-hand sides after the equations, of inequalities and bounds, are below infinity. -/
theorem not_infinity_le_of_isCacheable (hinfinity : m.infinity = engineInfinity)
    (h : m.isCacheable = true) {v : α} (hv : v ∈ m.conic.b.drop m.conic.nEq) :
    ¬ engineInfinity ≤ v := by
  have hrows := (not_or.1 (Session.isCacheable_iff.1 h)).1
  have hsplit : m.conic.b.drop m.conic.nEq =
      (m.rowsOf .lessEqual ++ m.boundBlock m.effectiveBounds.1 m.effectiveBounds.2).map
        (·.rhs) := by
    rw [conic, assemble_eq, conicRows, List.append_assoc, List.map_append]
    exact List.drop_left' (List.length_map _)
  rw [hsplit] at hv
  obtain ⟨r, hr, rfl⟩ := List.mem_map.1 hv
  rcases List.mem_append.1 hr with hr | hr
  · obtain ⟨row, hrow, -, rfl⟩ := mem_rowsOf.1 hr
    refine not_infinity_le fun hle => hrows ⟨row, hrow, ?_⟩
    rw [hinfinity]
    exact hle
  · obtain ⟨j, l, u, -, -, ⟨hu, rfl⟩ | ⟨hl, rfl⟩⟩ := mem_boundBlock.1 hr
    · rw [hinfinity] at hu
      exact Scalar.Ordered.not_le_of_lt hu
    · rw [hinfinity] at hl
      exact not_infinity_le_neg hl

end Model

/-! ### Infinite right-hand sides -/

/-- Some right-hand side is at or beyond infinity, on either side. -/
def Problem.HasInfinite [EngineDefaults α] (d : Problem α) : Prop :=
  ∃ v ∈ d.b ++ d.g, (engineInfinity : α) ≤ magnitude v

/-- A right-hand side that is infinite in the problem is infinite in its model. -/
theorem Problem.exists_infinite_row [Scalar.Ordered α] [EngineDefaults α] {d : Problem α}
    (hd : d.Consistent) (h : d.HasInfinite) :
    ∃ r ∈ d.modelRows, (engineInfinity : α) ≤ magnitude r.rhs := by
  obtain ⟨v, hv, hinfinite⟩ := h
  obtain ⟨hnrows, -, hb⟩ := hd.a_size
  obtain ⟨hnrows', -, hg⟩ := hd.f_size
  have hrhs : d.modelRows.map (·.rhs) = (d.b ++ d.g).map (clamp engineInfinity) := by
    rw [modelRows, List.map_append, List.map_append,
      map_rhs_blockRows .equal (hb.trans hnrows.symm),
      map_rhs_blockRows .lessEqual (hg.trans hnrows'.symm)]
  have hmem : clamp engineInfinity v ∈ d.modelRows.map (·.rhs) :=
    hrhs ▸ List.mem_map_of_mem hv
  obtain ⟨r, hr, heq⟩ := List.mem_map.1 hmem
  exact ⟨r, hr, heq ▸ infinity_le_clamp hinfinite⟩

/-! ### Solving with and without a session -/

namespace Model

/-- What a session changes about solving the model of a problem. -/
structure Neutral [EngineDefaults α] (m : Model α) (d : Problem α) (e : Engine α μ)
    (clock : Clock α) : Prop where
  alone : m.isMixed = false → ∀ warm,
    (m.solve e clock none warm).1 = m.solveUnder e m.controls.settings
  /-- The session is passed by. -/
  past : m.isMixed = false → m.isCacheable = false → ∀ s warm,
    (m.solve e clock (some s) warm).1 = m.solveUnder e m.controls.settings
  /-- Nothing is presolved. -/
  through : m.isMixed = false → m.isCacheable = true → ∀ s warm, m.BuildsAnew e s warm →
    (m.solve e clock (some s) warm).1 =
      m.solveUnder e { m.controls.settings with presolve := false }
  /-- There was nothing that presolving would have dropped. -/
  spared : m.isCacheable = true → ∀ v ∈ m.conic.b.drop m.conic.nEq, ¬ engineInfinity ≤ v
  /-- The session is neither read nor written. -/
  infinite : d.HasInfinite → ∀ s warm,
    m.solve e clock (some s) warm = ((m.solve e clock none warm).1, some s)
  /-- Only a breakdown that was caught empties it. -/
  caught : d.HasInfinite → ∀ s warm, ∃ results after,
    invoke e clock m (some s) warm = (results, some after) ∧
      (results.outcome.isOk = true → after = s) ∧ (results.outcome.isOk = false → after = {})

variable {m : Model α} {e : Engine α μ} {clock : Clock α}

/-- A model that may not go through a session is solved as if there were none. -/
theorem solve_of_passed (h : m.isMixed = true ∨ m.isCacheable = false) (s : Session α μ)
    (warm : Bool) : m.solve e clock (some s) warm = ((m.solve e clock none warm).1, some s) := by
  unfold solve
  cases hmixed : m.isMixed with
  | true => rfl
  | false =>
      have hcacheable : m.isCacheable = false := h.resolve_left (by simp [hmixed])
      rw [hcacheable]
      rfl

theorem invoke_of_unchanged {s : Session α μ} {warm : Bool}
    {result : Except Breakdown (ModelSolution α)}
    (h : m.solve e clock (some s) warm = (result, some s)) :
    ∃ results after, invoke e clock m (some s) warm = (results, some after) ∧
      (results.outcome.isOk = true → after = s) ∧
      (results.outcome.isOk = false → after = {}) := by
  unfold invoke
  rw [h]
  cases result with
  | error b => exact ⟨_, _, rfl, fun hok => (nomatch hok), fun _ => rfl⟩
  | ok sol => exact ⟨_, _, rfl, fun _ => rfl, fun hok => (nomatch hok)⟩

/-- **A session hands the engine the same problem.**  Whatever problem and options a model was made
of and whatever the engine does, a session changes nothing of what the engine is given for it but
whether it presolves, and that only where presolving would have dropped nothing.  A problem with an
infinite right-hand side leaves the session alone. -/
theorem solve_neutral [Scalar.Ordered α] [EngineDefaults α] {d : Problem α} {verbose : Bool}
    {options : Options α} (h : d.toModel verbose options = .ok m) (e : Engine α μ)
    (clock : Clock α) : m.Neutral d e clock := by
  obtain ⟨hcheck, -⟩ := toModel_eq_ok_iff.1 h
  obtain ⟨c, rfl⟩ := Problem.eq_of_toModel h
  have hd := Problem.consistent_of_check hcheck
  generalize hm : (⟨d.modelColumns, d.modelRows, d.modelQuadratic, c, engineInfinity⟩ : Model α) = m
  have halone : m.isMixed = false → ∀ warm,
      (m.solve e clock none warm).1 = m.solveUnder e m.controls.settings := by
    intro hcontinuous warm
    rw [← solveAlone_eq, solve, hcontinuous]
    rfl
  have hpassed : d.HasInfinite → m.isCacheable = false := by
    intro hinfinite
    rw [← Bool.not_eq_true, Session.isCacheable_iff, not_not, ← hm]
    exact .inl (Problem.exists_infinite_row hd hinfinite)
  refine ⟨halone, ?past, ?through, ?spared, ?infinite, ?caught⟩
  case past =>
    intro hcontinuous hcacheable s warm
    rw [solve_of_passed (.inr hcacheable)]
    exact halone hcontinuous warm
  case through =>
    intro hcontinuous hcacheable s warm hanew
    rw [← sessionSettings, ← solveCached_eq hanew, solve, hcontinuous]
    dsimp only
    rw [hcacheable]
    rfl
  case spared =>
    intro hcacheable v hv
    exact not_infinity_le_of_isCacheable (by rw [← hm]) hcacheable hv
  case infinite =>
    intro hinfinite s warm
    exact solve_of_passed (.inr (hpassed hinfinite)) s warm
  case caught =>
    intro hinfinite s warm
    exact invoke_of_unchanged (solve_of_passed (.inr (hpassed hinfinite)) s warm)

/-- In doubles, a number between one and a bound that is as good as none. -/
def farProblem : Problem Float where
  p := .zeros 1 1
  q := [1]
  a := .zeros 0 1
  b := []
  f := .ofTriplets 2 1 [⟨0, 0, 1⟩, ⟨1, 0, -1⟩]
  g := [1e30, -1]
  nVar := 1
  nEq := 0
  nIneq := 2

/-- An engine that answers with the lower end. -/
def lowerEngine : Engine Float Unit where
  prepare _ _ := .ok ()
  refresh _ _ := .ok none
  run _ _ := .ok (⟨.solved, [1], [0, 1], 1⟩, ())

theorem solve_neutral_far : farProblem.HasInfinite ∧ ∃ m,
    farProblem.toModel false {} = .ok m ∧
      m.Neutral farProblem lowerEngine ⟨fun _ => .ok fun _ => false, 0⟩ := by
  have hinfinite : (engineInfinity : Float) ≤ magnitude 1e30 := by decide +kernel
  have hok : (farProblem.toModel false {}).isOk = true := by decide +kernel
  refine ⟨⟨1e30, List.mem_cons_self, hinfinite⟩, ?_⟩
  cases hm : farProblem.toModel false {} with
  | error error =>
      rw [hm] at hok
      cases hok
  | ok m => exact ⟨m, rfl, solve_neutral hm lowerEngine _⟩

end Model

end QuadProg
