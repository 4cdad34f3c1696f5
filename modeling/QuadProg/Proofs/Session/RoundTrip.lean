import QuadProg.Proofs.Conic.Certificate
import QuadProg.Proofs.Layout.Cut
import QuadProg.Proofs.Session.Transition

/-!
# Certificates survive the round trip

A problem goes to the engine and its solution comes back in four stages.  The engine has to answer
for the second only; the others turn one statement about the numbers into the next:

```text
problem  →  model, conic form    stacked rows, upper triangle     `Problem.stacks_conic`
conic form  →  x, z              the engine proves its answer     `Engine.Certifies`
z  →  y, w                       cut where the equations end      `relaxationOf_of_certificate`
x, y, w  →  values               cut into the blocks of a layout  `Layout.Built.gathers_cutRows`
```

In a session the engine may run on a loaded problem that was stored for an earlier model.  That it
holds the present one then (`Session.Fits.holds`) is what makes the answer count.
-/

namespace QuadProg

/-! ### What a solution comes from -/

section Answers

variable {α μ : Type} [Scalar α] {m : Model α} {e : Engine α μ}

/-- The engine holds the conic form of the model, under its settings, presolving or not. -/
structure Loaded.Holds (l : Loaded α μ) (m : Model α) : Prop where
  settings : l.settings.Agrees m.controls.settings ∨ l.settings.Agrees m.sessionSettings
  cones : l.cones = m.conic.cones
  data : l.p = m.conic.p ∧ l.q = m.conic.q ∧ l.a = m.conic.a ∧ l.b = m.conic.b

theorem Loaded.holds_of_load {settings : Settings α} {l : Loaded α μ}
    (hsettings : settings = m.controls.settings ∨ settings = m.sessionSettings)
    (h : e.load settings m.conic = .ok l) : l.Holds m := by
  obtain ⟨memory, rfl⟩ := Engine.load_eq_ok h
  refine ⟨?_, rfl, rfl, rfl, rfl, rfl⟩
  rcases hsettings with rfl | rfl
  · exact .inl (Settings.agrees_rfl _)
  · exact .inr (Settings.agrees_rfl _)

/-- What a session that fits gives to be reused is up to date. -/
theorem Session.Fits.holds [EngineDefaults α] {s t : Session α μ} (h : s.Fits)
    (hm : m.Reachable) {l : Loaded α μ}
    (hreuse : s.reuse e m.pattern m.conic = (.ok (some l), t)) : l.Holds m := by
  let echo : Engine α μ := ⟨fun _ _ => .ok l.memory, fun _ _ => .ok none, e.run⟩
  have hagrees := h.isFresh hm hreuse echo _ rfl
  exact ⟨.inr hagrees.settings, hagrees.cones, hagrees.p, hagrees.q, hagrees.a, hagrees.b⟩

theorem Session.reuse_ne_error {s t : Session α μ} {pattern : Pattern α} {c : Conic α}
    (h : ∀ l, ∃ new, e.refresh l c = .ok new) {b : Breakdown} :
    s.reuse e pattern c ≠ (.error b, t) := by
  unfold Session.reuse
  split
  · simp
  · next stored old _ =>
      obtain ⟨new, hrefresh⟩ := h old
      rw [Engine.reload, bind_of_ok hrefresh]
      split_ifs
      · cases new <;> simp [pure, Except.pure]
      · simp

namespace Model

/-- The solution is what a run of the engine on the model gave. -/
def Answered (m : Model α) (e : Engine α μ) (sol : ModelSolution α) : Prop :=
  ∃ turn l answer memory r warm, l.Holds m ∧ e.run turn l = .ok (answer, memory) ∧
    m.relaxationOf m.conic answer = .ok r ∧ sol = continuousSolution r warm

variable {sol : ModelSolution α}

theorem status_relaxationOf {c : Conic α} {answer : Answer α} {r : Relaxation α}
    (h : m.relaxationOf c answer = .ok r) : r.status = answer.status := by
  simp only [relaxationOf, bind_eq_ok, pure_eq_ok] at h
  obtain ⟨_, -, rfl⟩ := h
  rfl

/-- Every solution of a continuous model comes from a run on the model, in a session or not. -/
theorem answered_solve [EngineDefaults α] {clock : Clock α} {session after : Option (Session α μ)}
    {warm : Bool} (hfits : ∀ s, session = some s → s.Fits) (hm : m.Reachable)
    (hcontinuous : m.isMixed = false) (h : m.solve e clock session warm = (.ok sol, after)) :
    m.Answered e sol :=
  runOn_solve (fun _ _ hsettings hload => Loaded.holds_of_load hsettings hload)
    (fun s _ _ hs hreuse => (hfits s hs).holds hm hreuse) hcontinuous h

end Model

/-! ### Steps that give one -/

theorem Termination.eq_solved {t : Termination} (h : t.status = .optimal) : t = .solved := by
  cases t with
  | solved => rfl
  | _ => cases h

namespace Step

variable [EngineDefaults α] {t : Step α μ} {session : Option (Session α μ)}

theorem checks_eq_ok (havailable : t.staged = true ∨ t.available = .ok ())
    (hlayout : t.layout.check t.problem = .ok ()) : t.checks = .ok () := by
  cases hstaged : t.staged with
  | true =>
      unfold checks
      rw [if_pos hstaged]
  | false => rw [checks_eq hstaged (havailable.resolve_left (by simp [hstaged])), hlayout]

theorem solve_of_model (hchecks : t.checks = .ok ()) (hm : t.model = .ok m)
    {native : ModelSolution α} {after : Option (Session α μ)}
    (h : m.solve t.engine t.clock session t.request.warm = (.ok native, after)) :
    t.solve session = (.ok ((⟨.solved, .ok native, some t.clock.elapsed⟩ : Results α).toSolution
      t.layout), after) := by
  rw [solve_of_checks hchecks hm, invoke, h]
  rfl

/-- Only a model that was solved has an optimal solution. -/
theorem exists_native {sol : Solution α} {after : Option (Session α μ)}
    (h : t.solve session = (.ok sol, after)) (hoptimal : sol.status = .optimal) :
    ∃ m native, t.model = .ok m ∧
      m.solve t.engine t.clock session t.request.warm = (.ok native, after) ∧
      sol = (⟨.solved, .ok native, some t.clock.elapsed⟩ : Results α).toSolution t.layout := by
  obtain ⟨m, results, hm, hinvoke, rfl⟩ := solve_eq_ok h
  unfold invoke at hinvoke
  cases hsolve : m.solve t.engine t.clock session t.request.warm with
  | mk result after' =>
      rw [hsolve] at hinvoke
      cases result with
      | error b =>
          cases hinvoke
          cases hoptimal
      | ok native =>
          cases hinvoke
          exact ⟨m, native, hm, hsolve, rfl⟩

end Step

end Answers

/-! ### Engines that prove what they say -/

section Exact

variable {K μ : Type} [Field K] [LinearOrder K] [FloorRing K]

/-- Whenever the engine says that it solved the model, it has a proof. -/
def Engine.Certifies (e : Engine K μ) (m : Model K) : Prop :=
  ∀ (turn : Nat) (l : Loaded K μ) (answer : Answer K) (memory : μ), l.Holds m →
    e.run turn l = .ok (answer, memory) → answer.status = .solved →
      m.conic.Certificate answer.x answer.z

/-- The engine takes the model in, anew or in place of another one, and solves it. -/
structure Engine.Solves (e : Engine K μ) (m : Model K) : Prop where
  load : ∀ settings, ∃ l, e.load settings m.conic = .ok l
  refresh : ∀ l, ∃ new, e.refresh l m.conic = .ok new
  run : ∀ turn l, l.Holds m → ∃ answer memory,
    e.run turn l = .ok (answer, memory) ∧ answer.status = .solved

namespace Model

variable {m : Model K} {e : Engine K μ} {s : Session K μ}

/-- The multipliers of a certificate are cut where the equations end. -/
theorem relaxationOf_of_certificate (hm : m.Sound) {answer : Answer K}
    (h : m.conic.Certificate answer.x answer.z) :
    ∃ v, m.relaxationOf m.conic answer = .ok {
      status := answer.status
      x := answer.x
      eqDuals := answer.z.take m.conic.nEq
      ineqDuals := (answer.z.take (m.conic.nEq + m.conic.nIneq)).drop m.conic.nEq
      objective := v
      iterations := answer.iterations } := by
  obtain ⟨hlength, -⟩ := inDual_cones_iff.1 h.dual
  have hx : answer.x.length = m.nVar := h.length_x.trans (List.length_map _)
  obtain ⟨v, hv⟩ := hm.objective_ok hx
  refine ⟨v, ?_⟩
  rw [relaxationOf, bind_of_ok hv]
  dsimp only
  rw [if_pos (by omega), if_pos (by omega)]
  rfl

section Total

variable [EngineDefaults K] (hm : m.Reachable) (hcertifies : e.Certifies m) (hsolves : e.Solves m)

include hm hcertifies hsolves

theorem run_relaxationOf (turn : Nat) {l : Loaded K μ} (hl : l.Holds m) :
    ∃ answer memory r, e.run turn l = .ok (answer, memory) ∧
      m.relaxationOf m.conic answer = .ok r := by
  obtain ⟨answer, memory, hrun, hstatus⟩ := hsolves.run turn l hl
  obtain ⟨v, hr⟩ :=
    relaxationOf_of_certificate hm.sound (hcertifies turn l answer memory hl hrun hstatus)
  exact ⟨answer, memory, _, hrun, hr⟩

theorem solveAlone_ok : ∃ sol, m.solveAlone e = .ok sol := by
  obtain ⟨l, hload⟩ := hsolves.load m.controls.settings
  obtain ⟨answer, memory, r, hrun, hr⟩ :=
    run_relaxationOf hm hcertifies hsolves 0 (Loaded.holds_of_load (.inl rfl) hload)
  have hrelax : m.relax e 0 m.effectiveBounds.1 m.effectiveBounds.2 = .ok r :=
    (bind_of_ok hload).trans ((bind_of_ok hrun).trans hr)
  exact ⟨continuousSolution r false, bind_of_ok hrelax⟩

theorem solveAnew_ok (s : Session K μ) : ∃ sol, (m.solveAnew e s).1 = .ok sol := by
  obtain ⟨l, hload⟩ := hsolves.load m.sessionSettings
  obtain ⟨answer, memory, r, hrun, hr⟩ :=
    run_relaxationOf hm hcertifies hsolves 0 (Loaded.holds_of_load (.inr rfl) hload)
  refine ⟨continuousSolution r false, ?_⟩
  rw [solveAnew, bind_of_ok hload, bind_of_ok hrun]
  dsimp only
  rw [bind_of_ok hr]
  rfl

theorem solveAgain_ok {l : Loaded K μ} (hl : l.Holds m) (s : Session K μ) :
    ∃ sol, (m.solveAgain e l s).1 = .ok sol := by
  obtain ⟨answer, memory, r, hrun, hr⟩ := run_relaxationOf hm hcertifies hsolves 0 hl
  refine ⟨continuousSolution r true, ?_⟩
  rw [solveAgain, hrun]
  simp only [hr]
  rfl

theorem solveCached_ok (s : Session K μ) (hfits : s.Fits) (warm : Bool) :
    ∃ sol, (m.solveCached e s warm).1 = .ok sol := by
  rcases Session.solveCached_cases m e s warm with ⟨l, t, -, hreuse, heq⟩ | ⟨b, t, hreuse, -⟩ |
    ⟨t, -, heq⟩
  · rw [heq]
    exact solveAgain_ok hm hcertifies hsolves (hfits.holds hm hreuse) t
  · exact absurd hreuse (Session.reuse_ne_error hsolves.refresh)
  · rw [heq]
    exact solveAnew_ok hm hcertifies hsolves t

theorem solve_ok {session : Option (Session K μ)} (hfits : ∀ s, session = some s → s.Fits)
    (hcontinuous : m.isMixed = false) (clock : Clock K) (warm : Bool) :
    ∃ sol, (m.solve e clock session warm).1 = .ok sol := by
  unfold solve
  rw [hcontinuous, if_neg Bool.false_ne_true]
  cases session with
  | none => exact solveAlone_ok hm hcertifies hsolves
  | some s =>
      dsimp only
      split_ifs
      · exact solveCached_ok hm hcertifies hsolves s (hfits s rfl) warm
      · exact solveAlone_ok hm hcertifies hsolves

/-- A continuous model that the engine solves has a solution, which says so. -/
theorem exists_solved {session : Option (Session K μ)} (hfits : ∀ s, session = some s → s.Fits)
    (hcontinuous : m.isMixed = false) (clock : Clock K) (warm : Bool) :
    ∃ sol after, m.solve e clock session warm = (.ok sol, after) ∧
      sol.status = .continuous .solved := by
  obtain ⟨sol, hsol⟩ := solve_ok hm hcertifies hsolves hfits hcontinuous clock warm
  have hsolve : m.solve e clock session warm = (.ok sol, (m.solve e clock session warm).2) :=
    Prod.ext hsol rfl
  obtain ⟨turn, l, answer, memory, r, w, hl, hrun, hr, rfl⟩ :=
    answered_solve hfits hm hcontinuous hsolve
  obtain ⟨answer', memory', hrun', hstatus⟩ := hsolves.run turn l hl
  cases hrun.symm.trans hrun'
  exact ⟨_, _, hsolve, congrArg ModelStatus.continuous ((status_relaxationOf hr).trans hstatus)⟩

end Total

end Model

/-! ### Back to variables and constraints -/

/-- A continuous problem with a cost that is exactly symmetric and right-hand sides that do not
count as infinite. -/
structure Problem.Regular [EngineDefaults K] (d : Problem K) : Prop where
  check : d.check = .ok ()
  wellFormed : d.a.WellFormed ∧ d.f.WellFormed
  continuous : d.isMixed = false
  symmetric : ∀ i j, d.p.entry i j = d.p.entry j i
  below : ∀ v ∈ d.b ++ d.g, |v| < engineInfinity

/-- A layout that was built for problems of this size, with an identity for each of its blocks. -/
structure Layout.Describes (l : Layout) (d : Problem K) : Prop where
  built : l.Built
  inWord : l.InWord
  check : l.check d = .ok ()
  distinct_vars : (l.vars.map (·.ident)).Nodup
  distinct_rows : (l.eqs.map (·.ident) ++ l.ineqs.map (·.ident)).Nodup

/-- The values of the variables make up a point and the dual values multipliers that certify it.
Only under the layout of a mixed problem there are no dual values. -/
def Solution.Certified (sol : Solution K) (l : Layout) (d : Problem K) : Prop :=
  ∃ x y w, d.Certified x y w ∧
    (∃ primal, sol.primal = some primal ∧ primal.Gathers (l.vars.map (·.ident)) x) ∧
    if l.isMixed then sol.dual = none
    else ∃ dual, sol.dual = some dual ∧ dual.Gathers (l.eqs.map (·.ident)) y ∧
      dual.Gathers (l.ineqs.map (·.ident)) w

variable [IsStrictOrderedRing K] [EngineDefaults K] {d : Problem K} {l : Layout} {m : Model K}

/-- What a certificate becomes when it is cut along a layout. -/
theorem certified_toSolution (hd : d.Regular) (hl : l.Describes d) {verbose : Bool}
    {options : Options K} (hm : d.toModel verbose options = .ok m) {answer : Answer K}
    (hcertificate : m.conic.Certificate answer.x answer.z) (hstatus : answer.status = .solved)
    {r : Relaxation K} (hr : m.relaxationOf m.conic answer = .ok r) (warm : Bool) (phase : Phase)
    (time : Option K) :
    ((⟨phase, .ok (Model.continuousSolution r warm), time⟩ : Results K).toSolution l).Certified
      l d := by
  have hconsistent := Problem.consistent_of_check hd.check
  have hstacks := Problem.stacks_conic hconsistent hd.wellFormed.1 hd.wellFormed.2 hd.continuous
    hd.below hm
  have hcertified := hstacks.certified hconsistent hd.symmetric hcertificate
  obtain ⟨hx, hy, hw⟩ := hcertified.length_eq
  obtain ⟨hnVar, hnEq, hnIneq⟩ := Layout.counts_of_check hl.check
  obtain ⟨hcEq, hcIneq, -⟩ := hstacks.counts
  -- there are no rows after the inequalities
  have hend : answer.z.take (d.nEq + d.nIneq) = answer.z := by
    rw [List.length_drop] at hw
    rw [List.length_take] at hy
    exact List.take_of_length_le (by omega)
  obtain ⟨v, hv⟩ := Model.relaxationOf_of_certificate (Model.reachable_of_toModel hm).sound
    hcertificate
  obtain rfl := Except.ok.inj (hr.symm.trans hv)
  rw [hcEq, hcIneq, hend, hstatus]
  refine ⟨_, _, _, hcertified, ⟨_, rfl, hl.built.gathers_cutVars hl.inWord hl.distinct_vars
    (hx.trans hnVar.symm)⟩, ?_⟩
  split_ifs with hmixed
  · change Results.duals (l.isMixed || false) _ l = none
    rw [hmixed]
    rfl
  · refine ⟨_, ?_, hl.built.gathers_cutRows hl.inWord hl.distinct_rows (hy.trans hnEq.symm)
      (hw.trans hnIneq.symm)⟩
    change Results.duals (l.isMixed || false) _ l = _
    rw [Bool.not_eq_true] at hmixed
    rw [hmixed]
    rfl

namespace Step

variable {t : Step K μ} {session : Option (Session K μ)}

/-- **Certificates survive the round trip.**  Whatever a session holds and however it is used, if
the engine has a proof whenever it says that it solved the model, then every optimal solution has
one for the original problem; and if it solves the model, then there is an optimal solution. -/
theorem solve_certified (hsession : ∀ s, session = some s → s.Reachable)
    (hproblem : t.problem.Regular) (hlayout : t.layout.Describes t.problem)
    (hengine : ∀ m, t.model = .ok m → t.engine.Certifies m) :
    (∀ sol after, t.solve session = (.ok sol, after) → sol.status = .optimal →
      sol.Certified t.layout t.problem) ∧
    ((∀ m, t.model = .ok m → t.engine.Solves m) → (t.staged = true ∨ t.available = .ok ()) →
      (∀ e ∈ t.request.options.entries, ∃ c c' : Controls K, c.set e.1 e.2 = .ok c') →
      ∃ sol after, t.solve session = (.ok sol, after) ∧ sol.status = .optimal) := by
  have hfits : ∀ s, session = some s → s.Fits := fun s hs => (hsession s hs).fits
  have hcontinuous : ∀ m, t.model = .ok m → m.isMixed = false := by
    intro m hm
    obtain ⟨c, rfl⟩ := Problem.eq_of_toModel hm
    rw [Problem.isMixed_eq (Problem.consistent_of_check hproblem.check) rfl, hproblem.continuous]
  constructor
  · intro sol after h hoptimal
    obtain ⟨m, native, hm, hsolve, rfl⟩ := exists_native h hoptimal
    obtain ⟨turn, l, answer, memory, r, warm, hl, hrun, hr, rfl⟩ :=
      Model.answered_solve hfits (Model.reachable_of_toModel hm) (hcontinuous m hm) hsolve
    rw [(toSolution_ok ..).1] at hoptimal
    have hstatus : answer.status = .solved := by
      rw [← Model.status_relaxationOf hr]
      exact Termination.eq_solved hoptimal
    exact certified_toSolution hproblem hlayout hm
      (hengine m hm turn l answer memory hl hrun hstatus) hstatus hr warm _ _
  · intro hsolves havailable hoptions
    obtain ⟨p, c, hm⟩ := Problem.toModel_eq_ok hproblem.check hproblem.wellFormed.1
      hproblem.wellFormed.2 hoptions t.request.verbose
    obtain ⟨native, after, hsolve, hstatus⟩ := Model.exists_solved (Model.reachable_of_toModel hm)
      (hengine _ hm) (hsolves _ hm) hfits (hcontinuous _ hm) t.clock t.request.warm
    refine ⟨_, after, solve_of_model (checks_eq_ok havailable hlayout.check) hm hsolve, ?_⟩
    rw [(toSolution_ok ..).1, hstatus]
    rfl

end Step

end Exact

/-! ### The corner of a line and a half-plane -/

/-- Of the points with `x₀ + x₁ = 2` and `3/2 ≤ x₀` the closest to the origin is wanted. -/
def cornerProblem : Problem ℚ where
  p := .scaledIdentity 2 1
  q := [0, 0]
  a := .ofTriplets 1 2 [⟨0, 0, 1⟩, ⟨0, 1, 1⟩]
  b := [2]
  f := .ofTriplets 1 2 [⟨0, 0, -1⟩]
  g := [-3/2]
  nVar := 2
  nEq := 1
  nIneq := 1

/-- A step with an engine that knows the answer. -/
def cornerStep (isMixed : Bool) : Step ℚ Unit where
  engine :=
    { prepare := fun _ _ => .ok ()
      refresh := fun _ _ => .ok (some ())
      run := fun _ _ => .ok (⟨.solved, [3/2, 1/2], [-1/2, 1], 1⟩, ()) }
  clock := ⟨fun _ => .ok fun _ => false, 0⟩
  available := .ok ()
  problem := cornerProblem
  layout := { ((({} : Layout).addVar ⟨0⟩ (.vector 2)).addEq ⟨1⟩ 1).addIneq ⟨2⟩ 1 with isMixed }
  request := ⟨true, false, {}⟩
  staged := false

theorem cornerProblem_regular : cornerProblem.Regular where
  check := by
    have hok : cornerProblem.check.isOk = true := by decide +kernel
    cases hcheck : cornerProblem.check with
    | error e => simp [hcheck, Except.isOk, Except.toBool] at hok
    | ok => rfl
  wellFormed := ⟨Sparse.wellFormed_ofTriplets _ _ _, Sparse.wellFormed_ofTriplets _ _ _⟩
  continuous := rfl
  symmetric i j := by
    simp only [cornerProblem, Sparse.entry_scaledIdentity]
    grind
  below := by
    intro v hv
    simp only [cornerProblem, List.cons_append, List.nil_append, List.mem_cons,
      List.not_mem_nil, or_false] at hv
    rcases hv with rfl | rfl <;> norm_num [engineInfinity_eq]

theorem cornerProblem_certified : cornerProblem.Certified [3/2, 1/2] [-1/2] [1] where
  length_eq := ⟨rfl, rfl, rfl⟩
  stationary := by decide +kernel
  nonneg := by decide +kernel
  complementary := by decide +kernel
  equations := by decide +kernel
  inequalities := by decide +kernel

theorem cornerStep_describes (isMixed : Bool) :
    (cornerStep isMixed).layout.Describes (cornerStep isMixed).problem where
  built := .setMixed isMixed (.addIneq _ _ (.addEq _ _ (.addVar _ _ .empty)))
  inWord := ⟨by decide +revert, by decide +revert, by decide +revert⟩
  check := rfl
  distinct_vars := List.nodup_singleton _
  distinct_rows := by decide +revert

theorem cornerStep_certifies (isMixed : Bool) (m : Model ℚ)
    (hm : (cornerStep isMixed).model = .ok m) : (cornerStep isMixed).engine.Certifies m := by
  intro turn l answer memory _ hrun _
  have hd := Problem.consistent_of_check cornerProblem_regular.check
  have hstacks := Problem.stacks_conic hd cornerProblem_regular.wellFormed.1
    cornerProblem_regular.wellFormed.2 rfl cornerProblem_regular.below hm
  cases hrun
  exact hstacks.certificate hd cornerProblem_regular.symmetric cornerProblem_certified

theorem Step.solve_certified_corner : ∃ sol after,
    (cornerStep false).solve (some {}) = (.ok sol, after) ∧ sol.status = .optimal ∧
      sol.Certified (cornerStep false).layout cornerProblem := by
  have hsession : ∀ s : Session ℚ Unit, some {} = some s → s.Reachable := by
    rintro s ⟨⟩
    exact .empty
  obtain ⟨hcertified, hsolved⟩ := Step.solve_certified hsession cornerProblem_regular
    (cornerStep_describes false) (cornerStep_certifies false)
  obtain ⟨sol, after, hsolve, hoptimal⟩ := hsolved
    (fun _ _ => ⟨fun _ => ⟨_, rfl⟩, fun _ => ⟨_, rfl⟩, fun _ _ _ => ⟨_, _, rfl, rfl⟩⟩)
    (.inr rfl) (fun _ h => nomatch h)
  exact ⟨sol, after, hsolve, hoptimal, hcertified sol after hsolve hoptimal⟩

/-- The one equation has two blocks, which have one row more than a machine word counts. -/
def wrappedStep : Step ℚ Unit :=
  { cornerStep false with
    layout := (((({} : Layout).addVar ⟨0⟩ (.vector 2)).addEq ⟨3⟩ (wordSize - 1)).addEq
      ⟨1⟩ 2).addIneq ⟨2⟩ 1 }

/-- Under the layout of a mixed problem the same point comes without dual values.  Under a layout
that loses a word it comes without those of the equations. -/
theorem Step.solve_uncertified : ((cornerStep true).problem.Regular ∧
      (cornerStep true).layout.Describes (cornerStep true).problem ∧
      (∀ m, (cornerStep true).model = .ok m → (cornerStep true).engine.Certifies m) ∧
      ∃ sol after, (cornerStep true).solve none = (.ok sol, after) ∧ sol.status = .optimal ∧
        sol.dual = none) ∧
    wrappedStep.layout.Built ∧ wrappedStep.layout.check wrappedStep.problem = .ok () ∧
      ((wrappedStep.layout.eqs ++ wrappedStep.layout.ineqs).map (·.ident)).Nodup ∧
      ∃ sol after, wrappedStep.solve none = (.ok sol, after) ∧ sol.status = .optimal ∧
        sol.dual? ⟨3⟩ = none ∧ sol.dual? ⟨1⟩ = none := by
  have hmixed : ((cornerStep true).solve none).1.toOption.map
      (fun sol => (sol.status, sol.dual.isNone)) = some (.optimal, true) := by
    decide +kernel
  have hwrapped : (wrappedStep.solve none).1.toOption.map
      (fun sol => (sol.status, (sol.dual? ⟨3⟩).isNone, (sol.dual? ⟨1⟩).isNone)) =
      some (.optimal, true, true) := by
    decide +kernel
  obtain ⟨sol, hsol, hseen⟩ := Option.map_eq_some_iff.1 hmixed
  obtain ⟨hoptimal, hdual⟩ := Prod.mk.inj hseen
  obtain ⟨sol', hsol', hseen'⟩ := Option.map_eq_some_iff.1 hwrapped
  obtain ⟨hoptimal', hduals⟩ := Prod.mk.inj hseen'
  obtain ⟨hfirst, hsecond⟩ := Prod.mk.inj hduals
  refine ⟨⟨cornerProblem_regular, cornerStep_describes true, cornerStep_certifies true, sol, _,
    Prod.ext (eq_ok_of_toOption hsol) rfl, hoptimal, Option.isNone_iff_eq_none.1 hdual⟩, ?_, rfl,
    by decide, sol', _, Prod.ext (eq_ok_of_toOption hsol') rfl, hoptimal',
    Option.isNone_iff_eq_none.1 hfirst, Option.isNone_iff_eq_none.1 hsecond⟩
  exact .addIneq _ _ (.addEq _ _ (.addEq _ _ (.addVar _ _ .empty)))

end QuadProg
