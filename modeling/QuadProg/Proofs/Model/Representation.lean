import QuadProg.Proofs.Conic.Assembly
import QuadProg.Proofs.Sparse.Stored

/-!
# How the parts of a model fit together

The parts of a model refer to each other: rows and the quadratic cost mention variables by their
indices, a row keeps its variables and its values in two lists that are read side by side, and the
cost has a row and a column for every variable.  Calls come in any order, and a call checks its
arguments against the model as it is then.  What may a later call undo?

* *Nothing of `Formed`.*  There are never fewer variables than before, so an index that was fine
  stays fine.  The cost stays square, with variables for its columns, and no point with a number for
  every variable is too short for it.
* *The size of the cost.*  A cost that was set for `k` variables is still of size `k` after more
  variables were added; nothing pads it or drops it.
* *The pairs of a row.*  The lists of a row are taken as they come.  Where one is longer, the rest
  of it is stored and never read again.

`Fits` is what is left out by `Formed`, and `Call.Respects` is the exact condition on a call under
which it survives (`fits_after_iff`).  The conic form is described for all reachable models:
`Collects` says which coefficients enter its matrix, at which place, and in which order they are
added up, whatever the arithmetic does.
-/

namespace QuadProg

/-- The coefficients that a row pairs with a variable. -/
def Row.coefficients {α : Type} (r : Row α) (j : Nat) : List α :=
  ((r.cols.zip r.vals).filter (·.1 = j)).map (·.2)

/-- In a row with as many variables as values every value is a coefficient. -/
theorem Row.mem_coefficients {α : Type} {r : Row α} (h : r.cols.length = r.vals.length) {k : Nat}
    {v : α} (hv : r.vals[k]? = some v) : ∃ j, r.cols[k]? = some j ∧ v ∈ r.coefficients j := by
  have hk : k < r.cols.length := h ▸ (List.getElem?_eq_some_iff.1 hv).1
  have hj : r.cols[k]? = some r.cols[k] := List.getElem?_eq_getElem hk
  have hzip : (r.cols.zip r.vals)[k]? = some (r.cols[k], v) :=
    List.getElem?_zip_eq_some.2 ⟨hj, hv⟩
  refine ⟨r.cols[k], hj, List.mem_map.2 ⟨(r.cols[k], v), ?_, rfl⟩⟩
  exact List.mem_filter.2 ⟨List.mem_of_getElem? hzip, by simp⟩

namespace Model

variable {α : Type}

/-! ### What every call keeps -/

/-- What holds of the parts of a model whatever calls were made. -/
structure Formed (m : Model α) : Prop extends m.Sound where
  length_costs : m.costs.length = m.nVar
  length_lowers : m.lowers.length = m.nVar
  length_uppers : m.uppers.length = m.nVar
  length_kinds : m.kinds.length = m.nVar
  wellFormed : ∀ p, m.quadratic = some p → p.WellFormed
  square : ∀ p, m.quadratic = some p → p.nrows = p.ncols ∧ p.ncols ≤ m.nVar

/-- The part of `Formed` that does not hold of lists of variables as such. -/
theorem formed_of_sound {m : Model α} (h : m.Sound)
    (hcost : ∀ p, m.quadratic = some p → p.WellFormed ∧ p.nrows = p.ncols ∧ p.ncols ≤ m.nVar) :
    m.Formed where
  toSound := h
  length_costs := by simp [costs, nVar]
  length_lowers := by simp [lowers, nVar]
  length_uppers := by simp [uppers, nVar]
  length_kinds := by simp [kinds, nVar]
  wellFormed p hp := (hcost p hp).1
  square p hp := (hcost p hp).2

variable [Scalar α]

/-- What a call does to the quadratic cost and to the number of variables. -/
theorem Call.cost_after (m : Model α) (c : Call α) :
    m.nVar ≤ (c.after m).nVar ∧ ((c.after m).quadratic = m.quadratic ∨
      ∃ p : Sparse α, p.nrows = m.nVar ∧ p.ncols = m.nVar ∧ (c.after m).nVar = m.nVar ∧
        (c.after m).quadratic = some p.upperTriangle) := by
  cases c with
  | addVariables costs lower upper =>
      simp only [Call.after, apply_addVariables]
      split_ifs with hlength
      · exact ⟨le_rfl, .inl rfl⟩
      · exact ⟨by simp [nVar], .inl rfl⟩
  | setKind index kind =>
      simp only [Call.after, apply_setKind]
      split_ifs with hlt
      · exact ⟨by simp [nVar], .inl rfl⟩
      · exact ⟨le_rfl, .inl rfl⟩
  | addRows rows sense rhs =>
      simp only [Call.after, apply_addRows]
      split_ifs with hlength
      · exact ⟨le_rfl, .inl rfl⟩
      · exact ⟨le_rfl, .inl rfl⟩
  | setQuadratic p =>
      simp only [Call.after, apply_setQuadratic]
      split_ifs with hsize
      · exact ⟨le_rfl, .inl rfl⟩
      · exact ⟨le_rfl, .inr ⟨p, by tauto, by tauto, rfl, rfl⟩⟩
  | setControl name value =>
      simp only [Call.after, apply_setControl]
      cases m.controls.set name value with
      | error e => exact ⟨le_rfl, .inl rfl⟩
      | ok d => exact ⟨le_rfl, .inl rfl⟩
  | setVerbose verbose => exact ⟨le_rfl, .inl rfl⟩

theorem Formed.after {m : Model α} (h : m.Formed) (c : Call α) : (c.after m).Formed := by
  obtain ⟨hgrow, hcost⟩ := c.cost_after m
  refine formed_of_sound (h.toSound.after c) fun p hp => ?_
  rcases hcost with hsame | ⟨p', hrows, hcols, hsame, hnew⟩
  -- an old cost is not touched, and there are no fewer variables
  · rw [hsame] at hp
    exact ⟨h.wellFormed p hp, (h.square p hp).1, (h.square p hp).2.trans hgrow⟩
  · obtain rfl : p'.upperTriangle = p := Option.some.inj (hnew.symm.trans hp)
    refine ⟨Sparse.wellFormed_ofTriplets _ _ _, hrows.trans hcols.symm, ?_⟩
    exact (hcols.trans hsame.symm).le

/-! ### What some calls undo -/

/-- The parts of a model fit: a row has a value for each of its variables, and the cost has a row
and a column for each variable. -/
structure Fits (m : Model α) : Prop where
  parallel : ∀ r ∈ m.rows, r.cols.length = r.vals.length
  size : ∀ p, m.quadratic = some p → p.nrows = m.nVar ∧ p.ncols = m.nVar

/-- The call appends no variables to a model with a quadratic cost, and no row with more variables
than values or more values than variables. -/
def Call.Respects (m : Model α) : Call α → Prop
  | addVariables costs lower upper =>
      lower.length = costs.length → upper.length = costs.length →
        costs.length = 0 ∨ m.quadratic.isNone
  | addRows rows _ rhs =>
      rows.length = rhs.length → ∀ r ∈ leading m.nVar (rows.zip rhs), r.1.1.length = r.1.2.length
  | _ => True

instance Call.decidableRespects (m : Model α) : ∀ c : Call α, Decidable (c.Respects m)
  | addVariables costs lower upper =>
      inferInstanceAs (Decidable (lower.length = costs.length → upper.length = costs.length →
        costs.length = 0 ∨ m.quadratic.isNone))
  | addRows rows _ rhs =>
      inferInstanceAs (Decidable (rows.length = rhs.length →
        ∀ r ∈ leading m.nVar (rows.zip rhs), r.1.1.length = r.1.2.length))
  | setKind _ _ | setQuadratic _ | setControl _ _ | setVerbose _ => inferInstanceAs (Decidable True)

omit [Scalar α] in
theorem Fits.congr {m m' : Model α} (h : m.Fits) (hrows : m'.rows = m.rows)
    (hcost : m'.quadratic = m.quadratic) (hvars : m'.nVar = m.nVar) : m'.Fits where
  parallel := hrows ▸ h.parallel
  size p hp := hvars ▸ h.size p (hcost.symm.trans hp)

omit [Scalar α] in
/-- Rows of a list are parallel if and only if the arguments they were made from are. -/
theorem parallel_freshRows {sense : RowSense} {rs : List ((List Nat × List α) × α)} :
    (∀ r ∈ freshRows sense rs, r.cols.length = r.vals.length) ↔
      ∀ r ∈ rs, r.1.1.length = r.1.2.length := by
  simp only [freshRows, List.mem_map, forall_exists_index, and_imp, forall_apply_eq_imp_iff₂]

/-- One call keeps the parts fitting if and only if it respects them. -/
theorem fits_after_iff {m : Model α} (h : m.Fits) (c : Call α) :
    (c.after m).Fits ↔ c.Respects m := by
  cases c with
  | addVariables costs lower upper =>
      simp only [Call.after, apply_addVariables, Call.Respects]
      split_ifs with hlength
      · exact iff_of_true h fun hl hu => by tauto
      · obtain ⟨hl, hu⟩ : lower.length = costs.length ∧ upper.length = costs.length := by tauto
        have hfresh : (freshColumns costs lower upper).length = costs.length := by
          simp [freshColumns, hl, hu]
        constructor
        -- the cost is as it was, so it fits before and after only if no variable came in between
        · rintro ⟨-, hsize⟩ - -
          cases hp : m.quadratic with
          | none => exact .inr rfl
          | some p =>
              have hbefore := (h.size p hp).2
              have hafter := (hsize p hp).2
              simp only [nVar, List.length_append, hfresh] at hbefore hafter
              exact .inl (by omega)
        · intro hrespects
          refine ⟨h.parallel, fun p hp => ?_⟩
          rcases hrespects hl hu with hnone | hnone
          · have hsize := h.size p hp
            simp only [nVar, List.length_append, hfresh] at hsize ⊢
            omega
          · simp [show m.quadratic = some p from hp] at hnone
  | setKind index kind =>
      simp only [Call.after, apply_setKind, Call.Respects, iff_true]
      split_ifs with hlt
      · exact h.congr rfl rfl (by simp [nVar])
      · exact h
  | addRows rows sense rhs =>
      simp only [Call.after, apply_addRows, Call.Respects]
      split_ifs with hlength
      · exact iff_of_true h fun hl => absurd hl hlength
      · constructor
        · rintro ⟨hparallel, -⟩ -
          exact parallel_freshRows.1 fun r hr => hparallel r (List.mem_append_right _ hr)
        · intro hrespects
          refine ⟨fun r hr => ?_, h.size⟩
          rcases List.mem_append.1 hr with hr | hr
          · exact h.parallel r hr
          · exact parallel_freshRows.2 (hrespects (by simpa using hlength)) r hr
  | setQuadratic p =>
      simp only [Call.after, apply_setQuadratic, Call.Respects, iff_true]
      split_ifs with hsize
      · exact h
      · refine ⟨h.parallel, fun q hq => ?_⟩
        obtain rfl : p.upperTriangle = q := Option.some.inj hq
        exact ⟨by tauto, by tauto⟩
  | setControl name value =>
      simp only [Call.after, apply_setControl, Call.Respects, iff_true]
      cases m.controls.set name value with
      | error e => exact h
      | ok d => exact h.congr rfl rfl rfl
  | setVerbose verbose => exact iff_of_true (h.congr rfl rfl rfl) trivial

/-! ### Runs of calls -/

/-- The model after a list of calls. -/
def Call.run (m : Model α) (calls : List (Call α)) : Model α := calls.foldl Call.after m

/-- Every call of the list respects the model that it finds. -/
def Call.RespectAll : Model α → List (Call α) → Prop
  | _, [] => True
  | m, c :: cs => c.Respects m ∧ RespectAll (c.after m) cs

instance Call.decidableRespectAll : ∀ (m : Model α) (calls : List (Call α)),
    Decidable (Call.RespectAll m calls)
  | _, [] => inferInstanceAs (Decidable True)
  | m, c :: cs =>
      have := decidableRespectAll (c.after m) cs
      inferInstanceAs (Decidable (c.Respects m ∧ RespectAll (c.after m) cs))

theorem Formed.run {m : Model α} (h : m.Formed) (calls : List (Call α)) :
    (Call.run m calls).Formed := by
  induction calls generalizing m with
  | nil => exact h
  | cons c cs ih => exact ih (h.after c)

theorem Fits.run {m : Model α} (h : m.Fits) {calls : List (Call α)}
    (hall : Call.RespectAll m calls) : (Call.run m calls).Fits := by
  induction calls generalizing m with
  | nil => exact h
  | cons c cs ih => exact ih ((fits_after_iff h c).2 hall.1) hall.2

theorem formed_empty [EngineDefaults α] (infinity : α) : (empty infinity).Formed :=
  formed_of_sound (sound_empty infinity) fun p hp => by simp [empty] at hp

theorem fits_empty [EngineDefaults α] (infinity : α) : (empty infinity).Fits where
  parallel := by simp [empty]
  size p hp := by simp [empty] at hp

/-! ### The conic form of a model -/

omit [Scalar α] in
/-- The rows of a model in the order of the conic form. -/
def orderedRows (m : Model α) : List (Row α) :=
  m.rows.filter (·.sense = .equal) ++ m.rows.filter (·.sense = .lessEqual)

/-- What enters the conic form: its matrix has a column for every variable and a row for every
right-hand side.  The rows of the model come first, and at each place the matrix stores the sum of
the coefficients that the row pairs with the variable. -/
structure Collects (m : Model α) (c : Conic α) : Prop where
  wellFormed : c.a.WellFormed
  ncols : c.a.ncols = m.nVar
  nrows : c.a.nrows = c.b.length
  rhs : ∀ (i : Nat) (r : Row α), m.orderedRows[i]? = some r → c.b[i]? = some r.rhs
  value : ∀ (i : Nat) (r : Row α), m.orderedRows[i]? = some r →
    ∀ j, c.a.value? i j = Sparse.gather (r.coefficients j)

omit [Scalar α] in
theorem mem_orderedRows {m : Model α} {r : Row α} : r ∈ m.orderedRows ↔ r ∈ m.rows := by
  simp only [orderedRows, List.mem_append, List.mem_filter, decide_eq_true_eq, ← and_or_left]
  cases r.sense <;> simp

theorem conicRows_of_orderedRows {m : Model α} {i : Nat} {r : Row α}
    (h : m.orderedRows[i]? = some r) (lower upper : List α) :
    (m.conicRows lower upper)[i]? = some (Row.toConic r) := by
  have hfront : m.conicRows lower upper =
      m.orderedRows.map Row.toConic ++ m.boundBlock lower upper := by
    rw [conicRows, orderedRows, List.map_append]
    rfl
  have hi : i < (m.orderedRows.map Row.toConic).length := by
    simpa using (List.getElem?_eq_some_iff.1 h).1
  rw [hfront, List.getElem?_append_left hi, List.getElem?_map, h, Option.map_some]

theorem Sound.collects {m : Model α} (hm : m.Sound) (lower upper : List α) :
    m.Collects (m.assemble lower upper) where
  wellFormed := Sparse.wellFormed_ofTriplets _ _ _
  ncols := rfl
  nrows := by simp [assemble_eq, Sparse.ofTriplets]
  rhs i r hr := by
    rw [assemble_eq, List.getElem?_map, conicRows_of_orderedRows hr lower upper]
    rfl
  value i r hr j := by
    have hrow := conicRows_of_orderedRows hr lower upper
    have hi := (List.getElem?_eq_some_iff.1 hrow).1
    -- the triplets of row `i` are the entries of the row
    have hentries : (placed (m.conicRows lower upper)).filter
        (fun t => t.row = i ∧ t.col = j) =
          ((r.cols.zip r.vals).filter (·.1 = j)).map fun e => ⟨i, e.1, e.2⟩ := by
      rw [Sparse.filter_position, filter_placed hrow, List.filter_map]
      rfl
    rw [assemble_eq, Sparse.value?_ofTriplets, hentries, List.map_map]
    split_ifs with hplace
    · rfl
    -- no row mentions a variable that does not exist
    · have hnone : r.coefficients j = [] := by
        have hmem := mem_orderedRows.1 (List.mem_of_getElem? hr)
        rw [Row.coefficients, List.filter_eq_nil_iff.2, List.map_nil]
        intro e he hej
        have hlt := hm.cols_lt r hmem e.1 (List.of_mem_zip he).1
        have hj : e.1 = j := by simpa using hej
        exact hplace ⟨hi, hj ▸ hlt⟩
      rw [hnone]
      rfl

theorem Formed.collects_fitting {m : Model α} (h : m.Formed) (hfits : m.Fits)
    (lower upper : List α) :
    (m.assemble lower upper).p.WellFormed ∧ (m.assemble lower upper).p.nrows = m.nVar ∧
      (m.assemble lower upper).p.ncols = m.nVar := by
  rw [assemble_eq]
  cases hp : m.quadratic with
  | none => exact ⟨Sparse.wellFormed_zeros _ _, rfl, rfl⟩
  | some p => exact ⟨h.wellFormed p hp, hfits.size p hp⟩

/-- **The parts of a model after any calls.**  Whatever calls are made, failed or not, the parts are
formed, the cost can be computed at every point with a number for each variable, and the conic form
collects what the rows pair with variables.  From a model whose parts fit, a call leads to one whose
parts fit if and only if the call respects them; and where all calls did, the quadratic cost of the
conic form has the size of the model and every value of every row enters its matrix. -/
theorem run_formed [EngineDefaults α] (infinity : α) (calls : List (Call α)) {m : Model α}
    (hm : m = Call.run (empty infinity) calls) :
    (m.Formed ∧ (∀ x : List α, x.length = m.nVar → ∃ v, m.objective x = .ok v) ∧
      ∀ lower upper, m.Collects (m.assemble lower upper)) ∧
    (m.Fits → ∀ c : Call α, (c.after m).Fits ↔ c.Respects m) ∧
    (Call.RespectAll (empty infinity) calls → m.Fits ∧
      (∀ lower upper, (m.assemble lower upper).p.WellFormed ∧
        (m.assemble lower upper).p.nrows = m.nVar ∧ (m.assemble lower upper).p.ncols = m.nVar) ∧
      ∀ r ∈ m.rows, ∀ (k : Nat) (v : α), r.vals[k]? = some v →
        ∃ j < m.nVar, r.cols[k]? = some j ∧ v ∈ r.coefficients j) := by
  subst hm
  have hformed := (formed_empty infinity).run calls
  refine ⟨⟨hformed, fun x hx => hformed.objective_ok hx, hformed.toSound.collects⟩,
    fun h c => fits_after_iff h c, fun hall => ?_⟩
  have hfits := (fits_empty infinity).run hall
  refine ⟨hfits, hformed.collects_fitting hfits, fun r hr k v hv => ?_⟩
  obtain ⟨j, hj, hmem⟩ := Row.mem_coefficients (hfits.parallel r hr) hv
  exact ⟨j, hformed.cols_lt r hr j (List.mem_of_getElem? hj), hj, hmem⟩

/-- Calls of which some are refused: bounds are missing, a variable does not exist, the second row
mentions one that does not, and the first cost is too small. -/
def carefulCalls : List (Call ℚ) :=
  [.addVariables [1, 2] [0] [1, 1], .addVariables [1, 2] [0, 0] [1, 1], .setKind 5 .integer,
    .setKind 1 .binary, .addRows [([1, 0, 1], [1, 2, 3]), ([7], [1])] .equal [4, 4],
    .setQuadratic ⟨1, 1, [[(0, 1)]]⟩, .setQuadratic ⟨2, 2, [[(0, 2)], [(0, 1), (1, 2)]]⟩]

/-- The row that was kept names the second variable twice, and both coefficients enter. -/
theorem run_formed_careful : ∃ m : Model ℚ, m = Call.run (empty engineInfinity) carefulCalls ∧
    m.Formed ∧ m.Fits ∧ m.nVar = 2 ∧ m.rows.length = 1 ∧ ∀ lower upper,
      (m.assemble lower upper).p.ncols = 2 ∧ (m.assemble lower upper).a.value? 0 1 = some 4 := by
  obtain ⟨⟨hformed, -, hcollects⟩, -, hrespects⟩ :=
    run_formed engineInfinity carefulCalls (m := Call.run (empty engineInfinity) carefulCalls) rfl
  obtain ⟨hfits, hsize, -⟩ := hrespects (by decide +kernel)
  refine ⟨_, rfl, hformed, hfits, rfl, rfl, fun lower upper => ⟨(hsize lower upper).2.2, ?_⟩⟩
  have hrow : (Call.run (empty engineInfinity) carefulCalls).orderedRows[0]? =
      some ⟨[1, 0, 1], [1, 2, 3], .equal, 4⟩ := rfl
  rw [(hcollects lower upper).value 0 _ hrow 1]
  decide +kernel

/-- A second variable comes after the cost was set. -/
def lateCalls : List (Call ℚ) :=
  [.addVariables [-3] [-engineInfinity] [2], .setQuadratic ⟨1, 1, [[(0, 1)]]⟩,
    .addVariables [1] [0] [1]]

/-- A row has one variable and two values. -/
def raggedCalls : List (Call ℚ) :=
  [.addVariables [1] [0] [1], .addRows [([0], [1, 2])] .lessEqual [1]]

/-- All calls succeed, but the cost is too small for the model, and the second value of the row is
the coefficient of no variable. -/
theorem run_unfit :
    ((Call.run (empty engineInfinity) lateCalls).nVar = 2 ∧ ∀ lower upper,
      ((Call.run (empty engineInfinity) lateCalls).assemble lower upper).p.ncols = 1) ∧
    ∃ r ∈ (Call.run (empty engineInfinity) raggedCalls).rows, r.cols.length = 1 ∧
      r.vals[1]? = some 2 ∧ ∀ j, 2 ∉ r.coefficients j := by
  refine ⟨⟨rfl, fun _ _ => rfl⟩, ⟨[0], [1, 2], .lessEqual, 1⟩, List.mem_singleton.2 rfl, rfl, rfl,
    fun j hj => ?_⟩
  by_cases h : 0 = j
  · simp [Row.coefficients, h] at hj
  · simp [Row.coefficients, h] at hj

end Model

end QuadProg
