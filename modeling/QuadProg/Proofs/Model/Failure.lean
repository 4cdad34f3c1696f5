import QuadProg.Proofs.Model.Representation

/-!
# What failed calls leave behind

A call that fails should leave the model as it was.  Whether it does depends on when it looks at its
arguments:

```text
addVariables     the numbers of bounds              before anything is changed
setKind          the variable                       before
setQuadratic     the size                           before
setControl       the name, then the value           before
addRows          the number of right-hand sides     before
                 the variables of a row             when the rows before it were appended
```

So only `addRows` can fail halfway.  It does so if it is given as many right-hand sides as rows, the
first row fits and a later one does not (`Call.Starts`), and it then leaves the rows before the bad
one in the model (`Call.stranded`).

Over a list of calls it is as if the stranded rows had been added on purpose, one by one, and the
failed calls had not been made (`Call.effects`).  Where no call fails halfway, the calls that
succeeded lead to the same model by themselves.
-/

namespace QuadProg.Model

variable {α : Type} [Scalar α] {m : Model α} {c : Call α} {e : Error α}

/-- What a call answers. -/
def Call.result (m : Model α) : Call α → Except (Error α) Unit
  | addVariables costs lower upper =>
      ((Model.addVariables costs lower upper).apply m).1.map fun _ => ()
  | setKind index kind => ((Model.setKind index kind).apply m).1
  | addRows rows sense rhs => ((Model.addRows rows sense rhs).apply m).1
  | setQuadratic p => ((Model.setQuadratic p).apply m).1
  | setControl name value => ((Model.setControl name value).apply m).1
  | setVerbose _ => .ok ()

/-- The rows that a call leaves in the model where it fails. -/
def Call.stranded (m : Model α) : Call α → List (Row α)
  | addRows rows sense rhs =>
      if rows.length = rhs.length then freshRows sense (leading m.nVar (rows.zip rhs)) else []
  | _ => []

/-- The call appends rows one by one, and the first of them fits. -/
def Call.Starts (m : Model α) : Call α → Prop
  | addRows rows _ rhs =>
      rows.length = rhs.length ∧ ∃ r, rows.head? = some r ∧ ∀ j ∈ r.1, j < m.nVar
  | _ => False

/-! ### One call -/

/-- **A failed call changes nothing but the rows**, and adds to these what it leaves stranded. -/
theorem Call.after_of_error (h : c.result m = .error e) :
    c.after m = { m with rows := m.rows ++ c.stranded m } := by
  cases c with
  | addVariables costs lower upper =>
      simp only [Call.result, Call.after, Call.stranded, apply_addVariables,
        List.append_nil] at h ⊢
      split_ifs at h ⊢
      · rfl
      · cases h
  | setKind index kind =>
      simp only [Call.result, Call.after, Call.stranded, apply_setKind, List.append_nil] at h ⊢
      split_ifs at h ⊢
      rfl
  | addRows rows sense rhs =>
      simp only [Call.after, Call.stranded, apply_addRows]
      by_cases hlength : rows.length = rhs.length
      · rw [if_neg (not_not.2 hlength), if_pos hlength]
      · rw [if_pos hlength, if_neg hlength, List.append_nil]
  | setQuadratic p =>
      simp only [Call.result, Call.after, Call.stranded, apply_setQuadratic,
        List.append_nil] at h ⊢
      split_ifs at h ⊢
      rfl
  | setControl name value =>
      simp only [Call.result, Call.after, Call.stranded, apply_setControl,
        List.append_nil] at h ⊢
      cases hset : m.controls.set name value with
      | error e => rfl
      | ok d =>
          rw [hset] at h
          cases h
  | setVerbose verbose => cases h

omit [Scalar α] in
theorem leading_cons_eq_nil_iff {n : Nat} {r : (List Nat × List α) × α}
    {rs : List ((List Nat × List α) × α)} :
    leading n (r :: rs) = [] ↔ ¬ ∀ j ∈ r.1.1, j < n := by
  rw [leading, List.takeWhile_cons]
  cases houtside : outside n r.1.1 with
  | none =>
      have hfits : ∀ j ∈ r.1.1, j < n := outside_eq_none (by simp [houtside])
      simpa using hfits
  | some j =>
      have hmem : j ∈ r.1.1 := List.mem_of_find?_eq_some houtside
      have hout : n ≤ j := by simpa using List.find?_some houtside
      simpa using ⟨j, hmem, hout⟩

theorem Call.stranded_eq_nil_iff : c.stranded m = [] ↔ ¬ c.Starts m := by
  cases c with
  | addRows rows sense rhs =>
      by_cases hlength : rows.length = rhs.length
      · rw [Call.stranded, if_pos hlength, freshRows, List.map_eq_nil_iff]
        cases rows with
        | nil => simp [Call.Starts, leading]
        | cons r rows =>
            obtain ⟨b, rest, rfl⟩ := List.exists_cons_of_length_eq_add_one hlength.symm
            rw [List.zip_cons_cons, leading_cons_eq_nil_iff]
            simp [Call.Starts, Nat.succ.inj hlength]
      · simp [Call.stranded, Call.Starts, hlength]
  | _ => simp [Call.stranded, Call.Starts]

/-- A failed call leaves the model as it was if and only if it did not start to append rows. -/
theorem Call.after_eq_self_iff (h : c.result m = .error e) : c.after m = m ↔ ¬ c.Starts m := by
  rw [← Call.stranded_eq_nil_iff, Call.after_of_error h]
  constructor
  · intro heq
    exact List.append_right_eq_self.1 (congrArg Model.rows heq)
  · intro hnil
    rw [hnil, List.append_nil]

omit [Scalar α] in
/-- Stranded rows mention only variables that exist. -/
theorem Call.cols_lt_of_mem_stranded {r : Row α} (h : r ∈ c.stranded m) :
    ∀ j ∈ r.cols, j < m.nVar := by
  cases c with
  | addRows rows sense rhs =>
      rw [Call.stranded] at h
      split_ifs at h
      · exact cols_lt_of_mem_freshRows h
      · cases h
  | _ => cases h

/-! ### Lists of calls -/

/-- Every call of the list succeeds on the model that it finds. -/
def Call.AllSucceed : Model α → List (Call α) → Prop
  | _, [] => True
  | m, c :: cs => c.result m = .ok () ∧ AllSucceed (c.after m) cs

/-- No call of the list fails halfway. -/
def Call.NoneHalfway : Model α → List (Call α) → Prop
  | _, [] => True
  | m, c :: cs => (∀ e, c.result m = .error e → ¬ c.Starts m) ∧ NoneHalfway (c.after m) cs

/-- The call that appends the row by itself. -/
def Call.addRow (r : Row α) : Call α := .addRows [(r.cols, r.vals)] r.sense [r.rhs]

/-- A call that succeeds, or the additions of the rows that a failed one leaves stranded. -/
def Call.effect (m : Model α) (c : Call α) : List (Call α) :=
  match c.result m with
  | .ok () => [c]
  | .error _ => (c.stranded m).map Call.addRow

/-- The effects of the calls of a list, one after the other. -/
def Call.effects : Model α → List (Call α) → List (Call α)
  | _, [] => []
  | m, c :: cs => c.effect m ++ effects (c.after m) cs

theorem Call.run_append (m : Model α) (cs ds : List (Call α)) :
    Call.run m (cs ++ ds) = Call.run (Call.run m cs) ds :=
  List.foldl_append

theorem Call.AllSucceed.append {cs ds : List (Call α)} (hcs : Call.AllSucceed m cs)
    (hds : Call.AllSucceed (Call.run m cs) ds) : Call.AllSucceed m (cs ++ ds) := by
  induction cs generalizing m with
  | nil => exact hds
  | cons c cs ih => exact ⟨hcs.1, ih hcs.2 hds⟩

theorem Call.addRow_of_fits {r : Row α} (h : ∀ j ∈ r.cols, j < m.nVar) :
    (Call.addRow r).result m = .ok () ∧
      (Call.addRow r).after m = { m with rows := m.rows ++ [r] } := by
  have happly : (Model.addRows [(r.cols, r.vals)] r.sense [r.rhs]).apply m =
      (.ok (), { m with rows := m.rows ++ [r] }) :=
    apply_addRows_of_fits rfl (by simpa using h) r.sense
  exact ⟨congrArg Prod.fst happly, congrArg Prod.snd happly⟩

/-- Rows that fit can be added one by one. -/
theorem Call.run_addRow {rows : List (Row α)} (h : ∀ r ∈ rows, ∀ j ∈ r.cols, j < m.nVar) :
    Call.AllSucceed m (rows.map Call.addRow) ∧
      Call.run m (rows.map Call.addRow) = { m with rows := m.rows ++ rows } := by
  induction rows generalizing m with
  | nil => exact ⟨trivial, by simp [Call.run]⟩
  | cons r rows ih =>
      obtain ⟨hresult, hafter⟩ := Call.addRow_of_fits (h r List.mem_cons_self)
      have hrest := ih (m := { m with rows := m.rows ++ [r] })
        fun r' hr' => h r' (List.mem_cons_of_mem _ hr')
      simp only [List.append_assoc, List.singleton_append] at hrest
      rw [← hafter] at hrest
      exact ⟨⟨hresult, hrest.1⟩, hrest.2⟩

/-- The effect of a call leads where the call does. -/
theorem Call.run_effect (m : Model α) (c : Call α) :
    Call.AllSucceed m (c.effect m) ∧ Call.run m (c.effect m) = c.after m := by
  unfold Call.effect
  cases h : c.result m with
  | ok => exact ⟨⟨h, trivial⟩, rfl⟩
  | error e =>
      rw [Call.after_of_error h]
      exact Call.run_addRow fun r hr => Call.cols_lt_of_mem_stranded hr

theorem Call.run_effects (m : Model α) (calls : List (Call α)) :
    Call.AllSucceed m (Call.effects m calls) ∧
      Call.run m (Call.effects m calls) = Call.run m calls := by
  induction calls generalizing m with
  | nil => exact ⟨trivial, rfl⟩
  | cons c cs ih =>
      obtain ⟨hsucceed, hrun⟩ := Call.run_effect m c
      obtain ⟨hsucceed', hrun'⟩ := ih (c.after m)
      refine ⟨hsucceed.append (hrun ▸ hsucceed'), ?_⟩
      rw [Call.effects, Call.run_append, hrun, hrun']
      rfl

/-- Where no call fails halfway, the effects are those of the calls that succeed. -/
theorem Call.NoneHalfway.effects_sublist {calls : List (Call α)}
    (h : Call.NoneHalfway m calls) : (Call.effects m calls).Sublist calls := by
  induction calls generalizing m with
  | nil => exact List.Sublist.slnil
  | cons c cs ih =>
      obtain ⟨hstarts, hrest⟩ := h
      have htail := ih hrest
      rw [Call.effects, Call.effect]
      cases hresult : c.result m with
      | ok => exact htail.cons_cons c
      | error e =>
          rw [Call.stranded_eq_nil_iff.2 (hstarts e hresult)]
          exact htail.cons c

/-- **What failed calls do to a model.**  A call that fails changes nothing but the rows, to which
it adds what it leaves stranded, and it leaves the model as it was if and only if it did not start
to append rows.  Any calls, failed or not, lead to the same model as calls that all succeed, in
which the stranded rows of failed calls are added one by one; and where no call fails halfway, these
are some of the calls themselves. -/
theorem run_failures (m : Model α) :
    (∀ (c : Call α) (e : Error α), c.result m = .error e →
      c.after m = { m with rows := m.rows ++ c.stranded m } ∧ (c.after m = m ↔ ¬ c.Starts m)) ∧
    ∀ calls : List (Call α),
      (Call.AllSucceed m (Call.effects m calls) ∧
        Call.run m (Call.effects m calls) = Call.run m calls) ∧
      (Call.NoneHalfway m calls → (Call.effects m calls).Sublist calls) :=
  ⟨fun _ _ h => ⟨Call.after_of_error h, Call.after_eq_self_iff h⟩,
    fun calls => ⟨Call.run_effects m calls, Call.NoneHalfway.effects_sublist⟩⟩

/-- Minimize `x` subject to `0 ≤ x ≤ 1`. -/
def intervalModel : Model ℚ := Call.run (empty engineInfinity) [.addVariables [1] [0] [1]]

/-- Two rows, of which the second mentions a variable that does not exist.  The first leaves no
point of the interval. -/
def halfwayCall : Call ℚ := .addRows [([0], [1]), ([1], [1])] .lessEqual [-1, 3]

/-- A kind for a variable that does not exist, the two rows, and the second row with another
variable. -/
def retriedCalls : List (Call ℚ) :=
  [.setKind 1 .integer, halfwayCall, .addRows [([0], [1])] .lessEqual [3]]

/-- The first call leaves nothing behind, and the second its first row. -/
theorem run_failures_retried :
    (Call.setKind 1 .integer).after intervalModel = intervalModel ∧
    halfwayCall.after intervalModel =
      { intervalModel with rows := [⟨[0], [1], .lessEqual, -1⟩] } ∧
    Call.effects intervalModel retriedCalls =
      [.addRows [([0], [1])] .lessEqual [-1], .addRows [([0], [1])] .lessEqual [3]] ∧
    Call.run intervalModel (Call.effects intervalModel retriedCalls) =
      Call.run intervalModel retriedCalls := by
  obtain ⟨hfailed, hcalls⟩ := run_failures intervalModel
  obtain ⟨hafter, -⟩ := hfailed halfwayCall (.invalidProblem (.columnRange 1 1)) rfl
  refine ⟨?_, hafter, rfl, (hcalls retriedCalls).1.2⟩
  exact (hfailed (.setKind 1 .integer) (.invalidProblem (.variableRange 1 1)) rfl).2.2 id

/-- The call with the two rows fails, and what is left is a problem without feasible points. -/
theorem after_halfwayCall :
    intervalModel.Reachable ∧
    halfwayCall.result intervalModel = .error (.invalidProblem (.columnRange 1 1)) ∧
    halfwayCall.after intervalModel ≠ intervalModel ∧
    intervalModel.Feasible [0] [1] [0] ∧
    ∀ x, ¬ (halfwayCall.after intervalModel).Feasible [0] [1] x := by
  refine ⟨.call (.addVariables [1] [0] [1]) (.empty engineInfinity), rfl, fun heq => ?_,
    ⟨rfl, fun r hr => (nomatch hr), ?_⟩, fun x hx => ?_⟩
  · have hrows := congrArg (fun m => m.rows.length) heq
    cases hrows
  · exact within_cons.2 ⟨fun _ => zero_le_one, fun _ => le_rfl, within_nil⟩
  -- the row asks for a number below the lower bound
  · have hrow : x.getD 0 0 ≤ -1 := by
      have hholds := hx.holds ⟨[0], [1], .lessEqual, -1⟩ (List.mem_singleton.2 rfl)
      simpa [Row.Holds, RowSense.Relates, Row.value] using hholds
    have hbound : 0 ≤ x.getD 0 0 := hx.within.lower_le 0 0 rfl (by decide +kernel)
    linarith

end QuadProg.Model
