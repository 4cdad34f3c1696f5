import QuadProg.Build
import QuadProg.Proofs.Exact
import QuadProg.Proofs.Outcome

/-!
# What edits do

An edit is given by its result and the model that it leaves behind (`Edit.apply`).  This file says
once for every edit what these are, for every model and all arguments; everything else that is
proved of models goes through these equations.

The one edit that can fail halfway is `addRows`.  It keeps the rows before the first one that
mentions a variable that does not exist (`leading`).
-/

namespace QuadProg

variable {α β : Type}

/-- The result of an edit and the model after it. -/
def Edit.apply (edit : Edit α β) (m : Model α) : Except (Error α) β × Model α := edit.run m

namespace Edit

@[simp] theorem apply_pure (b : β) (m : Model α) : apply (pure b) m = (.ok b, m) := rfl

theorem apply_get (m : Model α) : apply get m = (.ok m, m) := rfl

/-- Edits one after the other; the second happens only where the first did not fail. -/
theorem apply_bind {γ : Type} (first : Edit α β) (second : β → Edit α γ) (m : Model α) :
    apply (first >>= second) m =
      match apply first m with
      | (.ok b, m') => apply (second b) m'
      | (.error e, m') => (.error e, m') := by
  change ExceptT.bindCont second (apply first m).1 (apply first m).2 = _
  cases apply first m with
  | mk result m' => cases result <;> rfl

theorem apply_bind_of_ok {γ : Type} {first : Edit α β} {second : β → Edit α γ} {m m' : Model α}
    {b : β} (h : apply first m = (.ok b, m')) :
    apply (first >>= second) m = apply (second b) m' := by
  rw [apply_bind, h]

theorem apply_bind_eq_ok_iff {γ : Type} {first : Edit α β} {second : β → Edit α γ}
    {m m' : Model α} {c : γ} :
    apply (first >>= second) m = (.ok c, m') ↔
      ∃ b w, apply first m = (.ok b, w) ∧ apply (second b) w = (.ok c, m') :=
  run_bind_eq_ok

@[simp] theorem apply_forM_nil {γ : Type} (f : γ → Edit α Unit) (m : Model α) :
    apply (([] : List γ).forM f) m = (.ok (), m) := rfl

theorem apply_forM_cons {γ : Type} (f : γ → Edit α Unit) (c : γ) (cs : List γ) (m : Model α) :
    apply ((c :: cs).forM f) m =
      match apply (f c) m with
      | (.ok _, m') => apply (cs.forM f) m'
      | (.error e, m') => (.error e, m') := by
  change apply (f c >>= fun _ => cs.forM f) m = _
  rw [apply_bind]
  cases apply (f c) m with
  | mk result m' => cases result <;> rfl

end Edit

namespace Model

open Edit

@[simp] theorem nVar_rows (m : Model α) (rows : List (Row α)) :
    ({ m with rows } : Model α).nVar = m.nVar := rfl

/-- The columns that `addVariables` appends. -/
def freshColumns (costs lower upper : List α) : List (Column α) :=
  (costs.zip (lower.zip upper)).map fun c => ⟨c.1, c.2.1, c.2.2, .continuous⟩

theorem apply_addVariables (costs lower upper : List α) (m : Model α) :
    apply (addVariables costs lower upper) m =
      if lower.length ≠ costs.length ∨ upper.length ≠ costs.length then
        (.error (.invalidProblem (.boundCount costs.length lower.length upper.length)), m)
      else
        (.ok m.nVar, { m with columns := m.columns ++ freshColumns costs lower upper }) := by
  unfold addVariables
  split_ifs with h
  · rw [apply_bind]; rfl
  · rfl

theorem apply_setKind (index : Nat) (kind : VarKind) (m : Model α) :
    apply (setKind index kind) m =
      if index < m.nVar then
        (.ok (), { m with columns := m.columns.modify index fun c => { c with kind } })
      else (.error (.invalidProblem (.variableRange index m.nVar)), m) := by
  unfold setKind
  rw [apply_bind_of_ok (apply_get m)]
  split_ifs <;> rfl

/-- The columns after the variables with the given indices took a kind. -/
def markKind (kind : VarKind) (indices : List Nat) (columns : List (Column α)) :
    List (Column α) :=
  columns.mapIdx fun j c => if j ∈ indices then { c with kind } else c

@[simp] theorem length_markKind (kind : VarKind) (indices : List Nat)
    (columns : List (Column α)) : (markKind kind indices columns).length = columns.length := by
  simp [markKind]

theorem markKind_cons (kind : VarKind) (i : Nat) (indices : List Nat)
    (columns : List (Column α)) :
    markKind kind indices (columns.modify i fun c => { c with kind }) =
      markKind kind (i :: indices) columns := by
  apply List.ext_getElem
  · simp
  · intro j hj hj'
    simp only [markKind, List.getElem_mapIdx, List.getElem_modify, List.mem_cons]
    by_cases hi : i = j
    · simp [hi]
    · simp [hi, Ne.symm hi]

theorem apply_forM_setKind (kind : VarKind) {indices : List Nat} {m : Model α}
    (h : ∀ i ∈ indices, i < m.nVar) :
    apply (indices.forM (setKind · kind)) m =
      (.ok (), { m with columns := markKind kind indices m.columns }) := by
  induction indices generalizing m with
  | nil =>
      have hnone : markKind kind [] m.columns = m.columns := by
        apply List.ext_getElem
        · simp
        · simp [markKind]
      rw [apply_forM_nil, hnone]
  | cons i indices ih =>
      rw [apply_forM_cons, apply_setKind, if_pos (h i List.mem_cons_self)]
      have hrest := ih (m := { m with columns := m.columns.modify i fun c => { c with kind } })
        fun k hk => by simpa [nVar] using h k (List.mem_cons_of_mem _ hk)
      simp only [hrest, markKind_cons]

/-- The first variable of a row that does not exist. -/
def outside (n : Nat) (cols : List Nat) : Option Nat := cols.find? (n ≤ ·)

theorem apply_addRow (cols : List Nat) (vals : List α) (sense : RowSense) (rhs : α) (m : Model α) :
    apply (addRow cols vals sense rhs) m =
      match outside m.nVar cols with
      | some c => (.error (.invalidProblem (.columnRange c m.nVar)), m)
      | none => (.ok (), { m with rows := m.rows ++ [⟨cols, vals, sense, rhs⟩] }) := by
  unfold addRow outside
  rw [apply_bind_of_ok (apply_get m)]
  cases cols.find? (m.nVar ≤ ·) <;> rfl

/-- The rows that `addRows` appends for a list of rows with their right-hand sides. -/
def freshRows (sense : RowSense) (rs : List ((List Nat × List α) × α)) : List (Row α) :=
  rs.map fun r => ⟨r.1.1, r.1.2, sense, r.2⟩

/-- The rows before the first that mentions a variable that does not exist. -/
def leading (n : Nat) (rs : List ((List Nat × List α) × α)) : List ((List Nat × List α) × α) :=
  rs.takeWhile fun r => (outside n r.1.1).isNone

/-- Rows that exist in full are appended one by one, up to the first other one. -/
theorem apply_forM_addRow (sense : RowSense) (rs : List ((List Nat × List α) × α)) (m : Model α) :
    apply (rs.forM fun r => addRow r.1.1 r.1.2 sense r.2) m =
      ((rs.findSome? fun r => outside m.nVar r.1.1).elim (.ok ()) fun c =>
          .error (.invalidProblem (.columnRange c m.nVar)),
        { m with rows := m.rows ++ freshRows sense (leading m.nVar rs) }) := by
  induction rs generalizing m with
  | nil => simp [freshRows, leading]
  | cons r rs ih =>
      rw [apply_forM_cons, apply_addRow]
      cases hr : outside m.nVar r.1.1 with
      -- the bad row ends the loop, and nothing is appended any more
      | some c => simp [hr, freshRows, leading]
      | none =>
          simp only [ih, nVar_rows]
          simp [hr, freshRows, leading]

theorem apply_addRows (rows : List (List Nat × List α)) (sense : RowSense) (rhs : List α)
    (m : Model α) :
    apply (addRows rows sense rhs) m =
      if rows.length ≠ rhs.length then
        (.error (.invalidProblem (.rhsCount rows.length rhs.length)), m)
      else
        (((rows.zip rhs).findSome? fun r => outside m.nVar r.1.1).elim (.ok ()) fun c =>
            .error (.invalidProblem (.columnRange c m.nVar)),
          { m with rows := m.rows ++ freshRows sense (leading m.nVar (rows.zip rhs)) }) := by
  unfold addRows
  split_ifs with h
  · rw [apply_bind]; rfl
  · exact apply_forM_addRow sense (rows.zip rhs) m

theorem outside_eq_none {n : Nat} {cols : List Nat} (h : (outside n cols).isNone) :
    ∀ c ∈ cols, c < n := by
  intro c hc
  have := List.find?_eq_none.1 (Option.isNone_iff_eq_none.1 h) c hc
  simpa using this

theorem cols_lt_of_mem_freshRows {n : Nat} {sense : RowSense}
    {rs : List ((List Nat × List α) × α)} {r : Row α} (h : r ∈ freshRows sense (leading n rs)) :
    ∀ c ∈ r.cols, c < n := by
  obtain ⟨s, hs, rfl⟩ := List.mem_map.1 h
  have hnone := List.mem_takeWhile_imp (show s ∈ List.takeWhile _ rs from hs)
  exact outside_eq_none hnone

theorem leading_eq_self {n : Nat} {rs : List ((List Nat × List α) × α)}
    (h : ∀ r ∈ rs, outside n r.1.1 = none) : leading n rs = rs :=
  List.takeWhile_eq_self_iff.2 fun r hr => by simp [h r hr]

theorem apply_addRows_of_fits {rows : List (List Nat × List α)} {rhs : List α} {m : Model α}
    (hlength : rows.length = rhs.length) (hcols : ∀ r ∈ rows, ∀ c ∈ r.1, c < m.nVar)
    (sense : RowSense) :
    apply (addRows rows sense rhs) m =
      (.ok (), { m with rows := m.rows ++ freshRows sense (rows.zip rhs) }) := by
  have hnone : ∀ r ∈ rows.zip rhs, outside m.nVar r.1.1 = none := by
    intro r hr
    refine List.find?_eq_none.2 fun c hc => ?_
    have := hcols r.1 (List.of_mem_zip hr).1 c hc
    simpa using this
  rw [apply_addRows, if_neg (by simpa using hlength), leading_eq_self hnone,
    List.findSome?_eq_none_iff.2 hnone]
  rfl

/-- Rows are all added where adding them does not fail. -/
theorem eq_of_apply_addRows {rows : List (List Nat × List α)} {sense : RowSense} {rhs : List α}
    {m m' : Model α} (h : apply (addRows rows sense rhs) m = (.ok (), m')) :
    m' = { m with rows := m.rows ++ freshRows sense (rows.zip rhs) } := by
  rw [apply_addRows] at h
  split_ifs at h with hlength
  · cases h
  · obtain ⟨hresult, rfl⟩ := Prod.mk.inj h
    cases hfirst : (rows.zip rhs).findSome? (fun r => outside m.nVar r.1.1) with
    | none => rw [leading_eq_self (List.findSome?_eq_none_iff.1 hfirst)]
    | some c =>
        rw [hfirst] at hresult
        cases hresult

theorem apply_setQuadratic [Zero α] [BEq α] [Add α] (p : Sparse α) (m : Model α) :
    apply (setQuadratic p) m =
      if p.nrows ≠ m.nVar ∨ p.ncols ≠ m.nVar then
        (.error (.invalidProblem (.modelQuadraticSize p.nrows p.ncols m.nVar)), m)
      else (.ok (), { m with quadratic := some p.upperTriangle }) := by
  unfold setQuadratic
  rw [apply_bind_of_ok (apply_get m)]
  split_ifs with h
  · rw [apply_bind]; rfl
  · rfl

theorem apply_setControl [Scalar α] (name : String) (value : OptionValue α) (m : Model α) :
    apply (setControl name value) m =
      match m.controls.set name value with
      | .error e => (.error e, m)
      | .ok c => (.ok (), { m with controls := c }) := by
  unfold setControl
  rw [apply_bind_of_ok (apply_get m)]
  cases m.controls.set name value <;> rfl

end Model

end QuadProg
