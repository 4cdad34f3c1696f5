import QuadProg.Proofs.Build.Translation
import QuadProg.Proofs.Model.Representation

/-!
# The blocks of the constraint matrix

The matrices of a problem are cut into rows, the rows become rows of a model, and the rows of the
model are put together to the matrix of the conic form, with a number of their own and column by
column again.  Whatever the arithmetic does, its upper rows store the same as the first matrix on
top of the second, zeros included (`top_assemble`):

```text
row of the problem      row of the conic form
equation i              i
inequality i            nEq + i
                        nEq + nIneq + …         the bounds of variables
```

No value is changed on the way, because a row has at most one of them at each place and nothing is
added up (`coefficients_of_blockRows`).
-/

namespace QuadProg.Problem

open Model

variable {α : Type} [Scalar α] [EngineDefaults α]

/-- A row that was cut from a matrix pairs a variable with what the matrix stores there. -/
theorem coefficients_of_blockRows {sense : RowSense} {a : Sparse α} (ha : a.WellFormed)
    {rhs : List α} (hrhs : rhs.length = a.nrows) {i : Nat} {r : Row α}
    (hr : (blockRows sense a rhs)[i]? = some r) (j : Nat) :
    r.coefficients j = (a.value? i j).toList := by
  have hi : i < rhs.length := length_blockRows hrhs ▸ (List.getElem?_eq_some_iff.1 hr).1
  have hrow := blockRows_of_rhs sense (hrhs ▸ hi) (List.getElem?_eq_getElem hi)
  obtain rfl := Option.some.inj (hrow.symm.trans hr)
  rw [Row.coefficients, List.zip_map', List.filter_map, List.map_map, ← ha.map_value_triplets,
    Sparse.filter_position]
  rfl

/-- Where a row that was cut from a matrix goes, the conic form stores what the matrix stores. -/
theorem value?_of_blockRows {m : Model α} {c : Conic α} (hc : m.Collects c) {sense : RowSense}
    {a : Sparse α} (ha : a.WellFormed) {rhs : List α} (hrhs : rhs.length = a.nrows) {i k : Nat}
    (hi : i < a.nrows) (hk : m.orderedRows[k]? = (blockRows sense a rhs)[i]?) (j : Nat) :
    c.a.value? k j = a.value? i j := by
  have hlength : i < (blockRows sense a rhs).length := by
    rw [length_blockRows hrhs, hrhs]
    exact hi
  have hrow := List.getElem?_eq_getElem hlength
  rw [hc.value k _ (hk.trans hrow), coefficients_of_blockRows ha hrhs hrow, Sparse.gather_toList]

section Assembled

variable {d : Problem α} {m : Model α} (hd : d.Consistent) (hrows : m.rows = d.modelRows)

include hrows

theorem orderedRows_eq :
    m.orderedRows = blockRows .equal d.a d.b ++ blockRows .lessEqual d.f d.g := by
  rw [orderedRows, hrows, (filter_modelRows d).1, (filter_modelRows d).2]

include hd

/-- The rows of a problem come first, and then those for the bounds. -/
theorem nrows_assemble (lower upper : List α) :
    (m.assemble lower upper).a.nrows =
      d.nEq + d.nIneq + (m.boundBlock lower upper).length := by
  obtain ⟨hap, -, hb⟩ := hd.a_size
  obtain ⟨hfp, -, hg⟩ := hd.f_size
  have hlength : (m.assemble lower upper).a.nrows = (m.conicRows lower upper).length := rfl
  rw [hlength, conicRows, rowsOf, rowsOf, hrows, (filter_modelRows d).1, (filter_modelRows d).2]
  simp only [List.length_append, List.length_map, length_blockRows (hb.trans hap.symm),
    length_blockRows (hg.trans hfp.symm), hb, hg]

/-- The upper rows of the constraint matrix are the first matrix of the problem and under it the
second. -/
theorem top_assemble (hm : m.Sound) (hcols : m.nVar = d.nVar) (ha : d.a.WellFormed)
    (hf : d.f.WellFormed) (lower upper : List α) :
    (m.assemble lower upper).a.top (d.nEq + d.nIneq) = d.a.stack d.f := by
  obtain ⟨hap, haq, hb⟩ := hd.a_size
  obtain ⟨hfp, hfq, hg⟩ := hd.f_size
  have hcollects := hm.collects lower upper
  have hequations : (blockRows .equal d.a d.b).length = d.nEq :=
    (length_blockRows (hb.trans hap.symm)).trans hb
  have hwidth : d.a.ncols = d.f.ncols := haq.trans hfq.symm
  have hsize : min (d.nEq + d.nIneq) (m.assemble lower upper).a.nrows = d.nEq + d.nIneq := by
    rw [nrows_assemble hd hrows]
    omega
  refine (hcollects.wellFormed.top _).ext (ha.stack hf hwidth) ?_ ?_ fun i j => ?_
  · rw [Sparse.top, Sparse.stack, hap, hfp]
    exact hsize
  · exact (hcollects.ncols.trans hcols).trans haq.symm
  rw [Sparse.value?_top, ha.value?_stack hf hwidth, hap]
  split_ifs with hi hequation hequation
  · have hplace : m.orderedRows[i]? = (blockRows .equal d.a d.b)[i]? := by
      rw [orderedRows_eq hrows, List.getElem?_append_left (by omega)]
    exact value?_of_blockRows hcollects ha (hb.trans hap.symm) (by omega) hplace j
  · have hplace : m.orderedRows[i]? = (blockRows .lessEqual d.f d.g)[i - d.nEq]? := by
      rw [orderedRows_eq hrows, List.getElem?_append_right (by omega), hequations]
    exact value?_of_blockRows hcollects hf (hg.trans hfp.symm) (by omega) hplace j
  · omega
  · exact (hf.value?_eq_none (by omega)).symm

end Assembled

/-- **Rows and columns agree.**  A matrix has as many rows as it says, each lists what the matrix
stores there with ascending columns, and together they give the matrix back.  So the matrix that
is assembled from the model of a problem, with any bounds, has the two matrices of the problem on
top. -/
theorem rows_agree {d : Problem α} (hcheck : d.check = .ok ()) (ha : d.a.WellFormed)
    (hf : d.f.WellFormed) {options : Options α}
    (hoptions : ∀ e ∈ options.entries, ∃ c c' : Controls α, c.set e.1 e.2 = .ok c')
    (verbose : Bool) :
    (∀ a : Sparse α, a.WellFormed → a.rowSlices.length = a.nrows ∧
      (∀ (i : Nat) (row : List Nat × List α), a.rowSlices[i]? = some row → a.IsRow i row) ∧
      Sparse.ofRows a.nrows a.ncols a.rowSlices = a) ∧
    ∃ m, d.toModel verbose options = .ok m ∧ ∀ lower upper,
      (m.assemble lower upper).a.top (d.nEq + d.nIneq) = d.a.stack d.f := by
  have hd := consistent_of_check hcheck
  refine ⟨fun a ha => ⟨a.length_rowSlices, fun i row h => ha.isRow_rowSlices h,
    ha.ofRows_rowSlices⟩, ?_⟩
  obtain ⟨p, c, hm⟩ := toModel_eq_ok hcheck ha hf hoptions verbose
  have hsound := (reachable_of_toModel hm).sound
  exact ⟨_, hm, top_assemble hd rfl hsound (length_modelColumns hd) ha hf⟩

/-- The first equation and the first inequality mention no variable, but a zero is stored in the
equation.  The variable in the middle is zero or one. -/
def striped : Problem ℚ where
  p := .zeros 3 3
  q := [1, 1, 1]
  a := ⟨2, 3, [[(1, 5)], [], [(0, 0), (1, 2)]]⟩
  b := [0, 1]
  f := ⟨2, 3, [[], [(1, -1)], [(1, 4)]]⟩
  g := [0, 1]
  nVar := 3
  nEq := 2
  nIneq := 2
  binary := [1]

/-- There are six rows more for the bounds, and the four on top are those of the problem. -/
theorem rows_agree_striped :
    striped.a.rowSlices = [([2], [0]), ([0, 2], [5, 2])] ∧
      striped.a.IsRow 1 ([0, 2], [5, 2]) ∧
      Sparse.ofRows 2 3 striped.a.rowSlices = striped.a ∧
      ∃ m, striped.toModel false ⟨[], by simp⟩ = .ok m ∧
        (m.assemble [0, 0, 0] [1, 1, 1]).a.top 4 =
          ⟨4, 3, [[(1, 5)], [(3, -1)], [(0, 0), (1, 2), (3, 4)]]⟩ := by
  have ha : striped.a.WellFormed := ⟨rfl, by decide +kernel, by decide +kernel⟩
  have hf : striped.f.WellFormed := ⟨rfl, by decide +kernel, by decide +kernel⟩
  have hoptions : ∀ e ∈ (⟨[], by simp⟩ : Options ℚ).entries, ∃ c c' : Controls ℚ,
      c.set e.1 e.2 = .ok c' := by simp
  obtain ⟨hrows, m, hm, htop⟩ := rows_agree (d := striped) rfl ha hf hoptions false
  obtain ⟨-, hisRow, hback⟩ := hrows striped.a ha
  exact ⟨by decide +kernel, hisRow 1 _ (by decide +kernel), hback, m, hm, htop _ _⟩

end QuadProg.Problem
