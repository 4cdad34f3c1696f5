import QuadProg.InteriorPoint.Scaled

/-!
# The linear systems of a step

Every step solves systems with the matrix

  `[P  Aᵀ; A  -H]`,

where `H` is diagonal and not negative.  The matrix is shifted by a little in the direction that
makes it quasidefinite, factored as `L D Lᵀ` without pivots, and the solution for the unshifted
matrix is recovered by refinement.
-/

namespace QuadProg.InteriorPoint

/-- A factorization `L D Lᵀ`; `lower` holds the rows of `L` below the diagonal of ones. -/
structure Factor where
  lower : Mat
  diag : Vec

/-- Pivots of the wrong sign or smaller than this are replaced. -/
def pivotFloor : Float := 1e-13

def pivotReplacement : Float := 2e-7

/-- Factors a symmetric matrix whose pivots should have the given signs. -/
def factor (k : Mat) (signs : Vec) : Factor :=
  k.size.fold (fun i _ f =>
    let ys : Vec := i.fold (fun j _ ys =>
      let row := f.lower.getD j #[]
      ys.push (k.coord i j - Vec.sumTo j fun l => row.coord l * ys.coord l)) #[]
    let row := Vec.ofFn i fun j => ys.coord j / f.diag.coord j
    let pivot := k.coord i i - Vec.sumTo i fun j => row.coord j * ys.coord j
    let sign := signs.coord i
    let pivot := if pivot * sign ≤ pivotFloor then pivotReplacement * sign else pivot
    ⟨f.lower.push row, f.diag.push pivot⟩) ⟨#[], #[]⟩

def Factor.solve (f : Factor) (b : Vec) : Vec :=
  let n := f.diag.size
  let forward : Vec := n.fold (fun i _ x =>
    let row := f.lower.getD i #[]
    x.push (b.coord i - Vec.sumTo i fun j => row.coord j * x.coord j)) #[]
  let middle := forward.dividedBy f.diag
  n.fold (fun k _ x =>
    let i := n - 1 - k
    let row := f.lower.getD i #[]
    let xi := x.coord i
    x.mapIdx fun j y => if j < i then y - row.coord j * xi else y) middle

/-- The matrix of a step, with a factorization of its shifted form. -/
structure Kkt where
  nVar : Nat
  matrix : Mat
  factored : Factor

/-- The matrix for the given diagonal `H`. -/
def Kkt.build (t : DenseProblem) (h : Vec) : Kkt :=
  let n := t.nVar
  let size := n + t.nRows
  let matrix := Mat.ofFn size size fun i j =>
    if i < n then if j < n then t.p.coord i j else t.a.coord (j - n) i
    else if j < n then t.a.coord (i - n) j
    else if i = j then -h.coord (i - n) else 0
  let signs := Vec.ofFn size fun i => if i < n then 1 else -1
  let largest := Vec.maxAbs (Vec.ofFn size fun i => matrix.coord i i)
  let shift := 1e-8 + 2.220446049250313e-16 * 2.220446049250313e-16 * largest
  let shifted := matrix.mapIdx fun i row =>
    row.mapIdx fun j x => if i = j then x + shift * signs.coord i else x
  ⟨n, matrix, factor shifted signs⟩

/-- Improves a solution `x` with error `e` and error norm `norm`, at most the given number of
times.  There is no result where the error is not finite. -/
def Kkt.refine (k : Kkt) (b : Vec) (enough : Float) : Nat → Vec → Vec → Float → Option Vec
  | 0, x, _, _ => some x
  | fuel + 1, x, e, norm =>
    if norm ≤ enough then some x
    else
      let y := Vec.combine 1 x 1 (k.factored.solve e)
      let e := Vec.combine 1 b (-1) (k.matrix.mulVec y)
      let next := e.maxAbs
      if !next.isFinite then none
      else if norm / next < 5 then some (if 1 < norm / next then y else x)
      else k.refine b enough fuel y e next

/-- Solves the system with the given two parts of the right-hand side. -/
def Kkt.solve (k : Kkt) (top bottom : Vec) : Option (Vec × Vec) := do
  let b := top ++ bottom
  let x := k.factored.solve b
  let e := Vec.combine 1 b (-1) (k.matrix.mulVec x)
  let norm := e.maxAbs
  if !norm.isFinite then none
  else
    let x ← k.refine b (1e-12 + 1e-13 * b.maxAbs) 10 x e norm
    return (x.extract 0 k.nVar, x.extract k.nVar x.size)

end QuadProg.InteriorPoint
