import QuadProg.InteriorPoint.Kkt
import QuadProg.InteriorPoint.Progress

/-!
# The iteration

A predictor-corrector method on the homogeneous embedding.  Each iteration factors one matrix and
solves three systems with it: for the constant part of the right-hand side, for the step that aims
at the solution, and for the step that also keeps `s` and `z` away from zero.
-/

namespace QuadProg.InteriorPoint

/-- A direction, or the right-hand side that a direction is computed from. -/
abbrev Direction := Iterate

/-- Moves a vector into the positive numbers, well away from zero. -/
def intoCone (v : Vec) : Vec :=
  if v.isEmpty then v
  else
    let least := v.foldl minNum (1.0 / 0)
    let total := v.foldl (fun s x => if 0 < x then s + x else s) 0
    let target := maxNum 1 (total * 0.1 / v.size.toFloat)
    if least ≤ 0 then (v.map (· - least)).map (· + target)
    else if least < target then v.map (· + (target - least))
    else v

/-- Applies a function to the entries of a vector that have slacks, and puts a fixed number in
place of those of equations. -/
def onSlacks (t : DenseProblem) (fixed : Float) (f : Nat → Float) : Vec :=
  .ofFn t.nRows fun i => if i < t.nEq then fixed else f i

/-- The square roots of the quotients of slacks and multipliers. -/
def weights (t : DenseProblem) (v : Iterate) : Vec :=
  onSlacks t 0 fun i => Float.sqrt (v.s.coord i / v.z.coord i)

/-- The first iterate: the solution of the problem without signs, moved into the cone. -/
def start (t : DenseProblem) : Iterate :=
  let k := Kkt.build t (onSlacks t 0 fun _ => 1)
  let zeroX := Vec.const t.nVar 0
  let zeroZ := Vec.const t.nRows 0
  let solve (top bottom : Vec) := (k.solve top bottom).getD (top, bottom)
  let (x, z, s) :=
    if t.linear then
      let (x, minusS) := solve zeroX t.b
      let (_, z) := solve (t.q.scale (-1)) zeroZ
      (x, z, minusS.scale (-1))
    else
      let (x, z) := solve (t.q.scale (-1)) t.b
      (x, z, z.scale (-1))
  let tail (v : Vec) := intoCone (v.extract t.nEq v.size)
  { x
    z := z.extract 0 t.nEq ++ tail z
    s := Vec.const t.nEq 0 ++ tail s
    tau := 1
    kappa := 1 }

structure Systems where
  kkt : Kkt
  /-- The squares of the weights. -/
  h : Vec
  w : Vec
  /-- The solution for the constant right-hand side. -/
  x2 : Vec
  z2 : Vec

def Systems.build (t : DenseProblem) (v : Iterate) : Option Systems := do
  let w := weights t v
  let h := w.times w
  let kkt := Kkt.build t h
  let (x2, z2) ← kkt.solve (t.q.scale (-1)) t.b
  return ⟨kkt, h, w, x2, z2⟩

/-- The direction for a right-hand side, where `c` is the constant part of the slacks' equation. -/
def Systems.direction (k : Systems) (t : DenseProblem) (v : Iterate) (rhs : Direction) (c : Vec) :
    Option Direction := do
  let (x1, z1) ← k.kkt.solve rhs.x (Vec.combine 1 c (-1) rhs.z)
  let xi := v.x.scale (1 / v.tau)
  let num := rhs.tau - rhs.kappa / v.tau + t.q.dot x1 + t.b.dot z1 + 2 * t.p.form xi x1
  let offset := Vec.combine 1 xi (-1) k.x2
  let den := v.kappa / v.tau - t.q.dot k.x2 - t.b.dot k.z2 + (t.p.form offset offset -
    t.p.form k.x2 k.x2)
  let tau := num / den
  let z := Vec.combine 1 z1 tau k.z2
  return {
    x := Vec.combine 1 x1 tau k.x2
    z
    s := Vec.combine (-1) (k.h.times z) (-1) c
    tau
    kappa := -(rhs.kappa + v.kappa * tau) / v.tau }

/-- How far a vector can go in a direction, up to `most`, before an entry becomes negative. -/
def roomIn (v dv : Vec) (most : Float) : Float :=
  v.size.fold (fun i _ m => if dv.coord i < 0 then minNum m (-v.coord i / dv.coord i) else m) most

/-- How far an iterate can go in a direction, up to one. -/
def stepLength (t : DenseProblem) (v : Iterate) (dv : Direction) : Float :=
  let room (x dx : Float) (most : Float) := if dx < 0 then minNum most (-x / dx) else most
  let most := room v.tau dv.tau (room v.kappa dv.kappa 1)
  let slacks (u : Vec) := u.extract t.nEq u.size
  minNum (roomIn (slacks v.z) (slacks dv.z) most) (roomIn (slacks v.s) (slacks dv.s) most)

/-- The direction of one iteration, and the share of it that can be gone. -/
def Systems.step (k : Systems) (t : DenseProblem) (v : Iterate) (r : Residuals) (mu : Float)
    (first : Bool) : Option (Direction × Float) := do
  let squares := onSlacks t 0 fun i => v.s.coord i * v.z.coord i
  let affine ← k.direction t v
    ⟨r.rx, r.rz, squares, r.rtau, v.tau * v.kappa⟩ v.s
  let alpha := stepLength t v affine
  let sigma := (1 - alpha) * (1 - alpha) * (1 - alpha)
  let m := if first then alpha else 1
  let keep := 1 - sigma
  let shifted := onSlacks t 0 fun i =>
    let w := k.w.coord i
    squares.coord i + ((affine.s.coord i / w) * (w * (m * affine.z.coord i)) - sigma * mu)
  let rhs : Direction :=
    { x := r.rx.scale keep
      z := r.rz.scale keep
      s := shifted
      tau := keep * r.rtau
      kappa := -(sigma * mu) + m * affine.tau * affine.kappa + v.tau * v.kappa }
  let c := onSlacks t 0 fun i => shifted.coord i / v.z.coord i
  let direction ← k.direction t v rhs c
  return (direction, 0.99 * stepLength t v direction)

/-- An iterate some way along a direction. -/
def Iterate.advance (v : Iterate) (alpha : Float) (d : Direction) : Iterate :=
  { x := Vec.combine 1 v.x alpha d.x
    z := Vec.combine 1 v.z alpha d.z
    s := Vec.combine 1 v.s alpha d.s
    tau := v.tau + alpha * d.tau
    kappa := v.kappa + alpha * d.kappa }

/-- A scaled problem with what is needed to judge its iterates. -/
structure Run where
  problem : DenseProblem
  scaling : Scaling
  normQ : Float
  normB : Float
  tolerances : Tolerances
  /-- The time is over once the first iterate has been judged. -/
  timeOver : Bool

structure Finish where
  status : Termination
  iterate : Iterate
  progress : Progress
  iterations : Nat

/-- The verdict on an iterate, if the iteration ends there.  `before` is the progress one iterate
before. -/
def Run.judge (run : Run) (p : Progress) (before : Option Progress) (iteration : Nat)
    (lastAllowed : Bool) : Option Termination :=
  match p.verdict? run.tolerances .full with
  | some t => some t
  | none =>
    if 1 < iteration && before.any fun b => p.isStuck b run.tolerances then
      some .insufficientProgress
    else if lastAllowed then some .maxIterations
    else if run.timeOver then some .maxTime
    else none

/-- Iterates at most `remaining` times.  `previous` is the iterate before, with its progress. -/
def Run.iterate (run : Run) : Nat → Nat → Iterate → Option (Iterate × Progress) → Finish
  | remaining, iteration, v, previous =>
    let t := run.problem
    let r := Residuals.of t v
    let p := Progress.of run.scaling run.normQ run.normB v r
    let finish (status : Termination) : Finish := ⟨status, v, p, iteration⟩
    match run.judge p (previous.map (·.2)) iteration (remaining == 0), remaining with
    | some .insufficientProgress, _ =>
      match previous with
      | some (v, b) => ⟨.insufficientProgress, v,
          { p with gapAbs := b.gapAbs, gapRel := b.gapRel, resPrimal := b.resPrimal,
                   resDual := b.resDual }, iteration⟩
      | none => finish .insufficientProgress
    | some status, _ => finish status
    | none, 0 => finish .maxIterations
    | none, remaining + 1 =>
      let iteration := iteration + 1
      let finish (status : Termination) : Finish := ⟨status, v, p, iteration⟩
      let mu := (r.dotSz + v.tau * v.kappa) / (t.nNonneg + 1).toFloat
      match (do (← Systems.build t v).step t v r mu (iteration == 1)) with
      | none => finish .numericalError
      | some (direction, alpha) =>
        if alpha ≤ 1e-4 then finish .insufficientProgress
        else run.iterate remaining iteration (v.advance alpha direction) (some (v, p))

/-- Whether a status may still turn out to be a solution of reduced accuracy. -/
def mayBeAlmost : Termination → Bool
  | .numericalError | .insufficientProgress | .maxIterations | .maxTime => true
  | _ => false

/-- The final status: a run that ended early may have come close enough. -/
def Finish.settle (f : Finish) : Finish :=
  if mayBeAlmost f.status then
    { f with status := (f.progress.verdict? .reduced .almost).getD f.status }
  else f

end QuadProg.InteriorPoint
