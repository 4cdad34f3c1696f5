import QuadProg.InteriorPoint.Scaled
import QuadProg.Settings
import QuadProg.Status

/-!
# Residuals and termination

An iterate of the homogeneous embedding has, besides `x`, `z` and `s`, the numbers `τ` and `κ`.
Where `κ / τ` tends to zero, `x / τ` and `z / τ` tend to a solution; where it grows beyond all
bounds, they tend to a proof that there is none.

Residuals and costs are measured in the units of the unscaled problem.  The one exception is the
residual of a proof that there is no solution, which keeps the cost factor of the scaled one; so
the more the cost was scaled up, the stricter the test.
-/

namespace QuadProg.InteriorPoint

structure Iterate where
  x : Vec
  z : Vec
  s : Vec
  tau : Float
  kappa : Float

/-- The residuals of an iterate, in the units of the scaled problem. -/
structure Residuals where
  rx : Vec
  rz : Vec
  rtau : Float
  /-- The part of `rx` that does not depend on the cost. -/
  rxInf : Vec
  /-- The part of `rz` that does not depend on the right-hand side. -/
  rzInf : Vec
  px : Vec
  dotQx : Float
  dotBz : Float
  dotSz : Float
  dotXPx : Float

def Residuals.of (t : DenseProblem) (v : Iterate) : Residuals :=
  let px := t.p.mulVec v.x
  let rxInf := (t.a.mulTransposed t.nVar v.z).scale (-1)
  let rzInf := t.a.addMulVec v.s v.x
  let dotQx := t.q.dot v.x
  let dotBz := t.b.dot v.z
  let dotXPx := v.x.dot px
  { rx := Vec.combine 1 rxInf 1 (Vec.combine (-1) px (-v.tau) t.q)
    rz := Vec.combine 1 rzInf (-v.tau) t.b
    rtau := dotQx + dotBz + v.kappa + dotXPx / v.tau
    rxInf, rzInf, px, dotQx, dotBz
    dotSz := v.s.dot v.z
    dotXPx }

/-- What termination looks at. -/
structure Progress where
  gapAbs : Float
  gapRel : Float
  resPrimal : Float
  resDual : Float
  /-- How far `z` is from a proof that there is no solution. -/
  resPrimalInf : Float
  /-- How far `x` is from a proof that the cost has no bound. -/
  resDualInf : Float
  ktRatio : Float
  dotQx : Float
  dotBz : Float

/-- The progress at an iterate.  `normQ` and `normB` are the largest magnitudes in the unscaled
cost and right-hand side. -/
def Progress.of (u : Scaling) (normQ normB : Float) (v : Iterate) (r : Residuals) : Progress :=
  let tauInv := 1 / v.tau
  let half := r.dotXPx * tauInv * tauInv / 2
  let costPrimal := (r.dotQx * tauInv + half) / u.c
  let costDual := (-r.dotBz * tauInv - half) / u.c
  let normX := (v.x.times u.d).norm
  let normZ := (v.z.times u.e).norm / u.c
  let normS := (v.s.dividedBy u.e).norm
  let resPrimalInf := (r.rxInf.dividedBy u.d).norm / maxNum 1 normZ
  let resDualInf := maxNum ((r.px.dividedBy u.d).norm / maxNum 1 normX)
    ((r.rzInf.dividedBy u.e).norm / maxNum 1 (normX + normS))
  let normX := normX * tauInv
  let normZ := normZ * tauInv
  let normS := normS * tauInv
  let gapAbs := (costPrimal - costDual).abs
  { gapAbs
    gapRel := gapAbs / maxNum 1 (minNum costPrimal.abs costDual.abs)
    resPrimal := (r.rz.dividedBy u.e).norm * tauInv / maxNum 1 (normB + normX + normS)
    resDual := (r.rx.dividedBy u.d).norm * tauInv / u.c / maxNum 1 (normQ + normX + normZ)
    resPrimalInf, resDualInf
    ktRatio := v.kappa * tauInv
    dotQx := r.dotQx / u.c
    dotBz := r.dotBz / u.c }

/-- The tolerances of one level of accuracy. -/
structure Tolerances where
  gapAbs : Float
  gapRel : Float
  feas : Float
  infeasAbs : Float
  infeasRel : Float
  ktRatio : Float

/-- The accuracy asked for. -/
def Tolerances.full (s : Settings Float) : Tolerances :=
  ⟨s.tolGapAbs, s.tolGapRel, s.tolFeas, s.tolInfeasAbs, s.tolInfeasRel, 1e-6⟩

/-- The accuracy that is still worth reporting. -/
def Tolerances.reduced : Tolerances := ⟨5e-5, 5e-5, 1e-4, 5e-12, 5e-5, 1e-4⟩

/-- The three verdicts at one level of accuracy. -/
structure Verdicts where
  solved : Termination
  primalInfeasible : Termination
  dualInfeasible : Termination

def Verdicts.full : Verdicts := ⟨.solved, .primalInfeasible, .dualInfeasible⟩

def Verdicts.almost : Verdicts := ⟨.almostSolved, .almostPrimalInfeasible, .almostDualInfeasible⟩

namespace Progress

def isSolved (p : Progress) (t : Tolerances) : Bool :=
  (p.gapAbs < t.gapAbs || p.gapRel < t.gapRel) && p.resPrimal < t.feas && p.resDual < t.feas

def isPrimalInfeasible (p : Progress) (t : Tolerances) : Bool :=
  p.dotBz < -t.infeasAbs && p.resPrimalInf < -t.infeasRel * p.dotBz

def isDualInfeasible (p : Progress) (t : Tolerances) : Bool :=
  p.dotQx < -t.infeasAbs && p.resDualInf < -t.infeasRel * p.dotQx

/-- The verdict at one level of accuracy, if there is one. -/
def verdict? (p : Progress) (t : Tolerances) (v : Verdicts) : Option Termination :=
  if p.ktRatio ≤ 1 && p.isSolved t then some v.solved
  else if 1 / t.ktRatio * 1000 < p.ktRatio then
    if p.isPrimalInfeasible t then some v.primalInfeasible
    else if p.isDualInfeasible t then some v.dualInfeasible
    else none
  else none

/-- Whether the iteration no longer gains anything over the progress before: a residual grew while
the gap is closed, or, on the way to a solution, it grew a hundredfold. -/
def isStuck (p before : Progress) (t : Tolerances) : Bool :=
  (before.resDual < p.resDual || before.resPrimal < p.resPrimal) &&
    ((p.ktRatio < 100 * 2.220446049250313e-16 &&
        (before.gapAbs < t.gapAbs || before.gapRel < t.gapRel)) ||
      (p.ktRatio < 1 &&
        ((t.feas < p.resDual && before.resDual * 100 < p.resDual) ||
          (t.feas < p.resPrimal && before.resPrimal * 100 < p.resPrimal))))

end Progress

end QuadProg.InteriorPoint
