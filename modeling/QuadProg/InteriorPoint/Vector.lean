/-!
# Vectors and dense matrices of doubles

The iteration works on small dense data.  Vectors are arrays of doubles, matrices are arrays of
rows.  Entries beyond the end read as zero.
-/

namespace QuadProg.InteriorPoint

abbrev Vec := Array Float

/-- A matrix by rows. -/
abbrev Mat := Array Vec

namespace Vec

def coord (v : Vec) (i : Nat) : Float := v.getD i 0

def ofFn (n : Nat) (f : Nat → Float) : Vec := Array.ofFn (n := n) fun i => f i.val

def const (n : Nat) (x : Float) : Vec := Array.replicate n x

def sumTo (n : Nat) (f : Nat → Float) : Float := n.fold (fun i _ s => s + f i) 0

def dot (v w : Vec) : Float := sumTo (min v.size w.size) fun i => v.coord i * w.coord i

/-- `a v + b w`. -/
def combine (a : Float) (v : Vec) (b : Float) (w : Vec) : Vec :=
  Array.zipWith (fun x y => a * x + b * y) v w

def scale (a : Float) (v : Vec) : Vec := v.map (a * ·)

def times (v w : Vec) : Vec := Array.zipWith (· * ·) v w

def dividedBy (v w : Vec) : Vec := Array.zipWith (· / ·) v w

/-- The length of a vector. -/
def norm (v : Vec) : Float := Float.sqrt (v.dot v)

/-- The largest magnitude; no number where there is one that is none. -/
def maxAbs (v : Vec) : Float :=
  v.foldl (fun m x => if x.isNaN || m.isNaN then 0 / 0 else if m < x.abs then x.abs else m) 0

def mean (v : Vec) : Float := v.foldl (· + ·) 0 / v.size.toFloat

end Vec

/-- The larger of two numbers; where one is none, the other. -/
def maxNum (x y : Float) : Float :=
  if x.isNaN then y else if y.isNaN then x else if x < y then y else x

/-- The smaller of two numbers; where one is none, the other. -/
def minNum (x y : Float) : Float :=
  if x.isNaN then y else if y.isNaN then x else if y < x then y else x

/-- The nearest number between two limits. -/
def clip (low high x : Float) : Float := if x < low then low else if high < x then high else x

namespace Mat

def coord (m : Mat) (i j : Nat) : Float := Vec.coord (m.getD i #[]) j

def ofFn (rows cols : Nat) (f : Nat → Nat → Float) : Mat :=
  Array.ofFn (n := rows) fun i => Vec.ofFn cols (f i.val)

def mulVec (m : Mat) (v : Vec) : Vec := m.map (Vec.dot · v)

/-- A vector plus the matrix times a vector, summed up from the first. -/
def addMulVec (m : Mat) (v w : Vec) : Vec :=
  m.mapIdx fun i row => row.size.fold (fun j _ s => s + row.coord j * w.coord j) (v.coord i)

/-- The transpose times a vector, for a matrix with `cols` columns. -/
def mulTransposed (cols : Nat) (m : Mat) (v : Vec) : Vec :=
  Vec.ofFn cols fun j => Vec.sumTo (min m.size v.size) fun i => m.coord i j * v.coord i

/-- `vᵀ m w`. -/
def form (m : Mat) (v w : Vec) : Float := v.dot (m.mulVec w)

def colMaxAbs (cols : Nat) (m : Mat) : Vec :=
  Vec.ofFn cols fun j => Vec.maxAbs (m.map fun row => row.coord j)

def rowMaxAbs (m : Mat) : Vec := m.map Vec.maxAbs

/-- Row `i` and column `j` times `r i` and `c j`. -/
def scaleBy (m : Mat) (r c : Vec) : Mat := m.mapIdx fun i row => (row.times c).scale (r.coord i)

end Mat

end QuadProg.InteriorPoint
