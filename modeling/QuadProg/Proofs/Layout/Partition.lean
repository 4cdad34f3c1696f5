import QuadProg.Proofs.Layout.Cut

/-!
# Cutting loses nothing

A layout starts with the variables among some expressions and grows by operations in any order.
Every kind of block has an end of its own, which its operation moves and no other does:

| operation        | columns end at    | equations end at    | inequalities end at |
|------------------|-------------------|---------------------|---------------------|
| `var i shape`    | `+ shape.size`    |                     |                     |
| `equality i n`   |                   | `+ n`               |                     |
| `equations cs`   |                   | `+` all their sizes |                     |
| `inequality i n` |                   |                     | `+ n`               |
| `mixed flag`     |                   |                     |                     |

So the blocks of a layout that fits a problem tile the columns and rows of the problem
(`Layout.Partitions`), and a result with a number for each of them is cut into arrays that hold
every number once, in order (`Solution.Splits`).  Only under the layout of a mixed problem the
multipliers are not cut at all.

The ends are machine words.  Where the sizes add up to more than a word, a layout can fit a problem
that its blocks do not tile; see `Results.toSolution_unsplit`.
-/

namespace QuadProg

/-! ### Operations on layouts -/

namespace Layout

variable {α : Type}

/-- An operation that extends a layout or marks it as mixed. -/
inductive Op (α : Type) where
  | var (ident : Ident) (shape : Shape)
  | equality (ident : Ident) (size : Nat)
  | inequality (ident : Ident) (size : Nat)
  | equations (cs : List (Equation α))
  | mixed (flag : Bool)

def apply (l : Layout) : Op α → Layout
  | .var ident shape => l.addVar ident shape
  | .equality ident size => l.addEq ident size
  | .inequality ident size => l.addIneq ident size
  | .equations cs => l.addEquations cs
  | .mixed flag => { l with isMixed := flag }

/-- The layout of the variables among some expressions after some operations. -/
def build (es : List (Expr α)) (ops : List (Op α)) : Layout := ops.foldl apply (ofVars es)

theorem Built.apply {l : Layout} (h : l.Built) (op : Op α) : (l.apply op).Built := by
  cases op with
  | var ident shape => exact h.addVar ident shape
  | equality ident size => exact h.addEq ident size
  | inequality ident size => exact h.addIneq ident size
  | equations cs => exact h.addEquations cs
  | mixed flag => exact h.setMixed flag

theorem built_build (es : List (Expr α)) (ops : List (Op α)) : (build es ops).Built := by
  unfold build
  have hstart := built_ofVars es
  generalize ofVars es = l at hstart ⊢
  induction ops generalizing l with
  | nil => exact hstart
  | cons op ops ih => exact ih (l.apply op) (hstart.apply op)

/-- The blocks of every kind follow each other without gaps and end with the problem. -/
structure Partitions (l : Layout) (d : Problem α) : Prop where
  columns : Tiles 0 l.columns d.nVar
  equations : Tiles 0 l.eqs d.nEq
  inequalities : Tiles 0 l.ineqs d.nIneq

theorem Built.partitions {l : Layout} (h : l.Built) (hword : l.InWord) {d : Problem α}
    (hcheck : l.check d = .ok ()) : l.Partitions d := by
  obtain ⟨hvars, heqs, hineqs⟩ := h.tiles hword
  obtain ⟨hnVar, hnEq, hnIneq⟩ := counts_of_check hcheck
  exact ⟨hnVar ▸ hvars, hnEq ▸ heqs, hnIneq ▸ hineqs⟩

end Layout

/-! ### Results and what they are cut into -/

section Split

variable {α : Type}

/-- The result of a continuous model, with a solution at `x` and multipliers `y` and `w`. -/
def Results.Answers (r : Results α) (x y w : List α) : Prop :=
  ∃ s point, r.outcome = .ok s ∧ s.nodes = none ∧ s.status.status.hasSolution = true ∧
    s.point = some point ∧ point.x = x ∧ s.eqDuals = some y ∧ s.ineqDuals = some w

/-- These values and no others, each under its identity. -/
structure Assignment.Lists (a : Assignment α) (es : List (Ident × Value α)) : Prop where
  entries : a.entries = es
  get? : ∀ e ∈ es, a.get? e.1 = some e.2

theorem Assignment.lists_of_nodup {a : Assignment α} {es : List (Ident × Value α)}
    (h : a.entries = es) (hids : (es.map Prod.fst).Nodup) : a.Lists es := by
  subst h
  exact ⟨rfl, fun e he => Assignment.get?_of_mem hids he⟩

/-- Every variable has one array, of its shape, and so has every constraint, unless the layout is
that of a mixed problem.  The numbers of the arrays are those of `x`, `y` and `w`, in order. -/
structure Solution.Splits [One α] [Mul α] (sol : Solution α) (l : Layout) (x y w : List α) :
    Prop where
  primal : ∃ a xs, sol.primal = some a ∧ a.Lists xs ∧ Cuts (l.vars.map VarBlock.array) x xs
  dual : l.isMixed = false → ∃ a ys ws, sol.dual = some a ∧ a.Lists (ys ++ ws) ∧
    Cuts (l.eqs.map RowBlock.array) (y.map (· * Layout.dualSign)) ys ∧
    Cuts (l.ineqs.map RowBlock.array) (w.map (· * Layout.dualSign)) ws
  mixed : l.isMixed = true → sol.dual = none

end Split

namespace Results

variable {α : Type} [Scalar α]

theorem toSolution_of_answers {r : Results α} {x y w : List α} (h : r.Answers x y w)
    (l : Layout) : (r.toSolution l).primal = some (l.cutVars x) ∧
      (r.toSolution l).dual =
        if l.isMixed then none
        else some (Layout.cutRows l.ineqs w (Layout.cutRows l.eqs y {})) := by
  obtain ⟨s, point, houtcome, hnodes, hstatus, hpoint, rfl, heq, hineq⟩ := h
  rw [toSolution_of_point houtcome hpoint hstatus, hnodes]
  refine ⟨rfl, ?_⟩
  unfold duals
  rw [Option.isSome_none, Bool.or_false, heq, hineq]
  cases l.isMixed <;> rfl

/-- **Cutting loses, doubles and moves nothing.**  However a layout was built, if its sizes add up
to a machine word, its identities are distinct and it fits a problem, its blocks tile the columns
and rows of the problem, and every result with a number for each of them is split into the arrays of
the blocks. -/
theorem toSolution_splits (es : List (Expr α)) (ops : List (Layout.Op α))
    (hword : (Layout.build es ops).InWord)
    (hvars : ((Layout.build es ops).vars.map (·.ident)).Nodup)
    (hrows : ((Layout.build es ops).eqs.map (·.ident) ++
      (Layout.build es ops).ineqs.map (·.ident)).Nodup)
    {d : Problem α} (hcheck : (Layout.build es ops).check d = .ok ()) :
    (Layout.build es ops).Partitions d ∧
      ∀ (r : Results α) (x y w : List α), r.Answers x y w → x.length = d.nVar →
        y.length = d.nEq → w.length = d.nIneq →
        (r.toSolution (Layout.build es ops)).Splits (Layout.build es ops) x y w := by
  have hbuilt := Layout.built_build es ops
  generalize Layout.build es ops = l at hword hvars hrows hcheck hbuilt ⊢
  refine ⟨hbuilt.partitions hword hcheck, ?_⟩
  intro r x y w hanswers hx hy hw
  obtain ⟨hnVar, hnEq, hnIneq⟩ := Layout.counts_of_check hcheck
  obtain ⟨hprimal, hdual⟩ := toSolution_of_answers hanswers l
  refine ⟨?_, ?_, ?_⟩
  · have hcuts := hbuilt.cuts_cutVars hword hvars (hx.trans hnVar.symm)
    refine ⟨_, _, hprimal, Assignment.lists_of_nodup rfl ?_, hcuts⟩
    rw [hcuts.idents, List.map_map]
    exact hvars
  · intro hmixed
    obtain ⟨ys, ws, hentries, hcutsEq, hcutsIneq⟩ :=
      hbuilt.cuts_cutRows hword hrows (hy.trans hnEq.symm) (hw.trans hnIneq.symm)
    refine ⟨_, ys, ws, hdual.trans (by rw [hmixed]; rfl),
      Assignment.lists_of_nodup hentries ?_, hcutsEq, hcutsIneq⟩
    rw [List.map_append, hcutsEq.idents, hcutsIneq.idents, List.map_map, List.map_map]
    exact hrows
  · intro hmixed
    rw [hdual, hmixed]
    rfl

/-- A scalar, a matrix and a variable without entries, among constraints of every size. -/
def variedOps : List (Layout.Op ℚ) :=
  [.equality ⟨10⟩ 1, .mixed true, .var ⟨1⟩ (.matrix 2 2), .inequality ⟨11⟩ 0,
    .var ⟨2⟩ (.vector 0), .equations [], .equality ⟨12⟩ 2, .inequality ⟨13⟩ 1, .mixed false]

def variedLayout : Layout := .build [.var ⟨⟨0⟩, .scalar, none⟩, .scalar 1] variedOps

/-- A problem without costs, with zeros everywhere, of the given size. -/
def zeroProblem (nVar nEq nIneq : Nat) : Problem ℚ where
  p := .zeros nVar nVar
  q := List.replicate nVar 0
  a := .zeros nEq nVar
  b := List.replicate nEq 0
  f := .zeros nIneq nVar
  g := List.replicate nIneq 0
  nVar := nVar
  nEq := nEq
  nIneq := nIneq

/-- The result of a continuous model that was solved. -/
def solvedResult (x y w : List ℚ) : Results ℚ :=
  ⟨.solved, .ok ⟨.continuous .solved, some ⟨x, 0⟩, some y, some w, 0, none, false⟩, none⟩

theorem solvedResult_answers (x y w : List ℚ) : (solvedResult x y w).Answers x y w :=
  ⟨_, _, rfl, rfl, rfl, rfl, rfl, rfl, rfl⟩

theorem variedLayout_inWord : variedLayout.InWord := ⟨by decide, by decide, by decide⟩

theorem toSolution_splits_varied : variedLayout.Partitions (zeroProblem 5 3 1) ∧
    ((solvedResult [1, 2, 3, 4, 5] [6, 7, 8] [9]).toSolution variedLayout).Splits variedLayout
      [1, 2, 3, 4, 5] [6, 7, 8] [9] := by
  obtain ⟨hpartitions, hsplits⟩ := toSolution_splits
    [.var ⟨⟨0⟩, .scalar, none⟩, .scalar 1] variedOps (d := zeroProblem 5 3 1) variedLayout_inWord
    (by decide) (by decide) rfl
  exact ⟨hpartitions, hsplits _ _ _ _ (solvedResult_answers ..) rfl rfl rfl⟩

/-- A layout that is marked as mixed at the end. -/
def markedLayout : Layout :=
  .build [.var ⟨⟨0⟩, .vector 2, none⟩]
    ([.equality ⟨1⟩ 2, .inequality ⟨2⟩ 1, .mixed true] : List (Layout.Op ℚ))

/-- The equations have two rows more than a machine word counts. -/
def wrappedLayout : Layout :=
  .build [.var ⟨⟨0⟩, .scalar, none⟩]
    ([.equality ⟨1⟩ (wordSize - 1), .equality ⟨2⟩ 3] : List (Layout.Op ℚ))

/-- Under a layout that is marked as mixed, the constraints of a continuous problem have no arrays.
And a layout that loses a word fits a problem that it does not tile, where its constraints have none
either. -/
theorem toSolution_unsplit :
    ((markedLayout.vars.map (·.ident)).Nodup ∧
      (markedLayout.eqs.map (·.ident) ++ markedLayout.ineqs.map (·.ident)).Nodup ∧
      markedLayout.check (zeroProblem 2 2 1) = .ok () ∧
      (solvedResult [3/2, 1/2] [-1/2, 2] [1/4]).Answers [3/2, 1/2] [-1/2, 2] [1/4] ∧
      ((solvedResult [3/2, 1/2] [-1/2, 2] [1/4]).toSolution markedLayout).dual = none ∧
      ((solvedResult [3/2, 1/2] [-1/2, 2] [1/4]).toSolution markedLayout).dual? ⟨1⟩ = none) ∧
    (wrappedLayout.vars.map (·.ident)).Nodup ∧
      (wrappedLayout.eqs.map (·.ident) ++ wrappedLayout.ineqs.map (·.ident)).Nodup ∧
      wrappedLayout.check (zeroProblem 1 2 0) = .ok () ∧
      ¬ wrappedLayout.Partitions (zeroProblem 1 2 0) ∧
      (solvedResult [3] [5, 7] []).Answers [3] [5, 7] [] ∧
      ((solvedResult [3] [5, 7] []).toSolution wrappedLayout).dual? ⟨1⟩ = none ∧
      ((solvedResult [3] [5, 7] []).toSolution wrappedLayout).dual? ⟨2⟩ = none := by
  refine ⟨⟨by decide, by decide, rfl, solvedResult_answers .., rfl, rfl⟩, by decide, by decide, rfl,
    fun hpartitions => ?_, solvedResult_answers .., rfl, rfl⟩
  have hend : 0 + (wordSize - 1) + 3 = 2 := hpartitions.equations.2.2
  exact absurd hend (by decide)

end Results

end QuadProg
