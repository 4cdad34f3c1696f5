import Mathlib
import QuadProg.Layout
import QuadProg.Proofs.Exact
import QuadProg.Proofs.Expr.Mismatch

/-!
# How many equations an equation stands for

An equation of two expressions stands for one scalar equation for each pair of their entries.  The
rows of a problem that belong to it are as many as `Equation.size` says.  This is right if and only
if both sides have arrays at all, which they have if and only if they have checked shapes
(`Expr.eval?_eq`).

`Equation.create` compares the shapes that are not checked.  So there are three cases:

| sides                      | shapes compared | equation                                      |
|----------------------------|-----------------|-----------------------------------------------|
| of different shapes        | differ          | refused                                       |
| of one shape, all fits     | agree           | as many scalar equations as it says           |
| of one shape, a misfit     | agree           | no scalar equations, and still a size         |

In the last case a scalar has taken the place of a common shape on the way to the top, and the first
mismatch of one side says where.
-/

namespace QuadProg

variable {α : Type}

/-! ### Arrays of expressions that fit -/

section Arrays

variable [Zero α] [Add α] [Neg α] [Mul α] [Div α]

/-- An elementwise operation on two arrays that fit. -/
def Tensor.zipWith? (f : α → α → α) (x y : Tensor α) : Option (Tensor α) :=
  (x.shape.broadcast y.shape).map fun _ => x.zipWith f y

namespace Expr

/-- The array that an expression has under a valuation, unless the operands of a sum or a product
do not fit.  An atom is a number whatever stands in it. -/
def eval? (ρ : Valuation α) : Expr α → Option (Tensor α)
  | var v => some (ρ.tensor v)
  | const v => some v.toTensor
  | neg a => (a.eval? ρ).map (·.map (- ·))
  | add a b => (a.eval? ρ).bind fun x => (b.eval? ρ).bind (x.zipWith? (· + ·))
  | mul a b => (a.eval? ρ).bind fun x => (b.eval? ρ).bind (x.zipWith? (· * ·))
  | quadOverLin a b => some ((quadOverLin a b).eval ρ)

/-- The two cases of a sum or a product: its operands have arrays and fit, or it has none. -/
theorem eval?_combine {n a b : Expr α} (h : Combines n a b) (f : α → α → α) {ρ : Valuation α}
    (heval : n.eval ρ = (a.eval ρ).zipWith f (b.eval ρ))
    (ha : a.eval? ρ = a.checkedShape.toOption.map fun _ => a.eval ρ)
    (hb : b.eval? ρ = b.checkedShape.toOption.map fun _ => b.eval ρ) :
    ((a.eval? ρ).bind fun x => (b.eval? ρ).bind (x.zipWith? f)) =
      n.checkedShape.toOption.map fun _ => n.eval ρ := by
  cases hca : a.checkedShape with
  | error error =>
      rw [ha, hca, h.checkedShape_of_error_left hca]
      rfl
  | ok s =>
      cases hcb : b.checkedShape with
      | error error =>
          rw [ha, hb, hca, hcb, h.checkedShape_of_error_right hca hcb]
          rfl
      | ok t =>
          rw [ha, hb, hca, hcb, h.checkedShape_of_ok hca hcb]
          change (a.eval ρ).zipWith? f (b.eval ρ) = _
          rw [Tensor.zipWith?, shape_eval, shape_eval, shape_of_checkedShape hca,
            shape_of_checkedShape hcb, heval]
          cases s.broadcast t <;> rfl

/-- An expression has an array if and only if it has a checked shape. -/
theorem eval?_eq (ρ : Valuation α) (e : Expr α) :
    e.eval? ρ = e.checkedShape.toOption.map fun _ => e.eval ρ := by
  induction e with
  | var v => rfl
  | const v => rfl
  | quadOverLin a b _ _ => rfl
  | add a b iha ihb => exact eval?_combine (.add a b) (· + ·) rfl iha ihb
  | mul a b iha ihb => exact eval?_combine (.mul a b) (· * ·) rfl iha ihb
  | neg a ih =>
      rw [eval?, ih, Option.map_map]
      rfl

theorem eval?_eq_some_iff {ρ : Valuation α} {e : Expr α} {x : Tensor α} :
    e.eval? ρ = some x ↔ e.checkedShape = .ok e.shape ∧ x = e.eval ρ := by
  rw [eval?_eq]
  cases h : e.checkedShape with
  | error error => simp [Except.toOption]
  | ok s => simp [Except.toOption, shape_of_checkedShape h, eq_comm]

end Expr

end Arrays

/-! ### Equations -/

namespace Equation

/-- Both sides have the shape of the equation as their checked shape. -/
structure WellShaped (c : Equation α) : Prop where
  lhs : c.lhs.checkedShape = .ok c.shape
  rhs : c.rhs.checkedShape = .ok c.shape

/-- An equation is made if and only if the shapes of its sides agree. -/
theorem run_create_eq_ok_iff {lhs rhs : Expr α} {s s' : Supply} {c : Equation α} :
    ExceptT.run (create lhs rhs) s = (.ok c, s') ↔
      lhs.shape = rhs.shape ∧ c = ⟨⟨s.next⟩, lhs, rhs⟩ ∧ s' = ⟨s.next + 1⟩ := by
  unfold create
  split_ifs with h
  · constructor
    · intro hrun
      cases hrun
      exact ⟨h, rfl, rfl⟩
    · rintro ⟨-, rfl, rfl⟩
      rfl
  · refine iff_of_false (fun hrun => ?_) fun hrun => h hrun.1
    cases hrun

theorem wellShaped_iff {c : Equation α} (h : c.lhs.shape = c.rhs.shape) :
    c.WellShaped ↔ ∀ n, c.lhs.Reaches n ∨ c.rhs.Reaches n → n.Fits := by
  have hsides : c.WellShaped ↔
      c.lhs.checkedShape = .ok c.lhs.shape ∧ c.rhs.checkedShape = .ok c.rhs.shape := by
    rw [← h]
    exact ⟨fun hc => ⟨hc.lhs, hc.rhs⟩, fun hc => ⟨hc.1, hc.2⟩⟩
  rw [hsides, Expr.checkedShape_eq_ok_iff, Expr.checkedShape_eq_ok_iff]
  exact ⟨fun hc n hn => hn.elim (hc.1 n) (hc.2 n), fun hc => ⟨fun n hn => hc n (.inl hn),
    fun n hn => hc n (.inr hn)⟩⟩

/-- If not everything fits, then one of the sides has a first mismatch. -/
theorem not_wellShaped_iff {c : Equation α} (h : c.lhs.shape = c.rhs.shape) :
    ¬ c.WellShaped ↔ ∃ n a b, c.lhs.FirstMismatch n a b ∨ c.rhs.FirstMismatch n a b := by
  rw [wellShaped_iff h]
  constructor
  · intro hmisfit
    rcases c.lhs.checkedShape_cases with ⟨-, hlhs⟩ | ⟨n, a, b, -, hm⟩
    · rcases c.rhs.checkedShape_cases with ⟨-, hrhs⟩ | ⟨n, a, b, -, hm⟩
      · exact absurd (fun n hn => hn.elim (Expr.forall_reaches_fits_iff.2 hlhs n)
          (Expr.forall_reaches_fits_iff.2 hrhs n)) hmisfit
      · exact ⟨n, a, b, .inr hm⟩
    · exact ⟨n, a, b, .inl hm⟩
  · rintro ⟨n, a, b, hm⟩ hfits
    rcases hm with hm | hm
    · exact hm.not_fits (hfits n (.inl (Expr.mem_combinations.1 hm.mem).1))
    · exact hm.not_fits (hfits n (.inr (Expr.mem_combinations.1 hm.mem).1))

section Scalars

variable [Zero α] [Add α] [Neg α] [Mul α] [Div α]

/-- Under every valuation the sides are arrays of one shape with `k` entries, so that there are `k`
pairs of numbers which have to be equal. -/
def StandsFor (c : Equation α) (k : Nat) : Prop :=
  ∀ ρ : Valuation α, ∃ x y, c.lhs.eval? ρ = some x ∧ c.rhs.eval? ρ = some y ∧
    x.shape = y.shape ∧ x.entries.length = k

/-- All variables are zero. -/
def zeroValuation : Valuation α where
  tensor v := ⟨v.shape, List.replicate v.shape.size 0, List.length_replicate⟩
  shape_tensor _ := rfl

/-- An equation stands for as many scalar equations as it says if its sides have checked shapes,
and for none otherwise. -/
theorem standsFor_iff {c : Equation α} {k : Nat} : c.StandsFor k ↔ c.WellShaped ∧ k = c.size := by
  constructor
  · intro h
    obtain ⟨x, y, hx, hy, hshape, hlength⟩ := h zeroValuation
    obtain ⟨hlhs, rfl⟩ := Expr.eval?_eq_some_iff.1 hx
    obtain ⟨hrhs, rfl⟩ := Expr.eval?_eq_some_iff.1 hy
    rw [Expr.shape_eval, Expr.shape_eval] at hshape
    refine ⟨⟨hlhs, ?_⟩, ?_⟩
    · rw [hrhs, shape, hshape]
    · rw [← hlength, Tensor.length_entries, Expr.shape_eval]
      rfl
  · rintro ⟨h, rfl⟩ ρ
    have hshape : c.rhs.shape = c.shape := Expr.shape_of_checkedShape h.rhs
    refine ⟨c.lhs.eval ρ, c.rhs.eval ρ, Expr.eval?_eq_some_iff.2 ⟨h.lhs, rfl⟩,
      Expr.eval?_eq_some_iff.2 ⟨?_, rfl⟩, ?_, ?_⟩
    · rw [h.rhs, hshape]
    · rw [Expr.shape_eval, Expr.shape_eval, hshape, shape]
    · rw [Tensor.length_entries, Expr.shape_eval]
      rfl

end Scalars

end Equation

/-- Every equation that is added gets as many rows as it says. -/
theorem Layout.exists_block_addEquations (l : Layout) {cs : List (Equation α)} {c : Equation α}
    (h : c ∈ cs) : ∃ b ∈ (l.addEquations cs).eqs, b.ident = c.ident ∧ b.size = c.size := by
  have hkeep : ∀ (cs : List (Equation α)) (l : Layout), ∀ b ∈ l.eqs,
      b ∈ (l.addEquations cs).eqs := by
    intro cs
    induction cs with
    | nil => exact fun l b hb => hb
    | cons d cs ih => exact fun l b hb => ih _ b (List.mem_append_left _ hb)
  induction cs generalizing l with
  | nil => cases h
  | cons d cs ih =>
      rcases List.mem_cons.1 h with rfl | h
      · exact ⟨_, hkeep cs _ _ (List.mem_append_right _ (List.mem_singleton_self _)), rfl, rfl⟩
      · exact ih _ h

namespace Equation

variable [Zero α] [Add α] [Neg α] [Mul α] [Div α]

/-- **What an equation that was made is worth.**  It is made whenever the shapes of its sides agree.
If the operands of all sums and products on both sides fit, then its shape is the checked shape of
both, and it stands for as many scalar equations as it says and as it gets rows in a layout.  If
some do not fit, then it stands for none, and one of its sides has a first mismatch. -/
theorem create_standsFor (lhs rhs : Expr α) (s : Supply) :
    ((∃ c s', ExceptT.run (create lhs rhs) s = (.ok c, s')) ↔ lhs.shape = rhs.shape) ∧
    ∀ c s', ExceptT.run (create lhs rhs) s = (.ok c, s') →
      (c.lhs = lhs ∧ c.rhs = rhs) ∧
      (c.WellShaped ↔ ∀ n, lhs.Reaches n ∨ rhs.Reaches n → n.Fits) ∧
      (¬ c.WellShaped ↔ ∃ n a b, lhs.FirstMismatch n a b ∨ rhs.FirstMismatch n a b) ∧
      (∀ k, c.StandsFor k ↔ c.WellShaped ∧ k = c.size) ∧
      ∀ (l : Layout) (cs : List (Equation α)), c ∈ cs →
        ∃ b ∈ (l.addEquations cs).eqs, b.ident = c.ident ∧ b.size = c.size := by
  constructor
  · constructor
    · rintro ⟨c, s', h⟩
      exact (run_create_eq_ok_iff.1 h).1
    · exact fun h => ⟨_, _, run_create_eq_ok_iff.2 ⟨h, rfl, rfl⟩⟩
  · intro c s' h
    obtain ⟨hshape, rfl, rfl⟩ := run_create_eq_ok_iff.1 h
    exact ⟨⟨rfl, rfl⟩, wellShaped_iff (c := ⟨⟨s.next⟩, lhs, rhs⟩) hshape,
      not_wellShaped_iff (c := ⟨⟨s.next⟩, lhs, rhs⟩) hshape, fun k => standsFor_iff,
      fun l cs => l.exists_block_addEquations⟩

/-- Three entries and four: a sum without a shape of its own. -/
def misfitSum : Expr ℚ := .add (.var ⟨⟨1⟩, .vector 3, none⟩) (.var ⟨⟨2⟩, .vector 4, none⟩)

/-- A scalar variable and a sum that does not fit make an equation.  It gets one row and stands for
no number of scalar equations. -/
theorem create_misfit :
    let x : Expr ℚ := .var ⟨⟨0⟩, .scalar, none⟩
    let c : Equation ℚ := ⟨⟨3⟩, x, misfitSum⟩
    ExceptT.run (create x misfitSum) ⟨3⟩ = (.ok c, ⟨4⟩) ∧ c.size = 1 ∧
      (Layout.addEquations {} [c]).nEq = 1 ∧
      misfitSum.checkedShape = .error (.shapeMismatch (.vector 3) (.vector 4)) ∧
      ¬ c.WellShaped ∧ ∀ k, ¬ c.StandsFor k := by
  have hmisfit : ¬ (⟨⟨3⟩, .var ⟨⟨0⟩, .scalar, none⟩, misfitSum⟩ : Equation ℚ).WellShaped :=
    fun h => nomatch h.rhs
  exact ⟨rfl, rfl, rfl, rfl, hmisfit, fun k hk => hmisfit (standsFor_iff.1 hk).1⟩

end Equation

end QuadProg
