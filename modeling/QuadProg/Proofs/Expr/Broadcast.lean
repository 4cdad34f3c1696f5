import QuadProg.Proofs.Expr.Mismatch

/-!
# Broadcasting does not depend on order or grouping

Two shapes are compared from the last dimension on.  A dimension of one gives way to any other, and
so does one that is missing; two other dimensions have to be equal.

```text
          0    1    n
     0    0    0    -         - : the operands do not fit
     1    0    1    n         (n stands for every number from 2 on)
     n    -    n    n
```

So one is the identity of `Shape.joinDim` and everything else fits itself alone.  This makes the
operation commutative, associative and idempotent, as far as it is defined: of three dimensions
either all that are not one are equal, and both groupings give this one, or they are not, and both
groupings fail.  The same goes for lists of dimensions, and for shapes with the scalar as identity.

A sum of several expressions has the common shape of its summands or none (`SumTree`).  What this is
can therefore be computed from the list of their shapes in any order (`Shape.common`).
-/

namespace QuadProg

/-! ### Laws -/

namespace Shape

theorem joinDim_self (n : Nat) : joinDim n n = some n := if_pos rfl

theorem joinDim_one (n : Nat) : joinDim n 1 = some n := by
  unfold joinDim
  split_ifs <;> simp_all

theorem one_joinDim (n : Nat) : joinDim 1 n = some n := by
  rw [joinDim_comm, joinDim_one]

theorem joinDim_of_ne_one {m n : Nat} (hm : m ≠ 1) (hn : n ≠ 1) :
    joinDim m n = if m = n then some n else none := by
  unfold joinDim
  rw [if_neg hm, if_neg hn]
  split_ifs with h
  · rw [h]
  · rfl

theorem joinDim_assoc (l m n : Nat) :
    (joinDim l m).bind (joinDim · n) = (joinDim m n).bind (joinDim l) := by
  rcases eq_or_ne l 1 with rfl | hl
  · cases h : joinDim m n <;> simp [one_joinDim, h]
  rcases eq_or_ne m 1 with rfl | hm
  · simp [one_joinDim, joinDim_one]
  rcases eq_or_ne n 1 with rfl | hn
  · cases h : joinDim l m <;> simp [joinDim_one, h]
  -- only equal dimensions are left to fit
  rw [joinDim_of_ne_one hl hm, joinDim_of_ne_one hm hn]
  by_cases hlm : l = m
  · subst hlm
    by_cases hln : l = n
    · subst hln; simp [joinDim_self]
    · simp [hln, joinDim_of_ne_one hl hn]
  · by_cases hmn : m = n
    · subst hmn
      simp [hlm, joinDim_of_ne_one hl hm]
    · simp [hlm, hmn]

theorem joinDims_nil (ns : List Nat) : joinDims ns [] = some ns := by
  cases ns <;> rfl

theorem joinDims_cons (m n : Nat) (ms ns : List Nat) :
    joinDims (m :: ms) (n :: ns) = Option.map₂ List.cons (joinDim m n) (joinDims ms ns) := by
  cases hd : joinDim m n <;> cases hds : joinDims ms ns <;> simp [joinDims, hd, hds]

theorem length_joinDims {ms ns ds : List Nat} (h : joinDims ms ns = some ds) :
    ds.length = max ms.length ns.length := by
  induction ms generalizing ns ds with
  | nil =>
      cases h
      simp
  | cons m ms ih =>
      cases ns with
      | nil =>
          cases h
          simp
      | cons n ns =>
          rw [joinDims_cons] at h
          obtain ⟨d, ds', -, hds, rfl⟩ := Option.map₂_eq_some_iff.1 h
          simp only [List.length_cons, ih hds, Nat.succ_max_succ]

theorem joinDims_self (ns : List Nat) : joinDims ns ns = some ns := by
  induction ns with
  | nil => rfl
  | cons n ns ih => rw [joinDims_cons, joinDim_self, ih, Option.map₂_some_some]

theorem joinDims_assoc (ls ms ns : List Nat) :
    (joinDims ls ms).bind (joinDims · ns) = (joinDims ms ns).bind (joinDims ls) := by
  induction ls generalizing ms ns with
  | nil => cases h : joinDims ms ns <;> simp [joinDims, h]
  | cons l ls ih =>
      cases ms with
      | nil => simp [joinDims]
      | cons m ms =>
          cases ns with
          | nil =>
              cases h : joinDims (l :: ls) (m :: ms) <;> simp [joinDims_nil, h]
          | cons n ns =>
              -- first dimensions and the rest are joined apart
              have hleft : (Option.map₂ List.cons (joinDim l m) (joinDims ls ms)).bind
                  (joinDims · (n :: ns)) = Option.map₂ List.cons ((joinDim l m).bind (joinDim · n))
                    ((joinDims ls ms).bind (joinDims · ns)) := by
                cases joinDim l m <;> cases joinDims ls ms <;> simp [joinDims_cons]
              have hright : (Option.map₂ List.cons (joinDim m n) (joinDims ms ns)).bind
                  (joinDims (l :: ls)) = Option.map₂ List.cons ((joinDim m n).bind (joinDim l))
                    ((joinDims ms ns).bind (joinDims ls)) := by
                cases joinDim m n <;> cases joinDims ms ns <;> simp [joinDims_cons]
              rw [joinDims_cons, joinDims_cons, hleft, hright, joinDim_assoc, ih]

/-- An operation has as many dimensions as the operand that has more. -/
theorem length_dims_of_broadcast {s t u : Shape} (h : s.broadcast t = some u) :
    u.dims.length = max s.dims.length t.dims.length := by
  obtain ⟨ds, hds, rfl⟩ := Option.map_eq_some_iff.1 h
  simpa using length_joinDims hds

theorem broadcast_self (s : Shape) : s.broadcast s = some s := by
  simp [broadcast, joinDims_self]

theorem broadcast_scalar (s : Shape) : s.broadcast scalar = some s := by
  simp [broadcast, scalar, joinDims_nil]

theorem scalar_broadcast (s : Shape) : scalar.broadcast s = some s := by
  rw [broadcast_comm, broadcast_scalar]

theorem broadcast_assoc (s t u : Shape) :
    (s.broadcast t).bind (·.broadcast u) = (t.broadcast u).bind s.broadcast := by
  have h := congrArg (Option.map fun ds => (⟨ds.reverse⟩ : Shape))
    (joinDims_assoc s.dims.reverse t.dims.reverse u.dims.reverse)
  simpa [broadcast, Option.bind_map, Option.map_bind, Function.comp_def] using h

/-! ### Several shapes -/

/-- The common shape of two shapes that may be missing already. -/
def join (s t : Option Shape) : Option Shape := s.bind fun s => t.bind s.broadcast

instance : Std.Commutative join where
  comm s t := by
    cases s <;> cases t <;> simp [join, broadcast_comm]

instance : Std.Associative join where
  assoc s t u := by
    cases s <;> cases t <;> cases u <;> simp [join, broadcast_assoc]

/-- The common shape of some shapes, if none is missing and they fit. -/
def common (ss : List (Option Shape)) : Option Shape := ss.foldr join (some scalar)

theorem scalar_join (s : Option Shape) : join (some scalar) s = s := by
  cases s <;> simp [join, scalar_broadcast]

theorem common_append (ss ts : List (Option Shape)) :
    common (ss ++ ts) = join (common ss) (common ts) := by
  induction ss with
  | nil => exact (scalar_join _).symm
  | cons s ss ih =>
      calc common (s :: ss ++ ts) = join s (common (ss ++ ts)) := rfl
        _ = join s (join (common ss) (common ts)) := by rw [ih]
        _ = join (join s (common ss)) (common ts) := (Std.Associative.assoc ..).symm

theorem common_perm {ss ts : List (Option Shape)} (h : ss.Perm ts) : common ss = common ts :=
  h.foldr_op_eq

end Shape

/-! ### Sums -/

/-- The order and the grouping in which expressions are added. -/
inductive SumTree (α : Type) where
  | summand (e : Expr α)
  | plus (a b : SumTree α)

namespace SumTree

variable {α : Type}

/-- What is added, from left to right. -/
def summands : SumTree α → List (Expr α)
  | summand e => [e]
  | plus a b => a.summands ++ b.summands

def toExpr : SumTree α → Expr α
  | summand e => e
  | plus a b => .add a.toExpr b.toExpr

end SumTree

namespace Expr

variable {α : Type}

/-- Both expressions have the same checked shape, or neither has one. -/
def AgreeInShape (a b : Expr α) : Prop :=
  (∃ s, a.checkedShape = .ok s ∧ b.checkedShape = .ok s) ∨
    ∃ e e', a.checkedShape = .error e ∧ b.checkedShape = .error e'

theorem agreeInShape_of_toOption {a b : Expr α}
    (h : a.checkedShape.toOption = b.checkedShape.toOption) : a.AgreeInShape b := by
  cases ha : a.checkedShape with
  | ok s =>
      rw [ha] at h
      exact .inl ⟨s, ha, eq_ok_of_toOption h.symm⟩
  | error e =>
      cases hb : b.checkedShape with
      | ok t => simp [ha, hb, Except.toOption] at h
      | error e' => exact .inr ⟨e, e', ha, hb⟩

theorem toOption_checkedShape_add (a b : Expr α) :
    (add a b).checkedShape.toOption =
      Shape.join a.checkedShape.toOption b.checkedShape.toOption := by
  have h := Combines.add a b
  cases ha : a.checkedShape with
  | error error =>
      rw [h.checkedShape_of_error_left ha]
      rfl
  | ok s =>
      cases hb : b.checkedShape with
      | error error =>
          rw [h.checkedShape_of_error_right ha hb]
          rfl
      | ok t =>
          rw [h.checkedShape_of_ok ha hb]
          change _ = s.broadcast t
          cases s.broadcast t <;> rfl

end Expr

namespace SumTree

variable {α : Type}

/-- A sum has the common shape of what is added, where there is one. -/
theorem toOption_checkedShape (t : SumTree α) :
    t.toExpr.checkedShape.toOption =
      Shape.common (t.summands.map fun e => e.checkedShape.toOption) := by
  induction t with
  | summand e => exact (Std.Commutative.comm ..).trans (Shape.scalar_join _) |>.symm
  | plus a b iha ihb =>
      rw [toExpr, Expr.toOption_checkedShape_add, iha, ihb, summands, List.map_append,
        Shape.common_append]

/-- **Broadcasting does not depend on order or grouping.**  Shapes of any number of dimensions have
a common shape or none however they are brought together, and so do sums of the same expressions. -/
theorem broadcast_regroups :
    (∀ s t : Shape, s.broadcast t = t.broadcast s) ∧
    (∀ s t u : Shape, (s.broadcast t).bind (·.broadcast u) = (t.broadcast u).bind s.broadcast) ∧
    (∀ s : Shape, s.broadcast s = some s) ∧
    (∀ s : Shape, Shape.scalar.broadcast s = some s ∧ s.broadcast .scalar = some s) ∧
    ∀ (es : List (Expr α)) (t u : SumTree α), t.summands.Perm es → u.summands.Perm es →
      t.toExpr.AgreeInShape u.toExpr := by
  refine ⟨Shape.broadcast_comm, Shape.broadcast_assoc, Shape.broadcast_self,
    fun s => ⟨s.scalar_broadcast, s.broadcast_scalar⟩, fun es t u ht hu => ?_⟩
  apply Expr.agreeInShape_of_toOption
  rw [t.toOption_checkedShape, u.toOption_checkedShape]
  exact Shape.common_perm ((ht.trans hu.symm).map _)

end SumTree

end QuadProg
