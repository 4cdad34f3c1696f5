import QuadProg.Proofs.Lists
import QuadProg.Proofs.Outcome
import QuadProg.Expr

/-!
# What expressions evaluate to

An expression is evaluated to an array of its shape.  The entries of an array are listed column
after column, so the first dimension runs fastest:

```text
place [m, n] [i, j] = i + m * j
```

An elementwise operation goes through the indices of the common shape.  An operand is read at the
index that stands for such an index in its own shape (`Shape.project`): the last dimensions belong
together, leading ones that the operand lacks are left out, and a dimension of one is read at its
only place.  `Tensor.read_zipWith` says that this never reads outside an operand.
-/

namespace QuadProg

namespace Shape

/-- Where an index stands in the list of entries. -/
def place : List Nat → List Nat → Nat
  | d :: ds, i :: is => i + d * place ds is
  | _, _ => 0

/-- All indices of an array with the given dimensions, in the order of their places. -/
def indices : List Nat → List (List Nat)
  | [] => [[]]
  | d :: ds => (indices ds).flatMap fun is => (List.range d).map (· :: is)

/-- The index of an operand with the given dimensions that an index of the result stands for. -/
def project (dims index : List Nat) : List Nat :=
  (List.zipWith (fun d i => if d = 1 then 0 else i) dims.reverse index.reverse).reverse

/-- The indices come in the order of their places, and there is one for every place. -/
theorem map_place_indices (dims : List Nat) :
    (indices dims).map (place dims) = List.range (dims.foldr (· * ·) 1) := by
  induction dims with
  | nil => rfl
  | cons d ds ih =>
      have hplaces : (indices (d :: ds)).map (place (d :: ds)) =
          ((indices ds).map (place ds)).flatMap fun p => (List.range d).map (· + d * p) := by
        simp only [indices, List.map_flatMap, List.flatMap_map, List.map_map]
        rfl
      rw [hplaces, ih, List.foldr_cons, range_mul]

theorem length_indices (dims : List Nat) :
    (indices dims).length = dims.foldr (· * ·) 1 := by
  simpa using congrArg List.length (map_place_indices dims)

theorem mem_indices {dims index : List Nat} :
    index ∈ indices dims ↔ List.Forall₂ (· < ·) index dims := by
  induction dims generalizing index with
  | nil => simp [indices]
  | cons d ds ih =>
      constructor
      · intro h
        obtain ⟨is, his, h⟩ := List.mem_flatMap.1 h
        obtain ⟨i, hi, rfl⟩ := List.mem_map.1 h
        exact .cons (List.mem_range.1 hi) (ih.1 his)
      · intro h
        obtain ⟨i, is, hi, his, rfl⟩ := List.forall₂_cons_right_iff.1 h
        exact List.mem_flatMap.2 ⟨is, ih.2 his, List.mem_map.2 ⟨i, List.mem_range.2 hi, rfl⟩⟩

theorem joinDim_comm (m n : Nat) : joinDim m n = joinDim n m := by
  unfold joinDim
  split_ifs <;> simp_all

theorem joinDims_comm (ms ns : List Nat) : joinDims ms ns = joinDims ns ms := by
  induction ms generalizing ns with
  | nil => cases ns <;> rfl
  | cons m ms ih =>
      cases ns with
      | nil => rfl
      | cons n ns => simp only [joinDims, ih ns, joinDim_comm m n]

theorem broadcast_comm (s t : Shape) : s.broadcast t = t.broadcast s := by
  rw [broadcast, broadcast, joinDims_comm]

theorem lt_of_joinDim {m n d i : Nat} (h : joinDim m n = some d) (hi : i < d) :
    (if m = 1 then 0 else i) < m := by
  unfold joinDim at h
  split_ifs at h with hmn hm hn
  all_goals
    obtain rfl := Option.some.inj h
    split_ifs <;> omega

theorem forall₂_of_joinDims {ms ns ds is : List Nat} (h : joinDims ms ns = some ds)
    (his : List.Forall₂ (· < ·) is ds) :
    List.Forall₂ (· < ·) (List.zipWith (fun d i => if d = 1 then 0 else i) ms is) ms := by
  induction ms generalizing ns ds is with
  | nil => exact .nil
  | cons m ms ih =>
      cases ns with
      | nil =>
          cases h
          obtain ⟨i, is, hi, hrest, rfl⟩ := List.forall₂_cons_right_iff.1 his
          have hself : joinDims ms [] = some ms := by cases ms <;> rfl
          exact .cons (lt_of_joinDim (if_pos rfl : joinDim m m = some m) hi) (ih hself hrest)
      | cons n ns =>
          simp only [joinDims, Option.bind_eq_bind, Option.bind_eq_some_iff, Option.pure_def,
            Option.some.injEq] at h
          obtain ⟨d, hd, ds', hds, rfl⟩ := h
          obtain ⟨i, is, hi, hrest, rfl⟩ := List.forall₂_cons_right_iff.1 his
          exact .cons (lt_of_joinDim hd hi) (ih hds hrest)

/-- An index of the common shape stands for an index of each operand. -/
theorem project_mem_indices {s t u : Shape} (h : s.broadcast t = some u) {index : List Nat}
    (hindex : index ∈ indices u.dims) : project s.dims index ∈ indices s.dims := by
  obtain ⟨ds, hds, rfl⟩ := Option.map_eq_some_iff.1 h
  rw [mem_indices] at hindex ⊢
  have hreverse : List.Forall₂ (· < ·) index.reverse ds := by
    simpa using List.forall₂_reverse_iff.2 hindex
  simpa [project] using List.forall₂_reverse_iff.2 (forall₂_of_joinDims hds hreverse)

end Shape

/-- An array of any number of dimensions, laid out in columns. -/
@[ext]
structure Tensor (α : Type) where
  shape : Shape
  entries : List α
  length_entries : entries.length = shape.size

namespace Tensor

variable {α β γ : Type}

def single (v : α) : Tensor α := ⟨.scalar, [v], rfl⟩

/-- The array of a shape with the given numbers at its indices. -/
def ofFn (s : Shape) (f : List Nat → α) : Tensor α :=
  ⟨s, (Shape.indices s.dims).map f, by rw [List.length_map, Shape.length_indices]; rfl⟩

/-- The number at an index. -/
def read [Zero α] (t : Tensor α) (index : List Nat) : α :=
  t.entries.getD (Shape.place t.shape.dims index) 0

def map (f : α → β) (t : Tensor α) : Tensor β :=
  ⟨t.shape, t.entries.map f, by rw [List.length_map, t.length_entries]⟩

/-- An elementwise operation.  Operands that do not fit make a scalar of their first entries. -/
def zipWith [Zero α] [Zero β] (f : α → β → γ) (a : Tensor α) (b : Tensor β) : Tensor γ :=
  ofFn ((a.shape.broadcast b.shape).getD .scalar) fun index =>
    f (a.read (Shape.project a.shape.dims index)) (b.read (Shape.project b.shape.dims index))

def sumSquares [Zero α] [Add α] [Mul α] (t : Tensor α) : α :=
  (t.entries.map fun v => v * v).sum

theorem read_ofFn [Zero α] {s : Shape} (f : List Nat → α) {index : List Nat}
    (h : index ∈ Shape.indices s.dims) : (ofFn s f).read index = f index := by
  obtain ⟨k, hk, rfl⟩ := List.mem_iff_getElem.1 h
  have hplace : Shape.place s.dims (Shape.indices s.dims)[k] = k := by
    have := congrArg (·[k]?) (Shape.map_place_indices s.dims)
    have hk' : k < s.dims.foldr (· * ·) 1 := by rwa [Shape.length_indices] at hk
    simpa [hk, hk'] using this
  simp [read, ofFn, hplace, hk]

/-- Where operands fit, their entries meet inside both of them. -/
theorem read_zipWith [Zero α] [Zero β] [Zero γ] (f : α → β → γ) {a : Tensor α} {b : Tensor β}
    {s : Shape} (h : a.shape.broadcast b.shape = some s) {index : List Nat}
    (hindex : index ∈ Shape.indices s.dims) :
    (zipWith f a b).read index =
        f (a.read (Shape.project a.shape.dims index)) (b.read (Shape.project b.shape.dims index)) ∧
      Shape.project a.shape.dims index ∈ Shape.indices a.shape.dims ∧
      Shape.project b.shape.dims index ∈ Shape.indices b.shape.dims := by
  refine ⟨?_, Shape.project_mem_indices h hindex,
    Shape.project_mem_indices ((Shape.broadcast_comm _ _).trans h) hindex⟩
  rw [zipWith, read_ofFn]
  rwa [h]

/-- A column and a row make a square, which is listed column after column. -/
example : zipWith (· + ·) (⟨⟨[2, 1]⟩, [1, 2], rfl⟩ : Tensor Nat) ⟨⟨[1, 2]⟩, [30, 50], rfl⟩ =
    ⟨⟨[2, 2]⟩, [31, 32, 51, 52], rfl⟩ := rfl

end Tensor

/-- The array that a value is. -/
def Value.toTensor {α : Type} (v : Value α) : Tensor α where
  shape := v.shape
  entries := v.entries
  length_entries := by
    rw [← v.size_eq_length]
    cases v <;> simp [size, shape, Shape.size, Shape.scalar, Shape.matrix]

/-- An array of its shape for every variable. -/
structure Valuation (α : Type) where
  tensor : Variable → Tensor α
  shape_tensor : ∀ v, (tensor v).shape = v.shape

/-- The valuation with another array for one variable. -/
def Valuation.set {α : Type} (ρ : Valuation α) (t : Variable)
    (x : { x : Tensor α // x.shape = t.shape }) : Valuation α where
  tensor := Function.update ρ.tensor t x
  shape_tensor v := by
    by_cases h : v = t
    · rw [h, Function.update_self, x.2]
    · rw [Function.update_of_ne h, ρ.shape_tensor]

namespace Expr

variable {α : Type}

/-- Two operands with checked shapes that fit. -/
theorem broadcast_of_checked {a b : Except (Error α) Shape} {s : Shape}
    (h : (do
      let t ← a
      let u ← b
      match t.broadcast u with
      | some v => return v
      | none => throw (.shapeMismatch t u) : Except (Error α) Shape) = .ok s) :
    ∃ t u, a = .ok t ∧ b = .ok u ∧ t.broadcast u = some s := by
  obtain ⟨t, ht, h⟩ := bind_eq_ok.1 h
  obtain ⟨u, hu, h⟩ := bind_eq_ok.1 h
  cases hfit : t.broadcast u with
  | none =>
      rw [hfit] at h
      cases h
  | some v =>
      rw [hfit] at h
      cases h
      exact ⟨t, u, ht, hu, hfit⟩

/-- An expression that has a checked shape has it as its shape. -/
theorem shape_of_checkedShape {e : Expr α} {s : Shape} (h : e.checkedShape = .ok s) :
    e.shape = s := by
  induction e generalizing s with
  | var v => exact Except.ok.inj h
  | const v => exact Except.ok.inj h
  | neg a ih => exact ih h
  | quadOverLin a b _ _ => exact Except.ok.inj h
  | add a b iha ihb =>
      obtain ⟨t, u, ha, hb, hfit⟩ := broadcast_of_checked h
      rw [shape, iha ha, ihb hb, hfit, Option.getD_some]
  | mul a b iha ihb =>
      obtain ⟨t, u, ha, hb, hfit⟩ := broadcast_of_checked h
      rw [shape, iha ha, ihb hb, hfit, Option.getD_some]

variable [Zero α] [Add α] [Neg α] [Mul α] [Div α]

/-- The array that an expression has under a valuation. -/
def eval (ρ : Valuation α) : Expr α → Tensor α
  | var v => ρ.tensor v
  | const v => v.toTensor
  | add a b => .zipWith (· + ·) (a.eval ρ) (b.eval ρ)
  | neg a => (a.eval ρ).map (- ·)
  | mul a b => .zipWith (· * ·) (a.eval ρ) (b.eval ρ)
  | quadOverLin a b => .single ((a.eval ρ).sumSquares / (b.eval ρ).read [])

/-- Evaluating gives an array of the shape that the expression says. -/
@[simp] theorem shape_eval (ρ : Valuation α) (e : Expr α) : (e.eval ρ).shape = e.shape := by
  induction e with
  | var v => exact ρ.shape_tensor v
  | const v => rfl
  | add a b iha ihb => simp [eval, shape, Tensor.zipWith, Tensor.ofFn, iha, ihb]
  | neg a ih => exact ih
  | mul a b iha ihb => simp [eval, shape, Tensor.zipWith, Tensor.ofFn, iha, ihb]
  | quadOverLin a b _ _ => rfl

end Expr

end QuadProg
