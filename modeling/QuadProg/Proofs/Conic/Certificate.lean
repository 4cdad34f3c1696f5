import QuadProg.Proofs.Conic.Stacking

/-!
# Certificates of optimality

A point of a convex problem is optimal if there are multipliers of its rows that balance the
gradient of the cost.  This is written down twice: for the conic form, with slacks and multipliers
in cones and only the upper triangle of `P` (`Conic.Certificate`), and for the problem
(`Problem.Certified`).  A certificate for the conic form of a continuous problem is one for the
problem once its multipliers are cut where the equations end (`Stacks.certified`), and every
certificate for the problem is of this kind (`Stacks.certificate`):

* the entries of the upper triangle stand for those below the diagonal, too
  (`Stacks.mirroredDot_eq`);
* the columns of the stacked matrix are those of the two matrices, one on top of the other
  (`Stacks.colDot_eq`);
* slacks and multipliers have no product below zero, so if all of them add up to zero then each is
  zero (`Certificate.complementary`).
-/

namespace QuadProg

variable {K : Type} [Field K]

/-! ### Stacked rows -/

/-- Row `j` of `U + Uᵀ - diag U` times the point `x`. -/
def Sparse.mirroredDot (u : Sparse K) (j : Nat) (x : List K) : K :=
  ∑ i ∈ Finset.range u.ncols,
    (u.entry j i + u.entry i j - if i = j then u.entry i j else 0) * x.getD i 0

theorem Conic.slack_iff {c : Conic K} {x s : List K} : c.Slack x s ↔
    s.length = c.b.length ∧ ∀ i < c.b.length, c.a.rowDot i x + s.getD i 0 = c.b.getD i 0 := by
  constructor
  · rintro ⟨hlength, hsum⟩
    refine ⟨hlength, fun i hi => ?_⟩
    have hs : i < s.length := hlength ▸ hi
    rw [List.getD_eq_getElem _ _ hs, List.getD_eq_getElem _ _ hi]
    exact hsum i _ _ (List.getElem?_eq_getElem hi) (List.getElem?_eq_getElem hs)
  · rintro ⟨hlength, hsum⟩
    refine ⟨hlength, fun i b v hb hv => ?_⟩
    have hi := (List.getElem?_eq_some_iff.1 hb).1
    have hrow := hsum i hi
    rwa [List.getD_eq_getElem?_getD, List.getD_eq_getElem?_getD, hb, hv] at hrow

section Stacked

variable {d : Problem K} {c : Conic K} {x z : List K}

/-- Of a symmetric matrix the upper triangle is enough. -/
theorem Conic.Stacks.mirroredDot_eq (hc : c.Stacks d) (hp : d.p.ncols = d.nVar)
    (hsymmetric : ∀ i j, d.p.entry i j = d.p.entry j i) {j : Nat} (hj : j < d.nVar) :
    c.p.mirroredDot j x = d.p.rowDot j x := by
  rw [Sparse.mirroredDot, Sparse.rowDot, hc.ncols_p, hp]
  refine Finset.sum_congr rfl fun i hi => ?_
  have hi : i < d.nVar := Finset.mem_range.1 hi
  rw [hc.entry_p j hj i hi, hc.entry_p i hi j hj, hsymmetric i j]
  congr 1
  rcases lt_trichotomy i j with hlt | rfl | hlt
  · rw [if_neg hlt.not_ge, if_pos hlt.le, if_neg hlt.ne, zero_add, sub_zero]
  · rw [if_pos le_rfl, if_pos rfl, add_sub_cancel_right]
  · rw [if_pos hlt.le, if_neg hlt.not_ge, if_neg hlt.ne', add_zero, sub_zero]

/-- A column of the stacked matrix is a column of the first and one of the second. -/
theorem Conic.Stacks.colDot_eq (hc : c.Stacks d) (hd : d.Consistent) {j : Nat} (hj : j < d.nVar) :
    c.a.colDot j z = d.a.colDot j (z.take d.nEq) + d.f.colDot j (z.drop d.nEq) := by
  obtain ⟨hnrows, hncols⟩ := hc.size_a
  have hequations : ∀ i ∈ Finset.range d.nEq, c.a.entry i j * z.getD i 0 =
      d.a.entry i j * (z.take d.nEq).getD i 0 := by
    intro i hi
    have hi : i < d.nEq := Finset.mem_range.1 hi
    rw [Sparse.entry_eq_of_rowDot (hncols.trans hd.a_size.2.1.symm) (hc.equation i hi)
      (hncols.symm ▸ hj)]
    simp [List.getD_eq_getElem?_getD, hi]
  have hinequalities : ∀ i ∈ Finset.range d.nIneq, c.a.entry (d.nEq + i) j * z.getD (d.nEq + i) 0 =
      d.f.entry i j * (z.drop d.nEq).getD i 0 := by
    intro i hi
    have hi : i < d.nIneq := Finset.mem_range.1 hi
    rw [Sparse.entry_eq_of_rowDot (hncols.trans hd.f_size.2.1.symm) (hc.inequality i hi)
      (hncols.symm ▸ hj)]
    simp [List.getD_eq_getElem?_getD, List.getElem?_drop]
  rw [Sparse.colDot, Sparse.colDot, Sparse.colDot, hnrows, hd.a_size.1, hd.f_size.1,
    Finset.sum_range_add, Finset.sum_congr rfl hequations, Finset.sum_congr rfl hinequalities]

theorem Conic.Stacks.length_b (hc : c.Stacks d) (hd : d.Consistent) :
    c.b.length = d.nEq + d.nIneq := by
  rw [hc.b_eq, List.length_append, hd.a_size.2.2, hd.f_size.2.2]

theorem Conic.Stacks.getD_b (hc : c.Stacks d) (hd : d.Consistent) :
    (∀ i < d.nEq, c.b.getD i 0 = d.b.getD i 0) ∧
      ∀ i < d.nIneq, c.b.getD (d.nEq + i) 0 = d.g.getD i 0 := by
  have hb : d.b.length = d.nEq := hd.a_size.2.2
  rw [hc.b_eq]
  refine ⟨fun i hi => List.getD_append _ _ _ _ (by omega), fun i hi => ?_⟩
  rw [List.getD_append_right _ _ _ _ (by omega), hb, Nat.add_sub_cancel_left]

/-- The slack of an equation is what it misses, and that of an inequality what it leaves. -/
theorem Conic.Stacks.slack_iff (hc : c.Stacks d) (hd : d.Consistent) {s : List K} :
    c.Slack x s ↔ s.length = d.nEq + d.nIneq ∧
      (∀ i < d.nEq, s.getD i 0 = d.b.getD i 0 - d.a.rowDot i x) ∧
      ∀ i < d.nIneq, s.getD (d.nEq + i) 0 = d.g.getD i 0 - d.f.rowDot i x := by
  obtain ⟨hb, hg⟩ := hc.getD_b hd
  rw [Conic.slack_iff, hc.length_b hd]
  refine and_congr_right fun _ => ⟨fun h => ⟨fun i hi => ?_, fun i hi => ?_⟩, ?_⟩
  · rw [← hb i hi, ← hc.equation i hi, ← h i (by omega), add_sub_cancel_left]
  · rw [← hg i hi, ← hc.inequality i hi, ← h (d.nEq + i) (by omega), add_sub_cancel_left]
  · rintro ⟨hequations, hinequalities⟩ i hi
    rcases lt_or_ge i d.nEq with hi' | hi'
    · rw [hc.equation i hi', hequations i hi', add_sub_cancel, hb i hi']
    · obtain ⟨k, rfl⟩ := Nat.exists_eq_add_of_le hi'
      have hk : k < d.nIneq := by omega
      rw [hc.inequality k hk, hinequalities k hk, add_sub_cancel, hg k hk]

/-- What is left of the rows at a feasible point. -/
def Problem.slacks (d : Problem K) (x : List K) : List K :=
  List.replicate d.nEq 0 ++ (List.range d.nIneq).map fun i => d.g.getD i 0 - d.f.rowDot i x

theorem Problem.getD_slacks (d : Problem K) (x : List K) :
    (∀ i < d.nEq, (d.slacks x).getD i 0 = 0) ∧
      ∀ i < d.nIneq, (d.slacks x).getD (d.nEq + i) 0 = d.g.getD i 0 - d.f.rowDot i x := by
  refine ⟨fun i hi => ?_, fun i hi => ?_⟩
  · rw [slacks, List.getD_append _ _ _ _ (by simpa using hi)]
    simp [hi]
  · rw [slacks, List.getD_append_right _ _ _ _ (by simp), List.length_replicate,
      Nat.add_sub_cancel_left]
    simp [hi]

end Stacked

variable [LinearOrder K] {d : Problem K} {c : Conic K} {x z : List K}

/-! ### Certificates for conic forms -/

/-- The multipliers that go with the slacks of a cone: any for zeros, and none below zero for
slacks that are not negative. -/
def Cone.Admits (k : Cone) (z : List K) : Prop :=
  match k with
  | .zero n => z.length = n
  | .nonneg n => z.length = n ∧ ∀ v ∈ z, 0 ≤ v

/-- The multipliers fall into parts, one after the other, with a part for each cone. -/
def InDual : List Cone → List K → Prop
  | [], z => z = []
  | k :: ks, z => k.Admits (z.take k.dim) ∧ InDual ks (z.drop k.dim)

/-- The point and the multipliers of the rows prove each other optimal. -/
structure Conic.Certificate (c : Conic K) (x z : List K) : Prop where
  length_x : x.length = c.q.length
  stationary : ∀ j < c.q.length, c.p.mirroredDot j x + c.q.getD j 0 + c.a.colDot j z = 0
  slack : ∃ s, c.Slack x s ∧ InProduct c.cones s ∧
    ∑ i ∈ Finset.range s.length, s.getD i 0 * z.getD i 0 = 0
  dual : InDual c.cones z

theorem inDual_zero {n : Nat} {ks : List Cone} {z : List K} :
    InDual ((if 0 < n then [.zero n] else []) ++ ks) z ↔ n ≤ z.length ∧ InDual ks (z.drop n) := by
  split_ifs with h
  · simp only [List.singleton_append, InDual, Cone.Admits, Cone.dim, List.length_take]
    grind
  · obtain rfl : n = 0 := by omega
    simp

theorem inDual_cones_iff :
    InDual c.cones z ↔ z.length = c.nEq + c.nIneq + c.nBound ∧ ∀ v ∈ z.drop c.nEq, 0 ≤ v := by
  -- what is left after the zeros is the same for slacks and multipliers
  have hnonneg : ∀ n (z : List K), InDual (if 0 < n then [.nonneg n] else []) z ↔
      z.length = n ∧ ∀ v ∈ z, 0 ≤ v := by
    intro n z
    rw [← inProduct_nonneg]
    split_ifs <;> rfl
  rw [Conic.cones, inDual_zero, hnonneg, List.length_drop]
  constructor
  · rintro ⟨hle, hlength, hz⟩
    exact ⟨by omega, hz⟩
  · rintro ⟨hlength, hz⟩
    exact ⟨by omega, by omega, hz⟩

theorem nonneg_of_drop {n : Nat} {s : List K} (h : ∀ v ∈ s.drop n, 0 ≤ v) {i : Nat} (hi : n ≤ i) :
    0 ≤ s.getD i 0 := by
  by_cases hlt : i < s.length
  · have hmem : s[i] ∈ s.drop n := by
      refine List.mem_of_getElem? (i := i - n) ?_
      rw [List.getElem?_drop, Nat.add_sub_cancel' hi]
      exact List.getElem?_eq_getElem hlt
    rw [List.getD_eq_getElem _ _ hlt]
    exact h _ hmem
  · rw [List.getD_eq_default _ _ (Nat.not_lt.1 hlt)]

/-- Slacks and multipliers have no product that is not zero. -/
theorem Conic.Certificate.complementary [IsStrictOrderedRing K] (h : c.Certificate x z) :
    ∃ s, c.Slack x s ∧ (∀ i < c.nEq, s.getD i 0 = 0) ∧ (∀ i, c.nEq ≤ i → 0 ≤ s.getD i 0) ∧
      ∀ i < s.length, s.getD i 0 * z.getD i 0 = 0 := by
  obtain ⟨s, hslack, hin, hsum⟩ := h.slack
  obtain ⟨hlength, hzero, hnonneg⟩ := inProduct_cones_iff.1 hin
  obtain ⟨-, hdual⟩ := inDual_cones_iff.1 h.dual
  have hequation : ∀ i < c.nEq, s.getD i 0 = 0 := by
    intro i hi
    have hlt : i < s.length := by omega
    have hmem : s[i] ∈ s.take c.nEq := by
      refine List.mem_of_getElem? (i := i) ?_
      rw [List.getElem?_take, if_pos hi]
      exact List.getElem?_eq_getElem hlt
    rw [List.getD_eq_getElem _ _ hlt, hzero _ hmem]
  refine ⟨s, hslack, hequation, fun i hi => nonneg_of_drop hnonneg hi, ?_⟩
  -- no product is below zero, so none can be above
  have hproduct : ∀ i ∈ Finset.range s.length, 0 ≤ s.getD i 0 * z.getD i 0 := by
    intro i _
    rcases lt_or_ge i c.nEq with hi | hi
    · rw [hequation i hi, zero_mul]
    · exact mul_nonneg (nonneg_of_drop hnonneg hi) (nonneg_of_drop hdual hi)
  have hall := (Finset.sum_eq_zero_iff_of_nonneg hproduct).1 hsum
  exact fun i hi => hall i (Finset.mem_range.2 hi)

/-! ### Certificates for problems -/

/-- The point is feasible for the problem without its integrality, and the multipliers `y` of the
equations and `w` of the inequalities prove it optimal. -/
structure Problem.Certified (d : Problem K) (x y w : List K) : Prop where
  length_eq : x.length = d.nVar ∧ y.length = d.nEq ∧ w.length = d.nIneq
  stationary : ∀ j < d.nVar,
    d.p.rowDot j x + d.q.getD j 0 + d.a.colDot j y + d.f.colDot j w = 0
  nonneg : ∀ v ∈ w, 0 ≤ v
  complementary : ∀ i < d.nIneq, w.getD i 0 * (d.g.getD i 0 - d.f.rowDot i x) = 0
  equations : ∀ i < d.nEq, d.a.rowDot i x = d.b.getD i 0
  inequalities : ∀ i < d.nIneq, d.f.rowDot i x ≤ d.g.getD i 0

/-! ### From one to the other -/

/-- **A certificate for the conic form of a problem is one for the problem.** -/
theorem Conic.Stacks.certified [IsStrictOrderedRing K] (hc : c.Stacks d) (hd : d.Consistent)
    (hsymmetric : ∀ i j, d.p.entry i j = d.p.entry j i) (h : c.Certificate x z) :
    d.Certified x (z.take d.nEq) (z.drop d.nEq) := by
  obtain ⟨hnEq, hnIneq, hnBound⟩ := hc.counts
  obtain ⟨hz, hdual⟩ := inDual_cones_iff.1 h.dual
  rw [hnEq] at hdual
  rw [hnEq, hnIneq, hnBound] at hz
  have hq : c.q.length = d.nVar := by rw [hc.q_eq, hd.q_length]
  obtain ⟨s, hslack, hzero, hnonneg, hproduct⟩ := h.complementary
  obtain ⟨hlength, hequation, hinequality⟩ := (hc.slack_iff hd).1 hslack
  exact {
    length_eq := ⟨h.length_x.trans hq, by simp [hz], by simp [hz]⟩
    stationary := fun j hj => by
      have hbalance := h.stationary j (hq ▸ hj)
      rwa [hc.mirroredDot_eq hd.p_size.2 hsymmetric hj, hc.q_eq, hc.colDot_eq hd hj,
        ← add_assoc] at hbalance
    nonneg := hdual
    complementary := fun i hi => by
      have hcomplementary := hproduct (d.nEq + i) (by omega)
      rw [hinequality i hi, mul_comm] at hcomplementary
      simpa [List.getD_eq_getElem?_getD, List.getElem?_drop] using hcomplementary
    equations := fun i hi => by
      have hmissing := hequation i hi
      rw [hzero i (hnEq ▸ hi)] at hmissing
      exact (sub_eq_zero.1 hmissing.symm).symm
    inequalities := fun i hi => by
      have hleft := hnonneg (d.nEq + i) (by omega)
      rw [hinequality i hi] at hleft
      exact sub_nonneg.1 hleft }

/-- **No certificate is lost**: one for the problem is one for its conic form. -/
theorem Conic.Stacks.certificate [IsStrictOrderedRing K] (hc : c.Stacks d) (hd : d.Consistent)
    (hsymmetric : ∀ i j, d.p.entry i j = d.p.entry j i) {y w : List K} (h : d.Certified x y w) :
    c.Certificate x (y ++ w) := by
  obtain ⟨hnEq, hnIneq, hnBound⟩ := hc.counts
  obtain ⟨hx, hy, hw⟩ := h.length_eq
  have hq : c.q.length = d.nVar := by rw [hc.q_eq, hd.q_length]
  have hlength : (d.slacks x).length = d.nEq + d.nIneq := by simp [Problem.slacks]
  obtain ⟨hequation, hinequality⟩ := d.getD_slacks x
  exact {
    length_x := hx.trans hq.symm
    stationary := fun j hj => by
      have hbalance := h.stationary j (hq ▸ hj)
      rw [hc.mirroredDot_eq hd.p_size.2 hsymmetric (hq ▸ hj), hc.q_eq, hc.colDot_eq hd (hq ▸ hj),
        ← hy, List.take_left, List.drop_left]
      rwa [add_assoc] at hbalance
    slack := by
      refine ⟨d.slacks x, (hc.slack_iff hd).2 ⟨hlength, fun i hi => ?_, hinequality⟩,
        inProduct_cones_iff.2 ⟨by omega, ?_, ?_⟩, Finset.sum_eq_zero ?_⟩
      · rw [hequation i hi, h.equations i hi, sub_self]
      · intro v hv
        rw [Problem.slacks, hnEq, List.take_left' (by simp)] at hv
        exact List.eq_of_mem_replicate hv
      · intro v hv
        rw [Problem.slacks, hnEq, List.drop_left' (by simp)] at hv
        obtain ⟨i, hi, rfl⟩ := List.mem_map.1 hv
        exact sub_nonneg.2 (h.inequalities i (List.mem_range.1 hi))
      -- no equation has a slack, and the multipliers of the others are complementary
      · intro i hi
        have hi := Finset.mem_range.1 hi
        rcases lt_or_ge i d.nEq with hi' | hi'
        · rw [hequation i hi', zero_mul]
        · obtain ⟨k, rfl⟩ := Nat.exists_eq_add_of_le hi'
          have hk : k < d.nIneq := by omega
          rw [hinequality k hk, List.getD_append_right _ _ _ _ (by omega), hy,
            Nat.add_sub_cancel_left, mul_comm]
          exact h.complementary k hk
    dual := by
      refine inDual_cones_iff.2 ⟨?_, ?_⟩
      · rw [List.length_append]
        omega
      · rw [hnEq, ← hy, List.drop_left]
        exact h.nonneg }

end QuadProg
