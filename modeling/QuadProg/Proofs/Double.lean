import QuadProg.Proofs.Ordered

/-!
# Doubles are ordered

The comparisons of doubles are consistent.  A double is unpacked into its sign, exponent and
mantissa before it is compared, so this is shown in two steps:

* the unpacked numbers are ordered by the first part in which they differ, with sign, and there is
  one number that compares with nothing (`le_iff_rank`, `lt_iff_rank`);
* changing the sign changes it in the unpacked number as well (`unpack_neg`), although the number is
  packed and unpacked again in between.
-/

namespace QuadProg.Double

open Float.Model UnpackedFloat

/-! ### The order of unpacked numbers -/

/-- What is compared: the sign, the exponent and the mantissa, in this order. -/
def rank : UnpackedFloat → ℤ ×ₗ ℤ ×ₗ ℤ
  | .notANumber | .zero _ => 0
  | .infinity .negative => toLex (-2, 0)
  | .infinity .positive => toLex (2, 0)
  | .finite .negative m e _ => toLex (-1, toLex (-e, -m))
  | .finite .positive m e _ => toLex (1, toLex (e, m))

theorem compare_neg_int (x y : ℤ) : compare (-x) (-y) = (compare x y).swap := by
  rcases lt_trichotomy x y with h | rfl | h
  · rw [compare_lt_iff_lt.2 h, compare_gt_iff_gt.2 (neg_lt_neg h)]
    rfl
  · simp
  · rw [compare_gt_iff_gt.2 h, compare_lt_iff_lt.2 (neg_lt_neg h)]
    rfl

theorem compare_natCast (m n : ℕ) : compare (m : ℤ) n = compare m n := by
  rcases lt_trichotomy m n with h | rfl | h
  · rw [compare_lt_iff_lt.2 h, compare_lt_iff_lt.2 (Int.ofNat_lt.2 h)]
  · simp
  · rw [compare_gt_iff_gt.2 h, compare_gt_iff_gt.2 (Int.ofNat_lt.2 h)]

theorem compare_eq_rank {a b : UnpackedFloat} (ha : a ≠ .notANumber) (hb : b ≠ .notANumber) :
    a.compare b = some (compare (rank a) (rank b)) := by
  have hparts : ∀ s s' e e' m m' : ℤ,
      compare (toLex (s, toLex (e, m))) (toLex (s', toLex (e', m'))) =
        (compare s s').then ((compare e e').then (compare m m')) := fun _ _ _ _ _ _ => rfl
  rcases a with (_ | _) | _ | _ | ⟨_ | _, m, e, _⟩ <;>
    rcases b with (_ | _) | _ | _ | ⟨_ | _, m', e', _⟩
  case finite.negative.finite.negative =>
    rw [rank, rank, hparts, compare_neg_int, compare_neg_int, compare_neg_int, compare_natCast,
      ← Ordering.swap_then]
    rfl
  case finite.positive.finite.positive =>
    rw [rank, rank, hparts, compare_natCast]
    rfl
  -- numbers of different kinds or signs are told apart by the first part alone
  all_goals first | contradiction | rfl

theorem compare_eq_none_iff {a b : UnpackedFloat} :
    a.compare b = none ↔ a = .notANumber ∨ b = .notANumber := by
  constructor
  · intro h
    by_contra hne
    obtain ⟨ha, hb⟩ := not_or.1 hne
    rw [compare_eq_rank ha hb] at h
    cases h
  · rintro (rfl | rfl)
    · rfl
    · cases a <;> rfl

theorem lt_iff_rank {a b : UnpackedFloat} :
    a.lt b = true ↔ (a ≠ .notANumber ∧ b ≠ .notANumber) ∧ rank a < rank b := by
  by_cases h : a = .notANumber ∨ b = .notANumber
  · rw [UnpackedFloat.lt, compare_eq_none_iff.2 h]
    simp [← not_or, h]
  · obtain ⟨ha, hb⟩ := not_or.1 h
    rw [UnpackedFloat.lt, compare_eq_rank ha hb, ← compare_lt_iff_lt]
    simp [ha, hb]

theorem le_iff_rank {a b : UnpackedFloat} :
    a.le b = true ↔ (a ≠ .notANumber ∧ b ≠ .notANumber) ∧ rank a ≤ rank b := by
  by_cases h : a = .notANumber ∨ b = .notANumber
  · rw [UnpackedFloat.le, compare_eq_none_iff.2 h]
    simp [← not_or, h]
  · obtain ⟨ha, hb⟩ := not_or.1 h
    rw [UnpackedFloat.le, compare_eq_rank ha hb, ← compare_le_iff_le]
    simp [ha, hb, Ordering.isLE_iff_ne_gt]

theorem beq_iff_rank {a b : UnpackedFloat} :
    a.beq b = true ↔ (a ≠ .notANumber ∧ b ≠ .notANumber) ∧ rank a = rank b := by
  by_cases h : a = .notANumber ∨ b = .notANumber
  · rw [UnpackedFloat.beq, compare_eq_none_iff.2 h]
    simp [← not_or, h]
  · obtain ⟨ha, hb⟩ := not_or.1 h
    have horder : compare (rank a) (rank b) = .eq ↔ rank a = rank b := compare_eq_iff_eq
    rw [UnpackedFloat.beq, compare_eq_rank ha hb, ← horder]
    simp [ha, hb]

/-! ### Changing the sign -/

theorem rank_neg (a : UnpackedFloat) : rank a.neg = -rank a := by
  rcases a with (_ | _) | _ | _ | ⟨_ | _, m, e, _⟩
  case finite.negative =>
    show toLex (1, toLex (e, (m : ℤ))) = -toLex (-1, toLex (-e, -(m : ℤ)))
    simp [← toLex_neg]
  all_goals rfl

theorem neg_eq_notANumber_iff {a : UnpackedFloat} : a.neg = .notANumber ↔ a = .notANumber := by
  cases a <;> simp [UnpackedFloat.neg]

theorem valid_of_unpack {b : BitVec Format.binary64.numBits}
    (h : UnpackedFloat.unpack .binary64 b ≠ .notANumber) : Format.binary64.Valid b := by
  refine ⟨fun hexponent hmantissa => absurd ?_ h⟩
  unfold UnpackedFloat.unpack
  dsimp only
  rw [if_pos hexponent, if_neg hmantissa]

/-- With the other sign, the same bits stand for the negative number. -/
theorem unpack_flip (b : BitVec Format.binary64.numBits) :
    UnpackedFloat.unpack .binary64 (packComponents .binary64 (-(Sign.ofBitVec (unpackSign b)))
      (unpackExponent b) (unpackMantissa b)) = (UnpackedFloat.unpack .binary64 b).neg := by
  unfold UnpackedFloat.unpack
  simp only [unpackSign_packComponents, unpackExponent_packComponents,
    unpackMantissa_packComponents, Sign.ofBitVec_toBitVec]
  split_ifs <;> rfl

theorem unpack_neg (x : Float) : (-x).toModel.unpack = x.toModel.unpack.neg := by
  show UnpackedFloat.unpack .binary64 (UnpackedFloat.pack .binary64 x.toModel.unpack.neg) = _
  by_cases hnan : x.toModel.unpack = .notANumber
  · rw [hnan]
    exact unpack_packedNaN
  · have hflip : UnpackedFloat.unpack .binary64 _ = x.toModel.unpack.neg :=
      unpack_flip x.toModel.toBits.toBitVec
    have hvalid := valid_of_unpack (hflip ▸ mt neg_eq_notANumber_iff.1 hnan)
    rw [← hflip, pack_unpack_of_valid hvalid]

/-! ### The order of doubles -/

theorem lt_iff {x y : Float} : x < y ↔
    (x.toModel.unpack ≠ .notANumber ∧ y.toModel.unpack ≠ .notANumber) ∧
      rank x.toModel.unpack < rank y.toModel.unpack := by
  rw [← lt_iff_rank]
  exact decide_eq_true_iff

theorem le_iff {x y : Float} : x ≤ y ↔
    (x.toModel.unpack ≠ .notANumber ∧ y.toModel.unpack ≠ .notANumber) ∧
      rank x.toModel.unpack ≤ rank y.toModel.unpack := by
  rw [← le_iff_rank]
  exact decide_eq_true_iff

theorem beq_iff {x y : Float} : (x == y) = true ↔
    (x.toModel.unpack ≠ .notANumber ∧ y.toModel.unpack ≠ .notANumber) ∧
      rank x.toModel.unpack = rank y.toModel.unpack := by
  rw [← beq_iff_rank]
  rfl

/-- Zero compares with its negative as the same, and some doubles with nothing, but what compares as
the same is not told apart. -/
instance partialEquivBEq : PartialEquivBEq Float where
  symm h := by
    obtain ⟨⟨hx, hy⟩, heq⟩ := beq_iff.1 h
    exact beq_iff.2 ⟨⟨hy, hx⟩, heq.symm⟩
  trans hxy hyz := by
    obtain ⟨⟨hx, -⟩, heq⟩ := beq_iff.1 hxy
    obtain ⟨⟨-, hz⟩, heq'⟩ := beq_iff.1 hyz
    exact beq_iff.2 ⟨⟨hx, hz⟩, heq.trans heq'⟩

instance : Scalar.Comparable Float where
  pos_or_le_zero {x} h := by
    have hzero : (0 : Float).toModel.unpack ≠ .notANumber := by
      show UnpackedFloat.zero .positive ≠ .notANumber
      exact nofun
    have hx : x.toModel.unpack ≠ .notANumber := by
      intro hnan
      have hfinite : x.toModel.unpack.isFinite = true := h
      rw [hnan] at hfinite
      cases hfinite
    rcases lt_or_ge (rank (0 : Float).toModel.unpack) (rank x.toModel.unpack) with hlt | hle
    · exact .inl (lt_iff.2 ⟨⟨hzero, hx⟩, hlt⟩)
    · exact .inr (le_iff.2 ⟨⟨hx, hzero⟩, hle⟩)

instance : Scalar.Ordered Float where
  lt_of_le_of_lt {x y z} hxy hyz := by
    obtain ⟨⟨hx, -⟩, hle⟩ := le_iff.1 hxy
    obtain ⟨⟨-, hz⟩, hlt⟩ := lt_iff.1 hyz
    exact lt_iff.2 ⟨⟨hx, hz⟩, hle.trans_lt hlt⟩
  le_of_lt h := by
    obtain ⟨hnumbers, hlt⟩ := lt_iff.1 h
    exact le_iff.2 ⟨hnumbers, hlt.le⟩
  not_le_of_lt h hle := (lt_iff.1 h).2.not_ge (le_iff.1 hle).2
  self_le h := by
    obtain ⟨⟨hx, hy⟩, -⟩ := lt_iff.1 h
    exact ⟨le_iff.2 ⟨⟨hx, hx⟩, le_rfl⟩, le_iff.2 ⟨⟨hy, hy⟩, le_rfl⟩⟩
  le_neg {x y} h := by
    obtain ⟨⟨hx, hy⟩, hle⟩ := le_iff.1 h
    rw [unpack_neg, Ne, neg_eq_notANumber_iff] at hy
    rw [unpack_neg, rank_neg] at hle
    refine le_iff.2 ⟨⟨hy, ?_⟩, ?_⟩
    · rwa [unpack_neg, Ne, neg_eq_notANumber_iff]
    · rw [unpack_neg, rank_neg]
      exact le_neg.1 hle
  neg_lt_zero {x} h := by
    have hzero : (0 : Float).toModel.unpack = .zero .positive := rfl
    obtain ⟨⟨hzero', hx⟩, hlt⟩ := lt_iff.1 h
    refine lt_iff.2 ⟨⟨?_, hzero'⟩, ?_⟩
    · rwa [unpack_neg, Ne, neg_eq_notANumber_iff]
    · rw [unpack_neg, rank_neg]
      rw [hzero] at hlt ⊢
      exact neg_lt_zero.2 hlt
  zero_lt_one := by decide +kernel

end QuadProg.Double
