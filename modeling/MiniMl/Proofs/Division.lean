import MiniMl.Proofs.OperatorTable
/-!
# Division of integers

The quotient is computed on the magnitudes of the operands and gets its sign afterwards. What it is
can be said without magnitudes: it is the one integer that leaves a remainder smaller than the
divisor and never of the other sign than the dividend (`LeavesRemainder`). So a change of sign in
either operand is a change of sign in the quotient.
-/

namespace MiniMl

/-- Taking the divisor `q` times from the dividend leaves less than the divisor, and nothing beyond
zero. -/
def LeavesRemainder (x y q : Int) : Prop :=
  (x - q * y).natAbs < y.natAbs ∧ (x - q * y = 0 ∨ (x - q * y).sign = x.sign)

instance (x y q : Int) : Decidable (LeavesRemainder x y q) :=
  inferInstanceAs (Decidable (_ ∧ _))

private theorem truncatedQuotient_neg_left (x y : Int) :
    truncatedQuotient (-x) y = -truncatedQuotient x y := by
  rw [truncatedQuotient_eq_tdiv, truncatedQuotient_eq_tdiv, Int.neg_tdiv]

private theorem truncatedQuotient_neg_right (x y : Int) :
    truncatedQuotient x (-y) = -truncatedQuotient x y := by
  rw [truncatedQuotient_eq_tdiv, truncatedQuotient_eq_tdiv, Int.tdiv_neg]

theorem leavesRemainder_truncatedQuotient (x : Int) {y : Int} (hy : y ≠ 0) :
    LeavesRemainder x y (truncatedQuotient x y) := by
  have hremainder : x - truncatedQuotient x y * y = x.tmod y := by
    rw [truncatedQuotient_eq_tdiv, Int.tmod_def, Int.mul_comm]
  rw [LeavesRemainder, hremainder]
  constructor
  · rw [Int.natAbs_tmod]
    exact Nat.mod_lt _ (Int.natAbs_pos.mpr hy)
  · by_cases hdvd : y ∣ x
    · exact .inl (Int.tmod_eq_zero_of_dvd hdvd)
    · refine .inr ?_
      rw [Int.sign_tmod, if_neg hdvd]

-- One further down the remainder is as small, but it lies beyond zero.
example : LeavesRemainder 7 (-2) (-3) ∧ ¬ LeavesRemainder 7 (-2) (-4) := by decide

private theorem natAbs_sub_lt_of_sign {r r' x y : Int} (hr : r.natAbs < y.natAbs)
    (hr' : r'.natAbs < y.natAbs) (hsign : r = 0 ∨ r.sign = x.sign)
    (hsign' : r' = 0 ∨ r'.sign = x.sign) : (r - r').natAbs < y.natAbs := by
  have hside : 0 ≤ r ∧ 0 ≤ r' ∨ r ≤ 0 ∧ r' ≤ 0 := by
    rcases Int.lt_trichotomy x 0 with hx | rfl | hx
    · rw [Int.sign_eq_neg_one_of_neg hx, Int.sign_eq_neg_one_iff_neg] at hsign hsign'
      omega
    · rw [Int.sign_zero, Int.sign_eq_zero_iff_zero] at hsign hsign'
      omega
    · rw [Int.sign_eq_one_of_pos hx, Int.sign_eq_one_iff_pos] at hsign hsign'
      omega
  omega

/-- There is no other quotient: the difference of two of them times the divisor is a multiple of the
divisor, and too small to be one but zero. -/
theorem LeavesRemainder.unique {x y q q' : Int} (h : LeavesRemainder x y q)
    (h' : LeavesRemainder x y q') : q = q' := by
  obtain ⟨hlt, hsign⟩ := h
  obtain ⟨hlt', hsign'⟩ := h'
  have hy : y ≠ 0 := by
    rintro rfl
    exact absurd hlt (Nat.not_lt_zero _)
  have hdifference : x - q' * y - (x - q * y) = y * (q - q') := by
    rw [Int.mul_sub, Int.mul_comm y q, Int.mul_comm y q']
    omega
  have hsmall := natAbs_sub_lt_of_sign hlt' hlt hsign' hsign
  have hzero : y * (q - q') = 0 :=
    Int.eq_zero_of_dvd_of_natAbs_lt_natAbs (Int.dvd_mul_right y _) (hdifference ▸ hsmall)
  have := (Int.mul_eq_zero.mp hzero).resolve_left hy
  omega

/-- Division by anything but zero succeeds and truncates: the result is the only integer that leaves
a remainder smaller than the divisor with no other sign than the dividend's. Negating either operand
negates the result. -/
theorem int_division_truncates (x y : Int) (hy : y ≠ 0) :
    ∃ q, Arithmetic.div.onInts x y = .ok q
      ∧ (∀ p, LeavesRemainder x y p ↔ p = q)
      ∧ Arithmetic.div.onInts (-x) y = .ok (-q)
      ∧ Arithmetic.div.onInts x (-y) = .ok (-q) := by
  have hquotient := leavesRemainder_truncatedQuotient x hy
  refine ⟨truncatedQuotient x y, if_neg hy, fun p => ⟨fun hp => hp.unique hquotient, ?_⟩, ?_, ?_⟩
  · rintro rfl
    exact hquotient
  · rw [← truncatedQuotient_neg_left]
    exact if_neg hy
  · rw [← truncatedQuotient_neg_right]
    exact if_neg (Int.neg_ne_zero.mpr hy)

theorem int_division_truncates_seven :
    (-2 : Int) ≠ 0 ∧ Arithmetic.div.onInts 7 (-2) = .ok (-3)
      ∧ (∀ p, LeavesRemainder 7 (-2) p ↔ p = -3)
      ∧ Arithmetic.div.onInts (-7) (-2) = .ok 3 ∧ Arithmetic.div.onInts 7 2 = .ok 3 := by
  obtain ⟨q, hq, hunique, hleft, hright⟩ := int_division_truncates 7 (-2) (by decide)
  obtain rfl : -3 = q := Except.ok.inj (show Except.ok (-3) = Except.ok q from hq)
  exact ⟨by decide, hq, hunique, hleft, hright⟩

end MiniMl
