import MiniMl.Proofs.Literals
import MiniMl.Term.Same
/-!
# Equality of numbers

Numbers are compared in three ways: integers as they are, floats as floats, and an integer with a
float by the exact value of the float. All three compare one thing, the `value` of a number, and a
NaN is the only number that may fail to be the same as itself (`Number.same_iff`). For floats this
rests on the form in which they are kept: no two of them but the zeros have the same finite value.
-/

namespace MiniMl

open Float.Model Float.Model.UnpackedFloat

/-- The value of a number. A finite one is given as a multiple of the least positive float. -/
inductive ExactValue where
  | units (n : Int)
  | infinity (sign : Sign)
  | notANumber

def ExactValue.ofUnpacked : UnpackedFloat → ExactValue
  | .zero _ => .units 0
  | .finite sign mantissa exponent _ =>
    .units (sign.apply (mantissa * Decimal.power 2 (exponent + 1074)))
  | .infinity sign => .infinity sign
  | .notANumber => .notANumber

namespace Number

def value : Number → ExactValue
  | .int n => .units (n * Decimal.power 2 1074)
  | .float x => .ofUnpacked x.toModel.unpack

def isNaN : Number → Bool
  | .int _ => false
  | .float x => x.isNaN

theorem isNaN_eq_true_iff {n : Number} : n.isNaN = true ↔ n.value = .notANumber := by
  cases n with
  | int n => exact iff_of_false Bool.false_ne_true (by rintro ⟨⟩)
  | float x =>
      show x.toModel.unpack.isNaN = true ↔ ExactValue.ofUnpacked x.toModel.unpack = .notANumber
      cases x.toModel.unpack with
      | notANumber => exact iff_of_true rfl rfl
      | _ => exact iff_of_false Bool.false_ne_true (by rintro ⟨⟩)

theorem units?_eq_some_iff {x : Float} {n : Int} :
    units? x = some n ↔ (Number.float x).value = .units n := by
  have hunits {m : Int} : some m = some n ↔ ExactValue.units m = .units n := by
    rw [Option.some.injEq, ExactValue.units.injEq]
  rw [units?, value]
  cases x.toModel.unpack with
  | zero sign => exact hunits
  | finite sign mantissa exponent hpos => exact hunits
  | infinity sign => exact iff_of_false (by rintro ⟨⟩) (by rintro ⟨⟩)
  | notANumber => exact iff_of_false (by rintro ⟨⟩) (by rintro ⟨⟩)

end Number

/-! ### The form of finite floats -/

private theorem power_pos (exponent : Int) : 0 < Decimal.power 2 exponent :=
  Nat.pow_pos (by decide)

/-- The mantissa is as large as it can be without reaching `2 ^ 53`, unless the exponent is the
least one. -/
structure Normalized (mantissa : Nat) (exponent : Int) : Prop where
  lt : mantissa < Decimal.power 2 53
  exponent_le : -1074 ≤ exponent
  le_or_least : Decimal.power 2 52 ≤ mantissa ∨ exponent = -1074

/-- The bit in front of the field of a mantissa. -/
private theorem toNat_one_append {width : Nat} (field : BitVec width) :
    (1#1 ++ field).toNat = Nat.pow 2 width + field.toNat := by
  rw [BitVec.toNat_append, ← Nat.shiftLeft_add_eq_or_of_lt field.isLt, Nat.shiftLeft_eq]
  exact congrArg (· + field.toNat) (Nat.one_mul _)

private theorem normalized_unpack {bits : BitVec 64} {sign : Sign} {mantissa : Nat} {exponent : Int}
    {hpos : 0 < mantissa}
    (h : UnpackedFloat.unpack .binary64 bits = .finite sign mantissa exponent hpos) :
    Normalized mantissa exponent := by
  have hfield : (@unpackMantissa .binary64 bits).toNat < Decimal.power 2 52 :=
    (@unpackMantissa .binary64 bits).isLt
  have hdouble : Decimal.power 2 53 = Decimal.power 2 52 + Decimal.power 2 52 := by decide
  have hbias : (Format.binary64.exponentBias : Int) + Format.binary64.mantissaBitsWithoutImplicit
      = 1075 := rfl
  by_cases hones : @unpackExponent .binary64 bits = -1#11
  · by_cases hmantissa : @unpackMantissa .binary64 bits = 0#52
    · cases ((if_pos hones).trans (if_pos hmantissa)).symm.trans h
    · cases ((if_pos hones).trans (if_neg hmantissa)).symm.trans h
  · by_cases hexponent : @unpackExponent .binary64 bits = 0#11
    · by_cases hmantissa : @unpackMantissa .binary64 bits = 0#52
      · cases ((if_neg hones).trans ((if_pos hexponent).trans (dif_pos hmantissa))).symm.trans h
      · cases ((if_neg hones).trans ((if_pos hexponent).trans (dif_neg hmantissa))).symm.trans h
        have hzero : (@unpackExponent .binary64 bits).toNat = 0 := congrArg BitVec.toNat hexponent
        exact ⟨by omega, by omega, .inr (by omega)⟩
    · cases ((if_neg hones).trans (if_neg hexponent)).symm.trans h
      have hsome : (@unpackExponent .binary64 bits).toNat ≠ 0 :=
        fun hzero => hexponent (BitVec.eq_of_toNat_eq hzero)
      have hmantissa : (1#1 ++ @unpackMantissa .binary64 bits).toNat
          = Decimal.power 2 52 + (@unpackMantissa .binary64 bits).toNat := toNat_one_append _
      exact ⟨by omega, by omega, .inl (by omega)⟩

/-- Finite unpacked floats are normalized. -/
def IsNormalized : UnpackedFloat → Prop
  | .finite _ mantissa exponent _ => Normalized mantissa exponent
  | .zero _ | .infinity _ | .notANumber => True

private theorem isNormalized_unpack (x : Float) : IsNormalized x.toModel.unpack := by
  cases h : x.toModel.unpack with
  | finite sign mantissa exponent hpos => exact normalized_unpack h
  | _ => trivial

/-- Of two equal products the one with the larger power has a smaller mantissa, which leaves room
for a bit and so belongs to the least exponent. -/
private theorem not_lt_of_mul_power_eq {mantissa mantissa' shift shift' : Nat}
    (hlt : mantissa < Decimal.power 2 53) (hform : Decimal.power 2 52 ≤ mantissa' ∨ shift' = 0)
    (h : mantissa * Nat.pow 2 shift = mantissa' * Nat.pow 2 shift') : ¬ shift < shift' := by
  intro hshift
  obtain ⟨more, rfl⟩ : ∃ more, shift' = shift + (more + 1) := ⟨shift' - shift - 1, by omega⟩
  have hmantissa : mantissa = mantissa' * (Nat.pow 2 more * 2) := by
    refine Nat.eq_of_mul_eq_mul_right (Nat.pow_pos (by decide) : 0 < Nat.pow 2 shift) (h.trans ?_)
    have hsplit : Nat.pow 2 (shift + (more + 1)) = Nat.pow 2 shift * Nat.pow 2 (more + 1) :=
      Nat.pow_add 2 shift (more + 1)
    rw [hsplit, Nat.mul_assoc, Nat.mul_comm (Nat.pow 2 shift)]
    rfl
  have hbig : Decimal.power 2 52 ≤ mantissa' := hform.resolve_right (by omega)
  have hroom : mantissa' * 2 ≤ mantissa := by
    rw [hmantissa]
    exact Nat.mul_le_mul_left _ (Nat.le_mul_of_pos_left 2 (Nat.pow_pos (by decide)))
  have hdouble : Decimal.power 2 53 = Decimal.power 2 52 * 2 := by decide
  omega

/-- A finite value has one normalized form. -/
theorem Normalized.unique {mantissa mantissa' : Nat} {exponent exponent' : Int}
    (h : Normalized mantissa exponent) (h' : Normalized mantissa' exponent')
    (heq : mantissa * Decimal.power 2 (exponent + 1074)
      = mantissa' * Decimal.power 2 (exponent' + 1074)) :
    mantissa = mantissa' ∧ exponent = exponent' := by
  have hle := h.exponent_le
  have hle' := h'.exponent_le
  have hnot := not_lt_of_mul_power_eq h.lt (h'.le_or_least.imp_right fun _ => by omega) heq
  have hnot' := not_lt_of_mul_power_eq h'.lt (h.le_or_least.imp_right fun _ => by omega) heq.symm
  obtain rfl : exponent = exponent' := by omega
  exact ⟨Nat.eq_of_mul_eq_mul_right (power_pos _) heq, rfl⟩

/-! ### Floats -/

private theorem unpacked_compare_self {a : UnpackedFloat} (h : a ≠ .notANumber) :
    a.compare a = some .eq := by
  cases a with
  | notANumber => exact absurd rfl h
  | zero sign => rfl
  | infinity sign => cases sign <;> rfl
  | finite sign mantissa exponent hpos =>
      have hparts : (compare exponent exponent).then (compare mantissa mantissa) = .eq := by
        rw [Std.compare_self, Std.compare_self]
        rfl
      cases sign with
      | negative => exact congrArg (fun order => some order.swap) hparts
      | positive => exact congrArg some hparts

private theorem sign_apply_natCast_inj {sign sign' : Sign} {m m' : Nat} (hpos : 0 < m)
    (hpos' : 0 < m') (h : sign.apply m = sign'.apply m') : sign = sign' ∧ m = m' := by
  cases sign <;> cases sign' <;> simp only [Sign.apply] at h
  · exact ⟨rfl, by omega⟩
  · omega
  · omega
  · exact ⟨rfl, by omega⟩

private theorem sign_apply_natCast_ne_zero {sign : Sign} {m : Nat} (hpos : 0 < m) :
    sign.apply m ≠ 0 := by
  cases sign <;> simp only [Sign.apply] <;> omega

/-- Unpacked floats of the same value compare as equal: they are the same, or both are zeros. -/
private theorem compare_of_value_eq {a b : UnpackedFloat} (ha : IsNormalized a)
    (hb : IsNormalized b) (hne : a ≠ .notANumber) (h : ExactValue.ofUnpacked a = .ofUnpacked b) :
    a.compare b = some .eq := by
  cases a with
  | notANumber => exact absurd rfl hne
  | infinity sign =>
      cases b with
      | infinity sign' =>
          cases h
          exact unpacked_compare_self hne
      | _ => cases h
  | zero sign =>
      cases b with
      | zero sign' => rfl
      | finite sign' mantissa' exponent' hpos' =>
          have hzero := (ExactValue.units.inj h).symm
          exact absurd hzero (sign_apply_natCast_ne_zero (Nat.mul_pos hpos' (power_pos _)))
      | _ => cases h
  | finite sign mantissa exponent hpos =>
      cases b with
      | zero sign' =>
          have hzero := ExactValue.units.inj h
          exact absurd hzero (sign_apply_natCast_ne_zero (Nat.mul_pos hpos (power_pos _)))
      | finite sign' mantissa' exponent' hpos' =>
          obtain ⟨rfl, heq⟩ := sign_apply_natCast_inj (Nat.mul_pos hpos (power_pos _))
            (Nat.mul_pos hpos' (power_pos _)) (ExactValue.units.inj h)
          obtain ⟨rfl, rfl⟩ := Normalized.unique ha hb heq
          exact unpacked_compare_self hne
      | _ => cases h

private theorem value_eq_of_compare {a b : UnpackedFloat} (h : a.compare b = some .eq) :
    ExactValue.ofUnpacked a = .ofUnpacked b := by
  obtain rfl | ⟨sign, sign', rfl, rfl⟩ := eq_or_zero_of_compare h
  · rfl
  · rfl

private theorem isNaN_eq_false_of_compare {a b : UnpackedFloat} (h : a.compare b = some .eq) :
    a.isNaN = false := by
  cases a with
  | notANumber => cases h
  | _ => rfl

/-- Equality of floats as numbers is equality of values, of which a NaN has none. -/
theorem float_beq_iff {x y : Float} :
    (x == y) = true
      ↔ (Number.float x).value = (Number.float y).value ∧ x.isNaN = false ∧ y.isNaN = false := by
  show (x.toModel.unpack.compare y.toModel.unpack == some .eq) = true ↔ _
  rw [beq_iff_eq]
  constructor
  · intro h
    exact ⟨value_eq_of_compare h, isNaN_eq_false_of_compare h,
      isNaN_eq_false_of_compare (unpacked_compare_comm h)⟩
  · rintro ⟨hvalue, hx, -⟩
    refine compare_of_value_eq (isNormalized_unpack x) (isNormalized_unpack y) ?_ hvalue
    intro hleft
    have hnan : x.toModel.unpack.isNaN = false := hx
    rw [hleft] at hnan
    cases hnan

/-! ### Numbers -/

namespace Number

theorem isNaN_eq_of_value_eq {m n : Number} (h : m.value = n.value) : m.isNaN = n.isNaN := by
  rw [Bool.eq_iff_iff, isNaN_eq_true_iff, isNaN_eq_true_iff, h]

theorem sameFloat_iff {shared : Bool} {x y : Float} :
    sameFloat shared x y = true ↔ (Number.float x).value = (Number.float y).value
      ∧ (shared = true ∨ x.isNaN = false ∧ y.isNaN = false) := by
  rw [sameFloat, Bool.or_eq_true, float_beq_iff, Bool.and_eq_true, Bool.and_eq_true]
  constructor
  · rintro (⟨hvalue, hnan⟩ | ⟨⟨hshared, hx⟩, hy⟩)
    · exact ⟨hvalue, .inr hnan⟩
    · have hleft := (isNaN_eq_true_iff (n := .float x)).mp hx
      have hright := (isNaN_eq_true_iff (n := .float y)).mp hy
      exact ⟨hleft.trans hright.symm, .inl hshared⟩
  · rintro ⟨hvalue, hshared | hnan⟩
    · have hsame : x.isNaN = y.isNaN := isNaN_eq_of_value_eq hvalue
      cases hx : x.isNaN with
      | true => exact .inr ⟨⟨hshared, rfl⟩, hsame ▸ hx⟩
      | false => exact .inl ⟨hvalue, rfl, hsame ▸ hx⟩
    · exact .inl ⟨hvalue, hnan⟩

private theorem value_int_inj {m n : Int} :
    (Number.int m).value = (Number.int n).value ↔ m = n := by
  rw [value, value, ExactValue.units.injEq]
  exact Int.mul_eq_mul_right_iff (Int.natCast_ne_zero.mpr (Nat.ne_of_gt (power_pos 1074)))

theorem floatIsInt_iff {x : Float} {n : Int} :
    floatIsInt x n = true ↔ (Number.float x).value = (Number.int n).value := by
  rw [floatIsInt, beq_iff_eq, units?_eq_some_iff]
  rfl

/-- Numbers are the same when they have the same value, unless this is the value of NaNs that are
not one object. -/
theorem same_iff {shared : Bool} {m n : Number} :
    m.same shared n = true
      ↔ m.value = n.value ∧ (shared = true ∨ m.isNaN = false ∧ n.isNaN = false) := by
  -- An integer is no NaN, and neither is a number of its value.
  have hint : ∀ {m n : Number} {k : Int}, m = .int k → m.value = n.value →
      shared = true ∨ m.isNaN = false ∧ n.isNaN = false := by
    rintro m n k rfl hvalue
    exact .inr ⟨rfl, (isNaN_eq_of_value_eq hvalue).symm⟩
  cases m with
  | int m =>
      cases n with
      | int n =>
          rw [same, beq_iff_eq, ← value_int_inj]
          exact ⟨fun h => ⟨h, hint rfl h⟩, And.left⟩
      | float y =>
          rw [same, floatIsInt_iff, eq_comm]
          exact ⟨fun h => ⟨h, hint rfl h⟩, And.left⟩
  | float x =>
      cases n with
      | int n =>
          rw [same, floatIsInt_iff]
          exact ⟨fun h => ⟨h, (hint rfl h.symm).imp_right And.symm⟩, And.left⟩
      | float y => exact sameFloat_iff

end Number

end MiniMl
