import Mathlib
import Tabletop.Number.Dyadic

/-!
# Whole numbers that are doubles

A whole number below `2 ^ 400` rounds to a finite double (`ofInt?_isSome`). Rounding may shift a mantissa
to a greater exponent twice, but by no more places than the mantissa has digits (`UpTo.round`), and a
double overflows only beyond the exponent 971 (`UpTo.pack`).
-/

namespace Tabletop.Number

open Float.Model Float.Model.UnpackedFloat

/-- Zero, or finite with no greater exponent. -/
def UpTo (b : Int) : UnpackedFloat → Prop
  | .zero _ => True
  | .finite _ _ e _ => e ≤ b
  | _ => False

variable {f g : UnpackedFloat} {b c : Int} {m k : Nat} {e : Int}

/-! ### Rounding -/

theorem mantissa_shiftRight_le (em : ExtendedMantissa) (k : Nat) : (em >>> k).mantissa ≤ em.mantissa := by
  induction k with
  | zero => exact Nat.le_refl _
  | succ k ih => exact Nat.le_trans (Nat.div_le_self (em >>> k).mantissa 2) ih

theorem roundedMantissa_le (em : ExtendedMantissa) : em.roundedMantissa ≤ em.mantissa + 1 := by
  obtain ⟨m, roundBit, stickyBit⟩ := em
  cases roundBit <;> cases stickyBit <;>
    simp only [ExtendedMantissa.roundedMantissa, ExtendedMantissa.accuracy, Accuracy.roundToNearestEven] <;> omega

theorem mantissa_ofMantissaAndAccuracy (m : Nat) (a : Accuracy) :
    (ExtendedMantissa.ofMantissaAndAccuracy m a).mantissa = m := by
  cases a with
  | exact => rfl
  | inexact o => cases o <;> rfl

/-- A shift to the target exponent makes the mantissa no greater, and goes no further than it has digits. -/
theorem shiftToTargetExponent_le (hk : m.log2 < k) (hb : -1074 ≤ b) (he : e ≤ b) (a : Accuracy) :
    (shiftToTargetExponent Format.binary64 m e a).1.mantissa ≤ m ∧
      (shiftToTargetExponent Format.binary64 m e a).2 ≤ b + k := by
  refine ⟨?_, ?_⟩
  · refine Nat.le_trans (mantissa_shiftRight_le _ _) ?_
    rw [mantissa_ofMantissaAndAccuracy]
  · simp only [shiftToTargetExponent, shiftToExponent, Format.targetExponent, totalExponent, Format.mantissaBits,
      Format.minExponent]
    norm_num
    omega

theorem UpTo.round (hm : m < 2 ^ k) (hk : 1 ≤ k) (hb : -1074 ≤ b) (he : e ≤ b) (s : Sign) (a : Accuracy) :
    UpTo (b + 2 * k + 1) (roundWithAccuracy Format.binary64 s m e a) := by
  have hlog {n : Nat} {j : Nat} (hn : n < 2 ^ j) (hj : 1 ≤ j) : n.log2 < j := by
    by_cases hzero : n = 0
    · subst n
      exact hj
    · exact (Nat.log2_lt hzero).2 hn
  obtain ⟨hm₁, he₁⟩ := shiftToTargetExponent_le (hlog hm hk) hb he a
  unfold roundWithAccuracy
  generalize shiftToTargetExponent Format.binary64 m e a = first at hm₁ he₁
  obtain ⟨em, e₁⟩ := first
  dsimp only at hm₁ he₁ ⊢
  -- the rounded mantissa may have one digit more
  have hrounded : em.roundedMantissa < 2 ^ (k + 1) := by
    have := roundedMantissa_le em
    rw [Nat.pow_succ]
    omega
  obtain ⟨-, he₂⟩ := shiftToTargetExponent_le (hlog hrounded (Nat.succ_pos k)) (by omega) he₁ .exact
  generalize shiftToTargetExponent Format.binary64 em.roundedMantissa e₁ .exact = second at he₂
  obtain ⟨em', e₂⟩ := second
  dsimp only at he₂ ⊢
  split
  · trivial
  · change e₂ ≤ _
    push_cast at he₂
    omega

/-! ### Packing -/

theorem UpTo.mono (h : UpTo b f) (hbc : b ≤ c) : UpTo c f := by
  cases f with
  | zero s => trivial
  | finite s m e hm => exact Int.le_trans h hbc
  | _ => exact h.elim

theorem UpTo.eq_zero_or_finite (h : UpTo b f) :
    (∃ s, f = .zero s) ∨ ∃ s m e hm, f = .finite s m e hm ∧ e ≤ b := by
  cases f with
  | zero s => exact .inl ⟨s, rfl⟩
  | finite s m e hm => exact .inr ⟨s, m, e, hm, rfl, h⟩
  | _ => exact h.elim

theorem UpTo.isFinite (h : UpTo b f) : f.isFinite = true := by
  cases f <;> first | rfl | exact h.elim

/-- The exponent of a double is told by its bits. -/
theorem upTo_unpack {x : BitVec Format.binary64.numBits} {n : BitVec 11} (hx : unpackExponent x = n)
    (hn : n.toNat ≤ 2046) (hb : (n.toNat : Int) ≤ b + 1075) (hlow : -1074 ≤ b) :
    UpTo b (UnpackedFloat.unpack Format.binary64 x) := by
  have hne : n ≠ -1#11 := by
    rintro rfl
    exact absurd hn (by decide)
  have hbias : (Format.binary64.exponentBias : Int) + Format.binary64.mantissaBitsWithoutImplicit = 1075 := rfl
  unfold UnpackedFloat.unpack
  simp only [hx, hbias]
  rw [if_neg hne]
  split
  · rename_i hzero
    split
    · trivial
    · simp only [UpTo, hzero]
      norm_num
      omega
  · simp only [UpTo]
    omega

/-- A packed number is unpacked with no greater exponent. -/
theorem UpTo.pack (h : UpTo b f) (hlow : -1074 ≤ b) (hhigh : b ≤ 971) : UpTo b (Float.Model.pack f).unpack := by
  change UpTo b (UnpackedFloat.unpack Format.binary64 (UnpackedFloat.pack Format.binary64 f))
  have hzero : ((0#11).toNat : Int) ≤ b + 1075 := by
    simp only [BitVec.toNat_ofNat]
    omega
  cases f with
  | infinity s => exact h.elim
  | notANumber => exact h.elim
  | zero s => exact upTo_unpack unpackExponent_packComponents (by decide) hzero hlow
  | finite s m e hm =>
    have he : e ≤ b := h
    unfold UnpackedFloat.pack
    dsimp only
    have hbias : (Format.binary64.exponentBias : Int) = 1023 := rfl
    rw [hbias]
    split
    · rename_i hover
      exfalso
      norm_num at hover
      omega
    · split
      · rename_i hover _
        have hbiased : (BitVec.ofNat 11 (e + 1023 + (52 : Nat)).toNat).toNat = (e + 1023 + 52).toNat := by
          rw [BitVec.toNat_ofNat]
          norm_num at hover ⊢
          omega
        exact upTo_unpack unpackExponent_packComponents (by rw [hbiased]; omega) (by rw [hbiased]; omega) hlow
      · exact upTo_unpack unpackExponent_packComponents (by decide) hzero hlow

theorem mantissa_unpack_lt {x : Float.Model} {s : Sign} {hm : 0 < m} (h : x.unpack = .finite s m e hm) :
    m < 2 ^ 53 := by
  unfold Float.Model.unpack UnpackedFloat.unpack at h
  dsimp only at h
  split at h
  · split at h <;> cases h
  · split at h
    · split at h <;> cases h
      exact Nat.lt_of_lt_of_le (BitVec.isLt _) (by norm_num)
    · cases h
      exact BitVec.isLt _

/-! ### Whole numbers -/

theorem shiftLeft_lt {k j : Nat} (hm : m < 2 ^ k) : m <<< j < 2 ^ (k + j) := by
  rw [Nat.shiftLeft_eq, Nat.pow_add]
  exact Nat.mul_lt_mul_of_pos_right hm (Nat.two_pow_pos j)

theorem UpTo.mul_finite {m' j : Nat} {e' : Int} (hm : 0 < m) (hm' : 0 < m') (hj : m * m' < 2 ^ j) (hpos : 1 ≤ j)
    (he : e + e' ≤ b) (hb : -1074 ≤ b) (s s' : Sign) :
    UpTo (b + 2 * j + 1) (UnpackedFloat.mul Format.binary64 (.finite s m e hm) (.finite s' m' e' hm')) :=
  UpTo.round hj hpos hb he _ _

/-- The product of two doubles that are not too large is one. -/
theorem UpTo.mul {x y : Float.Model} (hx : UpTo b x.unpack) (hy : UpTo c y.unpack) (hb : -1074 ≤ b + c)
    (hbc : b + c ≤ 758) : UpTo 971 (x * y).unpack := by
  have hproduct : UpTo 971 (UnpackedFloat.mul Format.binary64 x.unpack y.unpack) := by
    rcases hx.eq_zero_or_finite with ⟨s, hzero⟩ | ⟨s, m, e, hm, hxu, he⟩
    · rw [hzero]
      rcases hy.eq_zero_or_finite with ⟨s', hyu⟩ | ⟨s', m', e', hm', hyu, -⟩ <;> rw [hyu] <;> trivial
    · rcases hy.eq_zero_or_finite with ⟨s', hzero⟩ | ⟨s', m', e', hm', hyu, he'⟩
      · rw [hxu, hzero]
        trivial
      · have hmantissa : m * m' < 2 ^ 106 := by
          have := Nat.mul_lt_mul'' (mantissa_unpack_lt hxu) (mantissa_unpack_lt hyu)
          rwa [← Nat.pow_add] at this
        rw [hxu, hyu]
        exact (UpTo.mul_finite hm hm' hmantissa (by decide) (Int.add_le_add he he') hb s s').mono (by push_cast; omega)
  exact hproduct.pack (by decide) (by decide)

theorem UpTo.ofUInt64 (n : UInt64) : UpTo 235 (ofUInt64 Format.binary64 n) := by
  unfold UnpackedFloat.ofUInt64 UnpackedFloat.ofNat UnpackedFloat.ofInt UnpackedFloat.normalize
  split
  · rename_i h
    exact absurd (Int.compare_eq_lt.1 h) (Int.not_lt.2 (Int.natCast_nonneg _))
  · trivial
  · unfold UnpackedFloat.round decreaseExponent
    simp only [Int.toNat_natCast]
    have hshift : (0 - Format.binary64.targetExponent (totalExponent n.toNat 0)).toNat ≤ 53 := by
      unfold totalExponent Format.targetExponent Format.minExponent Format.mantissaBits
      norm_num
      omega
    generalize (0 - Format.binary64.targetExponent (totalExponent n.toNat 0)).toNat = j at hshift
    have hmantissa : n.toNat <<< j < 2 ^ 117 :=
      Nat.lt_of_lt_of_le (shiftLeft_lt n.toNat_lt) (Nat.pow_le_pow_right (by decide) (by omega))
    have hround (s : Sign) (a : Accuracy) :
        UpTo (0 + 2 * (117 : Nat) + 1) (roundWithAccuracy Format.binary64 s (n.toNat <<< j) (0 - j) a) :=
      .round hmantissa (by decide) (by decide) (by omega) s a
    exact hround _ _

theorem UpTo.ofScientific (h0 : m ≠ 0) (hm : m < 2 ^ k) (hk : k ≤ 400) :
    UpTo 971 (ofScientific Format.binary64 m 0) := by
  have hlow : ¬(0 : Int) < -((2 ^ Format.binary64.exponentBits : Int) + m.log2) := by
    norm_num
  unfold UnpackedFloat.ofScientific
  rw [dif_neg h0, if_neg (by norm_num), if_neg hlow, if_pos (Int.le_refl 0)]
  have hmantissa : m <<< Format.binary64.mantissaBits * 10 ^ Int.toNat 0 < 2 ^ (k + 53) := by
    rw [Int.toNat_zero, Nat.pow_zero, Nat.mul_one]
    exact shiftLeft_lt hm
  have h53 : (Format.binary64.mantissaBits : Int) = 53 := rfl
  generalize_proofs hpos hpos'
  -- the power must not be computed
  generalize 10 ^ Int.toNat 0 = ten at hpos' hmantissa
  rw [h53]
  have hexponent : (-53 : Int) + 0 ≤ -53 := by decide
  have hproduct := UpTo.mul_finite hpos hpos' hmantissa (by omega) hexponent (by decide) .positive .positive
  exact hproduct.mono (by omega)

theorem upTo_one : UpTo (-52) (Float.ofBits 4607182418800017408).toModel.unpack := by
  have h : (Float.ofBits 4607182418800017408).toModel.unpack = .finite .positive (2 ^ 52) (-52) (by decide) := by rfl
  rw [h]
  exact Int.le_refl _

theorem upTo_ofNat (hm : m < 2 ^ k) (hk : k ≤ 400) : UpTo 971 (Float.ofNat m).toModel.unpack := by
  have hscientific : (Float.ofNat m) = Float.ofScientific m false 0 := rfl
  rw [hscientific, Float.ofScientific]
  split
  · exact UpTo.mul ((UpTo.ofUInt64 m.toUInt64).pack (by decide) (by decide)) upTo_one (by decide) (by decide)
  · rename_i hlarge
    have hne : m ≠ 0 := by
      rintro rfl
      exact hlarge ⟨by norm_num, by decide⟩
    exact (UpTo.ofScientific hne hm hk).pack (by decide) (by decide)

theorem UpTo.neg (h : UpTo b f) : UpTo b f.neg := by
  cases f with
  | zero s => trivial
  | finite s m e hm => exact h
  | _ => exact h.elim

/-- A whole number that is not too large is a double. -/
theorem ofInt?_isSome {n : Int} (h : n.natAbs < 2 ^ k) (hk : k ≤ 400) : (ofInt? n).isSome = true := by
  have hfinite : (Float.ofInt n).isFinite = true := by
    cases n with
    | ofNat n => exact (upTo_ofNat h hk).isFinite
    | negSucc n => exact ((upTo_ofNat h hk).neg.pack (by decide) (by decide)).isFinite
  rw [ofInt?]
  simp only [hfinite, if_true]
  rfl

end Tabletop.Number
