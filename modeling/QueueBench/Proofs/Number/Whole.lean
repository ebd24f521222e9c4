import Mathlib.Algebra.Order.Ring.Nat

/-! # Whole numbers as floats

A whole number below 2⁵³ is told apart from every other whole number by its float. The
argument is about the bit model of 64-bit floats: rounding, packing and unpacking. -/
namespace QueueBench.Number

open Float.Model (Format totalExponent)
open Float.Model.UnpackedFloat

def Normal (m : ℕ) : Prop := 2 ^ 52 ≤ m ∧ m < 2 ^ 53

theorem Normal.pos {m : ℕ} (h : Normal m) : 0 < m := by
  have := h.1
  omega

theorem Normal.log2 {m : ℕ} (h : Normal m) : m.log2 = 52 :=
  (Nat.log2_eq_iff h.pos.ne').mpr h

theorem log2_shift {m : ℕ} (hm : m ≠ 0) (j : ℕ) : (m * 2 ^ j).log2 = m.log2 + j := by
  rw [Nat.log2_eq_iff (Nat.mul_ne_zero hm (Nat.two_pow_pos j).ne')]
  obtain ⟨hl, hu⟩ := (Nat.log2_eq_iff hm).mp rfl
  constructor
  · rw [Nat.pow_add]
    exact Nat.mul_le_mul_right _ hl
  · rw [Nat.add_right_comm, Nat.pow_add]
    exact Nat.mul_lt_mul_of_pos_right hu (Nat.two_pow_pos j)

theorem log2_le {n : ℕ} (hn : n ≠ 0) (hu : n < 2 ^ 53) : n.log2 ≤ 52 :=
  Nat.le_of_lt_succ ((Nat.log2_lt hn).mpr hu)

/-- Shifted left, a number below 2⁵³ fills the significand. -/
theorem normal_shift {n : ℕ} (hn : n ≠ 0) (hu : n < 2 ^ 53) : Normal (n * 2 ^ (52 - n.log2)) := by
  have hk := log2_le hn hu
  have hl := log2_shift hn (52 - n.log2)
  rw [Nat.add_sub_cancel' hk] at hl
  exact (Nat.log2_eq_iff (Nat.mul_ne_zero hn (Nat.two_pow_pos _).ne')).mp hl

theorem shiftRight_mantissa (a : ExtendedMantissa) (j : ℕ) :
    (a >>> j).mantissa = a.mantissa / 2 ^ j := by
  change (Nat.repeat ExtendedMantissa.shiftRightOne j a).mantissa = _
  induction j with
  | zero => simp [Nat.repeat]
  | succ j ih =>
    rw [Nat.repeat, ExtendedMantissa.shiftRightOne, ih, Nat.div_div_eq_div_mul, ← Nat.pow_succ]

theorem shiftRight_exact (m j : ℕ) :
    ExtendedMantissa.ofMantissaAndAccuracy (m * 2 ^ j) .exact >>> j = ⟨m, false, false⟩ := by
  change Nat.repeat ExtendedMantissa.shiftRightOne j _ = _
  induction j generalizing m with
  | zero => simp [Nat.repeat, ExtendedMantissa.ofMantissaAndAccuracy]
  | succ j ih =>
    have h : m * 2 ^ (j + 1) = m * 2 * 2 ^ j := by
      rw [Nat.pow_succ, Nat.mul_comm (2 ^ j), Nat.mul_assoc]
    rw [Nat.repeat, h, ih]
    simp [ExtendedMantissa.shiftRightOne]

theorem mantissaBits_eq : Format.binary64.mantissaBits = 53 := rfl

theorem target_of_normal {m : ℕ} (hm : Normal m) {e : ℤ} (he : -1074 ≤ e) (j : ℕ) :
    Format.binary64.targetExponent (totalExponent (m * 2 ^ j) (e - j)) = e := by
  simp only [Format.targetExponent, totalExponent, log2_shift hm.pos.ne', hm.log2,
    mantissaBits_eq, Format.minExponent]
  omega

theorem shift_exact {m : ℕ} (hm : Normal m) {e : ℤ} (he : -1074 ≤ e) (j : ℕ) :
    shiftToTargetExponent Format.binary64 (m * 2 ^ j) (e - j) .exact = (⟨m, false, false⟩, e) := by
  have hs : (e - (e - (j : ℤ))).toNat = j := by omega
  have he' : e - (j : ℤ) + j = e := by omega
  simp only [shiftToTargetExponent, shiftToExponent, target_of_normal hm he, hs, he',
    shiftRight_exact]

theorem shift_normal {m : ℕ} (hm : Normal m) {e : ℤ} (he : -1074 ≤ e) :
    shiftToTargetExponent Format.binary64 m e .exact = (⟨m, false, false⟩, e) := by
  simpa using shift_exact hm he 0

/-- A first shift leaves what is rounded, and a second one takes in the bit to which rounding up may
carry. -/
theorem round_of_shifts {n : ℕ} {e e' : ℤ} {a b : ExtendedMantissa} {E : ℤ}
    (h : shiftToTargetExponent Format.binary64 n e .exact = (a, e'))
    (h' : shiftToTargetExponent Format.binary64 a.roundedMantissa e' .exact = (b, E))
    (hb : 0 < b.mantissa) :
    roundWithAccuracy Format.binary64 .positive n e .exact = .finite .positive b.mantissa E hb := by
  unfold roundWithAccuracy
  rw [h]
  dsimp only
  rw [h']
  exact dif_neg hb.ne'

/-- Rounding keeps a significand that has only zeros behind its 53 bits. -/
theorem round_exact {m : ℕ} (hm : Normal m) {e : ℤ} (he : -1074 ≤ e) (j : ℕ) :
    roundWithAccuracy Format.binary64 .positive (m * 2 ^ j) (e - j) .exact =
      .finite .positive m e hm.pos :=
  round_of_shifts (shift_exact hm he j) (shift_normal hm he) hm.pos

/-- Packing drops the leading bit of a significand; beyond the range of exponents all is lost. -/
theorem pack_normal {m : ℕ} (hm : Normal m) (e : ℤ) :
    pack Format.binary64 (.finite .positive m e hm.pos) =
      if 2 ^ 11 ≤ (e + 1075).toNat + 1 then packedInfinity Format.binary64 .positive
      else packComponents Format.binary64 .positive (BitVec.ofNat 11 (e + 1075).toNat)
        (BitVec.ofNat 52 m) := by
  have hb : e + (1023 : ℕ) + (52 : ℕ) = e + 1075 := by omega
  have hl : m.log2 + 1 = 53 := by rw [hm.log2]
  change (if 2 ^ 11 ≤ (e + (1023 : ℕ) + (52 : ℕ)).toNat + 1 then _
    else if m.log2 + 1 = 53 then
      packComponents Format.binary64 .positive
        (BitVec.ofNat 11 (e + (1023 : ℕ) + (52 : ℕ)).toNat) _ else _) = _
  rw [hb, if_pos hl]

/-- The exponent field of a normal float; beyond the range it is that of infinity. -/
theorem exponent_pack {m : ℕ} (hm : Normal m) (e : ℤ) :
    (unpackExponent (pack Format.binary64 (.finite .positive m e hm.pos))).toNat =
      min (e + 1075).toNat 2047 := by
  rw [pack_normal hm]
  split
  · rw [packedInfinity, unpackExponent_packComponents, Nat.min_eq_right (by omega)]
    rfl
  · rw [unpackExponent_packComponents, Nat.min_eq_left (by omega)]
    exact Nat.mod_eq_of_lt (by omega)

theorem sign_pack {m : ℕ} (hm : Normal m) (e : ℤ) :
    Sign.ofBitVec (unpackSign (pack Format.binary64 (.finite .positive m e hm.pos))) =
      .positive := by
  have hs (x : BitVec 11) (y : BitVec 52) :
      unpackSign (packComponents Format.binary64 .positive x y) = 0#1 := by
    apply BitVec.eq_of_getLsbD_eq
    intro i hi
    obtain rfl : i = 0 := by omega
    change (((0#1 ++ x ++ y).extractLsb 63 63).getLsbD 0) = _
    rw [BitVec.getLsbD_extractLsb, BitVec.getLsbD_append, BitVec.getLsbD_append]
    rfl
  rw [pack_normal hm]
  split
  · exact congrArg Sign.ofBitVec (hs _ _)
  · exact congrArg Sign.ofBitVec (hs _ _)

/-- What is unpacked, unless all bits of the exponent are alike. -/
theorem unpack_normal {b : BitVec Format.binary64.numBits} (hne : unpackExponent b ≠ -1#11)
    (hnz : unpackExponent b ≠ 0#11) : ∃ h, unpack Format.binary64 b =
      .finite (Sign.ofBitVec (unpackSign b)) (1#1 ++ unpackMantissa b).toNat
        ((unpackExponent b).toNat - ((1023 : ℕ) + (52 : ℕ))) h :=
  ⟨_, (if_neg hne).trans (if_neg hnz)⟩

theorem unpack_pack {m : ℕ} (hm : Normal m) {e : ℤ} (hl : -1074 ≤ e) (hu : e ≤ 971) :
    unpack Format.binary64 (pack Format.binary64 (.finite .positive m e hm.pos)) =
      .finite .positive m e hm.pos := by
  have hx := exponent_pack hm e
  have hs := sign_pack hm e
  have hm' : unpackMantissa (pack Format.binary64 (.finite .positive m e hm.pos)) =
      BitVec.ofNat 52 m := by
    rw [pack_normal hm, if_neg (by omega), unpackMantissa_packComponents]
  generalize pack Format.binary64 (.finite .positive m e hm.pos) = b at hx hs hm'
  have hne : unpackExponent b ≠ -1#11 := by
    intro h
    rw [h] at hx
    change 2047 = _ at hx
    omega
  have hnz : unpackExponent b ≠ 0#11 := by
    intro h
    rw [h] at hx
    change 0 = _ at hx
    omega
  have hmant : (1#1 ++ unpackMantissa b).toNat = m := by
    obtain ⟨h₁, h₂⟩ := hm
    rw [hm', BitVec.toNat_append, ← Nat.shiftLeft_add_eq_or_of_lt (BitVec.isLt _)]
    simp only [BitVec.toNat_ofNat, Nat.shiftLeft_eq]
    omega
  have hexp : ((unpackExponent b).toNat : ℤ) - ((1023 : ℕ) + (52 : ℕ)) = e := by
    rw [hx]
    omega
  obtain ⟨_, hunpack⟩ := unpack_normal hne hnz
  rw [hunpack, hs]
  congr 1

theorem one_eq_pack :
    (1.0 : Float) = .ofModel (.pack (.finite .positive (2 ^ 52) (-52) (by decide))) := by
  decide

/-- Below 2⁵³ conversion is scaled by one. -/
theorem ofNat_scaled {n : ℕ} (h : n < 2 ^ 53) : Float.ofNat n = n.toUInt64.toFloat * 1.0 := by
  have hone : Float.exactlyRepresentablePowersOfTen[0] = (1.0 : Float) := by decide
  change Float.ofScientific n false 0 = _
  unfold Float.ofScientific
  rw [dif_pos ⟨h, by decide⟩]
  simp only [Bool.false_eq_true, ↓reduceIte, hone]

theorem toFloat_small {n : ℕ} (hn : n ≠ 0) (h : n < 2 ^ 53) :
    n.toUInt64.toFloat = .ofModel (.pack (.finite .positive (n * 2 ^ (52 - n.log2))
      ((n.log2 : ℤ) - 52) (normal_shift hn h).pos)) := by
  have hk := log2_le hn h
  have hw : n.toUInt64.toNat = n := by
    rw [Nat.toUInt64, UInt64.toNat_ofNat', Nat.mod_eq_of_lt (by omega)]
  have hc : compare (n : ℤ) 0 = .gt := Int.compare_eq_gt.mpr (by omega)
  have ht : Format.binary64.targetExponent (totalExponent n 0) = (n.log2 : ℤ) - 52 := by
    simp only [Format.targetExponent, totalExponent, mantissaBits_eq, Format.minExponent]
    omega
  have hs : (0 - ((n.log2 : ℤ) - 52)).toNat = 52 - n.log2 := by omega
  have he : (0 : ℤ) - ((52 - n.log2 : ℕ) : ℤ) = (n.log2 : ℤ) - 52 := by omega
  have hr := round_exact (normal_shift hn h) (e := (n.log2 : ℤ) - 52) (by omega) 0
  rw [Nat.pow_zero, Nat.mul_one, Int.natCast_zero, Int.sub_zero] at hr
  refine congrArg (fun f => Float.ofModel (.pack f)) (Eq.trans ?_ hr)
  simp only [ofUInt64, hw, ofNat, ofInt, Float.Model.UnpackedFloat.normalize, hc,
    Int.toNat_natCast, Float.Model.UnpackedFloat.round, ht, decreaseExponent, hs, he,
    Nat.shiftLeft_eq]

theorem ofNat_small {n : ℕ} (hn : n ≠ 0) (h : n < 2 ^ 53) :
    Float.ofNat n = .ofModel (.pack (.finite .positive (n * 2 ^ (52 - n.log2))
      ((n.log2 : ℤ) - 52) (normal_shift hn h).pos)) := by
  have hk := log2_le hn h
  have hm := normal_shift hn h
  have hu := unpack_pack hm (e := (n.log2 : ℤ) - 52) (by omega) (by omega)
  have hone : Normal (2 ^ 52) := ⟨by decide, by decide⟩
  have hr := round_exact hm (e := (n.log2 : ℤ) - 52) (by omega) 52
  rw [ofNat_scaled h, toFloat_small hn h, one_eq_pack]
  change Float.ofModel (.pack (mul Format.binary64 (unpack Format.binary64
    (pack Format.binary64 _)) (unpack Format.binary64 (pack Format.binary64 _)))) = _
  rw [hu, unpack_pack hone (by decide) (by decide)]
  exact congrArg (fun f => Float.ofModel (.pack f)) hr

theorem ofNat_zero : Float.ofNat 0 = .ofModel (.pack (.zero .positive)) := by decide

theorem roundedMantissa_bounds (a : ExtendedMantissa) :
    a.mantissa ≤ a.roundedMantissa ∧ a.roundedMantissa ≤ a.mantissa + 1 := by
  rcases a with ⟨m, r, s⟩
  cases r <;> cases s <;> dsimp only [ExtendedMantissa.roundedMantissa,
    ExtendedMantissa.accuracy, Accuracy.roundToNearestEven] <;> omega

/-- Rounding up may carry into a new bit; one more shift makes the result normal again. -/
theorem round_carry {m : ℕ} (hl : 2 ^ 52 ≤ m) (hu : m ≤ 2 ^ 53) {e : ℤ} (he : -1074 ≤ e) :
    ∃ b E, Normal b.mantissa ∧ e ≤ E ∧
      shiftToTargetExponent Format.binary64 m e .exact = (b, E) := by
  rcases Nat.lt_or_eq_of_le hu with hu | rfl
  · exact ⟨⟨m, false, false⟩, e, ⟨hl, hu⟩, le_refl e, shift_normal ⟨hl, hu⟩ he⟩
  · have hs := shift_exact (m := 2 ^ 52) (e := e + 1) ⟨by decide, by decide⟩ (by omega) 1
    rw [Int.natCast_one, Int.add_sub_cancel] at hs
    exact ⟨⟨2 ^ 52, false, false⟩, e + 1, ⟨by decide, by decide⟩, by omega, hs⟩

/-- From 2⁵³ on the exponent is positive. -/
theorem ofNat_large {n : ℕ} (h : 2 ^ 53 ≤ n) :
    ∃ M E, ∃ hM : Normal M, 1 ≤ E ∧
      Float.ofNat n = .ofModel (.pack (.finite .positive M E hM.pos)) := by
  have hn : n ≠ 0 := by omega
  obtain ⟨hl, hu⟩ := (Nat.log2_eq_iff hn).mp rfl
  have hk : 53 ≤ n.log2 := (Nat.le_log2 hn).mpr h
  have ht : Format.binary64.targetExponent (totalExponent (n * 2 ^ 53) (-53)) =
      (n.log2 : ℤ) - 52 := by
    simp only [Format.targetExponent, totalExponent, log2_shift hn, mantissaBits_eq,
      Format.minExponent]
    omega
  have hs : ((n.log2 : ℤ) - 52 - -53).toNat = 53 + (n.log2 - 52) := by omega
  have he : (-53 : ℤ) + ((53 + (n.log2 - 52) : ℕ) : ℤ) = (n.log2 : ℤ) - 52 := by omega
  -- The first shift keeps the 53 leading bits.
  have hq : (ExtendedMantissa.ofMantissaAndAccuracy (n * 2 ^ 53) .exact >>>
      (53 + (n.log2 - 52))).mantissa = n / 2 ^ (n.log2 - 52) := by
    rw [shiftRight_mantissa, Nat.mul_comm n, Nat.pow_add]
    exact Nat.mul_div_mul_left _ _ (Nat.two_pow_pos 53)
  have hql : 2 ^ 52 ≤ n / 2 ^ (n.log2 - 52) := by
    rw [Nat.le_div_iff_mul_le (Nat.two_pow_pos _), ← Nat.pow_add,
      show 52 + (n.log2 - 52) = n.log2 by omega]
    exact hl
  have hqu : n / 2 ^ (n.log2 - 52) < 2 ^ 53 := by
    rw [Nat.div_lt_iff_lt_mul (Nat.two_pow_pos _), ← Nat.pow_add,
      show 53 + (n.log2 - 52) = n.log2 + 1 by omega]
    exact hu
  have hfirst : shiftToTargetExponent Format.binary64 (n * 2 ^ 53) (-53) .exact =
      (ExtendedMantissa.ofMantissaAndAccuracy (n * 2 ^ 53) .exact >>> (53 + (n.log2 - 52)),
        (n.log2 : ℤ) - 52) := by
    simp only [shiftToTargetExponent, shiftToExponent, ht, hs, he]
  obtain ⟨hrl, hru⟩ := roundedMantissa_bounds
    (ExtendedMantissa.ofMantissaAndAccuracy (n * 2 ^ 53) .exact >>> (53 + (n.log2 - 52)))
  rw [hq] at hrl hru
  obtain ⟨b, E, hb, hE, hsecond⟩ := round_carry (le_trans hql hrl)
    (le_trans hru (Nat.succ_le_of_lt hqu)) (e := (n.log2 : ℤ) - 52) (by omega)
  have hr : ofScientific Format.binary64 n 0 = .finite .positive b.mantissa E hb.pos := by
    have hp : (0 : ℤ) ≤ 2 ^ Format.binary64.exponentBits := by decide
    unfold ofScientific
    rw [dif_neg hn, if_neg (by decide), if_neg (by omega), if_pos (le_refl 0)]
    refine Eq.trans ?_ (round_of_shifts hfirst hsecond hb.pos)
    change roundWithAccuracy Format.binary64 .positive (n <<< 53 * 1) (-53) .exact = _
    rw [Nat.mul_one, Nat.shiftLeft_eq]
  refine ⟨b.mantissa, E, hb, by omega, ?_⟩
  change Float.ofScientific n false 0 = _
  unfold Float.ofScientific
  rw [dif_neg (by omega)]
  exact congrArg (fun f => Float.ofModel (.pack f)) hr

theorem ofModel_pack_inj {f g : Float.Model.UnpackedFloat}
    (h : Float.ofModel (.pack f) = .ofModel (.pack g)) :
    pack Format.binary64 f = pack Format.binary64 g := by
  have hb := congrArg (fun x => x.toModel.toBits.toBitVec) h
  exact hb

theorem ofNat_ne_zero {n : ℕ} (hn : n ≠ 0) : Float.ofNat 0 ≠ Float.ofNat n := by
  intro h
  have he (m : ℕ) (e : ℤ) (hm : Normal m) (hl : -1074 < e)
      (h : Float.ofNat 0 = .ofModel (.pack (.finite .positive m e hm.pos))) : False := by
    have hx := exponent_pack hm e
    rw [← ofModel_pack_inj (ofNat_zero.symm.trans h)] at hx
    change 0 = _ at hx
    omega
  rcases Nat.lt_or_ge n (2 ^ 53) with hs | hs
  · exact he _ _ (normal_shift hn hs) (by omega) (h.trans (ofNat_small hn hs))
  · obtain ⟨m, e, hm, hl, hf⟩ := ofNat_large hs
    exact he m e hm (by omega) (h.trans hf)

/-- A whole number below 2⁵³ has a float of its own. -/
theorem ofNat_injective {m n : ℕ} (hm : m < 2 ^ 53) (h : Float.ofNat m = Float.ofNat n) :
    m = n := by
  by_cases hm₀ : m = 0
  · subst m
    by_contra hn
    exact ofNat_ne_zero (Ne.symm hn) h
  by_cases hn₀ : n = 0
  · subst n
    exact (ofNat_ne_zero hm₀ h.symm).elim
  have hk := log2_le hm₀ hm
  rw [ofNat_small hm₀ hm] at h
  rcases Nat.lt_or_ge n (2 ^ 53) with hn | hn
  · have hk' := log2_le hn₀ hn
    rw [ofNat_small hn₀ hn] at h
    have hu := congrArg (unpack Format.binary64) (ofModel_pack_inj h)
    rw [unpack_pack (normal_shift hm₀ hm) (by omega) (by omega),
      unpack_pack (normal_shift hn₀ hn) (by omega) (by omega)] at hu
    injection hu with _ hmant hexp
    have hl : m.log2 = n.log2 := by omega
    rw [hl] at hmant
    exact Nat.eq_of_mul_eq_mul_right (Nat.two_pow_pos _) hmant
  · obtain ⟨M, E, hM, hE, hf⟩ := ofNat_large hn
    rw [hf] at h
    have hx := exponent_pack (normal_shift hm₀ hm) ((m.log2 : ℤ) - 52)
    rw [ofModel_pack_inj h, exponent_pack hM] at hx
    omega

end QueueBench.Number
