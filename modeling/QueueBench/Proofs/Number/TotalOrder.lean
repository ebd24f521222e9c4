import Mathlib
import QueueBench.Number.Double

/-! # The total order of stored numbers

Ranks order the numbers by value, with minus zero before plus zero. What is not a number stands
before or behind all others, by its sign. The comparisons of floats are read off the bit model:
within one sign the bits of a float grow with its magnitude. That packing undoes unpacking is a
lemma that no smaller import brings. -/
namespace QueueBench.Number

open Float.Model (Format UnpackedFloat)
open Float.Model.UnpackedFloat

def magnitude (x : Float) : ℕ := x.toBits.toNat % 2 ^ 63

def signOf (x : Float) : Sign := if isNegative x then .negative else .positive

def signed : Sign → ℕ → ℤ
  | .negative, m => -m
  | .positive, m => m

/-- The magnitude with its sign, by which numbers compare. -/
def level (x : Float) : ℤ := signed (signOf x) (magnitude x)

def infinite : ℕ := 2047 * 2 ^ 52

section Bits

variable (b : BitVec Format.binary64.numBits)

theorem toNat_unpackExponent : (unpackExponent b).toNat = b.toNat / 2 ^ 52 % 2 ^ 11 := by
  rw [unpackExponent_def, BitVec.extractLsb'_toNat, Nat.shiftRight_eq_div_pow]

theorem toNat_unpackMantissa : (unpackMantissa b).toNat = b.toNat % 2 ^ 52 := by
  rw [unpackMantissa_def, BitVec.extractLsb'_toNat, Nat.shiftRight_eq_div_pow, Nat.pow_zero,
    Nat.div_one]

theorem toNat_unpackSign : (unpackSign b).toNat = b.toNat / 2 ^ 63 := by
  have hb : b.toNat < 2 ^ 64 := b.isLt
  rw [unpackSign_def, BitVec.extractLsb'_toNat, Nat.shiftRight_eq_div_pow]
  exact Nat.mod_eq_of_lt (by change b.toNat / 2 ^ 63 < 2 ^ 1; omega)

theorem ofBitVec_unpackSign :
    Sign.ofBitVec (unpackSign b) = if 2 ^ 63 ≤ b.toNat then .negative else .positive := by
  have hs := toNat_unpackSign b
  have hb : b.toNat < 2 ^ 64 := b.isLt
  rw [Sign.ofBitVec]
  by_cases h : 2 ^ 63 ≤ b.toNat
  · have hne : unpackSign b ≠ 0#1 := by
      intro hzero
      rw [hzero] at hs
      change 0 = _ at hs
      omega
    rw [if_neg hne, if_pos h]
  · have hzero : unpackSign b = 0#1 := by
      apply BitVec.eq_of_toNat_eq
      change _ = 0
      omega
    rw [if_pos hzero, if_neg h]

/-- What a sign and a magnitude stand for. A finite float has one significand, which is full
unless the exponent is the least one. -/
inductive Unpacks (s : Sign) (m : ℕ) : UnpackedFloat → Prop where
  | nan : infinite < m → Unpacks s m .notANumber
  | infinity : m = infinite → Unpacks s m (.infinity s)
  | zero : m = 0 → Unpacks s m (.zero s)
  | finite (k : ℕ) (e : ℤ) (hk : 0 < k) : (m : ℤ) = (e + 1074) * 2 ^ 52 + k → m < infinite →
      -1074 ≤ e → k < 2 ^ 53 → e = -1074 ∨ 2 ^ 52 ≤ k → Unpacks s m (.finite s k e hk)

theorem unpacks_bits :
    Unpacks (Sign.ofBitVec (unpackSign b)) (b.toNat % 2 ^ 63) (unpack Format.binary64 b) := by
  have he := toNat_unpackExponent b
  have hm := toNat_unpackMantissa b
  have hb : b.toNat < 2 ^ 64 := b.isLt
  have hinfinite : infinite = 2047 * 2 ^ 52 := rfl
  have hbias : ((Format.binary64.exponentBias : ℕ) : ℤ) + ((52 : ℕ) : ℤ) = 1075 := rfl
  rw [unpack]
  dsimp only
  by_cases hlast : unpackExponent b = -1#11
  · rw [if_pos hlast]
    rw [hlast] at he
    change 2047 = _ at he
    by_cases hzero : unpackMantissa b = 0#52
    · rw [if_pos hzero]
      rw [hzero] at hm
      change 0 = _ at hm
      exact .infinity (by omega)
    · rw [if_neg hzero]
      have hne : (unpackMantissa b).toNat ≠ 0 := fun h => hzero (BitVec.eq_of_toNat_eq h)
      exact .nan (by omega)
  · rw [if_neg hlast]
    have hlt : (unpackExponent b).toNat ≠ 2047 := fun h => hlast (BitVec.eq_of_toNat_eq h)
    by_cases hfirst : unpackExponent b = 0#11
    · rw [if_pos hfirst]
      rw [hfirst] at he
      change 0 = _ at he
      by_cases hzero : unpackMantissa b = 0#52
      · rw [dif_pos hzero]
        rw [hzero] at hm
        change 0 = _ at hm
        exact .zero (by omega)
      · have hexp : (((0#11).toNat : ℕ) : ℤ) -
            (((Format.binary64.exponentBias : ℕ) : ℤ) + ((52 : ℕ) : ℤ)) + 1 = -1074 := rfl
        rw [dif_neg hzero, hfirst]
        refine .finite _ _ _ ?_ (by omega) (Int.le_of_eq hexp.symm) (by omega) (Or.inl hexp)
        rw [hexp]
        omega
    · rw [if_neg hfirst]
      have hpos : (unpackExponent b).toNat ≠ 0 := fun h => hfirst (BitVec.eq_of_toNat_eq h)
      have hk : (1#1 ++ unpackMantissa b).toNat = 2 ^ 52 + (unpackMantissa b).toNat := by
        rw [BitVec.toNat_append, ← Nat.shiftLeft_add_eq_or_of_lt (BitVec.isLt _)]
        rfl
      refine .finite _ _ _ ?_ (by omega) ?_ (by omega) (Or.inr (by omega))
      · rw [hk, hm, hbias]
        omega
      · rw [hbias]
        omega

end Bits

section Compare

variable {s s' : Sign} {m m' k k' : ℕ} {e e' : ℤ} {u v : UnpackedFloat}

/-- Among finite floats the exponent decides before the significand. -/
theorem compare_finite (hm : (m : ℤ) = (e + 1074) * 2 ^ 52 + k)
    (hm' : (m' : ℤ) = (e' + 1074) * 2 ^ 52 + k') (hk : k < 2 ^ 53) (hk' : k' < 2 ^ 53)
    (he : -1074 ≤ e) (he' : -1074 ≤ e') (h : e = -1074 ∨ 2 ^ 52 ≤ k)
    (h' : e' = -1074 ∨ 2 ^ 52 ≤ k') :
    (compare e e').then (compare k k') = compare (m : ℤ) m' := by
  rcases Int.lt_trichotomy e e' with hlt | rfl | hgt
  · rw [Int.compare_eq_lt.mpr hlt, Int.compare_eq_lt.mpr (by omega)]
    rfl
  · rw [Int.compare_eq_eq.mpr rfl, Ordering.then]
    rcases Nat.lt_trichotomy k k' with hlt | rfl | hgt
    · rw [Nat.compare_eq_lt.mpr hlt, Int.compare_eq_lt.mpr (by omega)]
    · rw [Nat.compare_eq_eq.mpr rfl, Int.compare_eq_eq.mpr (by omega)]
    · rw [Nat.compare_eq_gt.mpr hgt, Int.compare_eq_gt.mpr (by omega)]
  · rw [Int.compare_eq_gt.mpr hgt, Int.compare_eq_gt.mpr (by omega)]
    rfl

theorem swap_compare (x y : ℤ) : (compare x y).swap = compare (-x) (-y) := by
  rcases Int.lt_trichotomy x y with h | rfl | h
  · rw [Int.compare_eq_lt.mpr h, Int.compare_eq_gt.mpr (by omega)]
    rfl
  · rw [Int.compare_eq_eq.mpr rfl, Int.compare_eq_eq.mpr rfl]
    rfl
  · rw [Int.compare_eq_gt.mpr h, Int.compare_eq_lt.mpr (by omega)]
    rfl

/-- The sign of the greater magnitude decides. -/
theorem compare_signed_of_lt (s' : Sign) (h : m' < m) :
    compare (signed s m) (signed s' m') =
      match s with
      | .negative => .lt
      | .positive => .gt := by
  cases s with
  | negative => exact Int.compare_eq_lt.mpr (by cases s' <;> simp only [signed] <;> omega)
  | positive => exact Int.compare_eq_gt.mpr (by cases s' <;> simp only [signed] <;> omega)

theorem compare_signed_of_gt (s : Sign) (h : m < m') :
    compare (signed s m) (signed s' m') =
      match s' with
      | .negative => .gt
      | .positive => .lt := by
  cases s' with
  | negative => exact Int.compare_eq_gt.mpr (by cases s <;> simp only [signed] <;> omega)
  | positive => exact Int.compare_eq_lt.mpr (by cases s <;> simp only [signed] <;> omega)

/-- Numbers compare as their magnitudes do, each with its sign. -/
theorem compare_of_unpacks (hu : Unpacks s m u) (hv : Unpacks s' m' v) (hm : m ≤ infinite)
    (hm' : m' ≤ infinite) : u.compare v = some (compare (signed s m) (signed s' m')) := by
  have hpos : 0 < infinite := by decide
  cases hu with
  | nan h => omega
  | infinity h =>
    cases hv with
    | nan h' => omega
    | infinity h' => cases s <;> cases s' <;> subst h h' <;> rfl
    | zero h' => cases s <;> cases s' <;> subst h h' <;> rfl
    | finite k' e' hk' h' hlt' =>
      rw [compare_signed_of_lt s' (by omega)]
      cases s <;> rfl
  | zero h =>
    cases hv with
    | nan h' => omega
    | infinity h' => cases s <;> cases s' <;> subst h h' <;> rfl
    | zero h' => cases s <;> cases s' <;> subst h h' <;> rfl
    | finite k' e' hk' h' hlt' he' =>
      rw [compare_signed_of_gt s (by omega)]
      cases s' <;> rfl
  | finite k e hk h hlt he hb hn =>
    cases hv with
    | nan h' => omega
    | infinity h' =>
      rw [compare_signed_of_gt s (by omega)]
      cases s' <;> rfl
    | zero h' =>
      rw [compare_signed_of_lt s' (by omega)]
      cases s <;> rfl
    | finite k' e' hk' h' hlt' he' hb' hn' =>
      have hc := compare_finite h h' hb hb' he he' hn hn'
      cases s <;> cases s'
      · simp only [UnpackedFloat.compare, signed, hc, swap_compare]
      · rw [Int.compare_eq_lt.mpr (by simp only [signed]; omega)]
        rfl
      · rw [Int.compare_eq_gt.mpr (by simp only [signed]; omega)]
        rfl
      · simp only [UnpackedFloat.compare, signed, hc]

end Compare

variable {a b x : Float}

theorem unpacks_float (x : Float) : Unpacks (signOf x) (magnitude x) x.toModel.unpack := by
  have hs : signOf x =
      Sign.ofBitVec (@unpackSign Format.binary64 x.toBits.toBitVec) := by
    rw [ofBitVec_unpackSign, signOf, isNegative, Nat.pow_eq]
    simp only [ge_iff_le, decide_eq_true_eq]
    rfl
  rw [hs]
  exact unpacks_bits (show BitVec Format.binary64.numBits from x.toBits.toBitVec)

theorem isNaN_iff : x.isNaN ↔ infinite < magnitude x := by
  have hx := unpacks_float x
  change x.toModel.unpack.isNaN = true ↔ _
  generalize x.toModel.unpack = u at hx
  cases hx with
  | nan h => exact ⟨fun _ => h, fun _ => rfl⟩
  | infinity h => exact ⟨nofun, fun hlt => by omega⟩
  | zero h => exact ⟨nofun, fun hlt => by omega⟩
  | finite k e hk h hlt => exact ⟨nofun, fun hlt => by omega⟩

/-- Below zero the level falls with the magnitude. -/
theorem level_cases (x : Float) :
    isNegative x ∧ level x = -magnitude x ∨ ¬ isNegative x ∧ level x = magnitude x := by
  cases h : isNegative x with
  | true => exact Or.inl ⟨rfl, by rw [level, signOf, if_pos h]; rfl⟩
  | false => exact Or.inr ⟨nofun, by rw [level, signOf, h]; rfl⟩

theorem lt_iff_level (ha : ¬ a.isNaN) (hb : ¬ b.isNaN) : a < b ↔ level a < level b := by
  rw [isNaN_iff, Nat.not_lt] at ha hb
  change decide ((a.toModel.unpack.compare b.toModel.unpack == some .lt) = true) = true ↔ _
  rw [decide_eq_true_iff, beq_iff_eq, compare_of_unpacks (unpacks_float a) (unpacks_float b) ha hb,
    Option.some.injEq, Int.compare_eq_lt]
  rfl

theorem beq_iff_level (ha : ¬ a.isNaN) (hb : ¬ b.isNaN) : a == b ↔ level a = level b := by
  rw [isNaN_iff, Nat.not_lt] at ha hb
  change (a.toModel.unpack.compare b.toModel.unpack == some .eq) = true ↔ _
  rw [beq_iff_eq, compare_of_unpacks (unpacks_float a) (unpacks_float b) ha hb,
    Option.some.injEq, Int.compare_eq_eq]
  rfl

/-- What is not a number does not compare. -/
theorem not_compare_of_isNaN (h : a.isNaN ∨ b.isNaN) : ¬ a < b ∧ ¬ a == b := by
  have hn : a.toModel.unpack.compare b.toModel.unpack = none := by
    rcases h with h | h
    · have ha : a.toModel.unpack = .notANumber := UnpackedFloat.isNaN_iff.mp h
      rw [ha]
      rfl
    · have hb : b.toModel.unpack = .notANumber := UnpackedFloat.isNaN_iff.mp h
      rw [hb]
      cases a.toModel.unpack <;> rfl
  constructor
  · change ¬ decide ((a.toModel.unpack.compare b.toModel.unpack == some .lt) = true) = true
    rw [hn]
    exact nofun
  · change ¬ (a.toModel.unpack.compare b.toModel.unpack == some .eq) = true
    rw [hn]
    exact nofun

end QueueBench.Number

namespace QueueBench.Double

open Float.Model (Format UnpackedFloat)
open Float.Model.UnpackedFloat
open Number (infinite unpacks_bits)

variable {a b d : Double}

def isNegative (d : Double) : Bool := d.bits.toNat ≥ 2 ^ 63

def magnitude (d : Double) : ℕ := d.bits.toNat % 2 ^ 63

/-- The total order: numbers as they compare, and equal zeros by their signs. What is not a number
stands outside of them on the side of its sign, and the farther out the greater its bits are. -/
inductive TotalLe (a b : Double) : Prop where
  | less (h : a.value < b.value)
  | equal (h : a.value == b.value) (hs : a.isNegative ∨ ¬ b.isNegative)
  | below (ha : a.value.isNaN ∧ a.isNegative) (hb : ¬ (b.value.isNaN ∧ b.isNegative))
  | above (ha : ¬ (a.value.isNaN ∧ ¬ a.isNegative)) (hb : b.value.isNaN ∧ ¬ b.isNegative)
  | outside (ha : a.value.isNaN ∧ a.isNegative) (hb : b.value.isNaN ∧ b.isNegative)
      (h : b.magnitude ≤ a.magnitude)
  | beyond (ha : a.value.isNaN ∧ ¬ a.isNegative) (hb : b.value.isNaN ∧ ¬ b.isNegative)
      (h : a.magnitude ≤ b.magnitude)

section Value

theorem unpacks (d : Double) :
    Number.Unpacks (Sign.ofBitVec (@unpackSign Format.binary64 d.bits.toBitVec)) d.magnitude
      (unpack Format.binary64 d.bits.toBitVec) :=
  unpacks_bits (show BitVec Format.binary64.numBits from d.bits.toBitVec)

/-- Only what is not a number gets other bits when it is read as a float. -/
theorem toBits_value (h : d.magnitude ≤ infinite) : d.value.toBits = d.bits := by
  have hvalid : Format.binary64.Valid d.bits.toBitVec := by
    refine ⟨fun he hm => ?_⟩
    have hnan : unpack Format.binary64 d.bits.toBitVec = .notANumber := by
      rw [unpack]
      dsimp only
      rw [if_pos he, if_neg hm]
    have hu := d.unpacks
    rw [hnan] at hu
    cases hu with
    | nan hlt => exact (Nat.not_lt_of_le h hlt).elim
  exact UInt64.toBitVec_inj.mp (pack_unpack_of_valid hvalid)

theorem magnitude_value (h : d.magnitude ≤ infinite) : Number.magnitude d.value = d.magnitude := by
  rw [Number.magnitude, toBits_value h]
  rfl

theorem isNegative_value (h : d.magnitude ≤ infinite) :
    Number.isNegative d.value = d.isNegative := by
  rw [Number.isNegative, toBits_value h]
  rfl

theorem isNaN_value_iff : d.value.isNaN ↔ infinite < d.magnitude := by
  by_cases h : d.magnitude ≤ infinite
  · rw [Number.isNaN_iff, magnitude_value h]
  · refine iff_of_true ?_ (Nat.lt_of_not_le h)
    have hu := d.unpacks
    have hvalue : d.value = .ofModel (.pack (unpack Format.binary64 d.bits.toBitVec)) := rfl
    rw [hvalue]
    generalize unpack Format.binary64 d.bits.toBitVec = u at hu
    cases hu with
    | nan _ => decide
    | infinity hm => omega
    | zero hm => omega
    | finite k e hk hm hlt => omega

end Value

/-- Ranks are magnitudes with their signs, pushed down by one below zero. -/
theorem orderKey_cases (d : Double) :
    d.isNegative ∧ d.orderKey = -d.magnitude - 1 ∨ ¬ d.isNegative ∧ d.orderKey = d.magnitude := by
  have hlt : d.bits.toNat < 2 ^ 64 := d.bits.toBitVec.isLt
  by_cases h : 2 ^ 63 ≤ d.bits.toNat
  · have hkey : d.orderKey = -((d.bits.toNat - 2 ^ 63 : ℕ) : ℤ) - 1 := by
      rw [orderKey, Nat.pow_eq]
      exact if_neg (by omega)
    refine Or.inl ⟨decide_eq_true h, ?_⟩
    rw [hkey, magnitude]
    omega
  · have hkey : d.orderKey = d.bits.toNat := by
      rw [orderKey, Nat.pow_eq]
      exact if_pos (by omega)
    refine Or.inr ⟨by simpa [isNegative] using h, ?_⟩
    rw [hkey, magnitude]
    omega

/-- The level of a number and its rank. -/
theorem level_cases (h : ¬ d.value.isNaN) :
    d.isNegative ∧ Number.level d.value = -d.magnitude ∧ d.orderKey = -d.magnitude - 1 ∨
      ¬ d.isNegative ∧ Number.level d.value = d.magnitude ∧ d.orderKey = d.magnitude := by
  rw [isNaN_value_iff, Nat.not_lt] at h
  have hl := Number.level_cases d.value
  rw [isNegative_value h, magnitude_value h] at hl
  rcases d.orderKey_cases with ⟨hd, hk⟩ | ⟨hd, hk⟩
  · exact Or.inl ⟨hd, (hl.resolve_right fun hr => hr.1 hd).2, hk⟩
  · exact Or.inr ⟨hd, (hl.resolve_left fun hr => hd hr.1).2, hk⟩

theorem orderKey_le_iff_of_numbers (ha : ¬ a.value.isNaN) (hb : ¬ b.value.isNaN) :
    a.orderKey ≤ b.orderKey ↔
      a.value < b.value ∨ a.value == b.value ∧ (a.isNegative ∨ ¬ b.isNegative) := by
  rw [Number.lt_iff_level ha hb, Number.beq_iff_level ha hb]
  rcases level_cases ha with ⟨hna, hla, hka⟩ | ⟨hna, hla, hka⟩ <;>
    rcases level_cases hb with ⟨hnb, hlb, hkb⟩ | ⟨hnb, hlb, hkb⟩ <;>
    simp only [hna, hnb, hla, hlb, hka, hkb, Bool.false_eq_true, not_true, not_false_eq_true,
      or_true, or_false, and_true, and_false] <;>
    omega

/-- Where a stored number ranks: among the numbers, or outside of them by its sign. -/
inductive Zone (d : Double) : Prop where
  | outside (hn : d.value.isNaN ∧ d.isNegative) (hk : d.orderKey = -d.magnitude - 1)
      (hlt : d.orderKey < -infinite - 1)
  | number (hn : ¬ d.value.isNaN) (hl : -infinite - 1 ≤ d.orderKey) (hu : d.orderKey ≤ infinite)
  | beyond (hn : d.value.isNaN ∧ ¬ d.isNegative) (hk : d.orderKey = d.magnitude)
      (hlt : infinite < d.orderKey)

theorem zone (d : Double) : d.Zone := by
  by_cases hn : d.value.isNaN
  · have hlt := isNaN_value_iff.mp hn
    rcases d.orderKey_cases with ⟨hd, hk⟩ | ⟨hd, hk⟩
    · exact .outside ⟨hn, hd⟩ hk (by omega)
    · exact .beyond ⟨hn, hd⟩ hk (by omega)
  · have hle := Nat.le_of_not_lt fun hlt => hn (isNaN_value_iff.mpr hlt)
    rcases d.orderKey_cases with ⟨-, hk⟩ | ⟨-, hk⟩ <;> exact .number hn (by omega) (by omega)

theorem totalLe_of_orderKey_le (h : a.orderKey ≤ b.orderKey) : a.TotalLe b := by
  cases a.zone with
  | outside ha hka hlta =>
    cases b.zone with
    | outside hb hkb _ => exact .outside ha hb (by omega)
    | number hb _ _ => exact .below ha fun hn => hb hn.1
    | beyond hb _ _ => exact .below ha fun hn => hb.2 hn.2
  | number ha hla hua =>
    cases b.zone with
    | outside _ _ hltb => omega
    | number hb _ _ =>
      rcases (orderKey_le_iff_of_numbers ha hb).mp h with hlt | ⟨heq, hs⟩
      · exact .less hlt
      · exact .equal heq hs
    | beyond hb _ _ => exact .above (fun hn => ha hn.1) hb
  | beyond ha hka hlta =>
    cases b.zone with
    | outside _ _ _ => omega
    | number _ _ _ => omega
    | beyond hb hkb _ => exact .beyond ha hb (by omega)

theorem orderKey_le_of_compare (h : a.value < b.value ∨
    a.value == b.value ∧ (a.isNegative ∨ ¬ b.isNegative)) : a.orderKey ≤ b.orderKey := by
  have hnumbers : ¬ (a.value.isNaN ∨ b.value.isNaN) := by
    intro hn
    obtain ⟨hl, he⟩ := Number.not_compare_of_isNaN hn
    exact h.elim hl fun h => he h.1
  obtain ⟨ha, hb⟩ := not_or.mp hnumbers
  exact (orderKey_le_iff_of_numbers ha hb).mpr h

theorem orderKey_le_of_totalLe (h : a.TotalLe b) : a.orderKey ≤ b.orderKey := by
  cases h with
  | less h => exact orderKey_le_of_compare (Or.inl h)
  | equal h hs => exact orderKey_le_of_compare (Or.inr ⟨h, hs⟩)
  | below ha hb =>
    cases a.zone with
    | outside _ _ hlt =>
      cases b.zone with
      | outside hn _ _ => exact (hb hn).elim
      | number _ _ _ => omega
      | beyond _ _ _ => omega
    | number hn _ _ => exact (hn ha.1).elim
    | beyond hn _ _ => exact (hn.2 ha.2).elim
  | above ha hb =>
    cases b.zone with
    | outside hn _ _ => exact (hb.2 hn.2).elim
    | number hn _ _ => exact (hn hb.1).elim
    | beyond _ _ hlt =>
      cases a.zone with
      | outside _ _ _ => omega
      | number _ _ _ => omega
      | beyond hn _ _ => exact (ha hn).elim
  | outside ha hb h =>
    rcases a.orderKey_cases with ⟨-, hka⟩ | ⟨hna, -⟩
    · rcases b.orderKey_cases with ⟨-, hkb⟩ | ⟨hnb, -⟩
      · omega
      · exact (hnb hb.2).elim
    · exact (hna ha.2).elim
  | beyond ha hb h =>
    rcases a.orderKey_cases with ⟨hna, -⟩ | ⟨-, hka⟩
    · exact (ha.2 hna).elim
    · rcases b.orderKey_cases with ⟨hnb, -⟩ | ⟨-, hkb⟩
      · exact (hb.2 hnb).elim
      · omega

/-- Ranks put stored numbers in the total order. -/
theorem orderKey_le_iff : a.orderKey ≤ b.orderKey ↔ a.TotalLe b :=
  ⟨totalLe_of_orderKey_le, orderKey_le_of_totalLe⟩

end QueueBench.Double
