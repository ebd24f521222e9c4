import QueueBench.Proofs.Number.Spelling
import QueueBench.Proofs.Number.TotalOrder

/-! # Signs of floats

Products and quotients of floats without a minus sign have none. A decimal number is therefore
never below zero, and its negative is below zero just when it is above. -/
namespace QueueBench.Number

open Float.Model (Format UnpackedFloat)
open Float.Model.UnpackedFloat

inductive Plain : UnpackedFloat → Prop where
  | nan : Plain .notANumber
  | infinity : Plain (.infinity .positive)
  | zero : Plain (.zero .positive)
  | finite (m : ℕ) (e : ℤ) (hm : 0 < m) : Plain (.finite .positive m e hm)

section Plain

variable {u v : UnpackedFloat} {spec : Format}

theorem plain_round (m : ℕ) (e : ℤ) (accuracy : Accuracy) :
    Plain (roundWithAccuracy spec .positive m e accuracy) := by
  unfold roundWithAccuracy
  dsimp only
  split
  · exact .zero
  · exact .finite _ _ _

theorem Plain.mul (hu : Plain u) (hv : Plain v) : Plain (mul spec u v) := by
  cases hu <;> cases hv <;>
    first | exact .nan | exact .infinity | exact .zero | exact plain_round _ _ _

theorem Plain.div (hu : Plain u) (hv : Plain v) : Plain (div spec u v) := by
  cases hu <;> cases hv <;>
    first | exact .nan | exact .infinity | exact .zero | exact plain_round _ _ _

theorem plain_ofScientific (m : ℕ) (e : ℤ) : Plain (ofScientific spec m e) := by
  unfold ofScientific
  split
  · exact .zero
  split
  · exact .infinity
  split
  · exact .zero
  split
  · exact .mul (.finite _ _ _) (.finite _ _ _)
  · exact .div (.finite _ _ _) (.finite _ _ _)

theorem plain_ofUInt64 (n : UInt64) : Plain (ofUInt64 spec n) := by
  change Plain (normalize spec (n.toNat : ℤ) 0 .positive)
  rcases Nat.eq_zero_or_pos n.toNat with h | h
  · rw [h]
    exact .zero
  · have hc : compare (n.toNat : ℤ) 0 = .gt := Int.compare_eq_gt.mpr (by omega)
    rw [Float.Model.UnpackedFloat.normalize, hc]
    exact plain_round _ _ _

end Plain

variable {x y : Float}

theorem isNegative_iff : isNegative x ↔ 2 ^ 63 ≤ x.toBits.toNat := by
  rw [isNegative, Nat.pow_eq, decide_eq_true_eq]

theorem plain_unpack (h : ¬ isNegative x) : Plain x.toModel.unpack := by
  have hs : signOf x = .positive := if_neg h
  have hx := unpacks_float x
  rw [hs] at hx
  generalize x.toModel.unpack = u at hx
  cases hx with
  | nan => exact .nan
  | infinity => exact .infinity
  | zero => exact .zero
  | finite => exact .finite _ _ _

theorem not_isNegative_pack {u : UnpackedFloat} (h : Plain u) :
    ¬ isNegative (.ofModel (.pack u)) := by
  have hs : unpackSign (pack Format.binary64 u) = 0#1 := by
    cases h with
    | nan => rfl
    | infinity => rfl
    | zero => rfl
    | finite m e hm =>
      unfold pack
      dsimp only
      split
      · exact unpackSign_packComponents _ _ _
      split <;> exact unpackSign_packComponents _ _ _
  have hb := toNat_unpackSign (pack Format.binary64 u)
  rw [hs] at hb
  change 0 = _ at hb
  rw [isNegative_iff]
  change ¬ 2 ^ 63 ≤ (pack Format.binary64 u).toNat
  omega

theorem not_isNegative_mul (hx : ¬ isNegative x) (hy : ¬ isNegative y) : ¬ isNegative (x * y) :=
  not_isNegative_pack ((plain_unpack hx).mul (plain_unpack hy))

theorem not_isNegative_div (hx : ¬ isNegative x) (hy : ¬ isNegative y) : ¬ isNegative (x / y) :=
  not_isNegative_pack ((plain_unpack hx).div (plain_unpack hy))

theorem not_isNegative_ofScientific (m : ℕ) (s : Bool) (e : ℕ) :
    ¬ isNegative (Float.ofScientific m s e) := by
  unfold Float.ofScientific
  split
  · -- A short significand is multiplied or divided by a power of ten from the table.
    have hm : ¬ isNegative m.toUInt64.toFloat := not_isNegative_pack (plain_ofUInt64 _)
    have htable : ∀ p ∈ Float.exactlyRepresentablePowersOfTen, ¬ isNegative p := by decide
    dsimp only
    split
    · exact not_isNegative_div hm (htable _ (Array.getElem_mem _))
    · exact not_isNegative_mul hm (htable _ (Array.getElem_mem _))
  · exact not_isNegative_pack (plain_ofScientific _ _)

theorem level_zero : level 0 = 0 := by decide

theorem not_lt_zero (h : ¬ isNegative x) : ¬ x < 0 := by
  by_cases hn : x.isNaN
  · exact (not_compare_of_isNaN (Or.inl hn)).1
  · rw [lt_iff_level hn (by decide), level_zero]
    rcases level_cases x with ⟨hx, -⟩ | ⟨-, hx⟩
    · exact (h hx).elim
    · omega

theorem eq_nan (h : x.isNaN) : x = .nan := by
  rwa [Float.isNaN_eq_decide_eq_nan, decide_eq_true_eq] at h

/-- Negation changes the sign bit and no other. -/
theorem pack_neg {u : UnpackedFloat} (spec : Format) (h : u ≠ .notANumber) :
    ∃ s e m, pack spec u = packComponents spec s e m ∧
      pack spec u.neg = packComponents spec (-s) e m := by
  cases u with
  | notANumber => exact (h rfl).elim
  | infinity s => exact ⟨s, _, _, rfl, rfl⟩
  | zero s => exact ⟨s, _, _, rfl, rfl⟩
  | finite s m e hm =>
    unfold pack neg
    dsimp only
    split
    · exact ⟨s, _, _, rfl, rfl⟩
    split
    · exact ⟨s, _, _, rfl, rfl⟩
    · exact ⟨s, _, _, rfl, rfl⟩

theorem toNat_packComponents (s : Sign) (e : BitVec Format.binary64.exponentBits)
    (m : BitVec Format.binary64.mantissaBitsWithoutImplicit) :
    (packComponents Format.binary64 s e m).toNat =
      s.toBitVec.toNat * 2 ^ 63 + (e.toNat * 2 ^ 52 + m.toNat) := by
  have he := toNat_unpackExponent (packComponents Format.binary64 s e m)
  have hm := toNat_unpackMantissa (packComponents Format.binary64 s e m)
  have hs := toNat_unpackSign (packComponents Format.binary64 s e m)
  rw [unpackExponent_packComponents] at he
  rw [unpackMantissa_packComponents] at hm
  rw [unpackSign_packComponents] at hs
  omega

theorem magnitude_neg (h : ¬ x.isNaN) :
    magnitude (-x) = magnitude x ∧ (isNegative (-x) ↔ ¬ isNegative x) := by
  have hu : x.toModel.unpack ≠ .notANumber := fun hn => h (UnpackedFloat.isNaN_iff.mpr hn)
  obtain ⟨s, e, m, hx, hneg⟩ := pack_neg Format.binary64 hu
  -- Both are packed from the same exponent and mantissa, and so differ in the sign bit only.
  have hbits : x.toBits.toNat = s.toBitVec.toNat * 2 ^ 63 + (e.toNat * 2 ^ 52 + m.toNat) := by
    rw [← toNat_packComponents, ← hx]
    exact congrArg BitVec.toNat (pack_unpack_of_valid x.toModel.valid).symm
  have hbits' : (-x).toBits.toNat =
      (-s).toBitVec.toNat * 2 ^ 63 + (e.toNat * 2 ^ 52 + m.toNat) := by
    rw [← toNat_packComponents, ← hneg]
    rfl
  have he : e.toNat < 2 ^ 11 := e.isLt
  have hm : m.toNat < 2 ^ 52 := m.isLt
  have hsign : s.toBitVec.toNat + (-s).toBitVec.toNat = 1 := by cases s <;> rfl
  rw [isNegative_iff, isNegative_iff, magnitude, magnitude, hbits, hbits']
  constructor <;> omega

theorem neg_lt_zero_iff : -x < 0 ↔ 0 < x := by
  by_cases h : x.isNaN
  · rw [eq_nan h]
    decide
  · obtain ⟨hm, hs⟩ := magnitude_neg h
    have hn : ¬ (-x).isNaN := by
      rw [isNaN_iff] at h ⊢
      rwa [hm]
    rw [lt_iff_level hn (by decide), lt_iff_level (by decide) h, level_zero]
    rcases level_cases x with ⟨hx, hl⟩ | ⟨hx, hl⟩ <;>
      rcases level_cases (-x) with ⟨hx', hl'⟩ | ⟨hx', hl'⟩
    · exact (hs.mp hx' hx).elim
    · omega
    · omega
    · exact (hx' (hs.mpr hx)).elim

theorem isFinite_iff : x.isFinite ↔ magnitude x < infinite := by
  have hx := unpacks_float x
  change x.toModel.unpack.isFinite = true ↔ _
  generalize x.toModel.unpack = u at hx
  cases hx with
  | nan h => exact ⟨nofun, fun hlt => by omega⟩
  | infinity h => exact ⟨nofun, fun hlt => by omega⟩
  | zero h =>
    have hpos : 0 < infinite := by decide
    exact ⟨fun _ => by omega, fun _ => rfl⟩
  | finite k e hk h hlt => exact ⟨fun _ => by omega, fun _ => rfl⟩

theorem isFinite_neg : (-x).isFinite ↔ x.isFinite := by
  by_cases h : x.isNaN
  · rw [eq_nan h]
    decide
  · rw [isFinite_iff, isFinite_iff, (magnitude_neg h).1]

theorem ofScientific_zero (s : Bool) (e : ℕ) : Float.ofScientific 0 s e = 0 := by
  have htable : ∀ p ∈ Float.exactlyRepresentablePowersOfTen,
      (0 : ℕ).toUInt64.toFloat / p = 0 ∧ (0 : ℕ).toUInt64.toFloat * p = 0 := by decide
  unfold Float.ofScientific
  split
  · dsimp only
    split
    · exact (htable _ (Array.getElem_mem _)).1
    · exact (htable _ (Array.getElem_mem _)).2
  · rfl

namespace Numeral

def neg : Numeral → Numeral
  | nan => nan
  | infinite negative => infinite !negative
  | finite negative digits exponent => finite (!negative) digits exponent

/-- The numeral stands for a number above zero, also where that is rounded to zero. -/
def Positive : Numeral → Prop
  | nan => False
  | infinite negative => negative = false
  | finite negative digits _ => negative = false ∧ digits ≠ 0

theorem neg_neg (x : Numeral) : x.neg.neg = x := by
  cases x with
  | nan => rfl
  | infinite negative | finite negative => cases negative <;> rfl

def Signed (cs : List Char) : Prop := ∃ c ∈ cs.head?, c = '-' ∨ c = '+'

variable {cs : List Char} {x : Numeral} {negative : Bool}

theorem MagnitudeText.neg (h : MagnitudeText negative cs x) :
    MagnitudeText (!negative) cs x.neg := by
  cases h with
  | nan hw => exact .nan hw
  | infinite hw => exact .infinite hw
  | whole hd he => exact .whole hd he
  | pointed hd he => exact .pointed hd he

theorem MagnitudeText.not_signed (h : MagnitudeText negative cs x) : ¬ Signed cs := by
  rintro ⟨c, hc, hs⟩
  obtain ⟨hm, hp⟩ := h.head_not_sign c hc
  exact hs.elim hm hp

theorem MagnitudeText.not_lt_zero (h : MagnitudeText false cs x) : ¬ x.toFloat < 0 := by
  cases h with
  | nan | infinite => decide
  | whole | pointed => exact Number.not_lt_zero (not_isNegative_ofScientific _ _ _)

theorem MagnitudeText.toFloat_neg (h : MagnitudeText false cs x) : x.neg.toFloat = -x.toFloat := by
  cases h with
  | nan | infinite => decide
  | whole | pointed => rfl

/-- Rounding takes no number above zero that is not above it. -/
theorem MagnitudeText.positive (h : MagnitudeText false cs x) (hx : 0 < x.toFloat) :
    x.Positive := by
  cases h with
  | nan => exact absurd hx (by decide)
  | infinite => rfl
  | whole | pointed =>
    refine ⟨rfl, fun hz => ?_⟩
    rw [toFloat, hz, ofScientific_zero] at hx
    exact absurd hx (by decide)

theorem Text.of_not_signed (h : Text cs x) (hs : ¬ Signed cs) : MagnitudeText false cs x := by
  cases h with
  | bare h => exact h
  | plus => exact (hs ⟨'+', rfl, Or.inr rfl⟩).elim
  | minus => exact (hs ⟨'-', rfl, Or.inl rfl⟩).elim

theorem Text.of_minus (h : Text ('-' :: cs) x) : MagnitudeText true cs x := by
  cases h with
  | bare h => exact ((h.head_not_sign '-' rfl).1 rfl).elim
  | minus h => exact h

end Numeral

end QueueBench.Number
